import DrawGraph.Binary32.Decimal
import DrawGraph.Proofs.Binary32.Shortest
import DrawGraph.Proofs.Text.Integer

/-!
# Numbers are read back from their texts

The text of a number is the shortest decimal that rounds to it, and a decimal is read as the number
to which it rounds. So every number comes back, the infinities and both zeros among them, and NaN
comes back as NaN.
-/

namespace DrawGraph

namespace Binary32

open Text

/-! ## Texts of decimals -/

theorem toList_text_of_nonneg {d : Decimal} (h : 0 ≤ d.place) :
    d.text.toList = (toString d.digits).toList ++ List.replicate d.place.toNat '0' := by
  unfold Decimal.text
  dsimp only
  rw [if_pos h, String.toList_append, String.toList_ofList]

/-- The digits are padded until one stands before the point. -/
theorem toList_text_of_neg {d : Decimal} (h : d.place < 0) :
    ∃ n whole parts, d.text.toList = whole ++ '.' :: parts ∧ whole ≠ [] ∧
      parts.length = d.place.natAbs ∧
      whole ++ parts = List.replicate n '0' ++ (toString d.digits).toList := by
  have hplaces : (-d.place).toNat = d.place.natAbs := by omega
  unfold Decimal.text
  dsimp only
  rw [if_neg (not_le.2 h), String.toList_ofList, hplaces]
  generalize hcs : List.replicate (d.place.natAbs + 1 - (toString d.digits).length) '0' ++
    (toString d.digits).toList = cs
  have hlength : d.place.natAbs + 1 ≤ cs.length := by
    rw [← hcs, List.length_append, List.length_replicate, String.length_toList]
    omega
  refine ⟨_, _, _, rfl, ?_, ?_, (List.take_append_drop _ cs).trans hcs.symm⟩
  · rw [← List.length_pos_iff, List.length_take]
    omega
  · rw [List.length_drop]
    omega

theorem isDigit_of_mem_zeros {n : Nat} {c : Char} (h : c ∈ List.replicate n '0') : c.isDigit := by
  rw [List.eq_of_mem_replicate h]
  rfl

/-! ## Reading decimals -/

theorem isDigit_eq_true {c : Char} (h : c.isDigit) : isDigit c = true :=
  decide_eq_true (isDigit_range h)

theorem unsigned?_digits {cs : List Char} (h : ∀ c ∈ cs, c.isDigit) (hne : cs ≠ []) :
    unsigned? cs = some (Float32.ofScientific (Nat.ofDigitChars 10 cs 0) false 0) := by
  have htake : cs.takeWhile isDigit = cs :=
    List.takeWhile_eq_self_iff.2 fun c hc => isDigit_eq_true (h c hc)
  have hdrop : cs.dropWhile isDigit = [] :=
    List.dropWhile_eq_nil_iff.2 fun c hc => isDigit_eq_true (h c hc)
  unfold unsigned?
  rw [htake, hdrop]
  dsimp only
  rw [List.append_nil, natural?_eq h hne]
  rfl

theorem unsigned?_point {cs ds : List Char} (hcs : ∀ c ∈ cs, c.isDigit) (hds : ∀ c ∈ ds, c.isDigit)
    (hne : cs ≠ []) :
    unsigned? (cs ++ '.' :: ds) =
      some (Float32.ofScientific (Nat.ofDigitChars 10 (cs ++ ds) 0) (-(ds.length : Int) < 0)
        ds.length) := by
  have hall : ∀ c ∈ cs ++ ds, c.isDigit := fun c hc =>
    (List.mem_append.1 hc).elim (hcs c) (hds c)
  have htake : (cs ++ '.' :: ds).takeWhile isDigit = cs := by
    rw [List.takeWhile_append_of_pos fun c hc => isDigit_eq_true (hcs c hc),
      List.takeWhile_cons_of_neg (by decide), List.append_nil]
  have hdrop : (cs ++ '.' :: ds).dropWhile isDigit = '.' :: ds := by
    rw [List.dropWhile_append_of_pos fun c hc => isDigit_eq_true (hcs c hc),
      List.dropWhile_cons_of_neg (by decide)]
  have htake' : ds.takeWhile isDigit = ds :=
    List.takeWhile_eq_self_iff.2 fun c hc => isDigit_eq_true (hds c hc)
  have hdrop' : ds.dropWhile isDigit = [] :=
    List.dropWhile_eq_nil_iff.2 fun c hc => isDigit_eq_true (hds c hc)
  have hne' : cs ++ ds ≠ [] := List.append_ne_nil_of_left_ne_nil hne ds
  unfold unsigned?
  rw [htake, hdrop]
  split
  next places tail heq =>
  have hparts : (ds.takeWhile isDigit, ds.dropWhile isDigit) = (places, tail) := heq
  obtain ⟨rfl, rfl⟩ := Prod.mk.inj hparts
  dsimp only
  rw [htake', hdrop', natural?_eq hall hne', power?]
  simp only [Option.bind_eq_bind, Option.bind_some, Int.zero_sub, Int.natAbs_neg,
    Int.natAbs_natCast]

/-- Digits begin no name. -/
theorem magnitude?_eq {cs ds : List Char} (h : ∀ c ∈ cs, c.isDigit) (hne : cs ≠ []) :
    magnitude? (cs ++ ds) = unsigned? (cs ++ ds) := by
  obtain ⟨c, cs, rfl⟩ := List.exists_cons_of_ne_nil hne
  have hc := h c List.mem_cons_self
  have hlower : c.toLower = c := by
    apply dif_neg
    rintro ⟨hupper, _⟩
    have hdigit : c.val ≤ '9'.val := (isDigit_range hc).2
    have hle : 'A'.val ≤ '9'.val := UInt32.le_trans hupper hdigit
    exact absurd hle (by decide)
  have hname {s : String} {a : Char} {as : List Char} (hs : s.toList = a :: as)
      (ha : a.isDigit = false) : String.ofList ((c :: cs ++ ds).map Char.toLower) ≠ s := by
    rintro rfl
    rw [String.toList_ofList, List.cons_append, List.map_cons, hlower] at hs
    rw [(List.cons.inj hs).1, ha] at hc
    cases hc
  rw [magnitude?, if_neg, if_neg]
  · exact hname rfl rfl
  · rintro (heq | heq)
    · exact hname rfl rfl heq
    · exact hname rfl rfl heq

/-- A decimal is read as the number to which it rounds. -/
theorem magnitude?_text {d : Decimal} {m : Nat} {q : Int} (hlow : -256 ≤ d.place)
    (hr : Rounds (d.digits * 10 ^ d.place) m q) (hm : Canonical m q) :
    magnitude? d.text.toList = some (.ofModel (.pack (.finite .positive m q hm.pos))) := by
  by_cases hplace : 0 ≤ d.place
  · rw [toList_text_of_nonneg hplace]
    have hdigits : ∀ c ∈ (toString d.digits).toList ++ List.replicate d.place.toNat '0',
        c.isDigit := fun c hc =>
      (List.mem_append.1 hc).elim isDigit_of_mem_numeral isDigit_of_mem_zeros
    have hvalue : Nat.ofDigitChars 10
        ((toString d.digits).toList ++ List.replicate d.place.toNat '0') 0 =
          10 ^ d.place.toNat * d.digits := by
      rw [Nat.ofDigitChars_append, ofDigitChars_numeral, Nat.ofDigitChars_replicate_zero]
    have hne := List.append_ne_nil_of_left_ne_nil (numeral_ne_nil d.digits)
      (List.replicate d.place.toNat '0')
    rw [magnitude?_eq (fun _ => isDigit_of_mem_numeral) (numeral_ne_nil d.digits),
      unsigned?_digits hdigits hne, hvalue]
    have hscaled : ((10 ^ d.place.toNat * d.digits : ℕ) : ℚ) * 10 ^ (0 : Int) =
        d.digits * 10 ^ d.place := by
      obtain ⟨n, hn⟩ := Int.eq_ofNat_of_zero_le hplace
      rw [hn, Int.toNat_natCast, zpow_zero, zpow_natCast]
      push_cast
      ring
    rw [← hscaled] at hr
    exact congrArg some (ofScientific_eq (by decide) (by decide) hr hm)
  · obtain ⟨n, whole, parts, htext, hne, hlength, hpadded⟩ := toList_text_of_neg (not_le.1 hplace)
    have hdigits : ∀ c ∈ whole ++ parts, c.isDigit := by
      rw [hpadded]
      exact fun c hc => (List.mem_append.1 hc).elim isDigit_of_mem_zeros isDigit_of_mem_numeral
    have hvalue : Nat.ofDigitChars 10 (whole ++ parts) 0 = d.digits := by
      rw [hpadded, Nat.ofDigitChars_append, Nat.ofDigitChars_replicate_zero, Nat.mul_zero,
        ofDigitChars_numeral]
    obtain ⟨hwhole, hparts⟩ := List.forall_mem_append.1 hdigits
    have hneg : -(d.place.natAbs : Int) = d.place := by omega
    rw [htext, magnitude?_eq hwhole hne, unsigned?_point hwhole hparts hne, hvalue, hlength, hneg]
    exact congrArg some (ofScientific_eq hlow (by omega) hr hm)

/-! ## Numbers with their signs -/

theorem head_text (d : Decimal) : ∃ c cs, d.text.toList = c :: cs ∧ c.isDigit := by
  by_cases hplace : 0 ≤ d.place
  · obtain ⟨c, cs, hcs⟩ := List.exists_cons_of_ne_nil (numeral_ne_nil d.digits)
    refine ⟨c, cs ++ List.replicate d.place.toNat '0', ?_, ?_⟩
    · rw [toList_text_of_nonneg hplace, hcs, List.cons_append]
    · exact isDigit_of_mem_numeral (hcs ▸ List.mem_cons_self)
  · obtain ⟨n, whole, parts, htext, hne, _, hpadded⟩ := toList_text_of_neg (not_le.1 hplace)
    obtain ⟨c, cs, rfl⟩ := List.exists_cons_of_ne_nil hne
    refine ⟨c, cs ++ '.' :: parts, htext, ?_⟩
    have hc : c ∈ List.replicate n '0' ++ (toString d.digits).toList := hpadded ▸ List.mem_cons_self
    exact (List.mem_append.1 hc).elim isDigit_of_mem_zeros isDigit_of_mem_numeral

/-- A sign stands before what is read without one. -/
theorem ofText?_signed {s : String} {c : Char} {cs : List Char} (hs : s.toList = c :: cs)
    (hc : c ≠ '-' ∧ c ≠ '+') {y : Float32} (hy : magnitude? s.toList = some y) (negative : Bool) :
    ofText? (if negative then "-" ++ s else s).toList = some (if negative then -y else y) := by
  cases negative with
  | true =>
      rw [if_pos rfl, if_pos rfl, String.toList_append]
      change (magnitude? s.toList).map (- ·) = _
      rw [hy, Option.map_some]
  | false =>
      rw [if_neg Bool.noConfusion, if_neg Bool.noConfusion, ← hy, hs]
      unfold ofText?
      split
      · next heq => exact absurd (List.cons.inj heq).1 hc.1
      · next heq => exact absurd (List.cons.inj heq).1 hc.2
      · rfl

theorem text_eq {x : Float32} (hnan : x.isNaN = false) {size : String}
    (hsize : (if x.isInf then "inf" else if significand x = 0 then "0"
      else (shortest (significand x) (exponent x)).text) = size) :
    text x = if isNegative x then "-" ++ size else size := by
  rw [text, hnan, ← hsize]
  rfl

/-- The text of a number names it. -/
theorem ofText?_text (x : Float32) : ofText? (text x).toList = some x := by
  rcases shape x with ⟨hnan, hx⟩ | ⟨hnan, hinf, hx⟩ | ⟨hnan, hinf, hzero, hx⟩ | ⟨hnan, hinf, hm, hx⟩
  · rw [text, if_pos hnan, hx]
    decide +kernel
  · have hinfinity : magnitude? "inf".toList = some (1 / 0) := by decide +kernel
    rw [text_eq hnan (if_pos hinf)]
    refine (ofText?_signed rfl (by decide) hinfinity _).trans (congrArg some (Eq.trans ?_ hx.symm))
    rw [sign]
    split <;> decide +kernel
  · have hnone : magnitude? "0".toList = some 0 := by decide +kernel
    rw [text_eq hnan ((if_neg (Bool.eq_false_iff.1 hinf)).trans (if_pos hzero))]
    refine (ofText?_signed rfl (by decide) hnone _).trans (congrArg some (Eq.trans ?_ hx.symm))
    rw [sign]
    split <;> decide +kernel
  · obtain ⟨hrounds, hlow, _⟩ := shortest_spec hm
    have hmagnitude := magnitude?_text (by omega) (rounds_of_roundsTo hm hrounds) hm
    obtain ⟨c, cs, hcs, hc⟩ := head_text (shortest (significand x) (exponent x))
    have hsign : c ≠ '-' ∧ c ≠ '+' := by
      constructor <;> rintro rfl <;> cases hc
    rw [text_eq hnan ((if_neg (Bool.eq_false_iff.1 hinf)).trans (if_neg hm.pos.ne'))]
    refine (ofText?_signed hcs hsign hmagnitude _).trans (congrArg some (Eq.trans ?_ hx.symm))
    rw [sign]
    split
    · change Float32.ofModel (.pack (Float.Model.UnpackedFloat.neg (Float32.Model.unpack _))) = _
      rw [unpack_pack hm]
      rfl
    · rfl

end Binary32

end DrawGraph
