import DrawGraph.Proofs.Binary32.Packing

/-!
# Rounded arithmetic

Products, quotients and natural numbers are rounded from what they are exactly, and so is a decimal:
each is the number to which the exact result rounds.
-/

namespace DrawGraph

namespace Binary32

open Float.Model Float.Model.UnpackedFloat

/-- A power is a fraction of natural powers. -/
theorem zpow_eq_div {b : ℚ} (hb : b ≠ 0) (p : Int) : b ^ p = b ^ p.toNat / b ^ (-p).toNat := by
  rw [eq_div_iff (pow_ne_zero _ hb), ← zpow_natCast, ← zpow_natCast, ← zpow_add₀ hb]
  congr 1
  omega

variable {m m₁ m₂ n : Nat} {q e₁ e₂ : Int} {s s₁ s₂ : Sign} {r : ℚ}

theorem Rounds.pos (h : Rounds r m q) (hm : Canonical m q) : 0 < r := by
  have hone : (1 : ℚ) ≤ m := by exact_mod_cast hm.pos
  have hscaled : 0 < r / 2 ^ q := by linarith [h.coarse.low]
  exact (div_pos_iff_of_pos_right (by positivity)).1 hscaled

theorem Nearest.self (n : Nat) : Nearest n n := by
  constructor
  · linarith
  · linarith
  · intro _
    constructor <;> linarith

/-- A number rounds to itself. -/
theorem Rounds.self (m : Nat) (q : Int) : Rounds (m * 2 ^ q) m q := by
  constructor
  · rw [mul_div_cancel_right₀ _ (by positivity)]
    exact .self m
  · intro _
    right
    have hdouble : (m : ℚ) * 2 ^ q / 2 ^ (q - 1) = (2 * m : ℕ) := by
      rw [div_eq_iff (by positivity)]
      have hpow : (2 : ℚ) ^ q = 2 * 2 ^ (q - 1) := by
        rw [← zpow_one_add₀ two_ne_zero]
        congr 1
        ring
      rw [hpow]
      push_cast
      ring
    rw [hdouble]
    exact .self _

/-! ## Products and quotients -/

theorem mul_eq (hfine : 2 ^ 23 ≤ m₁ * m₂) (hr : Rounds (m₁ * 2 ^ e₁ * (m₂ * 2 ^ e₂)) m q)
    (hm : Canonical m q) (h₁ : 0 < m₁) (h₂ : 0 < m₂) :
    UnpackedFloat.mul .binary32 (.finite s₁ m₁ e₁ h₁) (.finite s₂ m₂ e₂ h₂) =
      .finite (s₁ * s₂) m q hm.pos := by
  have hlog : 23 ≤ (m₁ * m₂).log2 := (Nat.le_log2 (Nat.mul_pos h₁ h₂).ne').2 hfine
  have hvalue : (m₁ : ℚ) * 2 ^ e₁ * (m₂ * 2 ^ e₂) / 2 ^ (e₁ + e₂) = (m₁ * m₂ : ℕ) := by
    rw [zpow_add₀ two_ne_zero]
    push_cast
    field_simp
  refine roundWithAccuracy_eq ?_ ?_ hm hr _
  · rw [hvalue]
    exact .exact _
  · rw [targetExponent_eq, totalExponent]
    omega

/-- The dividend is shifted until the quotient has enough digits, or no finer ones are needed. -/
theorem quotient_fine (h₁ : m₁ ≠ 0) (h₂ : m₂ ≠ 0) {t : Int} {k : Nat}
    (ht : t ≤ Format.binary32.targetExponent (totalExponent m₁ e₁ - totalExponent m₂ e₂))
    (hk : e₁ - e₂ = t + k) :
    t ≤ Format.binary32.targetExponent (totalExponent (m₁ * 2 ^ k / m₂) t) := by
  rw [targetExponent_eq] at ht ⊢
  by_cases hleast : t ≤ -149
  · omega
  · have hlog : m₂.log2 + 24 ≤ m₁.log2 + k := by
      simp only [totalExponent] at ht
      omega
    have hquotient : 2 ^ 23 ≤ m₁ * 2 ^ k / m₂ := by
      rw [Nat.le_div_iff_mul_le (Nat.pos_of_ne_zero h₂)]
      calc 2 ^ 23 * m₂ ≤ 2 ^ 23 * 2 ^ (m₂.log2 + 1) :=
            Nat.mul_le_mul_left _ Nat.lt_log2_self.le
        _ = 2 ^ (m₂.log2 + 24) := by rw [← Nat.pow_add, Nat.add_comm, Nat.add_assoc]
        _ ≤ 2 ^ (m₁.log2 + k) := Nat.pow_le_pow_right Nat.two_pos hlog
        _ = 2 ^ m₁.log2 * 2 ^ k := Nat.pow_add ..
        _ ≤ m₁ * 2 ^ k := Nat.mul_le_mul_right _ (Nat.log2_self_le h₁)
    have hlog : 23 ≤ (m₁ * 2 ^ k / m₂).log2 :=
      (Nat.le_log2 (Nat.ne_of_gt (Nat.two_pow_pos 23 |>.trans_le hquotient))).2 hquotient
    rw [totalExponent]
    omega

theorem div_eq (hr : Rounds (m₁ * 2 ^ e₁ / (m₂ * 2 ^ e₂)) m q) (hm : Canonical m q) (h₁ : 0 < m₁)
    (h₂ : 0 < m₂) :
    UnpackedFloat.div .binary32 (.finite s₁ m₁ e₁ h₁) (.finite s₂ m₂ e₂ h₂) =
      .finite (s₁ / s₂) m q hm.pos := by
  simp only [UnpackedFloat.div, divCore, Nat.shiftLeft_eq]
  generalize ht : min (e₁ - e₂)
    (Format.binary32.targetExponent (totalExponent m₁ e₁ - totalExponent m₂ e₂)) = t
  have hk : e₁ - e₂ = t + ((e₁ - e₂ - t).toNat : Int) := by omega
  generalize (e₁ - e₂ - t).toNat = k at hk
  have hvalue : (m₁ : ℚ) * 2 ^ e₁ / (m₂ * 2 ^ e₂) / 2 ^ t = (m₁ * 2 ^ k : ℕ) / (m₂ : ℕ) := by
    have hpow : (2 : ℚ) ^ e₁ = 2 ^ e₂ * 2 ^ t * 2 ^ k := by
      rw [← zpow_natCast, ← zpow_add₀ two_ne_zero, ← zpow_add₀ two_ne_zero]
      congr 1
      omega
    have hm₂ : (m₂ : ℚ) ≠ 0 := Nat.cast_ne_zero.2 h₂.ne'
    rw [hpow]
    push_cast
    field_simp
  refine roundWithAccuracy_eq ?_ ?_ hm hr _
  · rw [hvalue]
    exact .quotient _ h₂
  · exact quotient_fine h₁.ne' h₂.ne' (ht ▸ min_le_right _ _) hk

section

variable (hm₁ : Canonical m₁ e₁) (hm₂ : Canonical m₂ e₂) (hm : Canonical m q)

theorem pack_mul (hr : Rounds (m₁ * 2 ^ e₁ * (m₂ * 2 ^ e₂)) m q) (hfine : 2 ^ 23 ≤ m₁ * m₂) :
    Float32.ofModel (.pack (.finite .positive m₁ e₁ hm₁.pos)) *
      .ofModel (.pack (.finite .positive m₂ e₂ hm₂.pos)) =
        .ofModel (.pack (.finite .positive m q hm.pos)) := by
  change Float32.ofModel (.pack (UnpackedFloat.mul .binary32 (Float32.Model.unpack _)
    (Float32.Model.unpack _))) = _
  rw [unpack_pack hm₁, unpack_pack hm₂, mul_eq hfine hr hm]
  rfl

theorem pack_div (hr : Rounds (m₁ * 2 ^ e₁ / (m₂ * 2 ^ e₂)) m q) :
    Float32.ofModel (.pack (.finite .positive m₁ e₁ hm₁.pos)) /
      .ofModel (.pack (.finite .positive m₂ e₂ hm₂.pos)) =
        .ofModel (.pack (.finite .positive m q hm.pos)) := by
  change Float32.ofModel (.pack (UnpackedFloat.div .binary32 (Float32.Model.unpack _)
    (Float32.Model.unpack _))) = _
  rw [unpack_pack hm₁, unpack_pack hm₂, div_eq hr hm]
  rfl

end

/-! ## Natural numbers -/

theorem log2_mul_two_pow (hn : n ≠ 0) (k : Nat) : (n * 2 ^ k).log2 = n.log2 + k := by
  induction k with
  | zero => rw [Nat.pow_zero, Nat.mul_one, Nat.add_zero]
  | succ k ih =>
      rw [Nat.pow_succ, ← Nat.mul_assoc, Nat.mul_comm, Nat.log2_two_mul, ih, Nat.add_assoc]
      exact Nat.mul_ne_zero hn (Nat.two_pow_pos k).ne'

theorem round_eq (hn : n ≠ 0) (hr : Rounds n m q) (hm : Canonical m q) :
    UnpackedFloat.round .binary32 s n 0 = .finite s m q hm.pos := by
  simp only [UnpackedFloat.round, decreaseExponent, Nat.shiftLeft_eq]
  generalize ht : Format.binary32.targetExponent (totalExponent n 0) = t
  generalize hk : (0 - t).toNat = k
  have hlog : (n * 2 ^ k).log2 = n.log2 + k := log2_mul_two_pow hn k
  refine roundWithAccuracy_eq ?_ ?_ hm hr _
  · have hvalue : (n : ℚ) / 2 ^ (0 - (k : Int)) = (n * 2 ^ k : ℕ) := by
      rw [zero_sub, zpow_neg, zpow_natCast]
      push_cast
      field_simp
    rw [hvalue]
    exact .exact _
  · rw [targetExponent_eq, totalExponent] at ht ⊢
    omega

/-- A natural number with at most 24 binary digits before zeros is held as it is. -/
theorem round_natural {d m e : Nat} (hd : d = m * 2 ^ e) (hne : m ≠ 0) (hm : m < 2 ^ 24)
    (he : e ≤ 104) :
    ∃ (m' : Nat) (q : Int) (hm' : Canonical m' q), (m' : ℚ) * 2 ^ q = d ∧
      ∀ s, UnpackedFloat.round .binary32 s d 0 = .finite s m' q hm'.pos := by
  have hlog : m.log2 < 24 := (Nat.log2_lt hne).2 hm
  obtain ⟨k, hk⟩ : ∃ k, m.log2 + k = 23 := ⟨23 - m.log2, by omega⟩
  have hlog2 : (m * 2 ^ k).log2 = 23 := (log2_mul_two_pow hne k).trans hk
  have hne' : m * 2 ^ k ≠ 0 := Nat.mul_ne_zero hne (Nat.two_pow_pos k).ne'
  have hm' : Canonical (m * 2 ^ k) (e - k) := by
    constructor
    · exact Nat.pos_of_ne_zero hne'
    · exact (Nat.log2_lt hne').1 (by omega)
    · omega
    · omega
    · exact Or.inr ((Nat.le_log2 hne').1 hlog2.ge)
  have hvalue : ((m * 2 ^ k : ℕ) : ℚ) * 2 ^ ((e : Int) - k) = d := by
    rw [hd, zpow_sub₀ two_ne_zero, zpow_natCast, zpow_natCast]
    push_cast
    field_simp
  have hr := Rounds.self (m * 2 ^ k) (e - k)
  rw [hvalue] at hr
  refine ⟨_, _, hm', hvalue, fun s => round_eq ?_ hr hm'⟩
  rw [hd]
  exact Nat.mul_ne_zero hne (Nat.two_pow_pos e).ne'

theorem toFloat32_natural {d : Nat} (hd : d ≠ 0) (hlt : d < 2 ^ 24) :
    ∃ m q, ∃ hm : Canonical m q, (m : ℚ) * 2 ^ q = d ∧
      d.toUInt64.toFloat32 = .ofModel (.pack (.finite .positive m q hm.pos)) := by
  obtain ⟨m, q, hm, hvalue, hround⟩ := round_natural (Nat.mul_one d).symm hd hlt (Nat.zero_le _)
  refine ⟨m, q, hm, hvalue, ?_⟩
  have hnat : d.toUInt64.toNat = d := UInt64.toNat_ofNat_of_lt' (by
    change d < 18446744073709551616
    omega)
  have hpos : compare (d : Int) 0 = .gt := compare_gt_iff_gt.2 (by omega)
  have hunpacked : UnpackedFloat.ofUInt64 .binary32 d.toUInt64 = .finite .positive m q hm.pos := by
    simp only [UnpackedFloat.ofUInt64, UnpackedFloat.ofNat, UnpackedFloat.ofInt,
      UnpackedFloat.normalize, hnat, hpos, Int.toNat_natCast]
    exact hround .positive
  exact congrArg (fun u => Float32.ofModel (.pack u)) hunpacked

/-- Nothing of a natural number is cut off. -/
theorem roundToInt_natural {d : Nat} (h : (m : ℚ) * 2 ^ q = d) (s : Sign) :
    roundToInt s m q = s.apply d := by
  simp only [roundToInt, decreaseExponent, shiftToExponent, Nat.shiftLeft_eq]
  generalize hup : (q - 0).toNat = up
  generalize hdown : (0 - (q - (up : Int))).toNat = down
  have hcut : Cuts (ExtendedMantissa.ofMantissaAndAccuracy (m * 2 ^ up) .exact >>> down) d := by
    have hshift := (Cuts.exact (m * 2 ^ up)).shiftRight down
    have hpow : (2 : ℚ) ^ q = 2 ^ up / 2 ^ down := by
      rw [← zpow_natCast, ← zpow_natCast, ← zpow_sub₀ two_ne_zero]
      congr 1
      omega
    push_cast at hshift
    rwa [mul_div_assoc, ← hpow, h] at hshift
  congr 2
  have hle := hcut.mantissa_le
  have hlt := hcut.lt_mantissa
  exact le_antisymm (by exact_mod_cast hle) (Nat.le_of_lt_add_one (by exact_mod_cast hlt))

/-- An integer with at most 24 binary digits before zeros is the same again when it has been a
float. -/
theorem toInt32_ofInt32 {n : Int32} {m e : Nat} (hm : m < 2 ^ 24)
    (hn : n.toInt.natAbs = m * 2 ^ e) : toInt32 (ofInt32 n) = n := by
  by_cases hzero : m = 0
  · have hn : n = 0 := by
      rw [hzero, Nat.zero_mul, Int.natAbs_eq_zero] at hn
      exact Int32.toInt_inj.1 hn
    rw [hn]
    decide +kernel
  · have he : e ≤ 104 := by
      have hbound : 2 ^ e ≤ 2 ^ 31 := by
        have hlow := n.le_toInt
        have hhigh := n.toInt_lt
        calc 2 ^ e ≤ m * 2 ^ e := Nat.le_mul_of_pos_left _ (Nat.pos_of_ne_zero hzero)
          _ ≤ 2 ^ 31 := by omega
      exact ((Nat.pow_le_pow_iff_right (by decide)).1 hbound).trans (by decide)
    obtain ⟨m', q, hm', hvalue, hround⟩ := round_natural hn hzero hm he
    obtain ⟨s, hs, hsign⟩ : ∃ s : Sign, UnpackedFloat.normalize .binary32 n.toInt 0 .positive =
        .finite s m' q hm'.pos ∧ s.apply n.toInt.natAbs = n.toInt := by
      have hne : n.toInt ≠ 0 := by
        rw [← Int.natAbs_ne_zero, hn]
        exact Nat.mul_ne_zero hzero (Nat.two_pow_pos e).ne'
      rcases lt_or_gt_of_ne hne with hneg | hpos
      · refine ⟨.negative, ?_, ?_⟩
        · have habs : (-n.toInt).toNat = n.toInt.natAbs := by omega
          rw [← hround .negative, UnpackedFloat.normalize, compare_lt_iff_lt.2 hneg, habs]
        · change -(n.toInt.natAbs : Int) = n.toInt
          omega
      · refine ⟨.positive, ?_, ?_⟩
        · have habs : n.toInt.toNat = n.toInt.natAbs := by omega
          rw [← hround .positive, UnpackedFloat.normalize, compare_gt_iff_gt.2 hpos, habs]
        · change (n.toInt.natAbs : Int) = n.toInt
          omega
    have hunpack : (ofInt32 n).toModel.unpack = .finite s m' q hm'.pos := by
      change (Float32.Model.pack (UnpackedFloat.normalize .binary32 n.toInt 0 .positive)).unpack = _
      rw [hs, unpack_pack hm']
    rw [toInt32, Float32.Model.toInt32, hunpack, UnpackedFloat.toInt32, toInt,
      roundToInt_natural hvalue, hsign, Int32.ofIntClamp_toInt]

/-! ## Decimals -/

/-- A decimal is a product with a power of ten, or a quotient. -/
theorem unpacked_ofScientific {d : Nat} {p : Int} (hd : d ≠ 0) (hlow : -256 ≤ p) (hhigh : p ≤ 256)
    (hr : Rounds (d * 10 ^ p) m q) (hm : Canonical m q) :
    UnpackedFloat.ofScientific .binary32 d p = .finite .positive m q hm.pos := by
  have hbound : (2 : Int) ^ Format.binary32.exponentBits = 256 := rfl
  rw [UnpackedFloat.ofScientific, dif_neg hd, hbound, if_neg (by omega), if_neg (by omega)]
  split
  · next hp =>
    obtain ⟨n, rfl⟩ := Int.eq_ofNat_of_zero_le hp
    have hshift : d <<< Format.binary32.mantissaBits = d * 2 ^ 24 := Nat.shiftLeft_eq _ _
    have hexp : -(Format.binary32.mantissaBits : Int) = -24 := rfl
    refine mul_eq ?_ ?_ hm _ _
    · rw [hshift]
      have hpow : 0 < 10 ^ (n : Int).toNat := Nat.pow_pos (by decide)
      nlinarith [Nat.pos_of_ne_zero hd]
    · have hvalue : ((d * 2 ^ 24 : ℕ) : ℚ) * 2 ^ (-24 : Int) *
          (((10 ^ (n : Int).toNat : ℕ) : ℚ) * 2 ^ (0 : Int)) = d * 10 ^ (n : Int) := by
        have hpow : (2 : ℚ) ^ (-24 : Int) = 1 / 2 ^ 24 := by norm_num
        rw [Int.toNat_natCast, hpow, zpow_zero, zpow_natCast]
        push_cast
        ring
      rw [hshift, hexp, hvalue]
      exact hr
  · next hp =>
    obtain ⟨n, rfl⟩ : ∃ n : Nat, p = -n := ⟨(-p).toNat, by omega⟩
    refine div_eq ?_ hm _ _
    have hvalue : (d : ℚ) * 2 ^ (0 : Int) /
        (((10 ^ (- -(n : Int)).toNat : ℕ) : ℚ) * 2 ^ (0 : Int)) = d * 10 ^ (-(n : Int)) := by
      rw [neg_neg, Int.toNat_natCast, zpow_zero, mul_one, mul_one, zpow_neg, zpow_natCast]
      push_cast
      exact div_eq_mul_inv _ _
    rw [hvalue]
    exact hr

/-- The powers of ten in the table are what they are said to be. -/
theorem powers (e : Fin 11) :
    let x := Float32.exactlyRepresentablePowersOfTen[e]
    x.isNaN = false ∧ x.isInf = false ∧ isNegative x = false ∧
      significand x * 2 ^ (exponent x).toNat = 10 ^ e.val * 2 ^ (-exponent x).toNat ∧
      2 ^ 23 ≤ significand x := by
  decide +kernel +revert

theorem exists_power (e : Nat) (he : e < Float32.exactlyRepresentablePowersOfTen.size) :
    ∃ m q, ∃ hm : Canonical m q, (m : ℚ) * 2 ^ q = 10 ^ e ∧ 2 ^ 23 ≤ m ∧
      Float32.exactlyRepresentablePowersOfTen[e] =
        .ofModel (.pack (.finite .positive m q hm.pos)) := by
  obtain ⟨hnan, hinf, hneg, hvalue, hfirst⟩ := powers ⟨e, he⟩
  dsimp only [Fin.getElem_fin] at hnan hinf hneg hvalue hfirst
  generalize Float32.exactlyRepresentablePowersOfTen[e] = x at hnan hinf hneg hvalue hfirst
  have hsign : sign x = .positive := by
    rw [sign, hneg]
    rfl
  rcases shape x with h | ⟨_, h⟩ | ⟨_, _, h⟩ | ⟨_, _, hm, heq⟩
  · exact absurd (h.symm.trans hnan) Bool.noConfusion
  · exact absurd (h.symm.trans hinf) Bool.noConfusion
  · rw [h] at hfirst
    cases hfirst
  · refine ⟨_, _, hm, ?_, hfirst, hsign ▸ heq⟩
    have hvalue : (significand x : ℚ) * 2 ^ (exponent x).toNat =
        10 ^ e * 2 ^ (-exponent x).toNat := by
      exact_mod_cast hvalue
    rw [zpow_eq_div two_ne_zero, mul_div_assoc', div_eq_iff (by positivity), hvalue]

/-- The number that a decimal names is the one to which it rounds. -/
theorem ofScientific_eq {d : Nat} {p : Int} (hlow : -256 ≤ p) (hhigh : p ≤ 256)
    (hr : Rounds (d * 10 ^ p) m q) (hm : Canonical m q) :
    Float32.ofScientific d (p < 0) p.natAbs = .ofModel (.pack (.finite .positive m q hm.pos)) := by
  have hd : d ≠ 0 := by
    rintro rfl
    have hpos := hr.pos hm
    rw [Nat.cast_zero, zero_mul] at hpos
    exact lt_irrefl _ hpos
  unfold Float32.ofScientific
  split
  · next hfast =>
    obtain ⟨hlt, hshort⟩ := hfast
    obtain ⟨m₁, q₁, hm₁, hvalue₁, heq₁⟩ := toFloat32_natural hd (hlt.trans (by norm_num))
    have hindex : p.natAbs < Float32.exactlyRepresentablePowersOfTen.size :=
      Nat.lt_succ_of_le hshort
    obtain ⟨m₂, q₂, hm₂, hvalue₂, hfirst, heq₂⟩ := exists_power p.natAbs hindex
    dsimp only
    rw [heq₁, heq₂]
    by_cases hp : p < 0
    · rw [if_pos (decide_eq_true hp)]
      apply pack_div hm₁ hm₂ hm
      have hpow : (10 : ℚ) ^ p = (10 ^ p.natAbs)⁻¹ := by
        rw [← zpow_natCast, ← zpow_neg]
        congr 1
        omega
      rw [hvalue₁, hvalue₂, div_eq_mul_inv, ← hpow]
      exact hr
    · rw [if_neg (by simpa using hp)]
      apply pack_mul hm₁ hm₂ hm
      · have hpow : (10 : ℚ) ^ p = 10 ^ p.natAbs := by
          rw [← zpow_natCast]
          congr 1
          omega
        rw [hvalue₁, hvalue₂, ← hpow]
        exact hr
      · exact hfirst.trans (Nat.le_mul_of_pos_left _ hm₁.pos)
  · have hexp : (if decide (p < 0) = true then Int.negOfNat p.natAbs
        else Int.ofNat p.natAbs) = p := by
      split
      · next hp =>
        have := of_decide_eq_true hp
        rw [Int.negOfNat_eq]
        change -(p.natAbs : Int) = p
        omega
      · next hp =>
        have : ¬ p < 0 := fun h => hp (decide_eq_true h)
        change (p.natAbs : Int) = p
        omega
    dsimp only
    rw [hexp, Float32.Model.ofScientific, unpacked_ofScientific hd hlow hhigh hr hm]

end Binary32

end DrawGraph
