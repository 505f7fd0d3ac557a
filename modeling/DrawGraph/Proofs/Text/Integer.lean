import DrawGraph.Text.Blank
import DrawGraph.Text.Integer

/-!
# Decimal numerals

The readers of integers take back what is written for one. A written natural number is a list of
digits; a minus sign stands before it when the integer is negative.
-/

namespace DrawGraph

namespace Text

theorem isDigit_range {c : Char} (h : c.isDigit) : '0' ≤ c ∧ c ≤ '9' := by
  simp only [Char.isDigit, Bool.and_eq_true, decide_eq_true_eq] at h
  exact h

theorem digit?_of_isDigit {c : Char} (h : c.isDigit) :
    digit? 10 c = some (c.toNat - '0'.toNat) := by
  have hrange := isDigit_range h
  have hle : c.toNat ≤ '9'.toNat := hrange.2
  have hlt : c.toNat - '0'.toNat < 10 := by
    have h0 : '0'.toNat = 48 := rfl
    have h9 : '9'.toNat = 57 := rfl
    omega
  simp only [digit?, hrange, and_self, if_true, hlt]

theorem digitsFrom?_eq {cs : List Char} (h : ∀ c ∈ cs, c.isDigit) (acc : Nat) :
    digitsFrom? 10 acc cs = some (Nat.ofDigitChars 10 cs acc) := by
  induction cs generalizing acc with
  | nil => rfl
  | cons c cs ih =>
      obtain ⟨hc, hcs⟩ := List.forall_mem_cons.1 h
      rw [digitsFrom?, digit?_of_isDigit hc, Option.bind_eq_bind, Option.bind_some, ih hcs,
        Nat.ofDigitChars_cons, Nat.mul_comm]

theorem natural?_eq {cs : List Char} (h : ∀ c ∈ cs, c.isDigit) (hne : cs ≠ []) :
    natural? 10 cs = some (Nat.ofDigitChars 10 cs 0) := by
  rw [natural?, if_neg (by simpa using hne), digitsFrom?_eq h]

theorem isDigit_of_mem_numeral {n : Nat} {c : Char} (h : c ∈ (toString n).toList) : c.isDigit := by
  rw [Nat.toString_eq_repr, Nat.toList_repr] at h
  exact Nat.isDigit_of_mem_toDigits (by decide) (by decide) h

theorem numeral_ne_nil (n : Nat) : (toString n).toList ≠ [] := by
  rw [Nat.toString_eq_repr, Nat.toList_repr]
  exact Nat.toDigits_ne_nil

theorem ofDigitChars_numeral (n : Nat) : Nat.ofDigitChars 10 (toString n).toList 0 = n := by
  rw [Nat.toString_eq_repr, Nat.toList_repr, Nat.ofDigitChars_ten_toDigits]

theorem natural?_numeral (n : Nat) : natural? 10 (toString n).toList = some n := by
  rw [natural?_eq (fun _ => isDigit_of_mem_numeral) (numeral_ne_nil n), ofDigitChars_numeral]

/-- A numeral starts with no sign. -/
theorem head_numeral (n : Nat) : ∃ c cs, (toString n).toList = c :: cs ∧ c ≠ '+' ∧ c ≠ '-' := by
  obtain ⟨c, cs, hcs⟩ := List.exists_cons_of_ne_nil (numeral_ne_nil n)
  have hc : c.isDigit := isDigit_of_mem_numeral (hcs ▸ List.mem_cons_self)
  refine ⟨c, cs, hcs, ?_, ?_⟩
  · rintro rfl
    cases hc
  · rintro rfl
    cases hc

theorem unsigned?_numeral {bound n : Nat} (h : n ≤ bound) :
    unsigned? 10 bound (toString n).toList = some n := by
  obtain ⟨c, cs, hcs, hplus, _⟩ := head_numeral n
  have hnatural := natural?_numeral n
  rw [hcs] at hnatural ⊢
  unfold unsigned?
  split
  · next heq =>
    obtain ⟨rfl, _⟩ := List.cons.inj heq
    exact absurd rfl hplus
  · rw [hnatural, Option.bind_eq_bind, Option.bind_some, if_pos h]

theorem toList_negSucc (n : Nat) :
    (toString (Int.negSucc n)).toList = '-' :: (toString (n + 1)).toList := by
  rw [Int.toString_eq_repr, Int.repr]
  simp [String.toList_append]

theorem signed?_numeral {half : Nat} {n : Int} (hlow : -(Nat.pow 2 half : Int) ≤ n)
    (hhigh : n < Nat.pow 2 half) : signed? half (toString n).toList = some n := by
  cases n with
  | ofNat m =>
      obtain ⟨c, cs, hcs, _, hminus⟩ := head_numeral m
      have hm : m ≤ Nat.pow 2 half - 1 := by
        exact Nat.le_sub_one_of_lt (Int.ofNat_lt.1 hhigh)
      have hread := unsigned?_numeral hm
      have htext : (toString (Int.ofNat m)).toList = (toString m).toList := rfl
      rw [htext]
      rw [hcs] at hread ⊢
      unfold signed?
      split
      · next heq =>
        obtain ⟨rfl, _⟩ := List.cons.inj heq
        exact absurd rfl hminus
      · rw [hread]
        rfl
  | negSucc m =>
      have hm : m + 1 ≤ Nat.pow 2 half := by omega
      rw [toList_negSucc, signed?, natural?_numeral, Option.bind_eq_bind, Option.bind_some,
        if_pos hm]
      rfl

theorem uint32?_numeral (n : UInt32) : uint32? (toString n.toNat).toList = some n := by
  rw [uint32?, unsigned?_numeral (Nat.le_sub_one_of_lt n.toNat_lt), Option.map_some,
    UInt32.ofNat_toNat]

theorem uint64?_numeral (n : UInt32) : uint64? (toString n.toNat).toList = some n.toNat := by
  apply unsigned?_numeral
  have h := n.toNat_lt
  have hsize : UInt64.size = 2 ^ 64 := rfl
  omega

theorem int32?_numeral (n : Int32) : int32? (toString n.toInt).toList = some n := by
  rw [int32?, signed?_numeral n.le_toInt n.toInt_lt, Option.map_some, Int32.ofInt_toInt]

theorem int64?_numeral (n : UInt32) : int64? (toString n.toNat).toList = some (n.toNat : Int) := by
  have h := n.toNat_lt
  have hhalf : Nat.pow 2 63 = 9223372036854775808 := rfl
  have hread : signed? 63 (toString (n.toNat : Int)).toList = some (n.toNat : Int) :=
    signed?_numeral (by omega) (by omega)
  exact hread

theorem isBlank_eq_false_of_isDigit {c : Char} (h : c.isDigit) : isBlank c = false := by
  obtain ⟨hlow, hhigh⟩ := isDigit_range h
  have hlow : 48 ≤ c.toNat := hlow
  have hhigh : c.toNat ≤ 57 := hhigh
  simp only [isBlank, blankRanges, List.any_cons, List.any_nil, Bool.or_false, Bool.or_eq_false_iff,
    Bool.and_eq_false_iff, decide_eq_false_iff_not]
  omega

end Text

end DrawGraph
