import Mathlib

/-!
# Rounding to single precision

A rational number is cut to a mantissa with two more bits, which tell whether half a unit is left
and whether there is more. What the cut is rounded to is the nearest number of single precision, and
of two equally near the one with the even mantissa.
-/

namespace DrawGraph

namespace Binary32

open Float.Model Float.Model.UnpackedFloat

/-- A number of single precision has 24 binary digits. The first of them is set, but for the numbers
with the least exponent. -/
structure Canonical (m : Nat) (q : Int) : Prop where
  pos : 0 < m
  lt : m < 2 ^ 24
  low : -149 ≤ q
  high : q ≤ 104
  normal : q = -149 ∨ 2 ^ 23 ≤ m

/-- No natural number is nearer to `t` than `n`, and of two equally near `n` is the even one. -/
structure Nearest (n : Nat) (t : ℚ) : Prop where
  low : 2 * (n : ℚ) - 1 ≤ 2 * t
  high : 2 * t ≤ 2 * n + 1
  odd : n % 2 = 1 → 2 * (n : ℚ) - 1 < 2 * t ∧ 2 * t < 2 * n + 1

/-! ## Cutting -/

/-- The mantissa and its round bit count the halves in `t`; the sticky bit tells whether they are
not all of it. -/
structure Cuts (em : ExtendedMantissa) (t : ℚ) : Prop where
  le : ((2 * em.mantissa + em.roundBit.toNat : ℕ) : ℚ) ≤ 2 * t
  lt : 2 * t < (2 * em.mantissa + em.roundBit.toNat : ℕ) + 1
  sticky : em.stickyBit = false ↔ 2 * t = (2 * em.mantissa + em.roundBit.toNat : ℕ)

namespace Cuts

variable {em : ExtendedMantissa} {t : ℚ}

theorem exact (m : Nat) : Cuts (.ofMantissaAndAccuracy m .exact) m := by
  constructor <;> simp [ExtendedMantissa.ofMantissaAndAccuracy]

theorem mantissa_le (h : Cuts em t) : (em.mantissa : ℚ) ≤ t := by
  have hle := h.le
  push_cast at hle
  have hbit : (0 : ℚ) ≤ em.roundBit.toNat := Nat.cast_nonneg _
  linarith

theorem lt_mantissa (h : Cuts em t) : t < em.mantissa + 1 := by
  have hlt := h.lt
  push_cast at hlt
  have hbit : (em.roundBit.toNat : ℚ) ≤ 1 := by exact_mod_cast Bool.toNat_le em.roundBit
  linarith

theorem shiftRightOne (h : Cuts em t) : Cuts em.shiftRightOne (t / 2) := by
  have hhalves : 2 * (em.mantissa / 2) + (em.mantissa % 2 != 0).toNat = em.mantissa := by
    rcases Nat.mod_two_eq_zero_or_one em.mantissa with heven | hodd
    · rw [heven]
      exact (Nat.add_zero _).trans (Nat.two_mul_div_two_of_even (Nat.even_iff.2 heven))
    · rw [hodd]
      exact Nat.two_mul_div_two_add_one_of_odd (Nat.odd_iff.2 hodd)
  have hhalf : 2 * (t / 2) = t := by ring
  constructor <;> simp only [ExtendedMantissa.shiftRightOne, hhalves, hhalf]
  · exact h.mantissa_le
  · exact h.lt_mantissa
  · rw [Bool.or_eq_false_iff, h.sticky]
    have hle := h.le
    constructor
    · rintro ⟨hround, heq⟩
      rw [hround] at heq
      push_cast [Bool.toNat_false] at heq
      linarith
    · intro heq
      rw [heq] at hle
      have hround : em.roundBit = false := by
        cases hbit : em.roundBit with
        | false => rfl
        | true =>
            rw [hbit] at hle
            push_cast [Bool.toNat_true] at hle
            linarith
      refine ⟨hround, ?_⟩
      rw [hround, heq]
      push_cast [Bool.toNat_false]
      ring

theorem shiftRight (h : Cuts em t) (n : Nat) : Cuts (em >>> n) (t / 2 ^ n) := by
  induction n with
  | zero =>
      rw [pow_zero, div_one]
      exact h
  | succ n ih =>
      have hpow : t / 2 ^ (n + 1) = t / 2 ^ n / 2 := by rw [pow_succ, div_div]
      rw [hpow]
      exact ih.shiftRightOne

theorem between {k : Nat} {round : Bool} (hlow : ((2 * k + round.toNat : ℕ) : ℚ) < 2 * t)
    (hhigh : 2 * t < (2 * k + round.toNat : ℕ) + 1) : Cuts ⟨k, round, true⟩ t :=
  ⟨hlow.le, hhigh, fun h => Bool.noConfusion h, fun h => absurd h hlow.ne'⟩

/-- What is left of an unfinished division is more than half, half or less of the divisor. -/
theorem quotient (a : Nat) {b : Nat} (hb : 0 < b) :
    Cuts (.ofMantissaAndAccuracy (a / b) (accuracyOfFraction (a % b) b)) (a / b : ℚ) := by
  have hb' : (0 : ℚ) < b := Nat.cast_pos.2 hb
  have hdiv : (b : ℚ) * (a / b : ℕ) + (a % b : ℕ) = a := by exact_mod_cast Nat.div_add_mod a b
  have hvalue : (a : ℚ) / b = (a / b : ℕ) + (a % b : ℕ) / b := by
    rw [← hdiv]
    field_simp
  have hrest : ((a % b : ℕ) : ℚ) / b < 1 :=
    (div_lt_one hb').2 (Nat.cast_lt.2 (Nat.mod_lt a hb))
  rw [hvalue]
  generalize a / b = k at hrest
  generalize a % b = r at hrest
  have hhalf : 2 * ((r : ℚ) / b) = ((2 * r : ℕ) : ℚ) / b := by push_cast; ring
  unfold accuracyOfFraction
  split
  · next hzero =>
    rw [hzero, Nat.cast_zero, zero_div, add_zero]
    exact .exact k
  · next hne =>
    have hpos : (0 : ℚ) < r / b := div_pos (Nat.cast_pos.2 (Nat.pos_of_ne_zero hne)) hb'
    rcases hcmp : compare (2 * r) b with _ | _ | _
    · have hlt : 2 * ((r : ℚ) / b) < 1 := by
        rw [hhalf, div_lt_one hb']
        exact Nat.cast_lt.2 (Nat.compare_eq_lt.1 hcmp)
      apply between <;> push_cast [Bool.toNat_false] <;> linarith
    · have heq : 2 * ((r : ℚ) / b) = 1 := by
        rw [hhalf, Nat.compare_eq_eq.1 hcmp, div_self hb'.ne']
      have hsum : 2 * ((k : ℚ) + r / b) = (2 * k + true.toNat : ℕ) := by
        push_cast [Bool.toNat_true]
        linarith
      exact ⟨hsum.ge, by rw [hsum]; exact lt_add_one _, fun _ => hsum, fun _ => rfl⟩
    · have hgt : 1 < 2 * ((r : ℚ) / b) := by
        rw [hhalf, one_lt_div hb']
        exact Nat.cast_lt.2 (Nat.compare_eq_gt.1 hcmp)
      apply between <;> push_cast [Bool.toNat_true] <;> linarith

/-- A cut is rounded to the nearest mantissa. -/
theorem roundedMantissa (h : Cuts em t) {n : Nat} (hn : Nearest n t) : em.roundedMantissa = n := by
  obtain ⟨k, round, sticky⟩ := em
  obtain ⟨hle, hlt, hsticky⟩ := h
  dsimp only at hle hlt hsticky
  generalize hhalves : 2 * k + round.toNat = halves at hle hlt hsticky
  have hlow : 2 * n < halves + 2 := by
    have : 2 * (n : ℚ) < halves + 2 := by linarith [hn.low]
    exact_mod_cast this
  have hhigh : halves ≤ 2 * n + 1 := by
    have : (halves : ℚ) ≤ 2 * n + 1 := hle.trans hn.high
    exact_mod_cast this
  cases sticky with
  | true =>
      have hne : 2 * t ≠ halves := fun heq => Bool.noConfusion (hsticky.2 heq)
      have hhigh : halves < 2 * n + 1 := by
        have : (halves : ℚ) < 2 * n + 1 := (lt_of_le_of_ne hle hne.symm).trans_le hn.high
        exact_mod_cast this
      cases round with
      | false =>
          change k = n
          simp only [Bool.toNat_false] at hhalves
          omega
      | true =>
          change k + 1 = n
          simp only [Bool.toNat_true] at hhalves
          omega
  | false =>
      have heq : 2 * t = halves := hsticky.1 rfl
      have hodd : n % 2 = 1 → 2 * n < halves + 1 ∧ halves < 2 * n + 1 := by
        intro h
        have hbounds := hn.odd h
        rw [heq] at hbounds
        constructor
        · have : 2 * (n : ℚ) < halves + 1 := by linarith [hbounds.1]
          exact_mod_cast this
        · exact_mod_cast hbounds.2
      cases round with
      | false =>
          change k = n
          simp only [Bool.toNat_false] at hhalves
          omega
      | true =>
          -- Half a unit is left: of `k` and `k + 1` the even one is taken.
          change k + k % 2 = n
          simp only [Bool.toNat_true] at hhalves
          omega

end Cuts

/-! ## Rounding -/

/-- What rounds to `m * 2 ^ q`. Below `2 ^ (23 + q)` the grid is finer. -/
structure Rounds (r : ℚ) (m : Nat) (q : Int) : Prop where
  coarse : Nearest m (r / 2 ^ q)
  fine : r < 2 ^ (23 + q) → q = -149 ∨ Nearest (2 * m) (r / 2 ^ (q - 1))

theorem targetExponent_eq (t : Int) : Format.binary32.targetExponent t = max (t - 24) (-149) := rfl

variable {r : ℚ} {k m : Nat} {e q : Int} {acc : Accuracy}

theorem lt_two_zpow (n : ℕ) : r < 2 ^ (n + q) ↔ r / 2 ^ q < 2 ^ n := by
  rw [zpow_add₀ two_ne_zero, zpow_natCast, div_lt_iff₀ (by positivity)]

theorem two_zpow_le (n : ℕ) : 2 ^ (n + q) ≤ r ↔ 2 ^ n ≤ r / 2 ^ q := by
  rw [zpow_add₀ two_ne_zero, zpow_natCast, le_div_iff₀ (by positivity)]

theorem lt_totalExponent (h : r / 2 ^ e < k + 1) : r < 2 ^ totalExponent k e := by
  have hlog : (k : ℚ) + 1 ≤ 2 ^ (k.log2 + 1) := by exact_mod_cast Nat.lt_log2_self (n := k)
  exact (lt_two_zpow (k.log2 + 1)).2 (h.trans_le hlog)

theorem totalExponent_le (hk : k ≠ 0) (h : (k : ℚ) ≤ r / 2 ^ e) :
    2 ^ (totalExponent k e - 1) ≤ r := by
  have hlog : (2 : ℚ) ^ k.log2 ≤ k := by exact_mod_cast Nat.log2_self_le hk
  have hexp : totalExponent k e - 1 = k.log2 + e := by
    rw [totalExponent]
    ring
  rw [hexp]
  exact (two_zpow_le k.log2).2 (hlog.trans h)

/-- The exponent of a number is told by its size. -/
theorem target_eq (hcut : Cuts (.ofMantissaAndAccuracy k acc) (r / 2 ^ e))
    (hfine : e ≤ Format.binary32.targetExponent (totalExponent k e)) (hq : -149 ≤ q)
    (hhigh : r < 2 ^ (24 + q)) (hlow : q = -149 ∨ 2 ^ (23 + q) ≤ r) :
    Format.binary32.targetExponent (totalExponent k e) = q := by
  have hmantissa : (ExtendedMantissa.ofMantissaAndAccuracy k acc).mantissa = k := by
    rcases acc with _ | _ | _ | _ <;> rfl
  have hle := hcut.mantissa_le
  have hlt := hcut.lt_mantissa
  rw [hmantissa] at hle hlt
  rw [targetExponent_eq] at hfine ⊢
  have hupper : totalExponent k e - 24 ≤ q := by
    by_cases hk : k = 0
    · rw [hk, totalExponent, Nat.log2_zero] at hfine ⊢
      omega
    · have hpow := (totalExponent_le hk hle).trans_lt hhigh
      have := (zpow_lt_zpow_iff_right₀ one_lt_two).1 hpow
      omega
  have hlower : q = -149 ∨ q ≤ totalExponent k e - 24 := by
    refine hlow.imp_right fun h => ?_
    have := (zpow_lt_zpow_iff_right₀ one_lt_two).1 (h.trans_lt (lt_totalExponent hlt))
    omega
  omega

theorem shiftToTargetExponent_eq
    (hfine : e ≤ Format.binary32.targetExponent (totalExponent k e))
    (htarget : Format.binary32.targetExponent (totalExponent k e) = q) :
    shiftToTargetExponent .binary32 k e acc =
      (ExtendedMantissa.ofMantissaAndAccuracy k acc >>> (q - e).toNat, q) := by
  rw [htarget] at hfine
  have hexp : e + (q - e).toNat = q := by omega
  simp only [shiftToTargetExponent, shiftToExponent, htarget, hexp]

theorem Canonical.target (h : Canonical m q) :
    Format.binary32.targetExponent (totalExponent m q) = q := by
  have hlt : m.log2 < 24 := (Nat.log2_lt h.pos.ne').2 h.lt
  rw [targetExponent_eq, totalExponent]
  rcases h.normal with rfl | hnormal
  · omega
  · have hge : 23 ≤ m.log2 := (Nat.le_log2 h.pos.ne').2 hnormal
    have := h.low
    omega

/-- A rounded mantissa stays where it is unless it has one digit too many. -/
theorem Canonical.settled (h : Canonical m q) :
    shiftToTargetExponent .binary32 m q .exact = (⟨m, false, false⟩, q) := by
  rw [shiftToTargetExponent_eq h.target.ge h.target, sub_self]
  rfl

theorem settled_carry (hq : -149 ≤ q) :
    shiftToTargetExponent .binary32 (2 ^ 24) (q - 1) .exact = (⟨2 ^ 23, false, false⟩, q) := by
  have htarget : Format.binary32.targetExponent (totalExponent (2 ^ 24) (q - 1)) = q := by
    rw [targetExponent_eq, totalExponent, Nat.log2_two_pow]
    omega
  have hone : (q - (q - 1)).toNat = 1 := by omega
  rw [shiftToTargetExponent_eq (by omega) htarget, hone]
  rfl

/-- What is cut finely enough is rounded to the nearest number. -/
theorem roundWithAccuracy_eq (hcut : Cuts (.ofMantissaAndAccuracy k acc) (r / 2 ^ e))
    (hfine : e ≤ Format.binary32.targetExponent (totalExponent k e)) (hm : Canonical m q)
    (hr : Rounds r m q) (s : Sign) :
    roundWithAccuracy .binary32 s k e acc = .finite s m q hm.pos := by
  have hshifted {q' : Int} (h : Format.binary32.targetExponent (totalExponent k e) = q') :
      Cuts (ExtendedMantissa.ofMantissaAndAccuracy k acc >>> (q' - e).toNat) (r / 2 ^ q') := by
    have hpow : r / 2 ^ q' = r / 2 ^ e / 2 ^ (q' - e).toNat := by
      have hexp : (2 : ℚ) ^ q' = 2 ^ e * 2 ^ (q' - e).toNat := by
        rw [← zpow_natCast, ← zpow_add₀ two_ne_zero]
        congr 1
        omega
      rw [hexp, div_div]
    rw [hpow]
    exact hcut.shiftRight _
  have hround {k' : Nat} {e' : Int} {em : ExtendedMantissa}
      (hfirst : shiftToTargetExponent .binary32 k e acc = (em, e')) (hem : em.roundedMantissa = k')
      (hlast : shiftToTargetExponent .binary32 k' e' .exact = (⟨m, false, false⟩, q)) :
      roundWithAccuracy .binary32 s k e acc = .finite s m q hm.pos := by
    simp only [roundWithAccuracy, hfirst, hem, hlast, hm.pos.ne', dite_false]
  by_cases hsmall : r < 2 ^ (23 + q) ∧ q ≠ -149
  · -- Only a power of two has such numbers below it; they are rounded up to a carry.
    obtain ⟨hlt, hne⟩ := hsmall
    have hnearest := (hr.fine hlt).resolve_left hne
    have hlow := hnearest.low
    have hexp : 23 + q = 24 + (q - 1) := by ring
    rw [hexp] at hlt
    have hle : m ≤ 2 ^ 23 := by
      have hscaled : r / 2 ^ (q - 1) < 2 ^ 24 := (lt_two_zpow 24).1 hlt
      push_cast at hlow
      have : (m : ℚ) < 2 ^ 23 + 1 := by linarith
      exact Nat.le_of_lt_add_one (by exact_mod_cast this)
    obtain rfl : m = 2 ^ 23 := le_antisymm hle (hm.normal.resolve_left hne)
    have hq := hm.low
    have htarget : Format.binary32.targetExponent (totalExponent k e) = q - 1 := by
      apply target_eq hcut hfine (by omega) hlt
      right
      apply (two_zpow_le 23).2
      push_cast at hlow
      linarith
    exact hround (shiftToTargetExponent_eq hfine htarget)
      ((hshifted htarget).roundedMantissa hnearest) (settled_carry hq)
  · have htarget : Format.binary32.targetExponent (totalExponent k e) = q := by
      apply target_eq hcut hfine hm.low
      · apply (lt_two_zpow 24).2
        have hle : (m : ℚ) + 1 ≤ 2 ^ 24 := by exact_mod_cast hm.lt
        linarith [hr.coarse.high]
      · by_cases hq : q = -149
        · exact Or.inl hq
        · exact Or.inr (le_of_not_gt fun hlt => hsmall ⟨hlt, hq⟩)
    exact hround (shiftToTargetExponent_eq hfine htarget)
      ((hshifted htarget).roundedMantissa hr.coarse) hm.settled

end Binary32

end DrawGraph
