import DrawGraph.Binary32.Shortest
import DrawGraph.Proofs.Binary32.Arithmetic

/-!
# The shortest decimal rounds back

The comparisons that the search makes in natural numbers are those of the rational numbers meant, so
a decimal that it takes rounds to the number. The finest grid has one for every number.
-/

namespace DrawGraph

namespace Binary32

variable {a m : Nat} {p q : Int}

/-! ## Exact comparisons -/

theorem scaled_le (a : Nat) (p : Int) (b : Nat) (q : Int) :
    a * Nat.pow 10 p.toNat * Nat.pow 2 (-q).toNat ≤ b * Nat.pow 2 q.toNat * Nat.pow 10 (-p).toNat ↔
      (a : ℚ) * 10 ^ p ≤ b * 2 ^ q := by
  rw [zpow_eq_div (by norm_num : (10 : ℚ) ≠ 0), zpow_eq_div two_ne_zero, mul_div_assoc',
    mul_div_assoc', div_le_div_iff₀ (by positivity) (by positivity)]
  exact_mod_cast Iff.rfl

theorem le_scaled (a : Nat) (p : Int) (b : Nat) (q : Int) :
    b * Nat.pow 2 q.toNat * Nat.pow 10 (-p).toNat ≤ a * Nat.pow 10 p.toNat * Nat.pow 2 (-q).toNat ↔
      (b : ℚ) * 2 ^ q ≤ a * 10 ^ p := by
  rw [zpow_eq_div (by norm_num : (10 : ℚ) ≠ 0), zpow_eq_div two_ne_zero, mul_div_assoc',
    mul_div_assoc', div_le_div_iff₀ (by positivity) (by positivity)]
  exact_mod_cast Iff.rfl

theorem isLE_compareScaled (a : Nat) (p : Int) (b : Nat) (q : Int) :
    (compareScaled a p b q).isLE ↔ (a : ℚ) * 10 ^ p ≤ b * 2 ^ q := by
  rw [compareScaled, Nat.isLE_compare, scaled_le]

theorem isGE_compareScaled (a : Nat) (p : Int) (b : Nat) (q : Int) :
    (compareScaled a p b q).isGE ↔ (b : ℚ) * 2 ^ q ≤ a * 10 ^ p := by
  rw [compareScaled, Nat.isGE_compare, le_scaled]

theorem isLT_compareScaled (a : Nat) (p : Int) (b : Nat) (q : Int) :
    (compareScaled a p b q).isLT ↔ (a : ℚ) * 10 ^ p < b * 2 ^ q := by
  rw [← not_le, ← isGE_compareScaled]
  cases compareScaled a p b q <;> decide

theorem isGT_compareScaled (a : Nat) (p : Int) (b : Nat) (q : Int) :
    (compareScaled a p b q).isGT ↔ (b : ℚ) * 2 ^ q < a * 10 ^ p := by
  rw [← not_le, ← isLE_compareScaled]
  cases compareScaled a p b q <;> decide

/-! ## Rounding decimals -/

/-- The quarters of a unit below `m` that round to it. -/
def quartersBelow (m : Nat) (q : Int) : Nat :=
  if m = Nat.pow 2 23 ∧ q ≠ -149 then 4 * m - 1 else 4 * m - 2

/-- In quarters of a unit, what rounds to `m` is between the two bounds. -/
theorem roundsTo_iff : roundsTo a p m q ↔
    if m % 2 = 0 then
      (quartersBelow m q : ℚ) ≤ a * 10 ^ p / 2 ^ (q - 2) ∧
        (a : ℚ) * 10 ^ p / 2 ^ (q - 2) ≤ (4 * m + 2 : ℕ)
    else
      (quartersBelow m q : ℚ) < a * 10 ^ p / 2 ^ (q - 2) ∧
        (a : ℚ) * 10 ^ p / 2 ^ (q - 2) < (4 * m + 2 : ℕ) := by
  have hunit : (0 : ℚ) < 2 ^ (q - 2) := by positivity
  rw [le_div_iff₀ hunit, div_le_iff₀ hunit, lt_div_iff₀ hunit, div_lt_iff₀ hunit,
    ← isGE_compareScaled, ← isLE_compareScaled, ← isGT_compareScaled, ← isLT_compareScaled]
  unfold roundsTo quartersBelow
  dsimp only
  by_cases heven : m % 2 = 0
  · rw [if_pos heven, if_pos heven, Bool.and_eq_true]
  · rw [if_neg heven, if_neg heven, Bool.and_eq_true]

theorem le_quartersBelow (hm : 0 < m) (q : Int) : 4 * (m : ℚ) - 2 ≤ quartersBelow m q := by
  have hnat : 4 * m ≤ quartersBelow m q + 2 := by
    unfold quartersBelow
    split <;> omega
  have hcast : 4 * (m : ℚ) ≤ quartersBelow m q + 2 := by exact_mod_cast hnat
  linarith

theorem quartersBelow_le (hm : 0 < m) (q : Int) : (quartersBelow m q : ℚ) ≤ 4 * m - 1 := by
  have hnat : quartersBelow m q + 1 ≤ 4 * m := by
    unfold quartersBelow
    split <;> omega
  have hcast : (quartersBelow m q : ℚ) + 1 ≤ 4 * m := by exact_mod_cast hnat
  linarith

theorem rounds_of_roundsTo (hm : Canonical m q) (h : roundsTo a p m q) :
    Rounds (a * 10 ^ p) m q := by
  have hbounds := roundsTo_iff.1 h
  have hbelow := le_quartersBelow hm.pos q
  generalize hr : (a : ℚ) * 10 ^ p = r at hbounds
  have hquarter (n : Nat) : (2 : ℚ) ^ (q - 2 + n) = 2 ^ (q - 2) * 2 ^ n := by
    rw [zpow_add₀ two_ne_zero, zpow_natCast]
  have hunit : r / 2 ^ q = r / 2 ^ (q - 2) / 4 := by
    have hpow := hquarter 2
    rw [show q - 2 + (2 : ℕ) = q by push_cast; ring] at hpow
    rw [hpow, div_div]
    norm_num
  have hhalf : r / 2 ^ (q - 1) = r / 2 ^ (q - 2) / 2 := by
    have hpow := hquarter 1
    rw [show q - 2 + (1 : ℕ) = q - 1 by push_cast; ring] at hpow
    rw [hpow, div_div, pow_one]
  generalize hx : r / 2 ^ (q - 2) = x at hbounds hunit hhalf
  have hlow : (quartersBelow m q : ℚ) ≤ x := by
    split at hbounds
    · exact hbounds.1
    · exact hbounds.1.le
  have hhigh : x ≤ 4 * m + 2 := by
    split at hbounds
    · exact_mod_cast hbounds.2
    · exact_mod_cast hbounds.2.le
  constructor
  · rw [hunit]
    constructor
    · linarith
    · linarith
    · intro hodd
      rw [if_neg (by omega)] at hbounds
      obtain ⟨hlow, hhigh⟩ := hbounds
      push_cast at hhigh
      constructor <;> linarith
  · intro hsmall
    by_cases hq : q = -149
    · exact Or.inl hq
    · right
      have hfirst : (2 : ℚ) ^ 23 ≤ m := by exact_mod_cast hm.normal.resolve_left hq
      have hx23 : x < 4 * 2 ^ 23 := by
        have hscaled : r / 2 ^ q < 2 ^ 23 := (lt_two_zpow 23).1 hsmall
        rw [hunit] at hscaled
        linarith
      -- Only the power of two has numbers of its own below it, and they are within a quarter.
      have hpower : m = 2 ^ 23 := by
        have hlt : (m : ℚ) < 2 ^ 23 + 1 := by linarith
        have hle : m ≤ 2 ^ 23 := Nat.le_of_lt_add_one (by exact_mod_cast hlt)
        exact le_antisymm hle (hm.normal.resolve_left hq)
      have hquarters : (quartersBelow m q : ℚ) = 4 * m - 1 := by
        have hnat : quartersBelow m q + 1 = 4 * m := by
          rw [quartersBelow, if_pos ⟨hpower, hq⟩]
          have := hm.pos
          omega
        have hcast : (quartersBelow m q : ℚ) + 1 = 4 * m := by exact_mod_cast hnat
        linarith
      rw [hhalf]
      constructor
      · push_cast
        linarith
      · push_cast
        linarith
      · omega

/-- What is less than a quarter of a unit below the number rounds to it. -/
theorem roundsTo_of_near (hm : 0 < m) (hlow : (m : ℚ) * 2 ^ q - 2 ^ (q - 2) < a * 10 ^ p)
    (hhigh : (a : ℚ) * 10 ^ p ≤ m * 2 ^ q) : roundsTo a p m q := by
  have hunit : (0 : ℚ) < 2 ^ (q - 2) := by positivity
  have hpow : (2 : ℚ) ^ q = 4 * 2 ^ (q - 2) := by
    have hfour : (4 : ℚ) = 2 ^ (2 : Int) := by norm_num
    rw [hfour, ← zpow_add₀ two_ne_zero]
    congr 1
    ring
  have hbelow := quartersBelow_le hm q
  have hlow : (quartersBelow m q : ℚ) < a * 10 ^ p / 2 ^ (q - 2) := by
    rw [lt_div_iff₀ hunit]
    rw [hpow] at hlow
    nlinarith
  have hhigh : (a : ℚ) * 10 ^ p / 2 ^ (q - 2) < (4 * m + 2 : ℕ) := by
    rw [div_lt_iff₀ hunit]
    rw [hpow] at hhigh
    push_cast
    nlinarith
  rw [roundsTo_iff]
  split
  · exact ⟨hlow.le, hhigh.le⟩
  · exact ⟨hlow, hhigh⟩

/-! ## The search -/

theorem roundsTo_of_onGrid {d : Decimal} (h : onGrid m q p = some d) :
    roundsTo d.digits d.place m q ∧ d.place = p := by
  unfold onGrid at h
  dsimp only at h
  split at h
  · next hlower hupper =>
    split at h
    · cases h
      exact ⟨hlower, rfl⟩
    · cases h
      exact ⟨hupper, rfl⟩
  · next hlower _ =>
    cases h
    exact ⟨hlower, rfl⟩
  · next _ hupper =>
    cases h
    exact ⟨hupper, rfl⟩
  · cases h

/-- The grid is fine enough when one of its steps is at most a quarter of a unit. -/
theorem isSome_onGrid (hm : 0 < m) (hp : (10 : ℚ) ^ p ≤ 2 ^ (q - 2)) : (onGrid m q p).isSome := by
  have hlower : roundsTo ((m * Nat.pow 2 q.toNat * Nat.pow 10 (-p).toNat) /
      (Nat.pow 2 (-q).toNat * Nat.pow 10 p.toNat)) p m q := by
    have hsteps : 0 < Nat.pow 2 (-q).toNat * Nat.pow 10 p.toNat :=
      Nat.mul_pos (Nat.two_pow_pos _) (Nat.pow_pos (by decide))
    have hfloor := Nat.div_mul_le_self (m * Nat.pow 2 q.toNat * Nat.pow 10 (-p).toNat)
      (Nat.pow 2 (-q).toNat * Nat.pow 10 p.toNat)
    have hnext := Nat.lt_mul_div_succ (m * Nat.pow 2 q.toNat * Nat.pow 10 (-p).toNat) hsteps
    generalize (m * Nat.pow 2 q.toNat * Nat.pow 10 (-p).toNat) /
      (Nat.pow 2 (-q).toNat * Nat.pow 10 p.toNat) = a at hfloor hnext
    have hle : (a : ℚ) * 10 ^ p ≤ m * 2 ^ q := by
      rw [← scaled_le, Nat.mul_right_comm, Nat.mul_assoc]
      exact hfloor
    have hlt : (m : ℚ) * 2 ^ q < (a + 1 : ℕ) * 10 ^ p := by
      rw [← not_le, ← scaled_le, not_le, Nat.mul_right_comm (a + 1), Nat.mul_assoc (a + 1),
        Nat.mul_comm (a + 1)]
      exact hnext
    refine roundsTo_of_near hm ?_ hle
    push_cast at hlt
    linarith
  unfold onGrid
  dsimp only
  rw [hlower]
  split
  · split <;> rfl
  · rfl
  · rfl
  · next hfalse _ => cases hfalse

/-- The decimal that is found rounds to the number. -/
theorem shortest_spec (hm : Canonical m q) :
    roundsTo (shortest m q).digits (shortest m q).place m q ∧
      -60 ≤ (shortest m q).place ∧ (shortest m q).place ≤ 39 := by
  have hfinest : (onGrid m q (coarsest - (99 : Nat))).isSome := by
    apply isSome_onGrid hm.pos
    calc (10 : ℚ) ^ (coarsest - (99 : Nat)) ≤ 2 ^ (-151 : Int) := by
          change (10 : ℚ) ^ (-60 : Int) ≤ _
          norm_num
      _ ≤ 2 ^ (q - 2) := zpow_le_zpow_right₀ one_le_two (by linarith [hm.low])
  obtain ⟨d, hfound⟩ : ∃ d, ((List.range 100).findSome? fun (i : Nat) =>
      onGrid m q (coarsest - (i : Int))) = some d := by
    rw [← Option.isSome_iff_exists, List.isSome_findSome?]
    exact List.any_eq_true.2 ⟨99, List.mem_range.2 (by decide), hfinest⟩
  have hshortest : shortest m q = d := by rw [shortest, hfound, Option.getD_some]
  obtain ⟨i, hi, hgrid⟩ := List.exists_of_findSome?_eq_some hfound
  obtain ⟨hrounds, hplace⟩ := roundsTo_of_onGrid hgrid
  rw [hshortest]
  have hi := List.mem_range.1 hi
  have hcoarsest : coarsest = 39 := rfl
  exact ⟨hrounds, by omega, by omega⟩

end Binary32

end DrawGraph
