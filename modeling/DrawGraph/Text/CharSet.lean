import DrawGraph.Table

/-!
# Sets of characters

A set of characters is kept as the increasing code points at which members and others take
turns: a character belongs to it when an odd number of these are at most its own code point.
-/

namespace DrawGraph

namespace Text

structure CharSet where
  bounds : Array Nat

/-- How many bounds are at most a code point. -/
def CharSet.rank (s : CharSet) (point : Nat) : Nat :=
  Table.bisect s.bounds (point + 1) 0 s.bounds.size (Nat.le_refl _)

def CharSet.contains (s : CharSet) (c : Char) : Bool := s.rank c.toNat % 2 = 1

example : let s : CharSet := ⟨#[0x62, 0x65]⟩
    s.contains 'b' ∧ s.contains 'd' ∧ ¬ s.contains 'a' ∧ ¬ s.contains 'e' := by decide +kernel

end Text

end DrawGraph
