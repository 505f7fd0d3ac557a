import DrawGraph.Binary32.Basic

/-!
# The shortest decimal

The decimal written for a number is the one with the fewest digits among all that round to the
number. It is sought on ever finer decimal grids, of which each holds two neighbours of the
number; everything is compared in natural numbers.
-/

namespace DrawGraph

namespace Binary32

/-- The decimal `digits * 10 ^ place`. -/
structure Decimal where
  digits : Nat
  place : Int
deriving DecidableEq, Repr

/-- How `a * 10 ^ p` compares with `b * 2 ^ q`. -/
def compareScaled (a : Nat) (p : Int) (b : Nat) (q : Int) : Ordering :=
  compare (a * Nat.pow 10 p.toNat * Nat.pow 2 (-q).toNat)
    (b * Nat.pow 2 q.toNat * Nat.pow 10 (-p).toNat)

/-- Whether `a * 10 ^ p` rounds to `m * 2 ^ q`. The interval of such numbers reaches half way to
both neighbours, and its ends belong to it when `m` is even. Below a power of two the neighbour
is only half as far. -/
def roundsTo (a : Nat) (p : Int) (m : Nat) (q : Int) : Bool :=
  let below := if m = Nat.pow 2 23 ∧ q ≠ -149 then 4 * m - 1 else 4 * m - 2
  let low := compareScaled a p below (q - 2)
  let high := compareScaled a p (4 * m + 2) (q - 2)
  if m % 2 = 0 then low.isGE && high.isLE else low.isGT && high.isLT

/-- The multiple of `10 ^ p` that rounds to `m * 2 ^ q`, if one does: of two the nearer, and of
two equally near the greater. -/
def onGrid (m : Nat) (q p : Int) : Option Decimal :=
  let a := (m * Nat.pow 2 q.toNat * Nat.pow 10 (-p).toNat) /
    (Nat.pow 2 (-q).toNat * Nat.pow 10 p.toNat)
  match roundsTo a p m q, roundsTo (a + 1) p m q with
  | true, true =>
    if (compareScaled (2 * a + 1) p (2 * m) q).isGT then some ⟨a, p⟩ else some ⟨a + 1, p⟩
  | true, false => some ⟨a, p⟩
  | false, true => some ⟨a + 1, p⟩
  | false, false => none

/-- The coarsest grid on which some decimal can round to a finite number. -/
def coarsest : Int := 39

/-- The shortest decimal of `m * 2 ^ q`. The finest grid that is ever needed is `10 ^ (-60)`. -/
def shortest (m : Nat) (q : Int) : Decimal :=
  ((List.range 100).findSome? fun (i : Nat) => onGrid m q (coarsest - (i : Int))).getD ⟨0, 0⟩

/-- The digits of a decimal in positional form. -/
def Decimal.text (d : Decimal) : String :=
  let ds := toString d.digits
  if d.place ≥ 0 then ds ++ String.ofList (List.replicate d.place.toNat '0')
  else
    let places := (-d.place).toNat
    let cs := List.replicate (places + 1 - ds.length) '0' ++ ds.toList
    String.ofList (cs.take (cs.length - places) ++ '.' :: cs.drop (cs.length - places))

/-- The shortest decimal of a number, never with an exponent. -/
def text (x : Float32) : String :=
  if x.isNaN then "NaN"
  else
    let size :=
      if x.isInf then "inf"
      else if significand x = 0 then "0"
      else (shortest (significand x) (exponent x)).text
    if isNegative x then "-" ++ size else size

end Binary32

end DrawGraph
