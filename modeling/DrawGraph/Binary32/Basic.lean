/-!
# Single-precision numbers

Numbers are `Float32`: equality of two of them is equality of bit patterns with every NaN taken
as one, and `==` is the comparison of IEEE 754. Here are the conversions to and from integers
and the exact value of a pattern.
-/

namespace DrawGraph

namespace Binary32

/-- The integer part, the nearest bound when it does not fit, and zero for NaN. -/
def toInt32 (x : Float32) : Int32 := x.toModel.toInt32

/-- The nearest number, a tie going to the even one. -/
def ofInt32 (n : Int32) : Float32 := ⟨.ofInt32 n⟩

/-- The number cut off below at zero and above at one. NaN and both zeros stay. -/
def unitClamp (x : Float32) : Float32 :=
  let x := if x < 0 then 0 else x
  if x > 1 then 1 else x

def isNegative (x : Float32) : Bool := x.toBits.toNat ≥ Nat.pow 2 31

/-- A number that is neither infinite nor NaN has the size `significand * 2 ^ exponent`. -/
def significand (x : Float32) : Nat :=
  let fraction := x.toBits.toNat % Nat.pow 2 23
  if x.toBits.toNat / Nat.pow 2 23 % Nat.pow 2 8 = 0 then fraction
  else fraction + Nat.pow 2 23

@[inherit_doc significand]
def exponent (x : Float32) : Int :=
  let biased : Nat := x.toBits.toNat / Nat.pow 2 23 % Nat.pow 2 8
  if biased = 0 then -149 else (biased : Int) - 150

end Binary32

end DrawGraph
