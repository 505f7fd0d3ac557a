/-!
# Integers in decimal text

A reader of an integer takes the whole text: an optional sign and at least one ASCII digit.
-/

namespace DrawGraph

namespace Text

def digit? (base : Nat) (c : Char) : Option Nat :=
  let v :=
    if '0' ≤ c ∧ c ≤ '9' then c.toNat - '0'.toNat
    else if 'a' ≤ c ∧ c ≤ 'f' then c.toNat - 'a'.toNat + 10
    else if 'A' ≤ c ∧ c ≤ 'F' then c.toNat - 'A'.toNat + 10
    else 16
  if v < base then some v else none

/-- The number that digits continue, `acc` being the number read so far. -/
def digitsFrom? (base acc : Nat) : List Char → Option Nat
  | [] => some acc
  | c :: cs => do digitsFrom? base (acc * base + (← digit? base c)) cs

def natural? (base : Nat) (cs : List Char) : Option Nat :=
  if cs.isEmpty then none else digitsFrom? base 0 cs

/-- A number without a minus sign, at most `bound`. -/
def unsigned? (base bound : Nat) (cs : List Char) : Option Nat := do
  let n ← natural? base (match cs with | '+' :: ds => ds | ds => ds)
  if n ≤ bound then some n else none

/-- A number in two's complement with `2 ^ half` as the lowest magnitude out of range above. -/
def signed? (half : Nat) (cs : List Char) : Option Int :=
  match cs with
  | '-' :: ds => do
    let n ← natural? 10 ds
    if n ≤ Nat.pow 2 half then some (-n) else none
  | _ => do
    let n ← unsigned? 10 (Nat.pow 2 half - 1) cs
    some n

def uint32? (cs : List Char) : Option UInt32 := (unsigned? 10 (UInt32.size - 1) cs).map .ofNat

def uint64? (cs : List Char) : Option Nat := unsigned? 10 (UInt64.size - 1) cs

def int32? (cs : List Char) : Option Int32 := (signed? 31 cs).map .ofInt

def int64? (cs : List Char) : Option Int := signed? 63 cs

end Text

end DrawGraph
