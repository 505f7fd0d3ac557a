import DrawGraph.Binary32.Basic
import DrawGraph.Text.Integer

/-!
# Reading decimal text

The text of a number is an optional sign before `inf`, `infinity` or `nan` in any case, or before
digits with an optional point and an optional power of ten. At least one digit stands on one
side of the point. The number read is the nearest one, a tie going to the even one.
-/

namespace DrawGraph

namespace Binary32

def isDigit (c : Char) : Bool := '0' ≤ c ∧ c ≤ '9'

/-- The power of ten after the digits, zero when there is none. -/
def power? : List Char → Option Int
  | [] => some 0
  | c :: cs =>
    if c = 'e' ∨ c = 'E' then
      match cs with
      | '-' :: ds => (Text.natural? 10 ds).map (- ·)
      | '+' :: ds => (Text.natural? 10 ds).map Int.ofNat
      | ds => (Text.natural? 10 ds).map Int.ofNat
    else none

def unsigned? (cs : List Char) : Option Float32 := do
  let whole := cs.takeWhile isDigit
  let (places, tail) :=
    match cs.dropWhile isDigit with
    | '.' :: r => (r.takeWhile isDigit, r.dropWhile isDigit)
    | r => ([], r)
  let digits ← Text.natural? 10 (whole ++ places)
  let place := (← power? tail) - places.length
  some (Float32.ofScientific digits (place < 0) place.natAbs)

/-- The number that a text without its sign names. -/
def magnitude? (cs : List Char) : Option Float32 :=
  let name := String.ofList (cs.map Char.toLower)
  if name = "inf" ∨ name = "infinity" then some (1 / 0)
  else if name = "nan" then some (0 / 0)
  else unsigned? cs

def ofText? : List Char → Option Float32
  | '-' :: cs => (magnitude? cs).map (- ·)
  | '+' :: cs => magnitude? cs
  | cs => magnitude? cs

end Binary32

end DrawGraph
