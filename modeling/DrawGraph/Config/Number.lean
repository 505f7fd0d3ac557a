import DrawGraph.Binary32.Decimal
import DrawGraph.Binary32.Shortest
import DrawGraph.Config.Identifier

/-!
# Numbers of a configuration

An integer is written in base ten, or in another base after `0b`, `0o` or `0x`, and underscores
may stand between its digits. A number with a fraction is written as everywhere else, again with
underscores, or as `inf` or `NaN`. The type of a number may follow it.
-/

namespace DrawGraph

namespace Config

/-- A single-precision number together with its sign, which `Float32` does not keep for NaN. -/
structure Number where
  value : Float32
  negative : Bool := Binary32.isNegative value
deriving DecidableEq

namespace Number

def agrees (a b : Number) : Bool := a.value == b.value

/-- The text of a number, in which a whole number keeps one decimal place. -/
def text (x : Number) : String :=
  if x.value.isNaN then if x.negative then "-NaN" else "NaN"
  else
    let digits := Binary32.text x.value
    if x.value.isInf || digits.contains '.' then digits else digits ++ ".0"

end Number

/-! ## Integers -/

def isDigitChar (c : Char) : Bool := (Text.digit? 16 c).isSome || c == '_'

/-- The base that a prefix of two characters names. -/
def baseOf (cs : List Char) : Nat :=
  match cs with
  | '0' :: 'b' :: _ => 2
  | '0' :: 'o' :: _ => 8
  | '0' :: 'x' :: _ => 16
  | _ => 10

def Scan.natural : Scan Nat := do
  let base := baseOf (← get)
  if base ≠ 10 then modify (·.drop 2)
  let digits ← run isDigitChar
  if digits.head? = some '_' then failure
  match Text.natural? base (digits.filter (· != '_')) with
  | some n => return n
  | none => failure

/-- Take a sign if one is next; the answer is whether it is a minus sign. -/
def Scan.minus : Scan Bool := do
  if ← word? "+" then return false else word? "-"

def Scan.integer : Scan Int := do
  if ← minus then return -(← natural) else return ← natural

/-- The type that may be named after an integer, with the bounds of its numbers. -/
structure IntegerType where
  name : String
  low : Int
  high : Int

def IntegerType.unsigned (bits : Nat) : IntegerType := ⟨s!"u{bits}", 0, Nat.pow 2 bits - 1⟩

def IntegerType.signed (bits : Nat) : IntegerType :=
  ⟨s!"i{bits}", -Nat.pow 2 (bits - 1), Nat.pow 2 (bits - 1) - 1⟩

/-- Whether the digits that are next can be followed by the name of a type. They cannot when
their base is marked by a letter that is no digit. -/
def Scan.admitsType : Scan Bool := do
  let cs ← get
  let unsigned := match cs with
    | '+' :: ds => ds
    | '-' :: ds => ds
    | ds => ds
  return baseOf unsigned != 8 && baseOf unsigned != 16

/-- Take an integer of a type, which may be named after it. -/
def Scan.integerOf (type : IntegerType) : Scan Int := do
  let typed ← admitsType
  let n ← integer
  if typed then discard (name? type.name)
  if type.low ≤ n && n ≤ type.high then return n else failure

/-! ## Numbers with a fraction -/

def isFractionChar (c : Char) : Bool := c.isDigit || "eE.+-_".toList.contains c

/-- Take `inf` or `NaN` with an optional sign, if one of them is next with nothing but the name
of one of the given types behind it. -/
def Scan.named? (types : List String) : Scan (Option Number) := do
  let found? (word : String) : Scan Bool :=
    (word :: types.map (word ++ ·)).anyM name?
  if ← found? "inf" then return some { value := 1 / 0 }
  else if ← found? "+inf" then return some { value := 1 / 0 }
  else if ← found? "-inf" then return some { value := -1 / 0 }
  else if ← found? "NaN" then return some ⟨0 / 0, false⟩
  else if ← found? "+NaN" then return some ⟨0 / 0, false⟩
  else if ← found? "-NaN" then return some ⟨0 / 0, true⟩
  else return none

/-- A number without its underscores. One may stand where `allowed`: after a digit or an
underscore, and in a power, but not at the start or right after the point. -/
def withoutUnderscores? (allowed : Bool) : List Char → Option (List Char)
  | [] => some []
  | c :: cs =>
    if c = '_' then if allowed then withoutUnderscores? allowed cs else none
    else
      let allowed :=
        if c.isDigit || c = 'e' || c = 'E' then true
        else if c = '.' then false
        else allowed
      (withoutUnderscores? allowed cs).map (c :: ·)

example : withoutUnderscores? false "1_0.5_e+_1".toList = some "10.5e+1".toList := by decide

example : withoutUnderscores? false "1._5".toList = none := by decide

/-- Take a number, after which one of the given types may be named. -/
def Scan.number (types : List String) : Scan Number := do
  match ← named? types with
  | some x => return x
  | none => do
    match (withoutUnderscores? false (← run isFractionChar)).bind Binary32.ofText? with
    | some x => do
      discard (types.anyM name?)
      return { value := x }
    | none => failure

end Config

end DrawGraph
