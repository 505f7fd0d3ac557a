import DrawGraph.Config.Quoted
import DrawGraph.Config.Rules

/-!
# Values that nobody asked for

The value of an unknown field may be anything: a word, a number, a quoted text, a list, a map, or
a record with or without a name and names of its fields. It is read and dropped. How deep values
may nest is limited: each pair of brackets, each item in it, and each mark of an optional value
takes one off the limit.
-/

namespace DrawGraph

namespace Config

def plainWords : List String :=
  ["true", "false", "None", "inf", "inff32", "inff64", "NaN", "NaNf32", "NaNf64"]

def fractionTypes : List String := ["f32", "f64"]

def integerTypes : List IntegerType :=
  [8, 16, 32, 64].flatMap fun bits => [.signed bits, .unsigned bits]

/-- The type of an integer after which none is named: the widest one of its sign. -/
def widest (negative : Bool) : IntegerType := if negative then .signed 64 else .unsigned 64

def runLength (p : Char → Bool) (cs : List Char) : Nat := (cs.takeWhile p).length

/-- Whether a number goes on where an integer would end. -/
def looksFractional (cs : List Char) : Bool :=
  let unsigned := match cs with
    | '+' :: ds => ds
    | '-' :: ds => ds
    | ds => ds
  runLength isFractionChar unsigned > runLength isDigitChar unsigned

namespace Scan

def anyInteger : Scan Unit := do
  let negative := (← get).head? = some '-'
  let typed ← admitsType
  let n ← integer
  let named ← if typed then integerTypes.findM? fun t => name? t.name else pure none
  let type := named.getD (widest negative)
  if !(type.low ≤ n && n ≤ type.high) then failure

/-- Take a number of any type. One that is no integer may still be one with a fraction. -/
def anyNumber : Scan Unit := do
  if looksFractional (← get) then discard (number fractionTypes)
  else anyInteger <|> discard (number fractionTypes)

def byteLiteral : Scan Unit := do
  match ← char with
  | '\\' => discard byteEscape
  | c => if c.toNat ≥ 128 then failure
  word "'"

def charLiteral : Scan Unit := do
  if (← char) = '\\' then discard (escape 0)
  word "'"

def bytes : Scan Unit := do
  if ← word? "b\"" then discard (quoted bytesEscape)
  else do
    word "br"
    discard raw

/-! ## What parentheses hold -/

def namesFields : Scan Bool := ahead do
  word "("
  blanks
  match ← identifier? with
  | none => return false
  | some _ => do
    blanks
    sees ":"

/-- Take a character, a text or bytes in quotation marks, as far as each is next. -/
def quotations : Scan Unit := do
  (do word "'"; charLiteral) <|> pure ()
  discard text <|> pure ()
  bytes <|> pure ()

/-- Whether the first comma outside of inner brackets has an item behind it. -/
def goesOn : Scan Bool := do
  let (_, answer) ← fold (fun (depth, _) => do
    if depth = 0 then return none
    else do
      blanks
      quotations
      let c ← char
      if "([\x7b".toList.contains c then return some (depth + 1, false)
      else if ")]\x7d".toList.contains c then return some (depth - 1, false)
      else if c = ',' && depth = 1 then do
        blanks
        return some (0, !(← sees ")"))
      else return some (depth, false)) (1, false)
  return answer

/-- What the parentheses of a mark hold: the fields of a record, any number of items but one, or
a single value. -/
inductive Content
  | fields | items | single

/-- What the parentheses hold of which the inside is next. -/
def content : Scan Content := ahead do
  blanks
  if ← sees ")" then return .items
  if let some _ ← identifier? then
    blanks
    if ← sees ":" then return .fields
    if ← word? "," then
      blanks
      if ← sees ")" then return .single else return .items
    if ← sees ")" then return .single
  if ← goesOn then return .items else return .single

/-! ## Values -/

def bracketed (close : String) (item : Scan Unit) : Scan Unit := items close (fun _ => item) ()

def assigned (item : Scan Unit) : Scan Unit := do
  blanks
  word ":"
  blanks
  item

def field (item : Scan Unit) : Scan Unit := do
  discard identifier
  assigned item

def entry (item : Scan Unit) : Scan Unit := do
  item
  assigned item

/-- Take what may follow the name of a record, or stand for the whole of one without a name. -/
def parenthesized (item : Scan Unit) : Scan Unit := do
  if ← namesFields then do
    word "("
    bracketed ")" (field item)
  else do
    word "("
    bracketed ")" item

/-- The value `n + 1` levels further in, which fails when the limit does not reach so far. -/
def deeper (levels : List (Scan Unit)) (n : Nat) : Scan Unit := levels.getD n failure

def marked (r : Rules) (levels : List (Scan Unit)) : Scan Unit := do
  let held ← if r.sharedParentheses then content else pure .single
  match held with
  | .single => deeper levels 0
  | .fields =>
    if levels.length < 2 then failure
    itemsBefore ")" (fun _ => field (deeper levels 2)) ()
  | .items =>
    if levels.length < 2 then failure
    itemsBefore ")" (fun _ => deeper levels 2) ()

/-- Take a value. `levels` takes values further in, one entry for each level that the limit
leaves, the nearest first. -/
def value (r : Rules) (levels : List (Scan Unit)) : Scan Unit := do
  for w in plainWords do
    if ← name? w then return
  if ← seesName "Some" then discard (option r (deeper levels 0) (marked r levels))
  else if ← word? "()" then return
  else if let some _ ← identifier? then
    blanks
    if ← sees "(" then
      if levels.isEmpty then failure else parenthesized (deeper levels 1)
  else if startsQuote (← get) then
    if ← word? "b'" then byteLiteral
    else if (← peek?) = some 'b' then bytes
    else discard text
  else if ← sees "\"" then discard text
  else if ← word? "'" then charLiteral
  else if (← peek?).any fun c => c.isDigit || "+-.".toList.contains c then anyNumber
  else if levels.isEmpty then failure
  else if ← sees "(" then parenthesized (deeper levels 1)
  else if ← word? "[" then bracketed "]" (deeper levels 1)
  else do
    word openBrace
    bracketed closeBrace (entry (deeper levels 1))

/-- What takes values at each level below a limit, the highest first. -/
def levelsBelow (r : Rules) : Nat → List (Scan Unit)
  | 0 => []
  | limit + 1 =>
    let levels := levelsBelow r limit
    value r levels :: levels

@[simp] theorem length_levelsBelow (r : Rules) (limit : Nat) :
    (levelsBelow r limit).length = limit := by
  induction limit with
  | zero => rfl
  | succ limit ih => simp [levelsBelow, ih]

/-- Take a value in which brackets, items and marks nest to a limited depth. -/
def anything (r : Rules) (limit : Nat) : Scan Unit := value r (levelsBelow r limit)

end Scan

end Config

end DrawGraph
