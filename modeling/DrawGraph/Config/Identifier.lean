import DrawGraph.Config.Scan

/-!
# Identifiers

An identifier starts with a letter or an underscore. After `r#` it is raw: then points and signs
may be part of it, and it may start with any of its characters. The mark of a quoted text, such
as `b"`, starts no identifier.
-/

namespace DrawGraph

namespace Config

def startsIdentifier (c : Char) : Bool := Text.identifierStart.contains c || c == '_'

def continuesIdentifier (c : Char) : Bool := Text.identifierContinue.contains c

def isRawChar (c : Char) : Bool := continuesIdentifier c || c == '.' || c == '+' || c == '-'

/-- The words that a quoted text or byte starts with. -/
def quoteMarks : List String := ["b\"", "b'", "br#", "br\"", "r\"", "r#\"", "r##"]

def startsQuote (cs : List Char) : Bool := quoteMarks.any fun m => m.toList.isPrefixOf cs

/-- The identifier that is next, and what follows it. -/
def identifierAt? (cs : List Char) : Option (List Char × List Char) :=
  if startsQuote cs then none
  else
    match cs with
    | 'r' :: '#' :: rest =>
      let name := rest.takeWhile isRawChar
      if name.isEmpty then none else some (name, rest.dropWhile isRawChar)
    | c :: rest =>
      if startsIdentifier c then
        some (c :: rest.takeWhile continuesIdentifier, rest.dropWhile continuesIdentifier)
      else none
    | [] => none

def Scan.identifier? : Scan (Option String) := do
  match identifierAt? (← get) with
  | none => return none
  | some (name, rest) => do
    set rest
    return some (String.ofList name)

/-- Take an identifier, after which no character of a raw one may stand. -/
def Scan.identifier : Scan String := do
  let some name ← identifier? | failure
  if (← peek?).any isRawChar then failure
  return name

/-- Whether `word` is next and no identifier goes on after it. -/
def Scan.seesName (word : String) : Scan Bool := do
  return (← sees word) && !((← get).drop word.length).head?.any continuesIdentifier

def Scan.name? (word : String) : Scan Bool := do
  if ← seesName word then word? word else return false

end Config

end DrawGraph
