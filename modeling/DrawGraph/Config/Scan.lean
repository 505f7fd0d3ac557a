import DrawGraph.Text.IdentifierChar

/-!
# Scanning configuration text

A scan takes characters off the front of a text or fails. Between two words there may be blanks:
blank characters, comments up to the end of a line and block comments, which nest.
-/

namespace DrawGraph

namespace Config

/-- Reading from the front of a text, of which the rest remains. -/
abbrev Scan := StateT (List Char) Option

/-- The next character, which stays. -/
def Scan.peek? : Scan (Option Char) := return (← get).head?

/-- Take the longest run of characters for which `p` holds. -/
def Scan.run (p : Char → Bool) : Scan (List Char) := do
  let cs ← get
  set (cs.dropWhile p)
  return cs.takeWhile p

def Scan.char : Scan Char := do
  match ← get with
  | [] => failure
  | c :: cs => do
    set cs
    return c

def Scan.sees (word : String) : Scan Bool := return word.toList.isPrefixOf (← get)

def Scan.word? (word : String) : Scan Bool := do
  if ← sees word then
    modify (·.drop word.length)
    return true
  else return false

def Scan.word (word : String) : Scan Unit := do
  if !(← Scan.word? word) then failure

def Scan.ahead {α : Type} (x : Scan α) : Scan α := do
  let cs ← get
  let a ← x
  set cs
  return a

/-- Repeat `step` until it answers nothing, at most `limit` times. -/
def Scan.foldUpTo {σ : Type} (step : σ → Scan (Option σ)) : Nat → σ → Scan σ
  | 0, _ => failure
  | limit + 1, s => do
    match ← step s with
    | none => return s
    | some s => foldUpTo step limit s

/-- Repeat `step`, which takes a character whenever it answers something, until it answers
nothing. -/
def Scan.fold {σ : Type} (step : σ → Scan (Option σ)) (s : σ) : Scan σ := do
  foldUpTo step ((← get).length + 1) s

/-! ## Blanks -/

def blankChars : List Char :=
  [' ', '\t', '\n', '\r', '\x0B', '\x0C', '\u0085', '\u200E', '\u200F', '\u2028', '\u2029']

/-- Where in a text the blanks are read: outside of comments, in the rest of a line, or inside
of a number of block comments. -/
inductive Place
  | code
  | line
  | block (outer : Nat)

/-- The text after its leading blanks, unless a comment does not end or a slash starts none. -/
def afterBlanks? : Place → List Char → Option (List Char)
  | .code, [] => some []
  | .code, '/' :: '/' :: cs => afterBlanks? .line cs
  | .code, '/' :: '*' :: cs => afterBlanks? (.block 0) cs
  | .code, c :: cs =>
    if c ∈ blankChars then afterBlanks? .code cs
    else if c = '/' then none
    else some (c :: cs)
  | .line, [] => some []
  | .line, c :: cs => afterBlanks? (if c = '\n' then .code else .line) cs
  | .block _, [] => none
  | .block outer, '/' :: '*' :: cs => afterBlanks? (.block (outer + 1)) cs
  | .block 0, '*' :: '/' :: cs => afterBlanks? .code cs
  | .block (outer + 1), '*' :: '/' :: cs => afterBlanks? (.block outer) cs
  | .block outer, _ :: cs => afterBlanks? (.block outer) cs

def Scan.blanks : Scan Unit := do
  match afterBlanks? .code (← get) with
  | some cs => set cs
  | none => failure

def Scan.comma? : Scan Bool := do
  blanks
  if ← word? "," then
    blanks
    return true
  else return false

/-- Items up to `close`, which stays, with commas between them; one comma may follow the last
item. -/
def Scan.itemsBefore {σ : Type} (close : String) (item : σ → Scan σ) (s : σ) : Scan σ := do
  let (s, _) ← Scan.fold (fun (s, separated) => do
    blanks
    if ← sees close then return none
    else if separated then do
      let s ← item s
      return some (s, ← comma?)
    else failure) (s, true)
  return s

def Scan.items {σ : Type} (close : String) (item : σ → Scan σ) (s : σ) : Scan σ := do
  let s ← itemsBefore close item s
  word close
  return s

end Config

end DrawGraph
