import DrawGraph.Attempt
import DrawGraph.Binary32.Decimal
import DrawGraph.Record.Field

/-!
# Reading records

A reader moves over the lines of a text that hold any word at all and takes words from the
current line. A failure names the current line, counted from one over all lines, or zero before
the first. The words taken by a reading that failed stay taken.
-/

namespace DrawGraph

inductive Fault
  | endOfDocument
  | endOfLine
  | keyword (expected found : String)
  | form (expected found : String)
  | idRange (n : Int)
  | escape (found : String)
  | tag (table : String) (n : Nat)
  | bindingType (found : String)
deriving DecidableEq, Repr

def Fault.message : Fault → String
  | endOfDocument => "unexpected end of document"
  | endOfLine => "unexpected end of line"
  | keyword expected found => "expected '" ++ expected ++ "', found '" ++ found ++ "'"
  | form expected found => "expected " ++ expected ++ ", found '" ++ found ++ "'"
  | idRange n => s!"node id {n} out of range"
  | escape found => "bad escape in '" ++ found ++ "'"
  | tag table n => "unknown " ++ table ++ s!" {n}"
  | bindingType found => "unknown binding type '" ++ found ++ "'"

structure ParseError where
  line : Nat
  fault : Fault
deriving DecidableEq, Repr

def ParseError.message (e : ParseError) : String := s!"Line {e.line}: " ++ e.fault.message

structure Reader where
  /-- The number of the current line, zero before the first. -/
  line : Nat := 0
  words : List Word := []
  /-- The lines to come, each with its number. -/
  rest : List (Nat × List Word)
deriving DecidableEq, Repr

abbrev Reading (α : Type) := Attempt ParseError Reader α

namespace Reader

def ofText (text : String) : Reader :=
  { rest :=
      ((Text.lines text.toList).zipIdx 1).filterMap fun (l, i) =>
        if (Text.words l).isEmpty then none else some (i, Text.words l) }

def atEnd (r : Reader) : Bool := r.rest.isEmpty

/-- Pass over lines up to one that starts with `keyword`, so that it comes next. -/
def skipFrom (keyword : Word) (line : Nat) (words : List Word) : List (Nat × List Word) → Reader
  | [] => ⟨line, words, []⟩
  | (i, ws) :: rest =>
    if ws.head? = some keyword then ⟨line, words, (i, ws) :: rest⟩
    else skipFrom keyword i [] rest

def skipUntil (r : Reader) (keyword : Word) : Reader := skipFrom keyword r.line r.words r.rest

end Reader

namespace Reading

variable {α : Type}

def fail (f : Fault) : Reading α := do throw ⟨(← get).line, f⟩

def nextLine : Reading Unit := do
  match (← get).rest with
  | [] => fail .endOfDocument
  | (i, ws) :: rest => set ({ line := i, words := ws, rest := rest } : Reader)

def word : Reading Word := do
  let r ← get
  match r.words with
  | [] => fail .endOfLine
  | w :: ws =>
    set { r with words := ws }
    return w

def keyword (expected : String) : Reading Unit := do
  let w ← word
  if w = expected.toList then return () else fail (.keyword expected (String.ofList w))

/-- A word of the form that `read` accepts, called `expected` in the failure. -/
def form (expected : String) (read : Word → Option α) : Reading α := do
  let w ← word
  match read w with
  | some a => return a
  | none => fail (.form expected (String.ofList w))

def ident : Reading Id := form "a node id" Text.uint32?

def unsigned : Reading UInt32 := form "an unsigned integer" Text.uint32?

def integer : Reading Int32 := form "an integer" Text.int32?

def count : Reading Nat := form "a count" Text.uint64?

def number : Reading Float32 := form "a float" Binary32.ofText?

/-- An id, or none for a dash or a negative number. -/
def optionalId : Reading (Option Id) := do
  let w ← word
  if w = Field.dash then return none
  match Text.int64? w with
  | none => fail (.form "a node id" (String.ofList w))
  | some n =>
    if n < 0 then return none
    else if n < UInt32.size then return some (.ofNat n.toNat)
    else fail (.idRange n)

def numbers : (n : Nat) → Reading (Vector Float32 n)
  | 0 => return #v[]
  | n + 1 => do
    let v ← numbers n
    return v.push (← number)

def value : ValueKind → Reading Value
  | .float => return .float (← number)
  | .int => return .int (← integer)
  | .float2 => return .float2 (← numbers 2)
  | .float3 => return .float3 (← numbers 3)
  | .float4 => return .float4 (← numbers 4)
  | .float4x4 => return .float4x4 (← numbers 16)

def unescaped (w : Word) : Reading String :=
  match Text.unescape? w with
  | some cs => return String.ofList cs
  | none => fail (.escape (String.ofList w))

def string : Reading String := do unescaped (← word)

def text : Reading (Option String) := do
  let w ← word
  if w = Field.dash then return none
  return some (← unescaped w)

/-- A tag of the table that is called `table` in the failure. -/
def tagged (table : String) (ofTag? : Nat → Option α) : Reading α := do
  let n ← unsigned
  match ofTag? n.toNat with
  | some a => return a
  | none => fail (.tag table n.toNat)

end Reading

end DrawGraph
