import DrawGraph.Binary32.Shortest
import DrawGraph.Node
import DrawGraph.Text.Escape
import DrawGraph.Value.Basic

/-!
# Fields of a record

A document is a list of lines, and a line is a list of typed fields. Each field is written as
one word, a vector or a matrix as one word per component. An absent id is `-1` and an absent
text is a dash.
-/

namespace DrawGraph

abbrev Word := List Char

inductive Field
  | id (n : Id)
  | optionalId (n : Option Id)
  | unsigned (n : UInt32)
  | integer (n : Int32)
  | number (x : Float32)
  | value (v : Value)
  | word (s : String)
  | text (s : Option String)

namespace Field

def dash : Word := ['-']

def numberWord (x : Float32) : Word := (Binary32.text x).toList

def unsignedWord (n : UInt32) : Word := (toString n.toNat).toList

def integerWord (n : Int32) : Word := (toString n.toInt).toList

/-- A text as one word. The empty text counts as absent, and a lone dash is escaped. -/
def textWord : Option String → Word
  | none => dash
  | some s =>
    if s = "" then dash
    else if s = "-" then Text.escapeByte 0x2D
    else Text.escape s.toList

def words : Field → List Word
  | id n => [unsignedWord n]
  | optionalId (some n) => [unsignedWord n]
  | optionalId none => [integerWord (-1)]
  | unsigned n => [unsignedWord n]
  | integer n => [integerWord n]
  | number x => [numberWord x]
  | value (.int n) => [integerWord n]
  | value v => v.components.map numberWord
  | word s => [Text.escape s.toList]
  | text s => [textWord s]

end Field

abbrev Line := List Field

namespace Line

def ofWords (ws : List Word) : List Char := [' '].intercalate ws ++ ['\n']

def render (l : Line) : List Char := ofWords (l.flatMap Field.words)

def renderAll (ls : List Line) : String := String.ofList (ls.flatMap render)

end Line

/-- A text in the making: whole lines, the newest first, and the words of the line begun. -/
structure Draft where
  done : List (List Char) := []
  line : List Word := []

namespace Draft

def add (d : Draft) (f : Field) : Draft := { d with line := d.line ++ f.words }

def newLine (d : Draft) : Draft := { done := Line.ofWords d.line :: d.done }

/-- The text, with the line begun brought to its end. -/
def finish (d : Draft) : String :=
  let d := if d.line.isEmpty then d else d.newLine
  String.ofList d.done.reverse.flatten

end Draft

end DrawGraph
