import DrawGraph.Config.Number
import DrawGraph.Text.PlainChar

/-!
# Quoted texts

A text stands between quotation marks. A backslash starts an escape: a letter for a control
character, `x` with two digits for each byte of a UTF-8 form, or `u` with a code point in braces.
A raw text has no escapes and ends at a mark with as many `#` as it started with.
-/

namespace DrawGraph

namespace Config

def openBrace : String := "\x7b"

def closeBrace : String := "\x7d"

def Scan.hexDigit : Scan Nat := do
  match Text.digit? 16 (← char) with
  | some d => return d
  | none => failure

def Scan.byte : Scan UInt8 := do
  let high ← hexDigit
  let low ← hexDigit
  return .ofNat (high * 16 + low)

/-- The character with a UTF-8 form that starts with `bytes`, of which at most `more` are still
to be taken. -/
def Scan.charOfBytes : Nat → List UInt8 → Scan Char
  | more, bytes => do
    match (String.fromUTF8? ⟨bytes.toArray⟩).map (·.toList) with
    | some (c :: _) => return c
    | _ =>
      match more with
      | 0 => failure
      | more + 1 => do
        word "\\x"
        let b ← byte
        charOfBytes more (bytes ++ [b])

def Scan.codePoint : Scan Char := do
  word openBrace
  let digits ← run fun c => (Text.digit? 16 c).isSome
  word closeBrace
  if digits.length > 6 then failure
  match Text.natural? 16 digits with
  | some n => if n.isValidChar then return .ofNat n else failure
  | none => failure

def letterEscape? : Char → Option Char
  | '\'' => some '\''
  | '"' => some '"'
  | '\\' => some '\\'
  | 'n' => some '\n'
  | 'r' => some '\r'
  | 't' => some '\t'
  | '0' => some '\x00'
  | _ => none

/-- Take the rest of an escape in a text, in which a character has at most `more` bytes after
the first. -/
def Scan.escape (more : Nat) : Scan Char := do
  match ← char with
  | 'x' => do charOfBytes more [← byte]
  | 'u' => codePoint
  | c =>
    match letterEscape? c with
    | some e => return e
    | none => failure

/-- Take the rest of an escape for a single byte. -/
def Scan.byteEscape : Scan Char := do
  match ← char with
  | 'x' => return .ofNat (← byte).toNat
  | c =>
    match letterEscape? c with
    | some e => return e
    | none => failure

/-- Take the rest of an escape among bytes, which may be a code point for its UTF-8 form. -/
def Scan.bytesEscape : Scan Char := do
  if ← word? "u" then codePoint else byteEscape

/-- Take characters and escapes up to a quotation mark, and the mark. -/
def Scan.quoted (escape : Scan Char) : Scan String := do
  Scan.fold (fun text => do
    match ← char with
    | '"' => return none
    | '\\' => return some (text.push (← escape))
    | c => return some (text.push c)) ""

/-- Write a text before and after the first place at which `mark` stands. -/
def splitAt? (mark : List Char) : List Char → Option (List Char × List Char)
  | [] => if mark.isEmpty then some ([], []) else none
  | c :: cs =>
    if mark.isPrefixOf (c :: cs) then some ([], (c :: cs).drop mark.length)
    else (splitAt? mark cs).map fun (before, after) => (c :: before, after)

def Scan.raw : Scan String := do
  let hashes ← run (· == '#')
  word "\""
  match splitAt? ('"' :: hashes) (← get) with
  | some (text, rest) => do
    set rest
    return String.ofList text
  | none => failure

def Scan.text : Scan String := do
  if ← word? "\"" then quoted (escape 3)
  else do
    word "r"
    raw

/-! ## Writing -/

def pointEscape (c : Char) : String :=
  "\\u" ++ openBrace ++ String.ofList (Nat.toDigits 16 c.toNat) ++ closeBrace

/-- A character as it is written between quotation marks. -/
def quotedChar (c : Char) : String :=
  match c with
  | '\x00' => "\\0"
  | '\t' => "\\t"
  | '\r' => "\\r"
  | '\n' => "\\n"
  | '"' => "\\\""
  | '\'' => "\\'"
  | '\\' => "\\\\"
  | c => if Text.plainChars.contains c then c.toString else pointEscape c

def quote (s : String) : String := "\"" ++ String.join (s.toList.map quotedChar) ++ "\""

end Config

end DrawGraph
