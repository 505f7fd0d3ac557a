import DrawGraph.Text.Blank
import DrawGraph.Text.Integer

/-!
# Escaped words

A string is written as one word: a blank and the percent sign become the bytes of their UTF-8
form, each as a percent sign and two upper-case hexadecimal digits. Reading takes any bytes that
are UTF-8 as a whole.
-/

namespace DrawGraph

namespace Text

def hexDigit (n : Nat) : Char :=
  if n < 10 then Char.ofNat ('0'.toNat + n) else Char.ofNat ('A'.toNat + n - 10)

def escapeByte (b : UInt8) : List Char :=
  ['%', hexDigit (b.toNat / 16), hexDigit (b.toNat % 16)]

def escapeChar (c : Char) : List Char :=
  if c = '%' ∨ isBlank c then (String.utf8EncodeChar c).flatMap escapeByte else [c]

def escape (cs : List Char) : List Char := cs.flatMap escapeChar

/-- The bytes of a written word. An escape is two hexadecimal digits, or one after a plus sign;
a percent sign that starts no escape is refused. -/
def unescapeBytes? : List Char → Option (List UInt8)
  | [] => some []
  | '%' :: a :: b :: cs => do
    let byte ← unsigned? 16 255 [a, b]
    let rest ← unescapeBytes? cs
    some (.ofNat byte :: rest)
  | c :: cs => do
    if c = '%' then none
    else
      let rest ← unescapeBytes? cs
      some (String.utf8EncodeChar c ++ rest)

def unescape? (cs : List Char) : Option (List Char) := do
  let bytes ← unescapeBytes? cs
  let text ← String.fromUTF8? ⟨bytes.toArray⟩
  some text.toList

end Text

end DrawGraph
