import DrawGraph.Config.Identifier

/-!
# Rules of a configuration

Attributes in front of a configuration change three rules: how an optional value is marked with
`Some`, whether the parentheses of that mark serve the marked value as well, and whether a record
has to be named.
-/

namespace DrawGraph

namespace Config

structure Rules where
  /-- The mark of an optional value, or only its parentheses, may be left out. -/
  bareOptions : Bool := false
  /-- The parentheses of a mark may be those of the marked value. -/
  sharedParentheses : Bool := false
  /-- Records have to be named. -/
  namedRecords : Bool := false

namespace Rules

/-- What an attribute with a given name changes. -/
def enable? (r : Rules) : String → Option Rules
  | "implicit_some" => some { r with bareOptions := true }
  | "unwrap_variant_newtypes" => some { r with sharedParentheses := true }
  | "explicit_struct_names" => some { r with namedRecords := true }
  | "unwrap_newtypes" => some r
  | _ => none

end Rules

namespace Scan

def attributes (r : Rules) : Scan Rules := do
  for w in ["#", "!", "[", "enable", "("] do
    word w
    blanks
  let (r, _) ← fold (fun (r, more) => do
    if !more then return none
    else
      match r.enable? (← identifier) with
      | none => failure
      | some r => do
        let separated ← comma?
        let another := (← peek?).any continuesIdentifier
        if another && !separated then failure
        return some (r, another)) (r, true)
  blanks
  for w in [")", "]"] do
    word w
    blanks
  return r

def rules : Scan Rules := do
  blanks
  fold (fun r => do
    if ← sees "#" then return some (← attributes r) else return none) {}

/-- Take an optional value. `held` takes what the parentheses of a mark hold, `bare` takes a value
without them. -/
def option {α : Type} (r : Rules) (bare held : Scan α) : Scan (Option α) := do
  if ← name? "None" then return none
  if ← name? "Some" then
    blanks
    if ← word? "(" then
      blanks
      let a ← held
      discard comma?
      word ")"
      return some a
  if r.bareOptions then return some (← bare) else failure

end Scan

end Config

end DrawGraph
