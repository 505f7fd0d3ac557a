import DrawGraph.Table
import DrawGraph.Value.Basic

/-!
# Value boxes

Every pin can have a box that holds a value of any kind, kept beside the graph under the pin's id.
-/

namespace DrawGraph

abbrev ValueStore := Table Id Value

inductive StoreError
  | notFound (pin : Id)
  | typeMismatch (pin : Id) (expected found : ValueKind)
deriving DecidableEq

def StoreError.message : StoreError → String
  | notFound pin => s!"No value registered for pin {pin}"
  | typeMismatch pin expected found =>
    s!"Pin {pin} holds " ++ found.name ++ ", expected " ++ expected.name

namespace ValueStore

def fetch (s : ValueStore) (pin : Id) : Except StoreError Value :=
  match s.get? pin with
  | some v => .ok v
  | none => .error (.notFound pin)

/-- The value in a box that is to hold one kind. -/
def fetchKind (s : ValueStore) (pin : Id) (kind : ValueKind) : Except StoreError Value :=
  match s.get? pin with
  | none => .error (.notFound pin)
  | some v => if v.kind = kind then .ok v else .error (.typeMismatch pin kind v.kind)

end ValueStore

end DrawGraph
