import DrawGraph.Proofs.Graph.Change
import DrawGraph.Proofs.Graph.Path
import DrawGraph.Value.Store
import Mathlib.Logic.Function.Basic

/-!
# Wirings

A wiring gives each node of the graph its role: the identity of a UI node, or an input or output
that belongs to an identity. The roles say which targets a node may have and what its box may hold.
Every change that an editor makes to its graph and boxes keeps them to a wiring.
-/

namespace DrawGraph

/-- The kinds of value that an output may give. A sum or product may give numbers of both kinds. -/
inductive Offer
  | exactly (kind : ValueKind)
  | number
deriving DecidableEq

namespace Offer

def Admits : Offer → ValueKind → Prop
  | exactly k, kind => kind = k
  | number, kind => kind = .float ∨ kind = .int

/-- Some value that the output may give is good for an input of the kind. -/
def Feeds (o : Offer) (kind : ValueKind) : Prop := ∃ k, o.Admits k ∧ k.canFeed kind

end Offer

inductive Role
  | identity (inputs outputs : List Id)
  | input (owner : Id) (kind : ValueKind)
  | output (owner : Id) (offer : Offer)
deriving DecidableEq

abbrev Wiring := Id → Option Role

namespace Role

/-- The node that a role describes. -/
def Describes : Role → Node → Prop
  | identity .., n => n.direction = .none ∧ n.type ≠ .value
  | input .., n => n.direction = .input
  | output .., n => n.direction = .output

/-- The box beside a node with a role, if it has one. -/
def Boxes : Option Role → Option Value → Prop
  | some (input _ kind), b => ∃ v, b = some v ∧ v.kind = kind
  | some (output _ offer), b => ∃ v, b = some v ∧ offer.Admits v.kind
  | _, b => b = none

theorem Boxes.of_kind {r : Option Role} {u v : Value} (h : Boxes r (some v))
    (hk : u.kind = v.kind) :
    Boxes r (some u) := by
  cases r with
  | none => cases h
  | some r =>
      cases r with
      | identity inputs outputs => cases h
      | input owner kind =>
          obtain ⟨_, hv, hkind⟩ := h
          cases hv
          exact ⟨u, rfl, hk.trans hkind⟩
      | output owner offer =>
          obtain ⟨_, hv, hadmits⟩ := h
          cases hv
          exact ⟨u, rfl, hk ▸ hadmits⟩

/-- The targets of a node with a role: an identity leads to its inputs, an output to its identity,
and an input to nothing or to an output of another identity that can feed it. -/
def Aims (w : Wiring) : Role → List Id → Prop
  | identity inputs _, ts => ts = inputs
  | input owner kind, ts => ts = [] ∨ ∃ o p offer, ts = [o] ∧ w o = some (.output p offer) ∧
      p ≠ owner ∧ offer.Feeds kind
  | output owner _, ts => ts = [owner]

/-- Identities and pins know each other. -/
def Belongs (w : Wiring) (id : Id) : Role → Prop
  | identity inputs outputs => inputs.Nodup ∧ (∀ i ∈ inputs, ∃ k, w i = some (.input id k)) ∧
      ∀ o ∈ outputs, ∃ offer, w o = some (.output id offer)
  | input owner _ => ∃ inputs outputs, w owner = some (.identity inputs outputs) ∧ id ∈ inputs
  | output owner _ => ∃ inputs outputs, w owner = some (.identity inputs outputs) ∧ id ∈ outputs

/-- The second role is the first, but that an identity may have more pins. -/
def Within : Role → Role → Prop
  | identity inputs outputs, r => ∃ inputs' outputs', r = identity inputs' outputs' ∧
      (∀ i ∈ inputs, i ∈ inputs') ∧ ∀ o ∈ outputs, o ∈ outputs'
  | r, s => s = r

theorem Within.refl (r : Role) : r.Within r := by
  cases r with
  | identity inputs outputs => exact ⟨inputs, outputs, rfl, fun _ h => h, fun _ h => h⟩
  | input => rfl
  | output => rfl

end Role

/-- The identities and the pins of a wiring know each other. -/
def Wiring.Coherent (w : Wiring) : Prop := ∀ id r, w id = some r → r.Belongs w id

namespace Wiring.Coherent

variable {w : Wiring} {id owner : Id} (h : w.Coherent)

include h

theorem input {kind : ValueKind} (hw : w id = some (.input owner kind)) :
    ∃ inputs outputs, w owner = some (.identity inputs outputs) ∧ id ∈ inputs :=
  h id _ hw

theorem output {offer : Offer} (hw : w id = some (.output owner offer)) :
    ∃ inputs outputs, w owner = some (.identity inputs outputs) ∧ id ∈ outputs :=
  h id _ hw

theorem identity {inputs outputs : List Id} (hw : w id = some (.identity inputs outputs)) :
    inputs.Nodup ∧ (∀ i ∈ inputs, ∃ k, w i = some (.input id k)) ∧
      ∀ o ∈ outputs, ∃ offer, w o = some (.output id offer) :=
  h id _ hw

end Wiring.Coherent

/-- The graph and the boxes are those of the wiring. -/
structure Wired (w : Wiring) (g : Graph) (values : ValueStore) : Prop where
  consistent : g.Consistent
  acyclic : g.Acyclic
  absent : ∀ id, w id = none → g.node? id = none
  node : ∀ id r, w id = some r → ∃ n, g.node? id = some n ∧ r.Describes n
  box : ∀ id, Role.Boxes (w id) (values.get? id)
  aims : ∀ id r, w id = some r → r.Aims w (g.neighbors id)
  belongs : ∀ id r, w id = some r → r.Belongs w id
  kind : ∀ i e, g.edge? i = some e →
    (e.kind = .external ↔ ∃ owner kind, w e.source = some (.input owner kind))

/-- A node with a role, its box and its targets are as the role says. -/
structure Role.Stands (r : Role) (w : Wiring) (g : Graph) (values : ValueStore) (id : Id) :
    Prop where
  node : ∃ n, g.node? id = some n ∧ r.Describes n
  box : Role.Boxes (some r) (values.get? id)
  aims : r.Aims w (g.neighbors id)
  belongs : r.Belongs w id

namespace Wired

variable {w w' : Wiring} {g g' : Graph} {values : ValueStore} {id : Id}

theorem empty : Wired (fun _ => none) .empty .empty where
  consistent := .empty
  acyclic := .empty
  absent _ _ := by simp [Graph.empty, Graph.node?]
  node _ _ h := by cases h
  box _ := Table.get?_empty _
  aims _ _ h := by cases h
  belongs _ _ h := by cases h
  kind _ _ h := by simp [Graph.empty, Graph.edge?] at h

/-- The outbox has no part in the wiring. -/
theorem withOutbox (h : Wired w g values) (events : List Event) :
    Wired w { g with outbox := events } values where
  consistent := h.consistent.withOutbox events
  acyclic := h.acyclic
  absent := h.absent
  node := h.node
  box := h.box
  aims := h.aims
  belongs := h.belongs
  kind := h.kind

theorem hasNode_iff (h : Wired w g values) (id : Id) : g.hasNode id ↔ (w id).isSome := by
  rw [Graph.hasNode_eq]
  cases hw : w id with
  | none => simp [h.absent id hw]
  | some r =>
      obtain ⟨n, hn, _⟩ := h.node id r hw
      simp [hn]

theorem hasNode (h : Wired w g values) {r : Role} (hw : w id = some r) : g.hasNode id := by
  rw [h.hasNode_iff, hw]
  rfl

theorem eq_none (h : Wired w g values) (hn : g.hasNode id = false) : w id = none := by
  have := h.hasNode_iff id
  cases hw : w id with
  | none => rfl
  | some r => simp_all

theorem isSome_of_mem_neighbors (h : Wired w g values) {m n : Id} (hm : m ∈ g.neighbors n) :
    (w m).isSome :=
  (h.hasNode_iff m).1 (h.consistent.hasNode_of_mem_neighbors hm).2

/-- Nothing leads to a node that is not there. -/
theorem notMem_neighbors (h : Wired w g values) {m : Id} (hw : w m = none) (n : Id) :
    m ∉ g.neighbors n := by
  intro hm
  have := h.isSome_of_mem_neighbors hm
  simp [hw] at this

theorem stands (h : Wired w g values) {r : Role} (hw : w id = some r) : r.Stands w g values id where
  node := h.node id r hw
  box := hw ▸ h.box id
  aims := h.aims id r hw
  belongs := h.belongs id r hw

theorem coherent (h : Wired w g values) : w.Coherent := h.belongs

theorem input_belongs (h : Wired w g values) {owner : Id} {kind : ValueKind}
    (hw : w id = some (.input owner kind)) :
    ∃ inputs outputs, w owner = some (.identity inputs outputs) ∧ id ∈ inputs :=
  h.coherent.input hw

theorem output_belongs (h : Wired w g values) {owner : Id} {offer : Offer}
    (hw : w id = some (.output owner offer)) :
    ∃ inputs outputs, w owner = some (.identity inputs outputs) ∧ id ∈ outputs :=
  h.coherent.output hw

theorem output_box (h : Wired w g values) {owner : Id} {offer : Offer}
    (hw : w id = some (.output owner offer)) :
    ∃ v, values.get? id = some v ∧ offer.Admits v.kind := by
  have hbox := h.box id
  rwa [hw] at hbox

theorem input_box (h : Wired w g values) {owner : Id} {kind : ValueKind}
    (hw : w id = some (.input owner kind)) : ∃ v, values.get? id = some v ∧ v.kind = kind := by
  have hbox := h.box id
  rwa [hw] at hbox

theorem identity_belongs (h : Wired w g values) {inputs outputs : List Id}
    (hw : w id = some (.identity inputs outputs)) :
    inputs.Nodup ∧ (∀ i ∈ inputs, ∃ k, w i = some (.input id k)) ∧
      ∀ o ∈ outputs, ∃ offer, w o = some (.output id offer) :=
  h.coherent.identity hw

end Wired

/-- Roles only grow. -/
def Wiring.Grows (w w' : Wiring) : Prop :=
  ∀ id r, w id = some r → ∃ r', w' id = some r' ∧ r.Within r'

namespace Wiring.Grows

variable {w w' : Wiring} (h : w.Grows w')

include h

theorem input {id owner : Id} {kind : ValueKind} (hw : w id = some (.input owner kind)) :
    w' id = some (.input owner kind) := by
  obtain ⟨r', hr', rfl⟩ := h id _ hw
  exact hr'

theorem output {id owner : Id} {offer : Offer} (hw : w id = some (.output owner offer)) :
    w' id = some (.output owner offer) := by
  obtain ⟨r', hr', rfl⟩ := h id _ hw
  exact hr'

theorem aims {r : Role} {ts : List Id} (ha : r.Aims w ts) : r.Aims w' ts := by
  cases r with
  | identity inputs outputs => exact ha
  | input owner kind =>
      rcases ha with hnil | ⟨o, p, offer, hts, ho, hp, hf⟩
      · exact Or.inl hnil
      · exact Or.inr ⟨o, p, offer, hts, h.output ho, hp, hf⟩
  | output owner offer => exact ha

theorem exists_input_iff {id : Id} (hs : (w id).isSome) :
    (∃ owner kind, w' id = some (.input owner kind)) ↔
      ∃ owner kind, w id = some (.input owner kind) := by
  obtain ⟨r, hr⟩ := Option.isSome_iff_exists.1 hs
  obtain ⟨r', hr', hwithin⟩ := h id r hr
  rw [hr, hr']
  cases r with
  | identity inputs outputs =>
      obtain ⟨_, _, rfl, _⟩ := hwithin
      simp
  | input owner kind =>
      obtain rfl : r' = _ := hwithin
      rfl
  | output owner offer =>
      obtain rfl : r' = _ := hwithin
      rfl

theorem belongs {id : Id} {r : Role} (hb : r.Belongs w id) : r.Belongs w' id := by
  cases r with
  | identity inputs outputs =>
      obtain ⟨hnodup, hin, hout⟩ := hb
      refine ⟨hnodup, ?_, ?_⟩
      · intro i hi
        obtain ⟨k, hk⟩ := hin i hi
        exact ⟨k, h.input hk⟩
      · intro o ho
        obtain ⟨offer, hoffer⟩ := hout o ho
        exact ⟨offer, h.output hoffer⟩
  | input owner kind =>
      obtain ⟨inputs, outputs, ho, hi⟩ := hb
      obtain ⟨_, hr', inputs', outputs', rfl, hsub, _⟩ := h owner _ ho
      exact ⟨inputs', outputs', hr', hsub id hi⟩
  | output owner offer =>
      obtain ⟨inputs, outputs, ho, hi⟩ := hb
      obtain ⟨_, hr', inputs', outputs', rfl, _, hsub⟩ := h owner _ ho
      exact ⟨inputs', outputs', hr', hsub id hi⟩

end Wiring.Grows

end DrawGraph
