import DrawGraph.Proofs.Attempt
import DrawGraph.Proofs.Editor.Casting
import DrawGraph.Proofs.Graph.Order
import DrawGraph.UiNode.Create
import DrawGraph.UiNode.React

/-!
# The moves of UI nodes

All that a UI node does to a scene, whether it is made or reacts or goes, it does by a few moves. It
adds nodes under new ids, as pins of an identity at home with it; it writes and drops pins of its
own; and it may load assets. So what holds after every move holds after whatever UI nodes do, and a
pin that is not theirs keeps its box and gains no target.
-/

namespace DrawGraph

open Relation

namespace Scene

/-- One change of a scene by a UI node. Pins are added to the identities in `home`, and written or
dropped only in `mine`. -/
inductive Move (home mine : Id → Prop) (s : Scene) : Scene → Prop
  | addNode {n : Node} {id : Id} {g : Graph} (h : s.graph.addNode n = .ok (id, g)) :
      Move home mine s { s with graph := g }
  | addInput {id pin : Id} {v : Value} {s' : Scene} (hid : home id)
      (h : (addInput id v).on s = (.ok pin, s')) : Move home mine s s'
  | addOutput {id pin : Id} {v : Value} {s' : Scene} (hid : home id)
      (h : (addOutput id v).on s = (.ok pin, s')) : Move home mine s s'
  | unbox {pin : Id} (hpin : mine pin) : Move home mine s { s with values := s.values.erase pin }
  | eraseNode {id : Id} {n : Node} {g : Graph} (hid : mine id)
      (h : s.graph.eraseNode id = .ok (n, g)) : Move home mine s { s with graph := g }
  | write {pin : Id} (v : Value) (hpin : mine pin) : Move home mine s (s.write pin v)
  | load (a : AssetStore) :
      Move home mine s { s with services := { s.services with assets := a } }

abbrev Moves (home mine : Id → Prop) : Scene → Scene → Prop := ReflTransGen (Move home mine)

variable {home mine : Id → Prop} {s s' : Scene} {id pin : Id}

theorem Move.mono {mine' : Id → Prop} (h : Move home mine s s') (hle : ∀ p, mine p → mine' p) :
    Move home mine' s s' := by
  cases h with
  | addNode h => exact .addNode h
  | addInput hid h => exact .addInput hid h
  | addOutput hid h => exact .addOutput hid h
  | unbox hpin => exact .unbox (hle _ hpin)
  | eraseNode hid h => exact .eraseNode (hle _ hid) h
  | write v hpin => exact .write v (hle _ hpin)
  | load a => exact .load a

/-! ## Pins -/

section OnGraph

variable {α : Type} {f : Graph → Except GraphError (α × Graph)}

theorem onGraph_eq_ok {a : α} (h : (onGraph f).on s = (.ok a, s')) :
    ∃ g, f s.graph = .ok (a, g) ∧ s' = { s with graph := g } := by
  rw [onGraph, Attempt.on_of] at h
  cases hf : f s.graph with
  | error err => simp [hf] at h
  | ok p =>
      simp only [hf, Prod.mk.injEq, Except.ok.injEq] at h
      obtain ⟨rfl, rfl⟩ := h
      exact ⟨p.2, rfl, rfl⟩

theorem onGraph_eq_error {err : GraphError} (h : (onGraph f).on s = (.error err, s')) :
    f s.graph = .error err ∧ s' = s := by
  rw [onGraph, Attempt.on_of] at h
  cases hf : f s.graph with
  | error e =>
      rw [hf] at h
      cases h
      exact ⟨rfl, rfl⟩
  | ok p => simp [hf] at h

end OnGraph

/-- A new pin of either direction: a node, then an edge between it and its identity, then a box. -/
def addPin (direction : Direction) (source target : Id → Id) (v : Value) :
    Attempt GraphError Scene Id := do
  let pin ← onGraph (·.addNode (pinNode direction v))
  let _ ← onGraph (·.addEdge (source pin) (target pin) .internal)
  modify fun s => { s with values := s.values.put pin v }
  return pin

theorem addInput_eq (id : Id) (v : Value) :
    addInput id v = addPin .input (fun _ => id) (fun pin => pin) v := rfl

theorem addOutput_eq (id : Id) (v : Value) :
    addOutput id v = addPin .output (fun pin => pin) (fun _ => id) v := rfl

section AddPin

variable {direction : Direction} {source target : Id → Id} {v : Value}

theorem addPin_eq_ok (h : (addPin direction source target v).on s = (.ok pin, s')) :
    ∃ g₁ edge g₂, s.graph.addNode (pinNode direction v) = .ok (pin, g₁) ∧
      g₁.addEdge (source pin) (target pin) .internal = .ok (edge, g₂) ∧
        s' = { s with graph := g₂, values := s.values.put pin v } := by
  obtain ⟨pin', s₁, hnode, h⟩ := Attempt.on_bind_eq_ok h
  obtain ⟨edge, s₂, hedge, h⟩ := Attempt.on_bind_eq_ok h
  obtain ⟨g₁, hnode', rfl⟩ := onGraph_eq_ok hnode
  obtain ⟨g₂, hedge', rfl⟩ := onGraph_eq_ok hedge
  rw [Attempt.on_bind_of_ok (Attempt.on_modify _ _), Attempt.on_pure] at h
  cases h
  exact ⟨g₁, edge, g₂, hnode', hedge', rfl⟩

/-- A pin that could not be made has no node, or no edge. -/
theorem addPin_eq_error {err : GraphError}
    (h : (addPin direction source target v).on s = (.error err, s')) :
    s.graph.addNode (pinNode direction v) = .error err ∧ s' = s ∨
      ∃ pin g₁, s.graph.addNode (pinNode direction v) = .ok (pin, g₁) ∧
        g₁.addEdge (source pin) (target pin) .internal = .error err ∧
          s' = { s with graph := g₁ } := by
  rcases Attempt.on_bind_eq_error h with hnode | ⟨pin, s₁, hnode, h⟩
  · obtain ⟨herr, rfl⟩ := onGraph_eq_error hnode
    exact Or.inl ⟨herr, rfl⟩
  · obtain ⟨g₁, hadd, rfl⟩ := onGraph_eq_ok hnode
    rcases Attempt.on_bind_eq_error h with hedge | ⟨edge, s₂, _, h⟩
    · obtain ⟨herr, rfl⟩ := onGraph_eq_error hedge
      exact Or.inr ⟨pin, g₁, hadd, herr, rfl⟩
    · cases h

/-- What making a pin comes to, when what is to hold of its failures does hold of them. -/
theorem addPin_ensures (hc : s.graph.Consistent) {fails : GraphError → Scene → Prop}
    (hnode : ∀ err, s.graph.addNode (pinNode direction v) = .error err → fails err s)
    (hedge : ∀ err pin g₁, s.graph.AddsNode (pinNode direction v) pin g₁ →
      g₁.addEdge (source pin) (target pin) .internal = .error err →
        fails err { s with graph := g₁ }) :
    (addPin direction source target v).Ensures s fails fun pin s' => ∃ g₁ edge g₂,
      s.graph.AddsNode (pinNode direction v) pin g₁ ∧
        g₁.AddsEdge ⟨edge, source pin, target pin, .internal⟩ g₂ ∧
          s' = { s with graph := g₂, values := s.values.put pin v } := by
  unfold Attempt.Ensures
  split
  · next pin s' h =>
    obtain ⟨g₁, edge, g₂, hadd, he, rfl⟩ := addPin_eq_ok h
    have ha := hc.addNode hadd
    exact ⟨g₁, edge, g₂, ha, (ha.consistent.addEdge he).2.2, rfl⟩
  · next err s' h =>
    rcases addPin_eq_error h with ⟨herr, rfl⟩ | ⟨pin, g₁, hadd, herr, rfl⟩
    · exact hnode err herr
    · exact hedge err pin g₁ (hc.addNode hadd) herr

end AddPin

theorem addInput_eq_ok {v : Value} (h : (addInput id v).on s = (.ok pin, s')) :
    ∃ g₁ edge g₂, s.graph.addNode (pinNode .input v) = .ok (pin, g₁) ∧
      g₁.addEdge id pin .internal = .ok (edge, g₂) ∧
        s' = { s with graph := g₂, values := s.values.put pin v } :=
  addPin_eq_ok (addInput_eq id v ▸ h)

theorem addOutput_eq_ok {v : Value} (h : (addOutput id v).on s = (.ok pin, s')) :
    ∃ g₁ edge g₂, s.graph.addNode (pinNode .output v) = .ok (pin, g₁) ∧
      g₁.addEdge pin id .internal = .ok (edge, g₂) ∧
        s' = { s with graph := g₂, values := s.values.put pin v } :=
  addPin_eq_ok (addOutput_eq id v ▸ h)

/-! ## Boxes that are written -/

@[simp] theorem get?_write (s : Scene) (pin : Id) (v : Value) (p : Id) :
    (s.write pin v).values.get? p = if p = pin then some v else s.values.get? p := by
  cases hv : v.scalar? <;> simp [write, store, hv, Table.get?_put]

theorem node?_write (s : Scene) (pin : Id) (v : Value) (p : Id) :
    (s.write pin v).graph.node? p = (s.graph.node? p).map fun n =>
      if p = pin then { n with value := v.scalar?.getD n.value } else n := by
  cases hv : v.scalar? with
  | none => simp [write, store, hv]
  | some x => simp only [write, store, hv, Graph.node?_modify, Option.getD_some]

@[simp] theorem hasNode_write (s : Scene) (pin : Id) (v : Value) (p : Id) :
    (s.write pin v).graph.hasNode p = s.graph.hasNode p := by
  rw [Graph.hasNode_eq, node?_write, Option.isSome_map, ← Graph.hasNode_eq]

@[simp] theorem neighbors_write (s : Scene) (pin : Id) (v : Value) (p : Id) :
    (s.write pin v).graph.neighbors p = s.graph.neighbors p := by
  cases hv : v.scalar? <;> simp [write, store, hv, Graph.neighbors]

@[simp] theorem edge?_write (s : Scene) (pin : Id) (v : Value) (i : Id) :
    (s.write pin v).graph.edge? i = s.graph.edge? i := by
  cases hv : v.scalar? <;> simp [write, store, hv, Graph.edge?]

theorem ordered_write (h : s.graph.Ordered) (pin : Id) (v : Value) :
    (s.write pin v).graph.Ordered := by
  cases hv : v.scalar? with
  | none => simpa [write, store, hv] using h
  | some x => simpa [write, store, hv] using h.setNumber pin x

theorem consistent_write (h : s.graph.Consistent) (pin : Id) (v : Value) :
    (s.write pin v).graph.Consistent := by
  cases hv : v.scalar? with
  | none => simpa [write, store, hv] using h
  | some x => simpa [write, store, hv] using h.setNumber pin x

@[simp] theorem nextId_write (s : Scene) (pin : Id) (v : Value) :
    (s.write pin v).graph.nextId = s.graph.nextId := by
  cases hv : v.scalar? <;> simp [write, store, hv]

@[simp] theorem outbox_write (s : Scene) (pin : Id) (v : Value) :
    (s.write pin v).graph.outbox = s.graph.outbox := by
  cases hv : v.scalar? <;> simp [write, store, hv]

@[simp] theorem services_write (s : Scene) (pin : Id) (v : Value) :
    (s.write pin v).services = s.services := by
  cases hv : v.scalar? <;> simp [write, store, hv]

/-! ## Tidy scenes -/

/-- The targets stand in the order of their edges, boxes belong to ids that were given out, and the
node of an input has the number of its box. -/
structure Tidy (s : Scene) : Prop where
  ordered : s.graph.Ordered
  boxes_lt : ∀ p, (s.values.get? p).isSome → p < s.graph.nextId
  mirrors : ∀ p n v x, s.graph.node? p = some n → n.direction = .input →
    s.values.get? p = some v → v.scalar? = some x → n.value = x

namespace Tidy

variable {n : Node} {g : Graph}

theorem addNode (h : s.Tidy) (ha : s.graph.AddsNode n id g) : Tidy { s with graph := g } := by
  constructor
  · exact h.ordered.addsNode ha
  · exact fun p hp => UInt32.lt_of_lt_of_le (h.boxes_lt p hp) ha.nextId_le
  · intro p k v x hk hdir hv hx
    -- the new node has no box yet
    have hp := h.boxes_lt p (by rw [hv]; rfl)
    change g.node? p = some k at hk
    rw [ha.node?, if_neg] at hk
    · exact h.mirrors p k v x hk hdir hv hx
    · rintro rfl
      rw [ha.id_eq] at hp
      exact UInt32.lt_irrefl _ hp

theorem eraseNode (h : s.Tidy) (he : s.graph.ErasesNode id g) : Tidy { s with graph := g } := by
  constructor
  · exact h.ordered.erasesNode he
  · intro p hp
    rw [show g.nextId = s.graph.nextId from he.nextId]
    exact h.boxes_lt p hp
  · intro p k v x hk hdir hv hx
    change g.node? p = some k at hk
    rw [he.node?] at hk
    split at hk
    · cases hk
    · exact h.mirrors p k v x hk hdir hv hx

theorem unbox (h : s.Tidy) (pin : Id) : Tidy { s with values := s.values.erase pin } := by
  have hbox {p : Id} {v : Value} (hv : (s.values.erase pin).get? p = some v) :
      s.values.get? p = some v := by
    rw [Table.get?_erase] at hv
    split at hv
    · cases hv
    · exact hv
  constructor
  · exact h.ordered
  · intro p hp
    obtain ⟨v, hv⟩ := Option.isSome_iff_exists.1 hp
    exact h.boxes_lt p (by rw [hbox hv]; rfl)
  · exact fun p n v x hn hdir hv hx => h.mirrors p n v x hn hdir (hbox hv) hx

/-- Box and node of a pin are written together. -/
theorem write (h : s.Tidy) (v : Value) (hpin : pin < s.graph.nextId) : (s.write pin v).Tidy := by
  constructor
  · exact ordered_write h.ordered pin v
  · intro p hp
    rw [nextId_write]
    rw [get?_write] at hp
    split at hp
    · next heq => exact heq ▸ hpin
    · exact h.boxes_lt p hp
  · intro p k u x hk hdir hu hx
    rw [node?_write, Option.map_eq_some_iff] at hk
    obtain ⟨n, hn, rfl⟩ := hk
    rw [get?_write] at hu
    split at hu
    · next heq =>
      cases hu
      simp [heq, hx]
    · next heq =>
      rw [if_neg heq] at hdir ⊢
      exact h.mirrors p n u x hn hdir hu hx

end Tidy

/-- What a pin sees of changes that are not its own. -/
structure Spares (p : Id) (s s' : Scene) : Prop where
  box : s'.values.get? p = s.values.get? p
  targets : (s'.graph.neighbors p).Sublist (s.graph.neighbors p)

theorem Spares.refl (p : Id) (s : Scene) : Spares p s s := ⟨rfl, .refl _⟩

theorem Spares.trans {s'' : Scene} {p : Id} (h : Spares p s s') (h' : Spares p s' s'') :
    Spares p s s'' :=
  ⟨h'.box.trans h.box, h'.targets.trans h.targets⟩

section AddPin

variable {v : Value} {direction : Direction} {e : Edge} {g₁ g₂ : Graph}

theorem nextId_le_of_addPin (ha : s.graph.AddsNode (pinNode direction v) pin g₁)
    (he : g₁.AddsEdge e g₂) : s.graph.nextId ≤ g₂.nextId :=
  UInt32.le_trans ha.nextId_le he.nextId_le

theorem Tidy.addPin (h : s.Tidy) (ha : s.graph.AddsNode (pinNode direction v) pin g₁)
    (he : g₁.AddsEdge e g₂) (hnew : e.target ∉ g₁.neighbors e.source) :
    Tidy { s with graph := g₂, values := s.values.put pin v } := by
  have hnode (p : Id) : g₂.node? p =
      if p = pin then some (pinNode direction v) else s.graph.node? p := by
    rw [he.node?, ha.node?]
  constructor
  · exact (h.ordered.addsNode ha).addsEdge he hnew
  · intro p hp
    rw [Table.get?_put] at hp
    split at hp
    · next hpin =>
      apply he.consistent.node_lt
      rw [Graph.hasNode_eq, hnode, if_pos hpin]
      rfl
    · exact UInt32.lt_of_lt_of_le (h.boxes_lt p hp) (nextId_le_of_addPin ha he)
  · intro p n u x hn hdir hu hx
    rw [Table.get?_put] at hu
    change g₂.node? p = some n at hn
    rw [hnode] at hn
    split at hn
    · next hpin =>
      rw [if_pos hpin] at hu
      cases hn
      cases hu
      rw [pinNode, hx, Option.getD_some]
    · next hpin =>
      rw [if_neg hpin] at hu
      exact h.mirrors p n u x hn hdir hu hx

theorem ne_of_addPin {p : Id} (hp : p < s.graph.nextId)
    (ha : s.graph.AddsNode (pinNode direction v) pin g₁) : p ≠ pin := by
  rintro rfl
  rw [ha.id_eq] at hp
  exact UInt32.lt_irrefl _ hp

theorem targets_addPin {p : Id} (ha : s.graph.AddsNode (pinNode direction v) pin g₁)
    (he : g₁.AddsEdge e g₂) (hsource : p ≠ e.source) :
    (g₂.neighbors p).Sublist (s.graph.neighbors p) := by
  rw [he.neighbors, if_neg hsource, ha.neighbors]

theorem link_of_addPin (ha : s.graph.AddsNode (pinNode direction v) pin g₁)
    (he : g₁.AddsEdge e g₂) (hkind : e.kind = .internal) {i : Id} {f : Edge}
    (hf : g₂.edge? i = some f) (hext : f.kind = .external) : s.graph.edge? i = some f := by
  rw [he.edge?] at hf
  split at hf
  · cases hf
    rw [hkind] at hext
    cases hext
  · rwa [ha.edge?] at hf

theorem outbox_addPin (ha : s.graph.AddsNode (pinNode direction v) pin g₁)
    (he : g₁.AddsEdge e g₂) (hkind : e.kind = .internal) : g₂.outbox = s.graph.outbox := by
  rw [he.outbox, hkind, if_neg (by decide), List.append_nil, ha.outbox]

end AddPin

section AddsPin

variable {v : Value} {s' : Scene}

/-- What making an input does, with the new edge last among those of the identity. -/
theorem addsInput (hc : s.graph.Consistent) (h : (addInput id v).on s = (.ok pin, s')) :
    ∃ g₁ edge g₂, s.graph.AddsNode (pinNode .input v) pin g₁ ∧
      g₁.AddsEdge ⟨edge, id, pin, .internal⟩ g₂ ∧ pin ∉ g₁.neighbors id ∧
        s' = { s with graph := g₂, values := s.values.put pin v } := by
  obtain ⟨g₁, edge, g₂, hnode, hedge, rfl⟩ := addInput_eq_ok h
  have ha := hc.addNode hnode
  obtain ⟨_, _, he⟩ := ha.consistent.addEdge hedge
  refine ⟨g₁, edge, g₂, ha, he, ?_, rfl⟩
  rw [ha.neighbors]
  intro hmem
  have hlive := (hc.hasNode_of_mem_neighbors hmem).2
  rw [ha.fresh] at hlive
  cases hlive

theorem addsOutput (hc : s.graph.Consistent) (h : (addOutput id v).on s = (.ok pin, s')) :
    ∃ g₁ edge g₂, s.graph.AddsNode (pinNode .output v) pin g₁ ∧
      g₁.AddsEdge ⟨edge, pin, id, .internal⟩ g₂ ∧ id ∉ g₁.neighbors pin ∧
        s' = { s with graph := g₂, values := s.values.put pin v } := by
  obtain ⟨g₁, edge, g₂, hnode, hedge, rfl⟩ := addOutput_eq_ok h
  have ha := hc.addNode hnode
  obtain ⟨_, _, he⟩ := ha.consistent.addEdge hedge
  refine ⟨g₁, edge, g₂, ha, he, ?_, rfl⟩
  rw [ha.neighbors, hc.neighbors_eq_nil ha.fresh]
  exact List.not_mem_nil

end AddsPin

/-! ## What every move keeps -/

theorem Move.nextId_le (hc : s.graph.Consistent) (h : Move home mine s s') :
    s.graph.nextId ≤ s'.graph.nextId := by
  cases h with
  | addNode h => exact (hc.addNode h).nextId_le
  | addInput _ h =>
      obtain ⟨g₁, edge, g₂, ha, he, _, rfl⟩ := addsInput hc h
      exact nextId_le_of_addPin ha he
  | addOutput _ h =>
      obtain ⟨g₁, edge, g₂, ha, he, _, rfl⟩ := addsOutput hc h
      exact nextId_le_of_addPin ha he
  | unbox => exact UInt32.le_refl _
  | eraseNode _ h => exact (hc.erasesNode h).nextId ▸ UInt32.le_refl _
  | write v => exact nextId_write s _ v ▸ UInt32.le_refl _
  | load => exact UInt32.le_refl _

theorem Move.tidy (hs : s.Tidy) (hmine : ∀ p, mine p → p < s.graph.nextId)
    (h : Move home mine s s') : s'.Tidy := by
  have hc := hs.ordered.consistent
  cases h with
  | addNode h => exact hs.addNode (hc.addNode h)
  | addInput _ h =>
      obtain ⟨g₁, edge, g₂, ha, he, hnew, rfl⟩ := addsInput hc h
      exact hs.addPin ha he hnew
  | addOutput _ h =>
      obtain ⟨g₁, edge, g₂, ha, he, hnew, rfl⟩ := addsOutput hc h
      exact hs.addPin ha he hnew
  | unbox => exact hs.unbox _
  | eraseNode _ h => exact hs.eraseNode (hc.erasesNode h)
  | write v hpin => exact hs.write v (hmine _ hpin)
  | load => exact ⟨hs.ordered, hs.boxes_lt, hs.mirrors⟩

/-- A pin that is not among the moving ones keeps its box. -/
theorem Move.box (hc : s.graph.Consistent) {p : Id} (hp : p < s.graph.nextId) (hmine : ¬ mine p)
    (h : Move home mine s s') : s'.values.get? p = s.values.get? p := by
  cases h with
  | addNode | eraseNode | load => rfl
  | addInput _ h =>
      obtain ⟨_, _, _, ha, _, _, rfl⟩ := addsInput hc h
      exact (Table.get?_put ..).trans (if_neg (ne_of_addPin hp ha))
  | addOutput _ h =>
      obtain ⟨_, _, _, ha, _, _, rfl⟩ := addsOutput hc h
      exact (Table.get?_put ..).trans (if_neg (ne_of_addPin hp ha))
  | unbox hpin =>
      refine (Table.get?_erase ..).trans (if_neg ?_)
      rintro rfl
      exact hmine hpin
  | write v hpin =>
      rw [get?_write, if_neg]
      rintro rfl
      exact hmine hpin

theorem Move.spares (hc : s.graph.Consistent) {p : Id} (hp : p < s.graph.nextId) (hhome : ¬ home p)
    (hmine : ¬ mine p) (h : Move home mine s s') : Spares p s s' := by
  refine ⟨h.box hc hp hmine, ?_⟩
  cases h with
  | @addNode n id g h =>
      change (g.neighbors p).Sublist _
      rw [(hc.addNode h).neighbors]
  | @addInput id pin v _ hid h =>
      obtain ⟨g₁, edge, g₂, ha, he, _, rfl⟩ := addsInput hc h
      refine targets_addPin ha he ?_
      rintro rfl
      exact hhome hid
  | @addOutput id pin v _ _ h =>
      obtain ⟨g₁, edge, g₂, ha, he, _, rfl⟩ := addsOutput hc h
      exact targets_addPin ha he (ne_of_addPin hp ha)
  | @eraseNode id n g hid h =>
      change (g.neighbors p).Sublist _
      rw [(hc.erasesNode h).neighbors]
      split
      · exact List.nil_sublist _
      · exact List.filter_sublist
  | @write pin v hpin => rw [neighbors_write]
  | unbox | load => exact .refl _

theorem Move.consistent (hc : s.graph.Consistent) (h : Move home mine s s') :
    s'.graph.Consistent := by
  cases h with
  | addNode h => exact (hc.addNode h).consistent
  | addInput _ h =>
      obtain ⟨g₁, edge, g₂, ha, he, _, rfl⟩ := addsInput hc h
      exact he.consistent
  | addOutput _ h =>
      obtain ⟨g₁, edge, g₂, ha, he, _, rfl⟩ := addsOutput hc h
      exact he.consistent
  | unbox | load => exact hc
  | eraseNode _ h => exact (hc.erasesNode h).consistent
  | write v => exact consistent_write hc _ v

theorem Moves.consistent (hc : s.graph.Consistent) (h : Moves home mine s s') :
    s'.graph.Consistent ∧ s.graph.nextId ≤ s'.graph.nextId := by
  induction h with
  | refl => exact ⟨hc, UInt32.le_refl _⟩
  | tail _ hmove ih =>
      obtain ⟨hc, hle⟩ := ih
      exact ⟨hmove.consistent hc, UInt32.le_trans hle (hmove.nextId_le hc)⟩

theorem Moves.tidy (hs : s.Tidy) (hmine : ∀ p, mine p → p < s.graph.nextId)
    (h : Moves home mine s s') : s'.Tidy := by
  induction h with
  | refl => exact hs
  | tail hmoves hmove ih =>
      obtain ⟨_, hle⟩ := Moves.consistent hs.ordered.consistent hmoves
      exact hmove.tidy ih fun p hp => UInt32.lt_of_lt_of_le (hmine p hp) hle

theorem Moves.box (hc : s.graph.Consistent) (h : Moves home mine s s') {p : Id}
    (hp : p < s.graph.nextId) (hpin : ¬ mine p) : s'.values.get? p = s.values.get? p := by
  induction h with
  | refl => rfl
  | tail hmoves hmove ih =>
      obtain ⟨hc, hle⟩ := Moves.consistent hc hmoves
      exact (hmove.box hc (UInt32.lt_of_lt_of_le hp hle) hpin).trans ih

/-- A pin that is neither at home nor among the moving ones keeps its box and gains no target. -/
theorem Moves.spares (hc : s.graph.Consistent) (h : Moves home mine s s') {p : Id}
    (hp : p < s.graph.nextId) (hhome : ¬ home p) (hpin : ¬ mine p) : Spares p s s' := by
  induction h with
  | refl => exact .refl p s
  | tail hmoves hmove ih =>
      obtain ⟨hc, hle⟩ := Moves.consistent hc hmoves
      exact ih.trans (hmove.spares hc (UInt32.lt_of_lt_of_le hp hle) hhome hpin)

theorem Moves.shaders (h : Moves home mine s s') : s'.services.shaders = s.services.shaders := by
  induction h with
  | refl => rfl
  | tail _ hmove ih =>
      rw [← ih]
      cases hmove with
      | addInput _ h =>
          obtain ⟨_, _, _, _, _, rfl⟩ := addInput_eq_ok h
          rfl
      | addOutput _ h =>
          obtain ⟨_, _, _, _, _, rfl⟩ := addOutput_eq_ok h
          rfl
      | write v => rw [services_write]
      | _ => rfl

/-! ## Links that are cut -/

/-- A node that was there and will not be again. -/
def Gone (s : Scene) (p : Id) : Prop := s.graph.hasNode p = false ∧ p < s.graph.nextId

/-- No link leads to one of these. -/
def Unfed (mine : Id → Prop) (s : Scene) : Prop :=
  ∀ i e, s.graph.edge? i = some e → e.kind = .external → ¬ mine e.target

/-- The event tells of a link whose input is gone. -/
def TellsOfGone (s : Scene) (event : Event) : Prop := ∃ p q, event = .linkDeleted p q ∧ s.Gone p

theorem Gone.addPin {v : Value} {direction : Direction} {e : Edge} {g₁ g₂ : Graph} {p : Id}
    (hp : s.Gone p) (ha : s.graph.AddsNode (pinNode direction v) pin g₁) (he : g₁.AddsEdge e g₂) :
    Gone { s with graph := g₂, values := s.values.put pin v } p := by
  refine ⟨?_, UInt32.lt_of_lt_of_le hp.2 (nextId_le_of_addPin ha he)⟩
  have hne : p ≠ pin := by
    rintro rfl
    have hlt := hp.2
    rw [ha.id_eq] at hlt
    exact UInt32.lt_irrefl _ hlt
  have hnone := hp.1
  rw [Graph.hasNode_eq] at hnone ⊢
  rwa [he.node?, ha.node?, if_neg hne]

theorem Move.gone (hc : s.graph.Consistent) (h : Move home mine s s') {p : Id} (hp : s.Gone p) :
    s'.Gone p := by
  cases h with
  | @addNode n id g h =>
      have ha := hc.addNode h
      refine ⟨?_, UInt32.lt_of_lt_of_le hp.2 ha.nextId_le⟩
      have hne : p ≠ id := by
        rintro rfl
        have hlt := hp.2
        rw [ha.id_eq] at hlt
        exact UInt32.lt_irrefl _ hlt
      have hnone := hp.1
      rw [Graph.hasNode_eq] at hnone ⊢
      rwa [ha.node?, if_neg hne]
  | addInput _ h =>
      obtain ⟨g₁, edge, g₂, ha, he, _, rfl⟩ := addsInput hc h
      exact hp.addPin ha he
  | addOutput _ h =>
      obtain ⟨g₁, edge, g₂, ha, he, _, rfl⟩ := addsOutput hc h
      exact hp.addPin ha he
  | unbox => exact hp
  | @eraseNode id n g _ h =>
      have he := hc.erasesNode h
      refine ⟨?_, he.nextId ▸ hp.2⟩
      have hnone := hp.1
      rw [Graph.hasNode_eq] at hnone ⊢
      rw [he.node?]
      split
      · rfl
      · exact hnone
  | @write pin v hpin =>
      exact ⟨(hasNode_write s pin v p).trans hp.1, nextId_write s pin v ▸ hp.2⟩
  | load => exact hp

/-- No move makes a link. -/
theorem Move.link (hc : s.graph.Consistent) (h : Move home mine s s') {i : Id} {f : Edge}
    (hf : s'.graph.edge? i = some f) (hext : f.kind = .external) : s.graph.edge? i = some f := by
  cases h with
  | addNode h => exact (hc.addNode h).edge? i ▸ hf
  | addInput _ h =>
      obtain ⟨g₁, edge, g₂, ha, he, _, rfl⟩ := addsInput hc h
      exact link_of_addPin ha he rfl hf hext
  | addOutput _ h =>
      obtain ⟨g₁, edge, g₂, ha, he, _, rfl⟩ := addsOutput hc h
      exact link_of_addPin ha he rfl hf hext
  | unbox | load => exact hf
  | eraseNode _ h =>
      have hkept := (hc.erasesNode h).edge? i ▸ hf
      exact (Option.filter_eq_some_iff.1 hkept).1
  | write v => rwa [edge?_write] at hf

/-- Dropping pins to which no link leads cuts links of these pins only. -/
theorem Move.outbox (hc : s.graph.Consistent) (hunfed : Unfed mine s) (h : Move home mine s s')
    {event : Event} (hevent : event ∈ s'.graph.outbox) :
    event ∈ s.graph.outbox ∨ s'.TellsOfGone event := by
  cases h with
  | addNode h => exact Or.inl ((hc.addNode h).outbox ▸ hevent)
  | addInput _ h =>
      obtain ⟨g₁, edge, g₂, ha, he, _, rfl⟩ := addsInput hc h
      exact Or.inl (outbox_addPin ha he rfl ▸ hevent)
  | addOutput _ h =>
      obtain ⟨g₁, edge, g₂, ha, he, _, rfl⟩ := addsOutput hc h
      exact Or.inl (outbox_addPin ha he rfl ▸ hevent)
  | unbox | load => exact Or.inl hevent
  | @eraseNode id n g hid h =>
      have he := hc.erasesNode h
      refine (he.outbox event hevent).imp_right ?_
      rintro ⟨i, f, hf, htouch, hext, rfl⟩
      have htarget : f.target ≠ id := by
        rintro rfl
        exact hunfed i f hf hext hid
      obtain rfl : f.source = id := by simpa [Edge.touches, htarget] using htouch
      refine ⟨f.source, f.target, rfl, ?_, ?_⟩
      · change g.hasNode f.source = false
        rw [Graph.hasNode_eq, he.node?, if_pos rfl]
        rfl
      · change f.source < g.nextId
        rw [he.nextId]
        exact hc.node_lt _ (hc.ends i f hf).1
  | write v => exact Or.inl (outbox_write s _ v ▸ hevent)

theorem Moves.outbox (hc : s.graph.Consistent) (hunfed : Unfed mine s)
    (h : Moves home mine s s') :
    (∀ p, s.Gone p → s'.Gone p) ∧ Unfed mine s' ∧
      ∀ event ∈ s'.graph.outbox, event ∈ s.graph.outbox ∨ s'.TellsOfGone event := by
  induction h with
  | refl => exact ⟨fun _ hp => hp, hunfed, fun _ h => Or.inl h⟩
  | tail hmoves hmove ih =>
      obtain ⟨hgone, hunfed, houtbox⟩ := ih
      have hc := (Moves.consistent hc hmoves).1
      refine ⟨fun p hp => hmove.gone hc (hgone p hp),
        fun i f hf hext => hunfed i f (hmove.link hc hf hext) hext, fun event hevent => ?_⟩
      rcases hmove.outbox hc hunfed hevent with hold | hnew
      · refine (houtbox event hold).imp_right ?_
        rintro ⟨p, q, rfl, hp⟩
        exact ⟨p, q, rfl, hmove.gone hc hp⟩
      · exact Or.inr hnew

end Scene

end DrawGraph
