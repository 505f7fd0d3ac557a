import DrawGraph.Proofs.Editor.Operation

/-!
# Reached editors are well-formed

In a reached editor the graph, the boxes, the UI nodes and the observers tell the same story: which
identities and pins there are, whose they are, how they are linked and who is told of events. This
is said here of the tables alone.
-/

namespace DrawGraph

open Wiring

namespace Editor

variable {w : Wiring} {e e' : Editor} {id pin : Id}

/-- The tables of the editor fit together. -/
structure WellFormed (e : Editor) : Prop where
  nodup : (e.nodes.flatMap fun n => n.id :: n.pins).Nodup
  hasNode_iff : ∀ id, e.graph.hasNode id ↔ ∃ n ∈ e.nodes, id = n.id ∨ id ∈ n.pins
  identity : ∀ n ∈ e.nodes, (e.graph.node? n.id).map Node.direction = some .none
  input : ∀ n ∈ e.nodes, ∀ i ∈ n.inputs, (e.graph.node? i).map Node.direction = some .input
  output : ∀ n ∈ e.nodes, ∀ o ∈ n.outputs, (e.graph.node? o).map Node.direction = some .output
  box_iff : ∀ id, (e.values.get? id).isSome ↔ ∃ n ∈ e.nodes, id ∈ n.pins
  neighbors_identity : ∀ n ∈ e.nodes, e.graph.neighbors n.id = n.inputs
  neighbors_output : ∀ n ∈ e.nodes, ∀ o ∈ n.outputs, e.graph.neighbors o = [n.id]
  /-- An input has no edge, or one link to an output of another UI node. -/
  edgesFrom_input : ∀ n ∈ e.nodes, ∀ i ∈ n.inputs, e.graph.edgesFrom i = [] ∨
    ∃ k o, e.graph.edgesFrom i = [⟨k, i, o, .external⟩] ∧ e.graph.neighbors i = [o] ∧
      ∃ m ∈ e.nodes, m.id ≠ n.id ∧ o ∈ m.outputs
  edges_perm : ∀ id, ((e.graph.edgesFrom id).map Edge.target).Perm (e.graph.neighbors id)
  /-- Besides links there are the edges inside UI nodes. -/
  edge_internal : ∀ edge ∈ e.graph.edgeList, edge.kind = .internal →
    ∃ n ∈ e.nodes, edge.source = n.id ∧ edge.target ∈ n.inputs ∨
      edge.source ∈ n.outputs ∧ edge.target = n.id
  edge_external : ∀ edge ∈ e.graph.edgeList, edge.kind = .external →
    ∃ n ∈ e.nodes, edge.source ∈ n.inputs
  bus : e.bus = (e.nodes.filter (·.observes)).map (·.id)
  bus_nodup : e.bus.Nodup

namespace Sound

variable (hs : e.Sound w)

include hs

theorem nodup : (e.nodes.flatMap fun n => n.id :: n.pins).Nodup := by
  refine List.nodup_flatMap.2 ⟨fun n hn => (hs.casts.plays n hn).nodup hs.wired.coherent, ?_⟩
  have hids := List.pairwise_map.1 hs.casts.nodup
  refine hids.imp_of_mem fun hn hm hne id hidn hidm => hne ?_
  obtain ⟨r, hr, hhome⟩ := (hs.casts.plays _ hn).home_eq hidn
  obtain ⟨r', hr', hhome'⟩ := (hs.casts.plays _ hm).home_eq hidm
  rw [hr] at hr'
  cases hr'
  exact hhome.symm.trans hhome'

theorem hasNode_iff_mem (id : Id) :
    e.graph.hasNode id ↔ ∃ n ∈ e.nodes, id = n.id ∨ id ∈ n.pins := by
  rw [hs.wired.hasNode_iff]
  constructor
  · intro h
    obtain ⟨r, hr⟩ := Option.isSome_iff_exists.1 h
    cases r with
    | identity inputs outputs =>
        obtain ⟨n, hn, hid, _⟩ := hs.identity_node hr
        exact ⟨n, hn, Or.inl hid.symm⟩
    | input owner kind =>
        obtain ⟨n, hn, _, hmem⟩ := hs.input_node hr
        exact ⟨n, hn, Or.inr (List.mem_append_left _ hmem)⟩
    | output owner offer =>
        obtain ⟨n, hn, _, hmem⟩ := hs.output_node hr
        exact ⟨n, hn, Or.inr (List.mem_append_right _ hmem)⟩
  · rintro ⟨n, hn, hid⟩
    obtain ⟨r, hr, _⟩ := (hs.casts.plays n hn).home_eq (List.mem_cons.2 hid)
    rw [hr]
    rfl

theorem box_iff_mem (id : Id) : (e.values.get? id).isSome ↔ ∃ n ∈ e.nodes, id ∈ n.pins := by
  have hbox := hs.wired.box id
  constructor
  · intro h
    cases hr : w id with
    | none =>
        rw [hr] at hbox
        simp [show e.values.get? id = none from hbox] at h
    | some r =>
        rw [hr] at hbox
        cases r with
        | identity inputs outputs => simp [show e.values.get? id = none from hbox] at h
        | input owner kind =>
            obtain ⟨n, hn, _, hmem⟩ := hs.input_node hr
            exact ⟨n, hn, List.mem_append_left _ hmem⟩
        | output owner offer =>
            obtain ⟨n, hn, _, hmem⟩ := hs.output_node hr
            exact ⟨n, hn, List.mem_append_right _ hmem⟩
  · rintro ⟨n, hn, hmem⟩
    rcases List.mem_append.1 hmem with hin | hout
    · obtain ⟨kind, _, hr⟩ := (hs.casts.plays n hn).input hin
      obtain ⟨v, hv, _⟩ := hs.wired.input_box hr
      simp [hv]
    · obtain ⟨v, hv, _⟩ := hs.wired.output_box ((hs.casts.plays n hn).output hout)
      simp [hv]

theorem edgesFrom_input {n : UiNode} (hn : n ∈ e.nodes) {i : Id} (hi : i ∈ n.inputs) :
    e.graph.edgesFrom i = [] ∨
      ∃ k o, e.graph.edgesFrom i = [⟨k, i, o, .external⟩] ∧ e.graph.neighbors i = [o] ∧
        ∃ m ∈ e.nodes, m.id ≠ n.id ∧ o ∈ m.outputs := by
  obtain ⟨kind, _, hr⟩ := (hs.casts.plays n hn).input hi
  have hperm := hs.wired.consistent.perm i
  rcases hs.wired.aims i _ hr with hnil | ⟨o, p, offer, ho, hrole, hp, _⟩
  · rw [hnil, List.nil_perm, List.map_eq_nil_iff] at hperm
    exact Or.inl hperm
  · rw [ho, List.singleton_perm, eq_comm, List.map_eq_singleton_iff] at hperm
    obtain ⟨edge, hedge, rfl⟩ := hperm
    have hmem : edge ∈ e.graph.edgesFrom i := by simp [hedge]
    obtain ⟨⟨k, hk⟩, rfl⟩ := Graph.mem_edgesFrom.1 hmem
    have hkind := (hs.wired.kind k edge hk).2 ⟨_, _, hr⟩
    obtain ⟨m, hm, rfl, hout⟩ := hs.output_node hrole
    obtain ⟨k', source, target, kind'⟩ := edge
    obtain rfl : kind' = .external := hkind
    exact Or.inr ⟨k', target, hedge, ho, m, hm, hp, hout⟩

theorem edge_internal {edge : Edge} (hedge : edge ∈ e.graph.edgeList)
    (hkind : edge.kind = .internal) :
    ∃ n ∈ e.nodes, edge.source = n.id ∧ edge.target ∈ n.inputs ∨
      edge.source ∈ n.outputs ∧ edge.target = n.id := by
  obtain ⟨k, hk⟩ := Graph.mem_edgeList.1 hedge
  have hmem : edge.target ∈ e.graph.neighbors edge.source :=
    hs.wired.consistent.mem_neighbors.2 ⟨edge, Graph.mem_edgesFrom.2 ⟨⟨k, hk⟩, rfl⟩, rfl⟩
  have hends := (hs.wired.hasNode_iff _).1 (hs.wired.consistent.ends k edge hk).1
  obtain ⟨r, hr⟩ := Option.isSome_iff_exists.1 hends
  have haims := hs.wired.aims _ r hr
  cases r with
  | identity inputs outputs =>
      obtain ⟨n, hn, hid, hinputs, _⟩ := hs.identity_node hr
      rw [show e.graph.neighbors edge.source = inputs from haims] at hmem
      exact ⟨n, hn, Or.inl ⟨hid.symm, hinputs ▸ hmem⟩⟩
  | input owner kind =>
      have hext := (hs.wired.kind k edge hk).2 ⟨_, _, hr⟩
      rw [hkind] at hext
      cases hext
  | output owner offer =>
      obtain ⟨n, hn, hid, hout⟩ := hs.output_node hr
      rw [show e.graph.neighbors edge.source = [owner] from haims, List.mem_singleton] at hmem
      exact ⟨n, hn, Or.inr ⟨hout, hmem.trans hid.symm⟩⟩

theorem tables : e.WellFormed where
  nodup := hs.nodup
  hasNode_iff := hs.hasNode_iff_mem
  identity n hn := by
    obtain ⟨k, hk, hdir, _⟩ := hs.wired.node _ _ (hs.casts.plays n hn).identity
    rw [hk, Option.map_some, hdir]
  input n hn i hi := by
    obtain ⟨kind, _, hr⟩ := (hs.casts.plays n hn).input hi
    obtain ⟨k, hk, hdir⟩ := hs.wired.node _ _ hr
    rw [hk, Option.map_some, show k.direction = .input from hdir]
  output n hn o ho := by
    obtain ⟨k, hk, hdir⟩ := hs.wired.node _ _ ((hs.casts.plays n hn).output ho)
    rw [hk, Option.map_some, show k.direction = .output from hdir]
  box_iff := hs.box_iff_mem
  neighbors_identity n hn := hs.wired.aims _ _ (hs.casts.plays n hn).identity
  neighbors_output n hn o ho := hs.wired.aims _ _ ((hs.casts.plays n hn).output ho)
  edgesFrom_input _ hn _ hi := hs.edgesFrom_input hn hi
  edges_perm id := (hs.wired.consistent.perm id).symm
  edge_internal _ hedge hkind := hs.edge_internal hedge hkind
  edge_external edge hedge hkind := by
    obtain ⟨k, hk⟩ := Graph.mem_edgeList.1 hedge
    obtain ⟨owner, kind, hr⟩ := (hs.wired.kind k edge hk).1 hkind
    obtain ⟨n, hn, _, hin⟩ := hs.input_node hr
    exact ⟨n, hn, hin⟩
  bus := hs.bus
  bus_nodup := by
    rw [hs.bus]
    exact hs.casts.nodup.sublist (List.filter_sublist.map _)

end Sound

/-! ## Kinds of inputs -/

def IsInput (e : Editor) (pin : Id) : Prop := ∃ n ∈ e.nodes, pin ∈ n.inputs

def boxKind (e : Editor) (pin : Id) : Option ValueKind := (e.values.get? pin).map Value.kind

/-- Operations led from one editor to another while a pin stayed an input. -/
inductive Keeps (pin : Id) (e : Editor) : Editor → Prop
  | refl (live : e.IsInput pin) : Keeps pin e e
  | step {e' : Editor} (h : Keeps pin e e') (op : Operation) (served : op.Served e')
      (live : (op.apply e').IsInput pin) : Keeps pin e (op.apply e')

theorem Keeps.isInput (h : Keeps pin e e') : e'.IsInput pin := by
  cases h with
  | refl live => exact live
  | step _ _ _ live => exact live

theorem Keeps.reached (h : Keeps pin e e') (hr : Reached e) : Reached e' := by
  induction h with
  | refl => exact hr
  | step _ op served _ ih => exact .step ih op served

theorem Sound.boxKind_input (hs : e.Sound w) {owner : Id} {kind : ValueKind}
    (hr : w pin = some (.input owner kind)) : e.boxKind pin = some kind := by
  obtain ⟨v, hv, rfl⟩ := hs.wired.input_box hr
  rw [boxKind, hv, Option.map_some]

/-- No operation changes the kind of an input that it leaves. -/
theorem Reached.boxKind_apply (h : Reached e) {op : Operation} (served : op.Served e)
    (hin : e.IsInput pin) (hin' : (op.apply e).IsInput pin) :
    (op.apply e).boxKind pin = e.boxKind pin := by
  by_cases hop : op = .clear
  · subst hop
    obtain ⟨n, hn, _⟩ := hin'
    cases hn
  obtain ⟨w, hs⟩ := h.sound
  obtain ⟨w', hs', hlater⟩ := carries_apply h.outbox served hop w hs
  obtain ⟨n, hn, hpin⟩ := hin
  obtain ⟨n', hn', hpin'⟩ := hin'
  obtain ⟨kind, _, hr⟩ := (hs.casts.plays n hn).input hpin
  obtain ⟨kind', _, hr'⟩ := (hs'.casts.plays n' hn').input hpin'
  have hold := hlater.older pin _ _ (hs.wired.consistent.node_lt pin (hs.wired.hasNode hr)) hr'
  have hkind : kind = kind' := (Role.input.inj (Option.some.inj (hr.symm.trans hold))).2
  rw [hs.boxKind_input hr, hs'.boxKind_input hr', hkind]

/-- The graph, the boxes, the UI nodes and the observers of a reached editor fit together, and an
input keeps the kind of its box for as long as it is there. -/
theorem Reached.wellFormed (h : Reached e) :
    e.WellFormed ∧ ∀ pin e', Keeps pin e e' → e'.boxKind pin = e.boxKind pin := by
  obtain ⟨w, hs⟩ := h.sound
  refine ⟨hs.tables, fun pin e' hkeeps => ?_⟩
  induction hkeeps with
  | refl => rfl
  | step hk op served live ih =>
      exact ((hk.reached h).boxKind_apply served hk.isInput live).trans ih

/-- A transform is moved by a number, beside a draw node and a render target. -/
def shifted : Editor :=
  built [.addNode .transform, .addNode .scalar, .link 1 10, .addNode .draw, .addNode .renderTarget]

theorem reached_shifted : Reached shifted :=
  reached_built ⟨served_addNode (by decide +kernel), served_addNode (by decide +kernel),
    served_link (by decide +kernel), served_addNode (by decide +kernel),
    served_addNode (by decide +kernel), trivial⟩

theorem wellFormed_shifted : Reached shifted ∧ shifted.WellFormed ∧
    ((Operation.setPin 1 (.float 2)).apply shifted).boxKind 1 = shifted.boxKind 1 := by
  have hin : shifted.IsInput 1 := by
    unfold IsInput
    decide +kernel
  have hin' : ((Operation.setPin 1 (.float 2)).apply shifted).IsInput 1 := by
    unfold IsInput
    decide +kernel
  obtain ⟨htables, hkinds⟩ := Reached.wellFormed reached_shifted
  exact ⟨reached_shifted, htables, hkinds 1 _ (.step (.refl hin) _ trivial hin')⟩

end Editor

end DrawGraph
