import DrawGraph.Proofs.Graph.Restore
import Mathlib.Data.List.Induction

/-!
# Edits of a graph

A graph changes by single calls, some of which fail and then change nothing. Whatever the calls,
the tables agree with each other. The targets of each node stay in the order of its edges as long as
each edge erased is the foremost to its target and each edge put back the hindmost, and no longer.
-/

namespace DrawGraph

/-- A call that may change a graph. -/
inductive Edit
  | addNode (n : Node)
  | addEdge (source target : Id) (kind : EdgeKind)
  | eraseNode (id : Id)
  | eraseEdge (id : Id)
  | restoreNode (id : Id) (n : Node)
  | restoreEdge (e : Edge)
  | setValue (id : Id) (x : Float32)
  | reserve (next : Id)
  | pushEvent (e : Event)
  | takeEvent
  | clear

namespace Graph

variable {g g' : Graph} {c : Edit}

def attempt (g : Graph) : Edit → Except GraphError Graph
  | .addNode n => (g.addNode n).map Prod.snd
  | .addEdge source target kind => (g.addEdge source target kind).map Prod.snd
  | .eraseNode id => (g.eraseNode id).map Prod.snd
  | .eraseEdge id => (g.eraseEdge id).map Prod.snd
  | .restoreNode id n => g.restoreNode id n
  | .restoreEdge e => g.restoreEdge e
  | .setValue id x => g.setValue id x
  | .reserve next => .ok (g.reserve next)
  | .pushEvent e => .ok (g.pushEvent e)
  | .takeEvent => .ok (g.takeEvent.elim g Prod.snd)
  | .clear => .ok .empty

/-- A call that fails leaves the graph as it was: no call changes anything before its last check. -/
def edit (g : Graph) (c : Edit) : Graph := (g.attempt c).toOption.getD g

def edits (g : Graph) (cs : List Edit) : Graph := cs.foldl edit g

theorem edits_concat (g : Graph) (cs : List Edit) (c : Edit) :
    g.edits (cs ++ [c]) = (g.edits cs).edit c := by
  rw [edits, List.foldl_append]
  rfl

theorem edit_of_ok (h : g.attempt c = .ok g') : g.edit c = g' := by
  rw [edit, h]
  rfl

theorem edit_of_error {e : GraphError} (h : g.attempt c = .error e) : g.edit c = g := by
  rw [edit, h]
  rfl

theorem exists_of_map_snd {α β : Type} {x : Except GraphError (α × β)} {b : β}
    (h : x.map Prod.snd = .ok b) : ∃ a, x = .ok (a, b) := by
  cases x with
  | error e => cases h
  | ok p =>
      cases h
      exact ⟨p.1, rfl⟩

theorem setValue_eq_ok {id : Id} {x : Float32} (h : g.setValue id x = .ok g') :
    g' = { g with nodes := g.nodes.modify id fun n => { n with value := x } } := by
  unfold setValue at h
  split at h
  · exact (Except.ok.inj h).symm
  · cases h

theorem takeEvent_eq (g : Graph) : ∃ events, g.takeEvent.elim g Prod.snd =
    { g with outbox := events } := by
  unfold takeEvent
  split
  · exact ⟨g.outbox, rfl⟩
  · next e rest _ => exact ⟨rest, rfl⟩

/-- Erasing a node fails only where there is none, not on the way. -/
theorem Consistent.eraseNode_eq_error_iff (hc : g.Consistent) {id : Id} {e : GraphError} :
    g.eraseNode id = .error e ↔ g.hasNode id = false ∧ e = .nodeNotFound id := by
  cases hid : g.hasNode id with
  | true =>
      obtain ⟨n, g', hok, _⟩ := hc.eraseNode hid
      simp [hok]
  | false =>
      have hnone : g.nodes.get? id = none := by
        rwa [hasNode_eq, node?, Option.isSome_eq_false_iff, Option.isNone_iff_eq_none] at hid
      simp [Graph.eraseNode, hnone, eq_comm]

/-- What a call that succeeds makes of the graph. -/
inductive Makes (g : Graph) : Edit → Graph → Prop
  | addNode {n : Node} {id : Id} {g' : Graph} (h : g.AddsNode n id g') : g.Makes (.addNode n) g'
  | addEdge {e : Edge} {g' : Graph} (h : g.AddsEdge e g') :
      g.Makes (.addEdge e.source e.target e.kind) g'
  | eraseNode {id : Id} {g' : Graph} (h : g.ErasesNode id g') : g.Makes (.eraseNode id) g'
  | eraseEdge {id : Id} {e : Edge} {g' : Graph} (he : g.edge? id = some e)
      (h : g.ErasesEdge e g') : g.Makes (.eraseEdge id) g'
  | restoreNode {id : Id} {n : Node} {g' : Graph} (h : g.restoreNode id n = .ok g') :
      g.Makes (.restoreNode id n) g'
  | restoreEdge {e : Edge} {g' : Graph} (h : g.restoreEdge e = .ok g') :
      g.Makes (.restoreEdge e) g'
  | setValue (id : Id) (x : Float32) :
      g.Makes (.setValue id x) { g with nodes := g.nodes.modify id fun n => { n with value := x } }
  | reserve (next : Id) : g.Makes (.reserve next) (g.reserve next)
  | pushEvent (e : Event) : g.Makes (.pushEvent e) (g.pushEvent e)
  | takeEvent (events : List Event) : g.Makes .takeEvent { g with outbox := events }
  | clear : g.Makes .clear .empty

theorem Consistent.makes (hc : g.Consistent) (h : g.attempt c = .ok g') : g.Makes c g' := by
  cases c with
  | addNode n =>
      obtain ⟨id, h⟩ := exists_of_map_snd h
      exact .addNode (hc.addNode h)
  | addEdge source target kind =>
      obtain ⟨id, h⟩ := exists_of_map_snd h
      exact .addEdge (hc.addEdge h).2.2
  | eraseNode id =>
      obtain ⟨n, h⟩ := exists_of_map_snd h
      exact .eraseNode (hc.erasesNode h)
  | eraseEdge id =>
      obtain ⟨e, h⟩ := exists_of_map_snd h
      obtain ⟨he, herase⟩ := hc.erasesEdge h
      exact .eraseEdge he herase
  | restoreNode id n => exact .restoreNode h
  | restoreEdge e => exact .restoreEdge h
  | setValue id x =>
      rw [setValue_eq_ok h]
      exact .setValue id x
  | reserve next =>
      cases h
      exact .reserve next
  | pushEvent e =>
      cases h
      exact .pushEvent e
  | takeEvent =>
      cases h
      obtain ⟨events, heq⟩ := takeEvent_eq g
      rw [heq]
      exact .takeEvent events
  | clear =>
      cases h
      exact .clear

/-! ## The tables agree -/

theorem Consistent.of_makes (hc : g.Consistent) (h : g.Makes c g') : g'.Consistent := by
  cases h with
  | addNode h => exact h.consistent
  | addEdge h => exact h.consistent
  | eraseNode h => exact h.consistent
  | eraseEdge _ h => exact h.consistent
  | restoreNode h => exact hc.restoreNode h
  | restoreEdge h => exact hc.restoreEdge h
  | setValue id x => exact hc.setNumber id x
  | reserve next => exact hc.reserve next
  | pushEvent e => exact hc.withOutbox _
  | takeEvent events => exact hc.withOutbox events
  | clear => exact .empty

theorem Consistent.edit (hc : g.Consistent) (c : Edit) : (g.edit c).Consistent := by
  cases h : g.attempt c with
  | error e => rwa [edit_of_error h]
  | ok g' =>
      rw [edit_of_ok h]
      exact hc.of_makes (hc.makes h)

theorem Consistent.edits (hc : g.Consistent) (cs : List Edit) : (g.edits cs).Consistent := by
  induction cs generalizing g with
  | nil => exact hc
  | cons c cs ih => exact ih (hc.edit c)

/-- After any calls the tables have the same keys, every edge is kept under its id between nodes
that exist, the targets of a node are in some order those of the edges that leave it, its degree
counts them and these edges, and all ids lie below the next. -/
theorem tables_agree_edits (cs : List Edit) :
    (empty.edits cs).Consistent ∧
      ∀ n, (empty.edits cs).outDegree n = ((empty.edits cs).edgesFrom n).length := by
  have hc := Consistent.empty.edits cs
  refine ⟨hc, fun n => ?_⟩
  rw [hc.count, (hc.perm n).length_eq, List.length_map]

/-! ## Targets in the order of edges -/

/-- The call erases no edge but the foremost to its target and puts back none but the hindmost. -/
def Orderly (g : Graph) : Edit → Prop
  | .eraseEdge id => ∀ e, g.edge? id = some e → g.Foremost e
  | .restoreEdge e => (∃ g', g.restoreEdge e = .ok g') → g.Hindmost e
  | _ => True

theorem orderly_of_error {e : GraphError} (h : g.attempt c = .error e) : g.Orderly c := by
  cases c with
  | eraseEdge id =>
      intro f hf
      have hget : g.edges.get? id = some f := hf
      simp [attempt, Graph.eraseEdge, hget, Except.map] at h
  | restoreEdge f =>
      rintro ⟨g', hok⟩
      cases h.symm.trans hok
  | addNode | addEdge | eraseNode | restoreNode | setValue | reserve | pushEvent | takeEvent
  | clear => exact trivial

theorem Aligned.of_makes_iff (h : g.Aligned) (hm : g.Makes c g') :
    g'.Aligned ↔ g.Orderly c := by
  cases hm with
  | addNode hm => exact iff_of_true (h.addsNode hm) trivial
  | addEdge hm => exact iff_of_true (h.addsEdge hm) trivial
  | eraseNode hm => exact iff_of_true (h.erasesNode hm) trivial
  | eraseEdge he hm =>
      rw [h.erasesEdge_iff he hm, Orderly, he]
      simp
  | restoreNode hm => exact iff_of_true (h.restoreNode hm) trivial
  | restoreEdge hm =>
      rw [h.restoreEdge_iff hm]
      exact ⟨fun hlast _ => hlast, fun hlast => hlast ⟨g', hm⟩⟩
  | setValue id x => exact iff_of_true (h.setNumber id x) trivial
  | reserve next => exact iff_of_true (h.reserve next) trivial
  | pushEvent e => exact iff_of_true (h.withOutbox _) trivial
  | takeEvent events => exact iff_of_true (h.withOutbox events) trivial
  | clear => exact iff_of_true .empty trivial

theorem Aligned.edit_iff (h : g.Aligned) (c : Edit) : (g.edit c).Aligned ↔ g.Orderly c := by
  cases hc : g.attempt c with
  | error e =>
      rw [edit_of_error hc]
      exact iff_of_true h (orderly_of_error hc)
  | ok g' =>
      rw [edit_of_ok hc]
      exact h.of_makes_iff (h.consistent.makes hc)

theorem Aligned.edits (h : g.Aligned) {cs : List Edit} (hcs : ∀ c ∈ cs, ∀ g : Graph, g.Orderly c) :
    (g.edits cs).Aligned := by
  induction cs generalizing g with
  | nil => exact h
  | cons c cs ih =>
      obtain ⟨hc, hcs⟩ := List.forall_mem_cons.1 hcs
      exact ih ((h.edit_iff c).2 (hc g)) hcs

/-- The targets stay in the order of the edges all along just if each call is orderly. -/
theorem Aligned.edits_iff (h : g.Aligned) (cs : List Edit) :
    (∀ done rest, cs = done ++ rest → (g.edits done).Aligned) ↔
      ∀ done c rest, cs = done ++ c :: rest → (g.edits done).Orderly c := by
  constructor
  · rintro hall done c rest rfl
    have hbefore := hall done (c :: rest) rfl
    have hafter := hall (done ++ [c]) rest (List.append_cons done c rest)
    rw [edits_concat] at hafter
    exact (hbefore.edit_iff c).1 hafter
  · intro hall done
    induction done using List.reverseRecOn with
    | nil => exact fun _ _ => h
    | append_singleton done c ih =>
        intro rest hcs
        have hsplit := hcs.trans (List.append_cons done c rest).symm
        rw [edits_concat]
        exact ((ih (c :: rest) hsplit).edit_iff c).2 (hall done c rest hsplit)

/-- The last of the edges 3, 4 and 5 is erased, and of the targets 1, 2 and 1 the first goes. -/
example :
    let g := empty.edits
      [.addNode ⟨.add, .none, 0⟩, .addNode ⟨.float, .output, 0⟩, .addNode ⟨.float, .output, 0⟩,
        .addEdge 0 1 .external, .addEdge 0 2 .external, .addEdge 0 1 .external, .eraseEdge 5]
    g.neighbors 0 = [2, 1] ∧ (g.edgesFrom 0).map Edge.target = [1, 2] := by
  decide +kernel

end Graph

end DrawGraph
