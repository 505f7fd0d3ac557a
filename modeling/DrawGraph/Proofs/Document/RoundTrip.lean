import DrawGraph.Proofs.Document
import DrawGraph.Proofs.Graph.Edit

/-!
# Documents that come back as they were

The text of a document lists the edges of its graph by id, so the targets come back in the order of
the edges. A graph whose targets stand in that order is written and read without a change, and with
it whatever root and UI nodes fit it.
-/

namespace DrawGraph

open UiNode

namespace Document

/-- A graph by itself. -/
def bare (g : Graph) : Document := { graph := g, root := none, nodes := [] }

theorem legible_bare {g : Graph} (hc : g.Consistent) (values : ValueStore) :
    (bare g).Legible values where
  consistent := hc
  resolves _ hn := nomatch hn
  nodup := List.nodup_nil
  legible _ hn := nomatch hn

/-- A graph by itself is read as it was written, but for the events that wait in it, just if its
targets are aligned. -/
theorem parse_render_bare_iff {g : Graph} (hc : g.Consistent) (values : ValueStore) :
    parse ((bare g).render values) = .ok (bare { g with outbox := [] }) ↔ g.Aligned := by
  have hread : parse ((bare g).render values) = .ok (bare g.rebuild) :=
    (legible_bare hc values).parse_render_iff.2 fun _ hn => nomatch hn
  rw [hread, ← hc.rebuild_eq_iff]
  simp [bare]

/-- From call to call the targets of every node stay in the order of its edges just if no call
erases an edge that is not the foremost to its target or puts one back that is not the hindmost; and
in the graph that the calls lead to they stand in that order just if a text of the graph gives it
again. -/
theorem keeps_order_iff (cs : List Edit) (values : ValueStore) :
    ((∀ done rest, cs = done ++ rest → (Graph.empty.edits done).Aligned) ↔
      ∀ done c rest, cs = done ++ c :: rest → (Graph.empty.edits done).Orderly c) ∧
    ((Graph.empty.edits cs).Aligned ↔
      parse ((bare (Graph.empty.edits cs)).render values) =
        .ok (bare { Graph.empty.edits cs with outbox := [] })) :=
  ⟨Graph.Aligned.empty.edits_iff cs, (parse_render_bare_iff (.edits .empty cs) values).symm⟩

/-- A document whose parts fit together. The targets in its graph stand in the order of their edges,
the root is a node, UI nodes have identities of their own that are nodes but no pins, and their pins
are pins; the values of constants are of their kinds and the variables of draw nodes have names. -/
structure Sound (d : Document) (values : ValueStore) : Prop where
  aligned : d.graph.Aligned
  root : ∀ id, d.root = some id → d.graph.hasNode id
  nodup : (d.nodes.map UiNode.id).Nodup
  resolves : ∀ n ∈ d.nodes, resolves d.graph n
  legible : ∀ n ∈ d.nodes, n.Legible values

variable {d : Document} {values : ValueStore}

/-- The inputs of a draw node can be counted when no pin is among them twice. -/
theorem length_bindings_lt {g : Graph} {n : UiNode} (hc : g.Consistent)
    (hn : Document.resolves g n) (hnodup : n.inputs.Nodup) :
    n.bindings.length < UInt32.size := by
  simp only [Document.resolves, Bool.and_eq_true, List.all_eq_true] at hn
  have hlt : n.inputs.length < UInt32.size := by
    apply Graph.length_lt_size hnodup
    intro pin hpin
    apply hc.node_lt
    rw [Graph.hasNode_eq]
    exact Option.isSome_of_any (hn.2 pin (List.mem_append_left _ hpin))
  have hle : n.bindings.length ≤ n.inputs.length := by
    cases n with
    | draw d => simp [bindings, inputs]; omega
    | binary | sine | time | constant | asset | primitive | camera | transform | renderTarget =>
        exact Nat.zero_le _
  exact Nat.lt_of_le_of_lt hle hlt

/-- Reading a text gives the document that was written, without the events that waited and with the
values of its boxes in its UI nodes, just if the number of inputs of each draw node is one of 32
bits, as which it is written; and so it is when the inputs are different pins. -/
theorem Sound.reads_back (h : d.Sound values) :
    (parse (d.render values) = .ok
        { graph := { d.graph with outbox := [] }
          root := d.root
          nodes := d.nodes.map (recorded values) } ↔
      ∀ n ∈ d.nodes, n.bindings.length < UInt32.size) ∧
    ∀ n ∈ d.nodes, n.inputs.Nodup → n.bindings.length < UInt32.size := by
  have hc := h.aligned.consistent
  have hlegible : d.Legible values := ⟨hc, h.resolves, h.nodup, h.legible⟩
  have hroot : d.root.filter d.graph.hasNode = d.root := by
    cases hr : d.root with
    | none => rfl
    | some id => rw [Option.filter_some, if_pos (h.root id hr)]
  constructor
  · rw [← hlegible.parse_render_iff, hc.rebuild_eq_iff.2 h.aligned, hroot]
  · exact fun n hn => length_bindings_lt hc (h.resolves n hn)

/-- A draw node with a tint that is linked twice to the same constant. -/
def lamp : Document where
  graph := Graph.empty.edits
    [.addNode ⟨.draw, .none, 0⟩, .addNode ⟨.int, .input, 0⟩, .addNode ⟨.int, .input, 0⟩,
      .addNode ⟨.draw, .output, 0⟩, .addNode ⟨.float, .input, 0⟩, .addNode ⟨.float, .none, 0⟩,
      .addNode ⟨.float, .output, 0⟩, .addEdge 3 0 .internal, .addEdge 0 1 .internal,
      .addEdge 0 2 .internal, .addEdge 0 4 .internal, .addEdge 4 6 .external,
      .addEdge 4 6 .external]
  root := some 0
  nodes :=
    [.draw
        { id := 0
          shader := 1
          model := 2
          output := 3
          color := Vector.replicate 3 1
          bindings := [⟨4, "tint", .float⟩] },
      .constant .scalar 5 6 (.float 1)]

/-- The constant has come to hold another number than it was loaded with. -/
def lampValues : ValueStore := (Table.empty.insert 6 (.float 0.5)).1

theorem sound_lamp : lamp.Sound lampValues where
  aligned := Graph.Aligned.empty.edits (by simp [Graph.Orderly])
  root := by
    rintro id ⟨⟩
    decide +kernel
  nodup := by decide
  resolves := by decide +kernel
  legible := by
    have hkind : (constantValue lampValues 6 (.float 1)).kind = .float := by decide +kernel
    exact List.forall_mem_cons.2 ⟨by simp [UiNode.Legible], List.forall_mem_singleton.2 hkind⟩

theorem reads_back_lamp : lamp.Sound lampValues ∧ parse (lamp.render lampValues) = .ok
    { graph := { lamp.graph with outbox := [] }
      root := lamp.root
      nodes := lamp.nodes.map (recorded lampValues) } :=
  ⟨sound_lamp, sound_lamp.reads_back.1.2 (by decide)⟩

end Document

end DrawGraph
