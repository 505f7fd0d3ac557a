import DrawGraph.Proofs.Graph.Cutting
import DrawGraph.Proofs.UiNode.Conduct

/-!
# What UI nodes do to links

A UI node makes no link. It may cut links when it drops pins, and then it queues an event for each
link that it cuts, and no other event. So the links that are left bound the events that UI nodes can
still queue. All this holds of any graph, whether its tables agree or not.
-/

namespace DrawGraph

open Relation

namespace Scene

variable {home mine : Id → Prop} {s s' : Scene}

theorem edges_write (s : Scene) (pin : Id) (v : Value) :
    (s.write pin v).graph.edges = s.graph.edges := by
  cases hv : v.scalar? <;> simp [write, store, hv]

theorem Move.cuts (h : Move home mine s s') : ∃ cut, s.graph.Cuts cut s'.graph := by
  cases h with
  | addNode h => exact ⟨[], Graph.cuts_addNode h⟩
  | addInput _ h =>
      obtain ⟨g₁, edge, g₂, hnode, hedge, rfl⟩ := addInput_eq_ok h
      exact ⟨_, (Graph.cuts_addNode hnode).trans (Graph.cuts_addEdge hedge)⟩
  | addOutput _ h =>
      obtain ⟨g₁, edge, g₂, hnode, hedge, rfl⟩ := addOutput_eq_ok h
      exact ⟨_, (Graph.cuts_addNode hnode).trans (Graph.cuts_addEdge hedge)⟩
  | unbox => exact ⟨[], .refl _⟩
  | eraseNode _ h => exact Graph.cuts_eraseNode h
  | @write pin v _ =>
      refine ⟨[], .of_perm (.of_eq ?_) (outbox_write s pin v)⟩
      rw [Graph.links, Graph.edgeList, edges_write]
      rfl
  | load => exact ⟨[], .refl _⟩

theorem Moves.cuts (h : Moves home mine s s') : ∃ cut, s.graph.Cuts cut s'.graph := by
  induction h with
  | refl => exact ⟨[], .refl _⟩
  | tail _ hmove ih =>
      obtain ⟨cut, hcut⟩ := ih
      obtain ⟨cut', hcut'⟩ := hmove.cuts
      exact ⟨cut ++ cut', hcut.trans hcut'⟩

end Scene

theorem UiNode.cuts_onEvent (n : UiNode) (event : Event) (s : Scene) :
    ∃ cut, s.graph.Cuts cut (n.onEvent event s).2.graph :=
  (n.moves_onEvent event s).cuts

end DrawGraph
