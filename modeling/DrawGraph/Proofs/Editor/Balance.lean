import DrawGraph.Proofs.Editor.Operation

/-!
# Balanced evaluations

An evaluation of a reached editor from a live root fails by the limit on visits or by a mismatch of
kinds only. When it succeeds, the walk has left one value, or none when the root is a render target;
and every UI node on the way took one value for each of its inputs, the one that was made for it.
-/

namespace DrawGraph

open Evaluation Wiring

namespace Editor

variable {w : Wiring} {e : Editor} {root : Id} {n : UiNode} {m : Machine (List UiNode)}

def IsTarget (e : Editor) (id : Id) : Prop := ∃ n ∈ e.nodes, n.id = id ∧ n.isRenderTarget

/-- The last part of the walk before a UI node is reduced left one value for each of its inputs in
turn, and the reduction takes just these off the stack. -/
def Consumes (e : Editor) (n : UiNode) (pre : List Id) (m : Machine (List UiNode)) : Prop :=
  ∃ first last m₀ vs, pre = first ++ last ∧ e.replayed first = (.ok (), m₀) ∧
    Fills e.graph e.clock.elapsed m₀ n.inputs last vs m ∧ m.stack = vs.reverse ++ m₀.stack ∧
      (visit e.graph e.clock.elapsed owners n.id).Ensures m (fun err _ => err.IsMismatch)
        fun _ m' => (n.isRenderTarget → m'.stack = m₀.stack) ∧
          (¬ n.isRenderTarget → ∃ v, m'.stack = v :: m₀.stack)

/-- How an evaluation from a root fails, what it leaves, and what its reductions take. -/
structure Balanced (e : Editor) (root : Id) : Prop where
  error : ∀ err, e.evaluate.1 = .error err → err = .eval (.visitLimit e.settings.maxVisits) ∨
    ∃ mismatch : EvalError, mismatch.IsMismatch ∧ err = .eval mismatch
  report : ∀ r, e.evaluate.1 = .ok r → ∃ order m,
    e.graph.reductionOrder e.settings root = .ok order ∧ e.replayed order = (.ok (), m) ∧
      r = Evaluation.report m order.length ∧
        (e.IsTarget root → m.stack = [] ∧ r.top = none ∧ r.ready.isSome) ∧
          (¬ e.IsTarget root → ∃ v, m.stack = [v] ∧ r.top = some v)
  operands : ∀ order pre n post m, e.graph.reductionOrder e.settings root = .ok order →
    order = pre ++ n.id :: post → n ∈ e.nodes → e.replayed pre = (.ok (), m) → e.Consumes n pre m

theorem outputs_eq_nil_iff (n : UiNode) : n.outputs = [] ↔ n.isRenderTarget := by
  cases n <;> simp [UiNode.outputs, UiNode.isRenderTarget]

theorem Sound.sink_iff (hs : e.Sound w) (hn : n ∈ e.nodes) : w.Sink n.id ↔ n.isRenderTarget := by
  rw [← outputs_eq_nil_iff]
  simp [Sink, (hs.casts.plays n hn).identity]

theorem Sound.sink_iff_isTarget (hs : e.Sound w) (id : Id) : w.Sink id ↔ e.IsTarget id := by
  constructor
  · rintro ⟨inputs, hid⟩
    obtain ⟨n, hn, rfl⟩ := hs.casts.cast id inputs [] hid
    exact ⟨n, hn, rfl, (hs.sink_iff hn).1 ⟨inputs, hid⟩⟩
  · rintro ⟨n, hn, rfl, ht⟩
    exact (hs.sink_iff hn).2 ht

theorem Sound.consumes (hs : e.Sound w) {order pre post : List Id}
    (hr : e.graph.reductionOrder e.settings root = .ok order) (heq : order = pre ++ n.id :: post)
    (hn : n ∈ e.nodes) (hrun : e.replayed pre = (.ok (), m)) : e.Consumes n pre m := by
  obtain ⟨first, last, m₀, vs, rfl, hrun₀, hm, hvs⟩ := hs.supplied hr heq hn hrun
  refine ⟨first, last, m₀, vs, rfl, hrun₀, hvs.fills, hvs.stack, ?_⟩
  have hid := (hs.casts.plays n hn).identity
  have hinputs : e.graph.neighbors n.id = n.inputs := hs.wired.aims _ _ hid
  have hyields : List.Forall₂ (w.Yields e.graph) (e.graph.neighbors n.id) vs := hinputs ▸ hvs.yields
  have hlive : (w n.id).isSome := by simp [hid]
  refine (visit_ensures hm hlive hyields hvs.stack).mono (fun _ _ h => h.1) ?_
  rintro _ m' ⟨_, _, hleaves⟩
  rw [← hs.sink_iff hn]
  refine ⟨fun ht => (hleaves.nothing ht).1, fun ht => ?_⟩
  obtain ⟨v, hv, _⟩ := hleaves.value ht
  exact ⟨v, hv⟩

theorem Reached.balanced (h : Reached e) (hroot : e.root = some root)
    (hlive : e.graph.hasNode root) : e.Balanced root := by
  obtain ⟨w, hs⟩ := h.sound
  refine ⟨?_, ?_, fun order pre n post m hr heq hn hrun => hs.consumes hr heq hn hrun⟩
  · intro err herr
    rcases hs.reductionOrder_cases hlive with ⟨order, horder⟩ | hlimit
    · rw [evaluate_of_order hroot horder] at herr
      have hwalk := hs.walk_ensures horder
      cases hrun : e.replayed order with
      | mk r m =>
          rw [hrun] at herr
          cases r with
          | ok u => cases herr
          | error mismatch =>
              cases herr
              exact Or.inr ⟨mismatch, (hwalk.of_error hrun).1, rfl⟩
    · rw [evaluate_of_no_order hroot hlimit] at herr
      cases herr
      exact Or.inl rfl
  · intro r hr
    rcases hs.reductionOrder_cases hlive with ⟨order, horder⟩ | hlimit
    · rw [evaluate_of_order hroot horder] at hr
      have hwalk := hs.walk_ensures horder
      cases hrun : e.replayed order with
      | mk r' m =>
          rw [hrun] at hr
          cases r' with
          | error err => cases hr
          | ok u =>
              cases hr
              obtain ⟨_, _, hleaves⟩ := hwalk.of_ok hrun
              refine ⟨order, m, horder, hrun, rfl, ?_, ?_⟩
              · intro ht
                obtain ⟨hstack, hready⟩ := hleaves.nothing ((hs.sink_iff_isTarget root).2 ht)
                exact ⟨hstack, by simp [Evaluation.report, hstack], hready⟩
              · intro ht
                obtain ⟨v, hv, _⟩ := hleaves.value fun hsink =>
                  ht ((hs.sink_iff_isTarget root).1 hsink)
                exact ⟨v, hv, by simp [Evaluation.report, hv]⟩
    · rw [evaluate_of_no_order hroot hlimit] at hr
      cases hr

/-- The sine of a number, evaluated from its identity. -/
def wave : Editor := built [.addNode .scalar, .addNode .sine, .link 4 1, .setRoot (some 3)]

theorem reached_wave : Reached wave :=
  reached_built ⟨served_addNode (by decide +kernel), served_addNode (by decide +kernel),
    served_link (by decide +kernel), trivial, trivial⟩

theorem balanced_wave : wave.root = some 3 ∧ wave.graph.hasNode 3 ∧ wave.Balanced 3 := by
  have hroot : wave.root = some 3 := by decide +kernel
  have hlive : wave.graph.hasNode 3 := by decide +kernel
  exact ⟨hroot, hlive, Reached.balanced reached_wave hroot hlive⟩

end Editor

end DrawGraph
