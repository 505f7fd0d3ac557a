import DrawGraph.Proofs.Editor.Settled
import Mathlib.Data.List.Induction

/-!
# The constants of draw calls

Every draw call of an evaluation was made by a draw node of the editor from the values that had been
left for its inputs. It carries the constants of the shader that the draw node is bound to, but the
index of the shader that the evaluation found. The two are the same unless the linked output is
computed, for then the draw node took over what an earlier evaluation had left there.
-/

namespace DrawGraph

open Evaluation Machine Wiring

/-! ## What a draw node makes of its operands -/

namespace Draw

variable {σ : Type} {d : Draw} {site : Site} {m m' : Machine σ} {vs rest : List Value}

/-- The draw call is the one that a draw node makes of the values. -/
structure Makes (d : Draw) (vs : List Value) (c : DrawCall) : Prop where
  shader : c.vertexShader = ((vs.getD 0 default).index?).getD noIndex
  bindings : c.bindings.map (fun b => (b.name, b.type)) = d.bindings.map fun b => (b.name, b.type)

theorem returns_constants (site : Site) {bs : List Binding} {vs : List Value}
    (h : vs.length = bs.length) :
    Attempt.Returns (constants site bs vs : Reduction σ (List Constant)) fun cs =>
      cs.map (fun c => (c.name, c.type)) = bs.map fun b => (b.name, b.type) := by
  induction bs generalizing vs with
  | nil => exact .pure rfl
  | cons b bs ih =>
      cases vs with
      | nil => cases h
      | cons v vs =>
          intro m cs m' hrun
          obtain ⟨u, m₁, _, hrun⟩ := Attempt.on_bind_eq_ok hrun
          obtain ⟨rest, m₂, hrest, hrun⟩ := Attempt.on_bind_eq_ok hrun
          cases hrun
          rw [List.map_cons, List.map_cons, ih (Nat.succ.inj h) m₁ rest _ hrest]

theorem calls_reduce {u : Unit} (hlen : vs.length = 2 + d.bindings.length)
    (hstack : m.stack = vs.reverse ++ rest) (h : (d.reduce site).on m = (.ok u, m')) :
    ∀ c ∈ m'.calls, c ∈ m.calls ∨ d.Makes vs c := by
  have hoverlooks : Overlooks fun m : Machine σ => m.calls := ⟨fun _ _ => rfl, fun _ _ => rfl⟩
  have hemit (v : Value) :
      (emit d.output v : Reduction σ Unit).Preserves fun m => m.calls :=
    preserves_emit hoverlooks (fun _ _ => rfl) v
  obtain ⟨vs', m₁, hpop, h⟩ := Attempt.on_bind_eq_ok h
  rw [pop_on hlen hstack] at hpop
  obtain ⟨rfl, rfl⟩ : vs = vs' ∧ { m with stack := rest } = m₁ := by
    cases hpop
    exact ⟨rfl, rfl⟩
  obtain ⟨cs, m₂, hcs, h⟩ := Attempt.on_bind_eq_ok h
  have hbindings : cs.map (fun c => (c.name, c.type)) =
      d.bindings.map fun b => (b.name, b.type) := by
    refine returns_constants site ?_ _ cs m₂ hcs
    rw [List.length_drop, hlen]
    omega
  have hkept : m₂.calls = m.calls := by
    have hkeeps := preserves_constants (f := fun m : Machine σ => m.calls) site d.bindings
      (vs.drop 2) { m with stack := rest }
    rw [hcs] at hkeeps
    exact hkeeps
  intro c hc
  dsimp only at h
  split at h
  · obtain ⟨_, m₃, hsubmit, h⟩ := Attempt.on_bind_eq_ok h
    have hlast := hemit (.float 1) m₃
    rw [h] at hlast
    rw [show m'.calls = m₃.calls from hlast] at hc
    cases hsubmit
    dsimp only at hc
    split at hc
    · exact Or.inl (hkept ▸ hc)
    · rcases List.mem_append.1 hc with hc | hc
      · exact Or.inl (hkept ▸ hc)
      · rw [List.mem_singleton.1 hc]
        exact Or.inr ⟨rfl, hbindings⟩
  · have hlast := hemit (.float 0) m₂
    rw [h] at hlast
    rw [show m'.calls = m₂.calls from hlast, hkept] at hc
    exact Or.inl hc

end Draw

/-! ## The draw calls of a walk -/

namespace Editor

variable {w : Wiring} {e : Editor} {d : Draw} {root : Id}

/-- The draw call was made by the draw node of the values that the walk had left for its inputs. -/
def Queues (e : Editor) (w : Wiring) (d : Draw) (c : DrawCall) : Prop :=
  ∃ first last m₀ m vs, e.replayed first = (.ok (), m₀) ∧
    Supplied w e.graph e.clock.elapsed m₀ (UiNode.draw d).inputs last m vs ∧ d.Makes vs c

/-- An owner's visit makes draw calls only if it is a draw node's. -/
theorem calls_owners {site : Site} {m m' : Machine (List UiNode)} {n : UiNode} {taken : Bool}
    (hfind : m.owner.find? (·.id == site.node) = some n)
    (h : (owners site).on m = (.ok taken, m')) :
    taken = true ∧ (m'.calls = m.calls ∨ ∃ d m₁, n = .draw d ∧
      (d.reduce site).on m = (.ok (), m₁) ∧ m'.calls = m₁.calls) := by
  rw [owners, Attempt.on_bind_of_ok (Attempt.on_get m), hfind] at h
  obtain ⟨n', m₁, hreduce, h⟩ := Attempt.on_bind_eq_ok h
  obtain ⟨rfl, rfl⟩ : true = taken ∧ { m₁ with
      owner := m₁.owner.map fun k => if k.id = n'.id then n' else k } = m' := by
    cases h
    exact ⟨rfl, rfl⟩
  refine ⟨rfl, ?_⟩
  by_cases hdraw : ∃ d, n = .draw d
  · obtain ⟨d, rfl⟩ := hdraw
    obtain ⟨_, m₂, hd, hreturn⟩ := Attempt.on_bind_eq_ok hreduce
    cases hreturn
    exact Or.inr ⟨d, m₁, rfl, hd, rfl⟩
  · have hoverlooks : Overlooks fun m : Machine (List UiNode) => m.calls :=
      ⟨fun _ _ => rfl, fun _ _ => rfl⟩
    have hkept := UiNode.preserves_reduce hoverlooks site (n := n) (fun _ _ _ _ => rfl)
      (fun d hd => absurd ⟨d, hd⟩ hdraw) m
    rw [hreduce] at hkept
    exact Or.inl hkept

theorem Sound.calls_visit (hs : e.Sound w) {id : Id} {m m' : Machine (List UiNode)} {u : Unit}
    (hm : ∀ n ∈ e.nodes, n.id = id → Walks w e.graph e.bus m)
    (h : (visit e.graph e.clock.elapsed owners id).on m = (.ok u, m')) :
    m'.calls = m.calls ∨ ∃ d site m₁, .draw d ∈ m.owner ∧ d.id = id ∧
      (d.reduce site).on m = (.ok (), m₁) ∧ m'.calls = m₁.calls := by
  unfold visit at h
  split at h
  · cases h
  · next n hn =>
    split at h
    · split at h
      · cases h
        exact Or.inl rfl
      · cases h
        exact Or.inl rfl
    · next hpin =>
      have hlive : e.graph.hasNode id := by
        rw [Graph.hasNode_eq, hn]
        rfl
      obtain ⟨r, hr⟩ := Option.isSome_iff_exists.1 ((hs.wired.hasNode_iff id).1 hlive)
      obtain ⟨n', hn', hdescribes⟩ := hs.wired.node id r hr
      rw [hn] at hn'
      cases hn'
      cases r with
      | identity inputs outputs =>
          obtain ⟨k₀, hk₀, hid⟩ := hs.casts.cast id inputs outputs hr
          have hcasts := (hm k₀ hk₀ hid).casts
          obtain ⟨k, hk, rfl⟩ := hcasts.cast id inputs outputs hr
          obtain ⟨taken, m₁, howners, h⟩ := Attempt.on_bind_eq_ok h
          obtain ⟨rfl, hcalls⟩ := calls_owners (hcasts.find?_id hk) howners
          cases h
          refine hcalls.imp_right ?_
          rintro ⟨d, m₂, rfl, hd, hcalls⟩
          exact ⟨d, _, m₂, hk, rfl, hd, hcalls⟩
      | input owner kind =>
          rw [show n.direction = .input from hdescribes] at hpin
          exact absurd rfl hpin
      | output owner offer =>
          rw [show n.direction = .output from hdescribes] at hpin
          exact absurd rfl hpin

/-- Every draw call of a walk was made by a draw node. -/
theorem Sound.queues (hs : e.Sound w) {order : List Id}
    (hr : e.graph.reductionOrder e.settings root = .ok order) {pre post : List Id}
    {m : Machine (List UiNode)} (heq : order = pre ++ post) (hrun : e.replayed pre = (.ok (), m)) :
    ∀ c ∈ m.calls, ∃ d, .draw d ∈ e.nodes ∧ e.Queues w d c := by
  induction pre using List.reverseRecOn generalizing post m with
  | nil =>
      cases hrun
      exact fun c hc => nomatch hc
  | append_singleton pre id ih =>
      rw [replayed, replay_append] at hrun
      obtain ⟨_, m₁, hfirst, hlast⟩ := Attempt.on_bind_eq_ok hrun
      have hpre : e.replayed pre = (.ok (), m₁) := hfirst
      obtain ⟨_, m₂, hvisit, hlast⟩ := Attempt.on_bind_eq_ok hlast
      cases hlast
      rw [List.append_assoc] at heq
      have hbefore := ih heq hpre
      have hwalks : ∀ n ∈ e.nodes, n.id = id → Walks w e.graph e.bus m₁ := by
        rintro n hn rfl
        obtain ⟨_, _, _, _, _, _, hm, _⟩ := hs.supplied hr heq hn hpre
        exact hm
      rcases hs.calls_visit hwalks hvisit with hcalls | ⟨d, site, m₃, hd, rfl, hreduce, hcalls⟩
      · rwa [hcalls]
      · have hmem : UiNode.draw d ∈ e.nodes := by
          have howner := (hs.distinct.replayed pre).2
          rw [hpre] at howner
          have hunready := List.mem_map_of_mem (f := UiNode.unready) hd
          rw [howner] at hunready
          obtain ⟨n, hn, hnd⟩ := List.mem_map.1 hunready
          rw [show UiNode.unready (.draw d) = .draw d from rfl, UiNode.unready_eq_draw] at hnd
          exact hnd ▸ hn
        obtain ⟨first, last, m₀, vs, rfl, hfirst, _, hsupplied⟩ :=
          hs.supplied (n := .draw d) hr heq hmem hpre
        have hlen : vs.length = 2 + d.bindings.length := by
          rw [← hsupplied.yields.length_eq, UiNode.inputs, List.length_cons, List.length_cons,
            List.length_map]
          omega
        rw [hcalls]
        intro c hc
        rcases Draw.calls_reduce hlen hsupplied.stack hreduce c hc with hold | hmakes
        · exact hbefore c hold
        · exact ⟨d, hmem, first, last, m₀, m₁, vs, hfirst, hsupplied, hmakes⟩

theorem Sound.queues_evaluate (hs : e.Sound w) {report : EvalReport} {e' : Editor}
    (h : e.evaluate = (.ok report, e')) :
    ∀ c ∈ report.calls, ∃ d, .draw d ∈ e.nodes ∧ e.Queues w d c := by
  obtain ⟨root, order, m, _, hr, hrun, rfl, _⟩ := evaluate_eq_ok h
  exact hs.queues hr (List.append_nil order).symm hrun

/-! ## Values that are not computed -/

/-- A UI node that does not compute what it gives adds what is in the box of its output. -/
theorem reduce_stored {n : UiNode} {o : Id} {v : Value} {site : Site} {m : Machine (List UiNode)}
    (ho : o ∈ n.outputs) (hres : o ∉ n.results) (hv : m.values.get? o = some v) :
    (n.reduce site).on m = (.ok n, { m with stack := v :: m.stack }) := by
  cases n with
  | constant kind id output loaded =>
      obtain rfl := List.mem_singleton.1 ho
      have hvalue : UiNode.constantValue m.values o loaded = v := by
        rw [UiNode.constantValue, hv, Option.getD_some]
      unfold UiNode.reduce
      rw [Attempt.on_bind_of_ok (Attempt.on_get m), hvalue]
      rfl
  | asset kind id output path =>
      obtain rfl := List.mem_singleton.1 ho
      unfold UiNode.reduce
      rw [Attempt.on_bind_of_ok (box?_on m o), hv]
      rfl
  | primitive id output shape =>
      obtain rfl := List.mem_singleton.1 ho
      unfold UiNode.reduce
      rw [Attempt.on_bind_of_ok (box?_on m o), hv]
      rfl
  | _ => exact absurd ho hres

theorem inputs_of_stored {n : UiNode} {o : Id} (ho : o ∈ n.outputs) (hres : o ∉ n.results) :
    n.inputs = [] := by
  cases n with
  | constant | asset | primitive => rfl
  | _ => exact absurd ho hres

/-- The UI nodes of a walk are those of the editor, ready or not. -/
theorem Sound.find?_replayed (hs : e.Sound w) {n : UiNode} (hn : n ∈ e.nodes) {order : List Id}
    {m : Machine (List UiNode)} (hrun : e.replayed order = (.ok (), m)) :
    ∃ k, m.owner.find? (·.id == n.id) = some k ∧ k.unready = n.unready := by
  have howner := (hs.distinct.replayed order).2
  rw [hrun] at howner
  exact find?_of_unready howner (hs.casts.find?_id hn)

theorem Sound.visit_stored (hs : e.Sound w) {n : UiNode} (hn : n ∈ e.nodes) {o : Id}
    (ho : o ∈ n.outputs) (hres : o ∉ n.results) {first : List Id} {m : Machine (List UiNode)}
    (hrun : e.replayed first = (.ok (), m)) {v : Value} (hv : m.values.get? o = some v) :
    ∃ m', (visit e.graph e.clock.elapsed owners n.id).on m = (.ok (), m') ∧
      m'.stack = v :: m.stack := by
  obtain ⟨k, hfind, hk⟩ := hs.find?_replayed hn hrun
  have hout : o ∈ k.outputs := by rwa [← k.outputs_unready, hk, n.outputs_unready]
  have hkept : o ∉ k.results := by rwa [← k.results_unready, hk, n.results_unready]
  obtain ⟨node, hnode, hdir, htype⟩ := hs.wired.node n.id _ (hs.casts.plays n hn).identity
  have hpin : (node.direction.isPin || node.type == .value) = false := by
    simp [Direction.isPin, hdir, htype]
  have howners : ∃ m', (owners ⟨n.id, node.type, e.clock.elapsed⟩).on m = (.ok true, m') ∧
      m'.stack = v :: m.stack := by
    rw [owners, Attempt.on_bind_of_ok (Attempt.on_get m), hfind]
    exact ⟨_, Attempt.on_bind_of_ok (reduce_stored hout hkept hv), rfl⟩
  obtain ⟨m', hm', hstack⟩ := howners
  refine ⟨m', ?_, hstack⟩
  unfold visit
  simp only [hnode, hpin, Bool.false_eq_true, if_false]
  rw [Attempt.on_bind_of_ok hm']
  rfl

/-- The walk of an input that is linked to an output that nobody computes leaves what is in the box
of that output. -/
theorem Sound.supplied_stored (hs : e.Sound w) {pin owner o : Id} {kind : ValueKind}
    {first xs : List Id} {m₀ m₁ : Machine (List UiNode)} {v : Value}
    (hpin : w pin = some (.input owner kind)) (hlink : e.graph.neighbors pin = [o])
    (hstored : e.Stored o) (hfirst : e.replayed first = (.ok (), m₀))
    (horder : e.graph.Postorder [pin] xs)
    (hrun : (replay e.graph e.clock.elapsed owners xs).on m₀ = (.ok (), m₁))
    (hstack : m₁.stack = v :: m₀.stack) : e.values.get? o = some v := by
  obtain ⟨p, offer, hout⟩ : ∃ p offer, w o = some (.output p offer) := by
    rcases hs.wired.aims _ _ hpin with hnil | ⟨o', p, offer, ho', hout, _⟩
    · rw [hlink] at hnil
      cases hnil
    · rw [hlink] at ho'
      cases ho'
      exact ⟨p, offer, hout⟩
  obtain ⟨n, hn, rfl, hmem⟩ := hs.output_node hout
  have hres := hstored n hn
  -- the UI node is visited, then its output, then the input
  have hnext : e.graph.neighbors o = [n.id] := hs.wired.aims o _ hout
  have hbelow : e.graph.neighbors n.id = [] :=
    (hs.wired.aims _ _ (hs.casts.plays n hn).identity).trans (inputs_of_stored hmem hres)
  have hxs : xs = [n.id] ++ [o] ++ [pin] := by
    have hnode : e.graph.Postorder [n.id] ([] ++ [n.id]) := by
      apply Graph.Postorder.singleton
      rw [hbelow]
      exact .nil
    have houtput : e.graph.Postorder [o] ([n.id] ++ [o]) := .singleton (hnext ▸ hnode)
    exact horder.unique (.singleton (hlink ▸ houtput))
  obtain ⟨v₀, hv₀, _⟩ := hs.wired.output_box hout
  have hbox : m₀.values.get? o = some v₀ := by
    have huntouched := (hs.distinct.replayed first).1 o fun n hn _ => hstored n hn
    rw [hfirst] at huntouched
    exact huntouched.trans hv₀
  obtain ⟨m', hvisit, hstack'⟩ := hs.visit_stored hn hmem hres hfirst hbox
  have hthrough {id next : Id} {r : Role} (hr : w id = some r) (hdir : ∀ k : Node, r.Describes k →
      k.direction.isPin) (hlink : e.graph.neighbors id = [next]) :
      visit e.graph e.clock.elapsed owners id = return () := by
    obtain ⟨k, hk, hdescribes⟩ := hs.wired.node id r hr
    refine visit_linked hk (hdir k hdescribes) ?_
    rw [Ne, hs.wired.consistent.outDegree_eq_zero_iff, hlink]
    exact List.cons_ne_nil _ _
  have ho := hthrough hout (fun k hk => by rw [show k.direction = .output from hk]; rfl) hnext
  have hp := hthrough hpin (fun k hk => by rw [show k.direction = .input from hk]; rfl) hlink
  rw [hxs] at hrun
  simp only [List.cons_append, List.nil_append, replay, ho, hp, pure_bind] at hrun
  rw [Attempt.on_bind_of_ok hvisit] at hrun
  cases hrun
  rw [hstack'] at hstack
  rw [hv₀, (List.cons.inj hstack).1]

/-! ## Draw calls and their constants -/

/-- The draw call carries the constants of the shader. -/
def ConstantsOf (e : Editor) (c : DrawCall) (shader : Int32) : Prop :=
  c.bindings.map (fun b => (b.name, b.type)) = Draw.reflected e.scene shader

/-- The draw node made the draw call, with the constants of the shader that it is bound to. That is
the shader whose index is in the box of its shader pin, if it is linked, and the shader of the draw
call as well, if nobody computes what the linked output gives. -/
structure MadeBy (e : Editor) (c : DrawCall) (d : Draw) : Prop where
  mem : .draw d ∈ e.nodes
  constants : e.ConstantsOf c d.bound
  linked : e.graph.neighbors d.shader ≠ [] → e.values.get? d.shader = some (.int d.bound)
  own : ∀ o, e.graph.neighbors d.shader = [o] → e.Stored o →
    c.vertexShader = d.bound ∧ e.ConstantsOf c c.vertexShader

theorem index_of_coerce {v : Value} {n : Int32} (h : v.coerce .int = some (.int n)) :
    v.index? = some n := by
  cases v <;> cases h <;> rfl

theorem Sound.madeBy (hs : e.Sound w) (hfit : e.Fit) (hd : .draw d ∈ e.nodes)
    (hindexed : d.Indexed e.scene) (htook : ∀ o, e.Stored o → d.Took e.scene o) {c : DrawCall}
    (hqueues : e.Queues w d c) : e.MadeBy c d := by
  obtain ⟨first, last, m₀, m, vs, hfirst, hsupplied, hmakes⟩ := hqueues
  have hconstants : e.ConstantsOf c d.bound := hmakes.bindings.trans (hfit d hd)
  refine ⟨hd, hconstants, hs.box_of_indexed hd hindexed, fun o hlink hstored => ?_⟩
  have hplays := hs.casts.plays _ hd
  have hown : c.vertexShader = d.bound := by
    obtain ⟨v, n, _, _, hv, hn, _⟩ := Draw.index_of_link hs.wired hplays hlink
    have hbox := htook o hstored hlink
    have hlinked : e.graph.neighbors d.shader ≠ [] := by
      rw [hlink]
      exact List.cons_ne_nil _ _
    rw [hv, Option.bind_some, hn] at hbox
    have hbound := hs.box_of_indexed hd hindexed hlinked
    rw [show e.values.get? d.shader = _ from hbox] at hbound
    cases hbound
    have hfills := hsupplied.fills
    cases hfills with
    | cons horder hrun hstack =>
        have hrole := Seats.input hplays (d.shader, .int) List.mem_cons_self
        have hsame := hs.supplied_stored hrole hlink hstored hfirst horder hrun hstack
        rw [show e.values.get? o = _ from hv] at hsame
        cases hsame
        rw [hmakes.shader, List.getD_cons_zero, index_of_coerce hn, Option.getD_some]
  exact ⟨hown, hown ▸ hconstants⟩

/-- The evaluation that makes the draw calls changes nothing of this. -/
theorem MadeBy.evaluated {e' : Editor} {c : DrawCall} (h : e.MadeBy c d) (hs : e.Sound w)
    (he : Evaluated e e') : e'.MadeBy c d := by
  have hconstants (shader : Int32) (h : e.ConstantsOf c shader) : e'.ConstantsOf c shader :=
    h.trans (Draw.reflected_of_shaders he.shaders shader).symm
  have hmem {e e' : Editor} (hnodes : e'.nodes.map UiNode.unready = e.nodes.map UiNode.unready)
      {n : UiNode} (hn : n ∈ e.nodes) : ∃ k ∈ e'.nodes, k.unready = n.unready := by
    have hunready := List.mem_map_of_mem (f := UiNode.unready) hn
    rw [← hnodes] at hunready
    exact List.mem_map.1 hunready
  constructor
  · obtain ⟨k, hk, hunready⟩ := hmem he.nodes h.mem
    rw [show UiNode.unready (.draw d) = .draw d from rfl, UiNode.unready_eq_draw] at hunready
    exact hunready ▸ hk
  · exact hconstants _ h.constants
  · intro hlinked
    rw [he.graph] at hlinked
    rw [he.box]
    · exact h.linked hlinked
    · -- an input is nobody's output
      intro n hn hres
      have hout := (hs.casts.plays n hn).output (n.results_subset hres)
      rw [Seats.input (hs.casts.plays _ h.mem) (d.shader, .int) List.mem_cons_self] at hout
      cases hout
  · intro o hlink hstored
    rw [he.graph] at hlink
    have hbefore : e.Stored o := by
      intro n hn
      obtain ⟨k, hk, hunready⟩ := hmem he.nodes hn
      rw [← n.results_unready, ← hunready, k.results_unready]
      exact hstored k hk
    obtain ⟨hown, hcarried⟩ := h.own o hlink hbefore
    exact ⟨hown, hconstants _ hcarried⟩

/-- The draw calls of a frame and whose constants they carry. -/
theorem Tracked.frame_madeBy (h : Tracked e) {dt : Float32} (hserved : e.UpdateServed dt)
    {report : EvalReport} {e' : Editor} (hframe : e.frame dt = (.ok report, e')) :
    ∀ c ∈ report.calls, ∃ d, e'.MadeBy c d := by
  obtain ⟨w, hs⟩ := h.reached.sound
  obtain ⟨w', hs', _⟩ := carries_update hserved w hs
  have hfit := lasting_fit.apply_update hs h.fit hserved
  have hindexed := indexed_update hs h.reached.tidy hserved
  have htook := took_update hs h.reached.tidy h.reached.outbox hserved
  have hevaluated := hs'.evaluated
  unfold frame at hframe
  rw [hframe] at hevaluated
  intro c hc
  obtain ⟨d, hd, hqueues⟩ := hs'.queues_evaluate hframe c hc
  exact ⟨d, (hs'.madeBy hfit hd (hindexed d hd) (htook d hd) hqueues).evaluated hs' hevaluated⟩

/-- The lamp shines on a built-in shape. -/
def shown : Editor := [.addNode .primitive, .link 6 14, .setRoot (some 3)].foldl Operation.apply lit

theorem tracked_shown : Tracked shown := by
  have hprimitive := tracked_lit.step (.addNode .primitive) (by decide +kernel) fun _ h => nomatch h
  have hlink := hprimitive.step (.link 6 14) (by decide +kernel) fun _ h => nomatch h
  exact hlink.step (.setRoot (some 3)) trivial fun _ h => nomatch h

theorem madeBy_shown : Tracked shown ∧ shown.UpdateServed 1 ∧
    ∃ report e', shown.frame 1 = (.ok report, e') ∧ report.calls.length = 1 ∧
      ∀ c ∈ report.calls, ∃ d, e'.MadeBy c d := by
  have hserved : shown.UpdateServed 1 := by decide +kernel
  have hcalls : (shown.frame 1).1.toOption.map (·.calls.length) = some 1 := by decide +kernel
  cases hframe : shown.frame 1 with
  | mk r e' =>
      rw [hframe] at hcalls
      cases r with
      | error err => cases hcalls
      | ok report =>
          exact ⟨tracked_shown, hserved, report, e', rfl, Option.some.inj hcalls,
            tracked_shown.frame_madeBy hserved hframe⟩

/-- The shaders of a frame's draw calls, with the names of the constants that these carry. -/
def labels (e : Editor) : Option (List (Int32 × List String)) :=
  (e.frame 1).1.toOption.map fun report =>
    report.calls.map fun c => (c.vertexShader, c.bindings.map (·.name))

example : labels shown = some [(1, ["tint"])] := by decide +kernel

/-- A sum that was 1 when the draw node was linked to it and has been 2 since. -/
def dimmed : Editor :=
  [.addNode .draw, .addNode .primitive, .addNode .add, .link 3 8, .setPin 11 (.float 1),
    .setRoot (some 10), .evaluate, .link 1 15, .setPin 11 (.float 2), .setRoot (some 0)].foldl
      Operation.apply (.new { shaders := ((lampLibrary [⟨"tint", "float3"⟩]).declare "torch"
        [⟨"gain", "float"⟩]).2 })

/-- The index of the draw call is new, its constants are not. -/
example : labels dimmed = some [(2, ["tint"])] := by decide +kernel

end Editor

end DrawGraph
