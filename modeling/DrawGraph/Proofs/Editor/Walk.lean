import DrawGraph.Editor.Frame
import DrawGraph.Proofs.Editor.Delivery
import DrawGraph.Proofs.Evaluation.Postorder
import DrawGraph.Proofs.UiNode.Reduce

/-!
# Walks that keep their balance

In a scene that keeps to a wiring every node that a walk replays finds on top of the stack just the
values that its own targets left, in order, and leaves one value in their place. Only the identity
of a render target leaves none, and nothing leads to that.
-/

namespace DrawGraph

open Evaluation Wiring

namespace Graph

namespace Postorder

variable {g : Graph}

/-- What a post-order holds before one of its nodes ends in what the node's targets lead to, after
whole post-orders of nodes met earlier. -/
theorem cut {ns order pre post : List Id} {id : Id} (h : g.Postorder ns order)
    (heq : order = pre ++ id :: post) :
    ∃ before first last, pre = first ++ last ∧ g.Postorder before first ∧
      g.Postorder (g.neighbors id) last ∧ ∀ b ∈ before, b ∈ ns ∨ ∃ n, b ∈ g.neighbors n := by
  induction h generalizing pre post with
  | nil => simp at heq
  | @cons n ns xs ys below _ ihBelow ihBeside =>
      rcases List.append_eq_append_iff.1 heq with ⟨mid, rfl, hys⟩ | ⟨mid, rfl, hpost⟩
      · cases mid with
        | nil =>
            obtain ⟨rfl, rfl⟩ := List.cons.inj hys
            exact ⟨[], [], xs, by simp, .nil, below, by simp⟩
        | cons a mid =>
            obtain ⟨rfl, rfl⟩ := List.cons.inj hys
            obtain ⟨before, first, last, rfl, hfirst, hlast, hbefore⟩ := ihBeside rfl
            refine ⟨n :: before, xs ++ n :: first, last, by simp, .cons below hfirst, hlast, ?_⟩
            intro b hb
            rcases List.mem_cons.1 hb with rfl | hb
            · exact Or.inl List.mem_cons_self
            · exact (hbefore b hb).imp_left (List.mem_cons_of_mem _)
      · cases mid with
        | nil =>
            obtain ⟨rfl, rfl⟩ := List.cons.inj hpost
            exact ⟨[], [], pre, by simp, .nil, by simpa using below, by simp⟩
        | cons a mid =>
            obtain ⟨rfl, rfl⟩ := List.cons.inj hpost
            obtain ⟨before, first, last, rfl, hfirst, hlast, hbefore⟩ := ihBelow rfl
            refine ⟨before, first, last, rfl, hfirst, hlast, fun b hb => Or.inr ?_⟩
            exact (hbefore b hb).elim (fun h => ⟨n, h⟩) fun h => h

end Postorder

end Graph

namespace Wiring

/-- The identity of a UI node without outputs. -/
def Sink (w : Wiring) (id : Id) : Prop := ∃ inputs, w id = some (.identity inputs [])

end Wiring

/-- Nothing leads to the identity of a UI node without outputs. -/
theorem Wired.not_sink {w : Wiring} {g : Graph} {values : ValueStore} (h : Wired w g values)
    {m n : Id} (hm : m ∈ g.neighbors n) : ¬ w.Sink m := by
  rintro ⟨inputs, hsink⟩
  have hn := (h.hasNode_iff n).1 (h.consistent.hasNode_of_mem_neighbors hm).1
  obtain ⟨r, hr⟩ := Option.isSome_iff_exists.1 hn
  have haims := h.aims n r hr
  cases r with
  | identity ins outs =>
      obtain rfl : g.neighbors n = ins := haims
      obtain ⟨k, hk⟩ := (h.identity_belongs hr).2.1 m hm
      rw [hsink] at hk
      cases hk
  | input owner kind =>
      rcases haims with hnil | ⟨o, p, offer, ho, hrole, _⟩
      · simp [hnil] at hm
      · rw [ho, List.mem_singleton] at hm
        subst hm
        rw [hsink] at hrole
        cases hrole
  | output owner offer =>
      rw [show g.neighbors n = [owner] from haims, List.mem_singleton] at hm
      subst hm
      obtain ⟨ins, outs, hrole, hmem⟩ := h.output_belongs hr
      rw [hsink] at hrole
      cases hrole
      cases hmem

namespace Editor

variable {w : Wiring} {g : Graph} {observers : List Id} {m m' : Machine (List UiNode)}
  {time : Float32} {rest vs : List Value} {id : Id}

/-- The boxes and the UI nodes of a walk still fit the wiring, and the observers are the same. -/
structure Walks (w : Wiring) (g : Graph) (observers : List Id) (m : Machine (List UiNode)) :
    Prop where
  wired : Wired w g m.values
  casts : Casts w m.owner
  observers : (m.owner.filter UiNode.observes).map UiNode.id = observers

/-- What the visit of a node leaves on the rest of the stack. -/
structure Leaves (w : Wiring) (g : Graph) (id : Id) (rest : List Value)
    (m : Machine (List UiNode)) : Prop where
  value : ¬ w.Sink id → ∃ v, m.stack = v :: rest ∧ w.Yields g id v
  nothing : w.Sink id → m.stack = rest ∧ m.ready.isSome

/-- Failing, as the node's inputs clash with their supplies. -/
def Clashing (w : Wiring) (g : Graph) (observers : List Id) (ids : List Id) (err : EvalError)
    (m : Machine (List UiNode)) : Prop :=
  err.IsMismatch ∧ (∃ id ∈ ids, w.Misfed g id) ∧ Walks w g observers m

theorem Clashing.mono {ids ids' : List Id} {err : EvalError} (h : Clashing w g observers ids err m)
    (hids : ∀ i ∈ ids, i ∈ ids') : Clashing w g observers ids' err m := by
  obtain ⟨herr, ⟨i, hi, hmisfed⟩, hm⟩ := h
  exact ⟨herr, ⟨i, hids i hi, hmisfed⟩, hm⟩

theorem owners_ensures (hm : Walks w g observers m) {type : NodeType} {inputs outputs : List Id}
    (hid : w id = some (.identity inputs outputs))
    (hvs : List.Forall₂ (w.Yields g) inputs vs) (hstack : m.stack = vs.reverse ++ rest) :
    (owners ⟨id, type, time⟩).Ensures m (Clashing w g observers [id]) fun taken m' =>
      taken = true ∧ ¬ w.Misfed g id ∧ Walks w g observers m' ∧ Leaves w g id rest m' := by
  obtain ⟨n, hn, rfl⟩ := hm.casts.cast id inputs outputs hid
  have hplays := hm.casts.plays n hn
  obtain ⟨rfl, rfl⟩ : inputs = n.inputs ∧ outputs = n.outputs := by
    have h := hplays.identity
    rw [hid] at h
    cases h
    exact ⟨rfl, rfl⟩
  have hfind : m.owner.find? (·.id == n.id) = some n := hm.casts.find?_id hn
  refine Attempt.ensures_get_bind ?_
  simp only [hfind]
  refine ((UiNode.reduce_ensures hplays hm.wired hvs hstack).mono_error ?_).bind ?_
  · rintro err m' ⟨herr, hmisfed, hwired, howner⟩
    exact ⟨herr, ⟨n.id, by simp, hmisfed⟩, hwired, howner ▸ hm.casts, howner ▸ hm.observers⟩
  rintro n' m' ⟨⟨hid', hobserves, hplays'⟩, hleft⟩
  refine Attempt.ensures_modify_bind (Attempt.ensures_pure ⟨rfl, hleft.fed, ?_, ?_⟩)
  · refine ⟨hleft.wired, ?_, ?_⟩
    · have hsame : Recast n'.id w g w g := .of_le n'.id w (UInt32.le_refl _)
      rw [hleft.owner]
      exact hm.casts.replace (List.mem_map.2 ⟨n, hn, hid'.symm⟩) hsame hplays'
    · rw [hleft.owner, ← hm.observers]
      apply observers_replace
      intro k hk hkid
      rw [hm.casts.eq_of_id hk hn (hkid.trans hid'), hobserves]
  · have hsink : w.Sink n.id ↔ n.outputs = [] := by
      simp [Sink, hid]
    refine ⟨fun h => ?_, fun h => hleft.nothing (hsink.1 h)⟩
    obtain ⟨v, hv, hsupplies⟩ := hleft.value fun ho => h (hsink.2 ho)
    exact ⟨v, hv, .identity hid hsupplies⟩

/-- A pin without targets adds what is in its box. -/
theorem visit_unlinked {n : Node} {v : Value} (hn : g.node? id = some n) (hpin : n.direction.isPin)
    (hdegree : g.outDegree id = 0) (hbox : m.values.get? id = some v) :
    (visit g time owners id).on m = (.ok (), { m with stack := v :: m.stack }) := by
  unfold visit
  simp only [hn, hpin, hdegree, Bool.true_or, if_true]
  rw [Attempt.on_bind_of_ok (Machine.box?_on m id), hbox]
  rfl

theorem visit_linked {n : Node} (hn : g.node? id = some n) (hpin : n.direction.isPin)
    (hdegree : g.outDegree id ≠ 0) : visit g time owners id = return () := by
  unfold visit
  simp only [hn, hpin, hdegree, Bool.true_or, if_true, if_false]

/-- A pin that leads to a node passes on what that node yields. -/
theorem visit_linked_ensures (hm : Walks w g observers m) {n : Node} (hn : g.node? id = some n)
    (hpin : n.direction.isPin) (hsink : ¬ w.Sink id) {t : Id} (hts : g.neighbors id = [t])
    (hyields : ∀ v, w.Yields g t v → w.Yields g id v)
    (hvs : List.Forall₂ (w.Yields g) (g.neighbors id) vs) (hstack : m.stack = vs.reverse ++ rest) :
    (visit g time owners id).Ensures m (Clashing w g observers [id]) fun _ m' =>
      Walks w g observers m' ∧ Leaves w g id rest m' := by
  have hdegree : g.outDegree id ≠ 0 := by
    rw [Ne, hm.wired.consistent.outDegree_eq_zero_iff, hts]
    simp
  rw [hts, List.forall₂_cons_left_iff] at hvs
  obtain ⟨v, _, hv, hnil, rfl⟩ := hvs
  obtain rfl := List.forall₂_nil_left_iff.1 hnil
  rw [visit_linked hn hpin hdegree]
  exact Attempt.ensures_pure ⟨hm, fun _ => ⟨v, hstack, hyields v hv⟩, fun h => absurd h hsink⟩

theorem visit_input_ensures (hm : Walks w g observers m) {owner : Id} {kind : ValueKind}
    (hr : w id = some (.input owner kind)) (hvs : List.Forall₂ (w.Yields g) (g.neighbors id) vs)
    (hstack : m.stack = vs.reverse ++ rest) :
    (visit g time owners id).Ensures m (Clashing w g observers [id]) fun _ m' =>
      Walks w g observers m' ∧ Leaves w g id rest m' := by
  obtain ⟨n, hn, hdir⟩ := hm.wired.node id _ hr
  have hsink : ¬ w.Sink id := by simp [Sink, hr]
  have hpin : n.direction.isPin := by
    rw [show n.direction = .input from hdir]
    rfl
  rcases hm.wired.aims id _ hr with hnil | ⟨o, p, offer, ho, hrole, _⟩
  · obtain ⟨v, hbox, hv⟩ := hm.wired.input_box hr
    rw [hnil] at hvs
    obtain rfl := List.forall₂_nil_left_iff.1 hvs
    have hdegree := hm.wired.consistent.outDegree_eq_zero_iff.2 hnil
    refine Attempt.ensures_of_ok (visit_unlinked hn hpin hdegree hbox) ?_
    refine ⟨⟨hm.wired, hm.casts, hm.observers⟩, ?_, fun h => absurd h hsink⟩
    exact fun _ => ⟨v, congrArg (v :: ·) hstack, .box hr hnil hv⟩
  · exact visit_linked_ensures hm hn hpin hsink ho (fun v hv => .link hr ho (hv.of_output hrole)) hvs
      hstack

theorem visit_output_ensures (hm : Walks w g observers m) {owner : Id} {offer : Offer}
    (hr : w id = some (.output owner offer)) (hvs : List.Forall₂ (w.Yields g) (g.neighbors id) vs)
    (hstack : m.stack = vs.reverse ++ rest) :
    (visit g time owners id).Ensures m (Clashing w g observers [id]) fun _ m' =>
      Walks w g observers m' ∧ Leaves w g id rest m' := by
  obtain ⟨n, hn, hdir⟩ := hm.wired.node id _ hr
  have hsink : ¬ w.Sink id := by simp [Sink, hr]
  have hpin : n.direction.isPin := by
    rw [show n.direction = .output from hdir]
    rfl
  have hts : g.neighbors id = [owner] := hm.wired.aims id _ hr
  obtain ⟨inputs, outputs, hrole, hmem⟩ := hm.wired.output_belongs hr
  exact visit_linked_ensures hm hn hpin hsink hts
    (fun v hv => .output (hv.of_identity hrole id hmem)) hvs hstack

/-- A visit takes the values that the targets of the node left and leaves one in their place. -/
theorem visit_ensures (hm : Walks w g observers m) (hid : (w id).isSome)
    (hvs : List.Forall₂ (w.Yields g) (g.neighbors id) vs) (hstack : m.stack = vs.reverse ++ rest) :
    (visit g time owners id).Ensures m (Clashing w g observers [id]) fun _ m' =>
      ¬ w.Misfed g id ∧ Walks w g observers m' ∧ Leaves w g id rest m' := by
  obtain ⟨r, hr⟩ := Option.isSome_iff_exists.1 hid
  cases r with
  | identity inputs outputs =>
      obtain ⟨n, hn, hdir, htype⟩ := hm.wired.node id _ hr
      obtain rfl : g.neighbors id = inputs := hm.wired.aims id _ hr
      have hpin : (n.direction.isPin || n.type == .value) = false := by
        simp [Direction.isPin, hdir, htype]
      unfold visit
      simp only [hn, hpin, Bool.false_eq_true, if_false]
      refine (owners_ensures hm hr hvs hstack).bind ?_
      rintro taken m' ⟨rfl, hleft⟩
      exact Attempt.ensures_pure hleft
  | input owner kind =>
      have hfed : ¬ w.Misfed g id := by simp [Misfed, hr]
      exact (visit_input_ensures hm hr hvs hstack).mono_ok fun _ _ h => ⟨hfed, h⟩
  | output owner offer =>
      have hfed : ¬ w.Misfed g id := by simp [Misfed, hr]
      exact (visit_output_ensures hm hr hvs hstack).mono_ok fun _ _ h => ⟨hfed, h⟩

/-- Replaying the post-order of each node in turn leaves one more value on the stack. -/
inductive Fills (g : Graph) (time : Float32) : Machine (List UiNode) → List Id → List Id →
    List Value → Machine (List UiNode) → Prop
  | nil (m : Machine (List UiNode)) : Fills g time m [] [] [] m
  | cons {m m₁ m₂ : Machine (List UiNode)} {n : Id} {ns xs ys : List Id} {v : Value}
      {vs : List Value} (order : g.Postorder [n] xs)
      (run : (replay g time owners xs).on m = (.ok (), m₁)) (stack : m₁.stack = v :: m.stack)
      (rest : Fills g time m₁ ns ys vs m₂) : Fills g time m (n :: ns) (xs ++ ys) (v :: vs) m₂

/-- The values left for a list of nodes, each by its own part of the walk. -/
structure Supplied (w : Wiring) (g : Graph) (time : Float32) (m : Machine (List UiNode))
    (ns order : List Id) (m' : Machine (List UiNode)) (vs : List Value) : Prop where
  yields : List.Forall₂ (w.Yields g) ns vs
  stack : m'.stack = vs.reverse ++ m.stack
  fills : Fills g time m ns order vs m'

theorem replay_ensures {ns order : List Id} (h : g.Postorder ns order)
    (hns : ∀ n ∈ ns, (w n).isSome ∧ ¬ w.Sink n) (hm : Walks w g observers m) :
    (replay g time owners order).Ensures m (Clashing w g observers order) fun _ m' =>
      (∀ id ∈ order, ¬ w.Misfed g id) ∧ Walks w g observers m' ∧
        ∃ vs, Supplied w g time m ns order m' vs := by
  induction h generalizing m with
  | nil =>
      exact Attempt.ensures_pure ⟨by simp, hm, [], .nil, rfl, .nil m⟩
  | @cons n ns xs ys below beside ihBelow ihBeside =>
      have hbelow : ∀ t ∈ g.neighbors n, (w t).isSome ∧ ¬ w.Sink t := fun t ht =>
        ⟨hm.wired.isSome_of_mem_neighbors ht, hm.wired.not_sink ht⟩
      obtain ⟨hn, hsink⟩ := hns n List.mem_cons_self
      rw [replay_append]
      refine ((ihBelow hbelow hm).mono_error fun _ _ h => h.mono ?_).bind_on ?_
      · exact fun i hi => List.mem_append_left _ hi
      rintro _ m₁ hrun₁ ⟨hfed₁, hm₁, vs₁, hvs₁⟩
      refine ((visit_ensures hm₁ hn hvs₁.yields hvs₁.stack).mono_error
        fun _ _ h => h.mono ?_).bind_on ?_
      · simp
      rintro _ m₂ hrun₂ ⟨hfed₂, hm₂, hleaves⟩
      obtain ⟨v, hstack, hv⟩ := hleaves.value hsink
      have hbeside := ihBeside (fun k hk => hns k (List.mem_cons_of_mem _ hk)) hm₂
      refine hbeside.mono (fun _ _ h => h.mono ?_) ?_
      · exact fun i hi => List.mem_append_right _ (List.mem_cons_of_mem _ hi)
      rintro _ m₃ ⟨hfed₃, hm₃, vs₃, hvs₃⟩
      refine ⟨?_, hm₃, v :: vs₃, .cons hv hvs₃.yields, ?_, ?_⟩
      · intro id hid
        rcases List.mem_append.1 hid with hid | hid
        · exact hfed₁ id hid
        · rcases List.mem_cons.1 hid with rfl | hid
          · exact hfed₂
          · exact hfed₃ id hid
      · rw [hvs₃.stack, hstack]
        simp
      · have hrun : (replay g time owners (xs ++ [n])).on m = (.ok (), m₂) := by
          rw [replay_append, Attempt.on_bind_of_ok hrun₁, replay, Attempt.on_bind_of_ok hrun₂]
          rfl
        have hfills := Fills.cons below.singleton hrun hstack hvs₃.fills
        rwa [List.append_assoc] at hfills

end Editor

end DrawGraph
