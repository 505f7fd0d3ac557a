import DrawGraph.Proofs.Editor.Upkeep
import DrawGraph.Proofs.UiNode.Effect

/-!
# What a walk gives

The boxes that a walk reads are none of those that it writes. So what the visit of a node comes to
is fixed by the editor before the walk and by the values that were left for its targets; a walk
leaves these values and notes these effects, one after another.
-/

namespace DrawGraph

open Evaluation Machine Wiring

/-- The effect of a node and the readiness of the UI node that it belongs to. -/
def Effect.turn (f : Effect) (id : Id) (m : Machine (List UiNode)) : Machine (List UiNode) :=
  { f.note id m with owner := m.owner.map fun k => if k.id = id then k.readied f.ready else k }

theorem Effect.turn_gives (v : Value) (id : Id) (m : Machine (List UiNode)) :
    (gives v).turn id m = m := by
  simp [turn, note, gives, complete?]

namespace Graph.Postorder

variable {g : Graph} {ns order : List Id}

theorem mem_of_closed {p : Id → Prop} (h : g.Postorder ns order)
    (hp : ∀ n, p n → ∀ t ∈ g.neighbors n, p t) (hns : ∀ n ∈ ns, p n) : ∀ id ∈ order, p id := by
  induction h with
  | nil => exact fun id hid => nomatch hid
  | @cons n ns xs ys _ _ ihBelow ihBeside =>
      have hn := hns n List.mem_cons_self
      intro id hid
      rcases List.mem_append.1 hid with hid | hid
      · exact ihBelow (hp n hn) id hid
      · rcases List.mem_cons.1 hid with rfl | hid
        · exact hn
        · exact ihBeside (fun k hk => hns k (List.mem_cons_of_mem _ hk)) id hid

end Graph.Postorder

namespace Laid

variable {w : Wiring} {g : Graph} {n t : Id}

/-- A node with a role leads to nodes with roles that leave a value. -/
theorem supplies (h : Laid True w g) (hn : (w n).isSome) (ht : t ∈ g.neighbors n) :
    (w t).isSome ∧ ¬ w.Sink t := by
  obtain ⟨r, hr⟩ := Option.isSome_iff_exists.1 hn
  obtain ⟨-, hheads, hbelongs, hinside⟩ := h.lies n r hr
  refine ⟨hinside trivial t ht, ?_⟩
  rintro ⟨inputs, hsink⟩
  cases r with
  | identity ins outs =>
      rw [show g.neighbors n = ins from hheads] at ht
      obtain ⟨k, hk⟩ := hbelongs.2.1 t ht
      rw [hsink] at hk
      cases hk
  | input owner kind =>
      rcases hheads with hnil | ⟨o, k, ho, hk, hdir⟩
      · rw [hnil] at ht
        cases ht
      · rw [ho, List.mem_singleton] at ht
        subst ht
        obtain ⟨k', hk', hdescribes⟩ := (h.lies t _ hsink).node
        obtain rfl := Option.some.inj (hk.symm.trans hk')
        rw [hdescribes.1] at hdir
        cases hdir
  | output owner offer =>
      rw [show g.neighbors n = [owner] from hheads, List.mem_singleton] at ht
      subst ht
      obtain ⟨ins, outs, hrole, hmem⟩ := h.coherent.output hr
      rw [hsink] at hrole
      cases hrole
      cases hmem

end Laid

/-- What a UI node only gives, no other UI node computes. -/
theorem Casts.notMem_results {w : Wiring} {nodes : List UiNode} (h : Casts w nodes) {n : UiNode}
    (hn : n ∈ nodes) {o : Id} (ho : o ∈ n.outputs) (hres : o ∉ n.results) :
    ∀ k ∈ nodes, o ∉ k.results := by
  intro k hk hmem
  have hout := (h.plays k hk).output (k.results_subset hmem)
  rw [(h.plays n hn).output ho] at hout
  obtain rfl : n = k := h.eq_of_id hn hk (Role.output.inj (Option.some.inj hout)).1
  exact hres hmem

namespace Editor

variable {w : Wiring} {e : Editor} {id root : Id} {ns order : List Id} {us vs rest : List Value}
  {f f' : Effect} {m m' : Machine (List UiNode)}

/-! ## Values and effects -/

/-- The effect of the visit of a node whose targets left these values. -/
def effectAt (e : Editor) (id : Id) (vs : List Value) : Except EvalError Effect :=
  match e.graph.node? id with
  | none => .error (.graph (.nodeNotFound id))
  | some n =>
    if n.direction.isPin then .ok (.gives (vs.headD ((e.values.get? id).getD (.float n.value))))
    else
      match e.node? id with
      | none => .error (.unowned id n.type)
      | some k => k.effect ⟨id, n.type, e.clock.elapsed⟩ e.values vs

/-- The values that a walk leaves for nodes. -/
inductive Gives (e : Editor) : List Id → List Value → Prop
  | nil : Gives e [] []
  | cons {n : Id} {ns : List Id} {us vs : List Value} {f : Effect} {v : Value}
      (below : Gives e (e.graph.neighbors n) us) (effect : e.effectAt n us = .ok f)
      (value : f.value = some v) (beside : Gives e ns vs) : Gives e (n :: ns) (v :: vs)

theorem Gives.length_eq (h : e.Gives ns vs) : vs.length = ns.length := by
  induction h with
  | nil => rfl
  | cons _ _ _ _ _ ih => rw [List.length_cons, List.length_cons, ih]

theorem Gives.unique (h : e.Gives ns us) (h' : e.Gives ns vs) : us = vs := by
  induction h generalizing vs with
  | nil =>
      cases h'
      rfl
  | cons _ effect value _ ihBelow ihBeside =>
      cases h' with
      | cons below' effect' value' beside' =>
          obtain rfl := ihBelow below'
          obtain rfl := Except.ok.inj (effect.symm.trans effect')
          rw [Option.some.inj (value.symm.trans value'), ihBeside beside']

/-- What every visit of a node comes to. -/
def Does (e : Editor) (id : Id) (f : Effect) : Prop :=
  ∃ us, e.Gives (e.graph.neighbors id) us ∧ e.effectAt id us = .ok f

theorem Does.unique (h : e.Does id f) (h' : e.Does id f') : f = f' := by
  obtain ⟨us, hus, hf⟩ := h
  obtain ⟨vs, hvs, hf'⟩ := h'
  obtain rfl := hus.unique hvs
  exact Except.ok.inj (hf.symm.trans hf')

/-! ## In the course of a walk -/

/-- The boxes that are no results are as before the walk, and so are the UI nodes, ready or not. -/
structure Amid (e : Editor) (m : Machine (List UiNode)) : Prop where
  box : ∀ p, (∀ n ∈ e.nodes, p ∉ n.results) → m.values.get? p = e.values.get? p
  nodes : m.owner.map UiNode.unready = e.nodes.map UiNode.unready

theorem Amid.start (e : Editor) : e.Amid e.start := ⟨fun _ _ => rfl, rfl⟩

theorem Amid.replay (h : e.Amid m) (hdistinct : e.Distinct) {r : Except EvalError Unit}
    (hrun : (replay e.graph e.clock.elapsed owners order).on m = (r, m')) : e.Amid m' := by
  have hnodup : ((e.nodes.map UiNode.unready).map UiNode.id).Nodup := by
    rw [map_id_unready]
    exact hdistinct.nodup
  have huntouched (p : Id) (hp : ∀ n ∈ e.nodes, p ∉ n.results) :
      Untouched (e.nodes.map UiNode.unready) p m m' := by
    have hmoves : Attempt.Moves (Untouched (e.nodes.map UiNode.unready) p)
        (Evaluation.replay e.graph e.clock.elapsed owners order) := by
      apply moves_replay hnodup
      intro n hn _
      obtain ⟨k, hk, rfl⟩ := List.mem_map.1 hn
      rw [k.results_unready]
      exact hp k hk
    have hmoved := hmoves m
    rw [hrun] at hmoved
    exact untouched_of_moves hmoved
  obtain ⟨p, hp⟩ := hdistinct.unused
  exact ⟨fun p hp => (huntouched p hp h.nodes).1.trans (h.box p hp), (huntouched p hp h.nodes).2⟩

/-! ## Visits -/

theorem Amid.nodup (hm : e.Amid m) (hnodup : (e.nodes.map UiNode.id).Nodup) :
    (m.owner.map UiNode.id).Nodup := by
  rwa [← map_id_unready, hm.nodes, map_id_unready]

/-- A UI node that is reduced in the course of a walk comes to its effect. -/
theorem Amid.owners_on (hm : e.Amid m) (hcasts : Casts w e.nodes) {n : UiNode} (hn : n ∈ e.nodes)
    {site : Site} (hsite : site.node = n.id) (hlen : us.length = n.inputs.length)
    (hstack : m.stack = us.reverse ++ rest) :
    (owners site).on m =
      match n.effect site e.values us with
      | .ok f => (.ok true, { f.turn n.id m with stack := f.value.toList ++ rest })
      | .error err => (.error err, { m with stack := rest }) := by
  obtain ⟨k, hfind, hk⟩ := find?_of_unready hm.nodes (hcasts.find?_id hn)
  have hid : k.id = n.id := by rw [← k.id_unready, hk, n.id_unready]
  have hinputs : k.inputs = n.inputs := by rw [← k.inputs_unready, hk, n.inputs_unready]
  have heffect : k.effect site m.values us = n.effect site e.values us :=
    UiNode.effect_congr hk fun o ho hres => hm.box o (hcasts.notMem_results hn ho hres)
  have hreduce : (k.reduce site).on m = _ :=
    UiNode.reduce_on (hlen.trans (congrArg _ hinputs.symm)) hstack
  rw [heffect] at hreduce
  rw [owners, Attempt.on_bind_of_ok (Attempt.on_get m), hsite, hfind]
  dsimp only
  cases hf : n.effect site e.values us with
  | error err =>
      rw [hf] at hreduce
      exact Attempt.on_bind_of_error hreduce
  | ok f =>
      rw [hf] at hreduce
      rw [Attempt.on_bind_of_ok hreduce, hsite]
      have howner : (m.owner.map fun j => if j.id = (k.readied f.ready).id then k.readied f.ready
          else j) = m.owner.map fun j => if j.id = n.id then j.readied f.ready else j := by
        apply List.map_congr_left
        intro j hj
        rw [k.id_readied, hid]
        split
        · next hjid =>
          have hmem := List.mem_of_find?_eq_some hfind
          rw [List.inj_on_of_nodup_map (hm.nodup hcasts.nodup) hj hmem (hjid.trans hid.symm)]
        · rfl
      exact congrArg (fun owner => (Except.ok true,
        { f.onto n.id { m with stack := rest } with owner := owner })) howner

theorem effectAt_pin {n : Node} (hn : e.graph.node? id = some n) (hpin : n.direction.isPin) :
    e.effectAt id us = .ok (.gives (us.headD ((e.values.get? id).getD (.float n.value)))) := by
  simp only [effectAt, hn, hpin, if_true]

theorem effectAt_identity {n : Node} (hn : e.graph.node? id = some n) (hpin : ¬ n.direction.isPin)
    {k : UiNode} (hk : e.node? id = some k) :
    e.effectAt id us = k.effect ⟨id, n.type, e.clock.elapsed⟩ e.values us := by
  simp only [effectAt, hn, hpin, hk, Bool.false_eq_true, if_false]

/-- A pin lets through what its one target left, and without a target adds what is in its box. -/
theorem visit_pin_on (hc : e.graph.Consistent) {n : Node} (hn : e.graph.node? id = some n)
    (hpin : n.direction.isPin) (hone : (e.graph.neighbors id).length ≤ 1)
    (hbox : e.graph.neighbors id = [] → m.values.get? id = e.values.get? id)
    (hlen : us.length = (e.graph.neighbors id).length) (hstack : m.stack = us.reverse ++ rest) :
    (visit e.graph e.clock.elapsed owners id).on m =
      (.ok (), { m with
        stack := us.headD ((e.values.get? id).getD (.float n.value)) :: rest }) := by
  cases hts : e.graph.neighbors id with
  | nil =>
      rw [hts] at hlen
      obtain rfl := List.length_eq_zero_iff.1 hlen
      have hdegree := hc.outDegree_eq_zero_iff.2 hts
      unfold visit
      simp only [hn, hpin, hdegree, Bool.true_or, if_true]
      rw [Attempt.on_bind_of_ok (box?_on m id), hbox hts, push_on]
      rw [show m.stack = rest from hstack]
      rfl
  | cons t ts =>
      rw [hts, List.length_cons] at hone
      obtain rfl : ts = [] := List.length_eq_zero_iff.1 (by omega)
      rw [hts] at hlen
      obtain ⟨v, rfl⟩ := List.length_eq_one_iff.1 hlen
      have hdegree : e.graph.outDegree id ≠ 0 := by
        rw [Ne, hc.outDegree_eq_zero_iff, hts]
        exact List.cons_ne_nil _ _
      have hkept : m = { m with stack := v :: rest } := by
        rw [show v :: rest = m.stack from hstack.symm]
      rw [visit_linked hn hpin hdegree]
      exact congrArg (Except.ok (), ·) hkept

/-- A visit in the course of a walk takes what was left for the targets of the node off the stack,
and comes to its effect. -/
theorem Held.visit_on {tight : Prop} (h : e.Held tight w) (hm : e.Amid m) (hid : (w id).isSome)
    (hlen : us.length = (e.graph.neighbors id).length) (hstack : m.stack = us.reverse ++ rest) :
    (visit e.graph e.clock.elapsed owners id).on m =
      match e.effectAt id us with
      | .ok f => (.ok (), { f.turn id m with stack := f.value.toList ++ rest })
      | .error err => (.error err, { m with stack := rest }) := by
  obtain ⟨r, hr⟩ := Option.isSome_iff_exists.1 hid
  obtain ⟨⟨n, hn, hdescribes⟩, hheads, _, _⟩ := h.laid.lies id r hr
  have hpin_on (hpin : n.direction.isPin) (hone : (e.graph.neighbors id).length ≤ 1)
      (hbox : e.graph.neighbors id = [] → m.values.get? id = e.values.get? id) :
      (visit e.graph e.clock.elapsed owners id).on m =
        match e.effectAt id us with
        | .ok f => (.ok (), { f.turn id m with stack := f.value.toList ++ rest })
        | .error err => (.error err, { m with stack := rest }) := by
    rw [visit_pin_on h.consistent hn hpin hone hbox hlen hstack, effectAt_pin hn hpin]
    dsimp only
    rw [Effect.turn_gives]
    rfl
  cases r with
  | identity inputs outputs =>
      obtain ⟨k, hk, rfl⟩ := h.casts.cast id inputs outputs hr
      obtain ⟨hdir, htype⟩ := hdescribes
      have hpin : ¬ n.direction.isPin := by simp [hdir, Direction.isPin]
      have hskip : (n.direction.isPin || n.type == .value) = false := by simp [hpin, htype]
      have hinputs : k.inputs = inputs := by
        have hrole := (h.casts.plays k hk).identity
        rw [hr] at hrole
        exact (Role.identity.inj (Option.some.inj hrole)).1.symm
      have hcount : us.length = k.inputs.length := by
        rw [hlen, hinputs, show e.graph.neighbors k.id = inputs from hheads]
      have howners : (owners ⟨k.id, n.type, e.clock.elapsed⟩).on m = _ :=
        hm.owners_on h.casts hk rfl hcount hstack
      rw [effectAt_identity hn hpin (h.casts.find?_id hk)]
      unfold visit
      simp only [hn, hskip, Bool.false_eq_true, if_false]
      cases hf : k.effect ⟨k.id, n.type, e.clock.elapsed⟩ e.values us with
      | error err =>
          rw [hf] at howners
          exact Attempt.on_bind_of_error howners
      | ok f =>
          rw [hf] at howners
          exact Attempt.on_bind_of_ok howners
  | input owner kind =>
      have hpin : n.direction.isPin := by rw [show n.direction = .input from hdescribes]; rfl
      refine hpin_on hpin ?_ fun _ => hm.box id fun k hk hmem => ?_
      · rcases hheads with hnil | ⟨o, _, ho, _⟩ <;> simp [*]
      · have hout := (h.casts.plays k hk).output (k.results_subset hmem)
        rw [hr] at hout
        cases hout
  | output owner offer =>
      have hpin : n.direction.isPin := by rw [show n.direction = .output from hdescribes]; rfl
      have hone : e.graph.neighbors id = [owner] := hheads
      refine hpin_on hpin (by simp [hone]) fun hnil => ?_
      rw [hone] at hnil
      cases hnil

/-- The visit of an identity comes to what its UI node comes to. -/
theorem Held.effectAt_node {tight : Prop} (h : e.Held tight w) {n : UiNode} (hn : n ∈ e.nodes) :
    ∃ type, ∀ us, e.effectAt n.id us = n.effect ⟨n.id, type, e.clock.elapsed⟩ e.values us := by
  obtain ⟨k, hk, hdescribes⟩ := (h.laid.lies n.id _ (h.casts.plays n hn).identity).node
  have hpin : ¬ k.direction.isPin := by simp [hdescribes.1, Direction.isPin]
  exact ⟨k.type, fun us => effectAt_identity hk hpin (h.casts.find?_id hn)⟩

theorem Held.suits_of_effectAt {tight : Prop} (h : e.Held tight w) {n : UiNode} (hn : n ∈ e.nodes)
    (hf : e.effectAt n.id us = .ok f) : n.Suits f := by
  obtain ⟨type, heffect⟩ := h.effectAt_node hn
  rw [heffect] at hf
  exact UiNode.suits_of_effect hf

/-- What the visit of a node comes to suits the UI node whose identity it is, and a pin only gives a
value. -/
theorem Held.effectAt_cases {tight : Prop} (h : e.Held tight w) (hid : (w id).isSome)
    (hf : e.effectAt id us = .ok f) :
    (∃ k ∈ e.nodes, k.id = id ∧ k.Suits f) ∨ ∃ v, f = .gives v := by
  obtain ⟨r, hr⟩ := Option.isSome_iff_exists.1 hid
  obtain ⟨n, hn, hdescribes⟩ := (h.laid.lies id r hr).node
  have hgives (hpin : n.direction.isPin) : ∃ v, f = .gives v := by
    rw [effectAt_pin hn hpin] at hf
    exact ⟨_, (Except.ok.inj hf).symm⟩
  cases r with
  | identity inputs outputs =>
      obtain ⟨k, hk, rfl⟩ := h.casts.cast id inputs outputs hr
      exact Or.inl ⟨k, hk, rfl, h.suits_of_effectAt hk hf⟩
  | input owner kind =>
      exact Or.inr (hgives (by rw [show n.direction = .input from hdescribes]; rfl))
  | output owner offer =>
      exact Or.inr (hgives (by rw [show n.direction = .output from hdescribes]; rfl))

/-- Every node but the identity of a render target leaves a value. -/
theorem Held.value_of_effectAt {tight : Prop} (h : e.Held tight w) (hid : (w id).isSome)
    (hsink : ¬ w.Sink id) (hf : e.effectAt id us = .ok f) : ∃ v, f.value = some v := by
  rcases h.effectAt_cases hid hf with ⟨k, hk, rfl, hsuits⟩ | ⟨v, rfl⟩
  · refine hsuits.value fun hnil => hsink ⟨k.inputs, ?_⟩
    rw [(h.casts.plays k hk).identity, hnil]
  · exact ⟨v, rfl⟩

/-- What a draw node comes to. -/
theorem Held.effect_of_draw {tight : Prop} (h : e.Held tight w) {d : Draw}
    (hd : .draw d ∈ e.nodes) (hf : e.effectAt d.id us = .ok f) :
    ∃ c, d.Calls us c ∧ f = { Effect.stores d.output (.float (if c.isComplete then 1 else 0)) with
      call := some c } := by
  obtain ⟨type, heffect⟩ := h.effectAt_node hd
  rw [show d.id = (UiNode.draw d).id from rfl, heffect] at hf
  obtain ⟨constants, hcs, rfl⟩ := UiNode.effect_draw hf
  exact ⟨d.call us constants, ⟨constants, takes_of_constants hcs, rfl⟩, rfl⟩

/-! ## Whole walks -/

/-- The effects of nodes are noted one after another. -/
def log (steps : List (Id × Effect)) (m : Machine (List UiNode)) : Machine (List UiNode) :=
  steps.foldl (fun m s => s.2.turn s.1 m) m

/-- What the visits of these nodes come to. -/
structure Traces (e : Editor) (order : List Id) (steps : List (Id × Effect)) : Prop where
  order : steps.map Prod.fst = order
  does : ∀ s ∈ steps, e.Does s.1 s.2

theorem log_append (steps steps' : List (Id × Effect)) (m : Machine (List UiNode)) :
    log (steps ++ steps') m = log steps' (log steps m) := List.foldl_append ..

theorem log_stack (steps : List (Id × Effect)) (m : Machine (List UiNode)) (stack : List Value) :
    log steps { m with stack := stack } = { log steps m with stack := stack } := by
  induction steps generalizing m with
  | nil => rfl
  | cons s steps ih => exact ih (s.2.turn s.1 m)

namespace Traces

variable {order' : List Id} {steps steps' : List (Id × Effect)}

theorem append (h : e.Traces order steps) (h' : e.Traces order' steps') :
    e.Traces (order ++ order') (steps ++ steps') where
  order := by rw [List.map_append, h.order, h'.order]
  does s hs := (List.mem_append.1 hs).elim (h.does s) (h'.does s)

theorem singleton (h : e.Does id f) : e.Traces [id] [(id, f)] where
  order := rfl
  does s hs := by
    obtain rfl := List.mem_singleton.1 hs
    exact h

theorem exists_mem (h : e.Traces order steps) (hid : id ∈ order) : ∃ f, (id, f) ∈ steps := by
  obtain ⟨⟨_, f⟩, hs, rfl⟩ := List.mem_map.1 (h.order ▸ hid)
  exact ⟨f, hs⟩

theorem unique (h : e.Traces order steps) (h' : e.Traces order steps') : steps = steps' := by
  obtain ⟨rfl, hdoes⟩ := h
  obtain ⟨horder, hdoes'⟩ := h'
  induction steps generalizing steps' with
  | nil => exact (List.map_eq_nil_iff.1 horder).symm
  | cons s steps ih =>
      obtain ⟨s', rest, rfl, hid, hrest⟩ := List.map_eq_cons_iff.1 horder
      have hs : s = s' := by
        refine Prod.ext hid.symm ((hdoes s List.mem_cons_self).unique ?_)
        rw [← hid]
        exact hdoes' s' List.mem_cons_self
      rw [hs, ih (fun t ht => hdoes t (List.mem_cons_of_mem _ ht)) hrest
        fun t ht => hdoes' t (List.mem_cons_of_mem _ ht)]

end Traces

/-- The visit of a node after its targets. -/
theorem Held.visit_ok (h : e.Held True w) (hid : (w id).isSome) (hm : e.Amid m)
    (hus : e.Gives (e.graph.neighbors id) us) (hstack : m.stack = us.reverse ++ rest)
    (hvisit : (visit e.graph e.clock.elapsed owners id).on m = (.ok (), m')) :
    ∃ f, e.effectAt id us = .ok f ∧ m' = { f.turn id m with stack := f.value.toList ++ rest } := by
  rw [h.visit_on hm hid hus.length_eq hstack] at hvisit
  split at hvisit
  · next f hf =>
    cases hvisit
    exact ⟨f, hf, rfl⟩
  · cases hvisit

/-- A walk that does not fail leaves the values and notes the effects of its nodes. -/
theorem Held.replay_ok (h : e.Held True w) (hpost : e.graph.Postorder ns order)
    (hns : ∀ n ∈ ns, (w n).isSome ∧ ¬ w.Sink n) (hm : e.Amid m)
    (hrun : (replay e.graph e.clock.elapsed owners order).on m = (.ok (), m')) :
    ∃ vs steps, e.Gives ns vs ∧ e.Traces order steps ∧
      m' = { log steps m with stack := vs.reverse ++ m.stack } := by
  induction hpost generalizing m m' with
  | nil =>
      cases hrun
      exact ⟨[], [], .nil, ⟨rfl, fun s hs => nomatch hs⟩, rfl⟩
  | @cons n ns xs ys below beside ihBelow ihBeside =>
      obtain ⟨hn, hsink⟩ := hns n List.mem_cons_self
      rw [replay_append] at hrun
      obtain ⟨_, m₁, hrun₁, hrun⟩ := Attempt.on_bind_eq_ok hrun
      have hm₁ := hm.replay h.distinct hrun₁
      obtain ⟨us, steps₁, hus, hsteps₁, hlog₁⟩ :=
        ihBelow (fun t ht => h.laid.supplies hn ht) hm hrun₁
      obtain ⟨_, m₂, hrun₂, hrun₃⟩ := Attempt.on_bind_eq_ok hrun
      have hone : (replay e.graph e.clock.elapsed owners [n]).on m₁ = (.ok (), m₂) :=
        (Attempt.on_bind_of_ok hrun₂).trans rfl
      have hm₂ := hm₁.replay h.distinct hone
      obtain ⟨f, hf, hlog₂⟩ := h.visit_ok hn hm₁ hus (congrArg Machine.stack hlog₁) hrun₂
      obtain ⟨v, hv⟩ := h.value_of_effectAt hn hsink hf
      obtain ⟨vs, steps₃, hvs, hsteps₃, hlog₃⟩ :=
        ihBeside (fun k hk => hns k (List.mem_cons_of_mem _ hk)) hm₂ hrun₃
      refine ⟨v :: vs, steps₁ ++ ([(n, f)] ++ steps₃), .cons hus hf hv hvs,
        hsteps₁.append ((Traces.singleton ⟨us, hus, hf⟩).append hsteps₃), ?_⟩
      have hturn : m₂ = { log [(n, f)] (log steps₁ m) with stack := v :: m.stack } := by
        rw [hlog₂, hlog₁, hv]
        rfl
      rw [hlog₃, hturn, log_stack, log_append, log_append, List.reverse_cons, List.append_assoc]
      rfl

/-! ## Walks of evaluations -/

theorem Held.isSome_of_postorder (h : e.Held True w) (hpost : e.graph.Postorder ns order)
    (hns : ∀ n ∈ ns, (w n).isSome) : ∀ id ∈ order, (w id).isSome :=
  hpost.mem_of_closed (p := fun id => (w id).isSome)
    (fun _ hn _ ht => (h.laid.supplies hn ht).1) hns

/-- A walk that has come to a node has just left the values for its targets. -/
theorem Held.supplied (h : e.Held True w)
    (hr : e.graph.reductionOrder e.settings root = .ok order) (hroot : (w root).isSome)
    {pre post : List Id} (heq : order = pre ++ id :: post) (hrun : e.replayed pre = (.ok (), m)) :
    (w id).isSome ∧ e.Amid m ∧ ∃ us rest, e.Gives (e.graph.neighbors id) us ∧
      m.stack = us.reverse ++ rest := by
  have hid : (w id).isSome :=
    h.isSome_of_postorder (Graph.postorder_of_reductionOrder hr) (by simpa using hroot) id
      (by simp [heq])
  refine ⟨hid, (Amid.start e).replay h.distinct hrun, ?_⟩
  obtain ⟨_, first, last, rfl, _, hlast, _⟩ := (Graph.postorder_of_reductionOrder hr).cut heq
  rw [replayed, replay_append] at hrun
  obtain ⟨_, m₀, hrun₀, hrun₁⟩ := Attempt.on_bind_eq_ok hrun
  have hm₀ := (Amid.start e).replay h.distinct hrun₀
  obtain ⟨us, steps, hus, _, rfl⟩ :=
    h.replay_ok hlast (fun t ht => h.laid.supplies hid ht) hm₀ hrun₁
  exact ⟨us, m₀.stack, hus, rfl⟩

/-- A walk that does not fail leaves what its root gives and notes the effects of its nodes. -/
theorem Held.replayed_ok (h : e.Held True w)
    (hr : e.graph.reductionOrder e.settings root = .ok order) (hroot : (w root).isSome)
    (hrun : e.replayed order = (.ok (), m)) :
    ∃ steps f, e.Traces order (steps ++ [(root, f)]) ∧
      m = { log (steps ++ [(root, f)]) e.start with stack := f.value.toList } := by
  rcases Graph.postorder_of_reductionOrder hr with _ | ⟨below, beside⟩
  cases beside
  next xs =>
  rw [replayed, replay_append] at hrun
  obtain ⟨_, m₁, hrun₁, hrun⟩ := Attempt.on_bind_eq_ok hrun
  obtain ⟨us, steps, hus, hsteps, hlog⟩ :=
    h.replay_ok below (fun t ht => h.laid.supplies hroot ht) (Amid.start e) hrun₁
  obtain ⟨_, m₂, hrun₂, hlast⟩ := Attempt.on_bind_eq_ok hrun
  cases hlast
  have hm₁ := (Amid.start e).replay h.distinct hrun₁
  obtain ⟨f, hf, rfl⟩ := h.visit_ok hroot hm₁ hus (congrArg Machine.stack hlog) hrun₂
  refine ⟨steps, f, hsteps.append (.singleton ⟨us, hus, hf⟩), ?_⟩
  have hstack : f.value.toList ++ e.start.stack = f.value.toList := List.append_nil _
  rw [hlog, log_append, hstack]
  rfl

/-- A walk fails at the first of its visits that fails. -/
theorem replay_error {time : Float32} {g : Graph} {err : EvalError}
    (hrun : (replay g time owners order).on m = (.error err, m')) :
    ∃ pre id post m₁, order = pre ++ id :: post ∧ (replay g time owners pre).on m = (.ok (), m₁) ∧
      (visit g time owners id).on m₁ = (.error err, m') := by
  induction order generalizing m with
  | nil => cases hrun
  | cons id ids ih =>
      rcases Attempt.on_bind_eq_error hrun with hvisit | ⟨_, m₁, hvisit, hrun⟩
      · exact ⟨[], id, ids, m, rfl, rfl, hvisit⟩
      · obtain ⟨pre, id', post, m₂, rfl, hpre, hfail⟩ := ih hrun
        exact ⟨id :: pre, id', post, m₂, rfl, (Attempt.on_bind_of_ok hvisit).trans hpre, hfail⟩

/-- A walk that fails has come to a node whose visit has no effect. -/
theorem Held.replayed_error (h : e.Held True w)
    (hr : e.graph.reductionOrder e.settings root = .ok order) (hroot : (w root).isSome)
    {err : EvalError} (hrun : e.replayed order = (.error err, m)) :
    ∃ pre id post m₁ us, order = pre ++ id :: post ∧ e.replayed pre = (.ok (), m₁) ∧
      m.values = m₁.values ∧ e.Gives (e.graph.neighbors id) us ∧ e.effectAt id us = .error err := by
  obtain ⟨pre, id, post, m₁, heq, hpre, hvisit⟩ := replay_error hrun
  obtain ⟨hid, hm₁, us, rest, hus, hstack⟩ := h.supplied hr hroot heq hpre
  rw [h.visit_on hm₁ hid hus.length_eq hstack] at hvisit
  split at hvisit
  · cases hvisit
  · next hf =>
    cases hvisit
    exact ⟨pre, id, post, m₁, us, heq, hpre, rfl, hus, hf⟩

end Editor

end DrawGraph
