import DrawGraph.Proofs.Editor.Reflection
import DrawGraph.Proofs.Editor.Upkeep
import DrawGraph.Proofs.UiNode.Turn

/-!
# Boxes of pins

A pin of a UI node has a box from the moment that it is made until the UI node drops it, whether ids
run out meanwhile or not: reactions and evaluations fill boxes anew, and no UI node drops the box of
a pin that is not its own.
-/

namespace DrawGraph

open Evaluation Machine Relation

namespace Scene

variable {home mine : Id → Prop} {s s' : Scene} {p pin : Id} {pins : List Id}

def HasBox (s : Scene) (p : Id) : Prop := (s.values.get? p).isSome

theorem isSome_put {values : ValueStore} (h : (values.get? p).isSome) (pin : Id) (v : Value) :
    ((values.put pin v).get? p).isSome := by
  rw [Table.get?_put]
  split
  · rfl
  · exact h

theorem HasBox.write (h : s.HasBox p) (pin : Id) (v : Value) : (s.write pin v).HasBox p := by
  rw [HasBox, get?_write]
  split
  · rfl
  · exact h

theorem hasBox_write_self (s : Scene) (pin : Id) (v : Value) : (s.write pin v).HasBox pin := by
  rw [HasBox, get?_write, if_pos rfl]
  rfl

/-- A UI node drops no box but of a pin of its own. -/
theorem HasBox.move (h : s.HasBox p) (hp : ¬ mine p) (hmove : Move home mine s s') :
    s'.HasBox p := by
  cases hmove with
  | addNode | eraseNode | load => exact h
  | addInput _ hadd =>
      obtain ⟨_, _, _, _, _, rfl⟩ := addInput_eq_ok hadd
      exact isSome_put h ..
  | addOutput _ hadd =>
      obtain ⟨_, _, _, _, _, rfl⟩ := addOutput_eq_ok hadd
      exact isSome_put h ..
  | @unbox pin hpin =>
      have hne : p ≠ pin := fun heq => hp (heq ▸ hpin)
      rw [HasBox, Table.get?_erase, if_neg hne]
      exact h
  | write v => exact h.write ..

theorem HasBox.moves (h : s.HasBox p) (hp : ¬ mine p) (hmoves : Moves home mine s s') :
    s'.HasBox p := by
  induction hmoves with
  | refl => exact h
  | tail _ hmove ih => exact ih.move hp hmove

theorem HasBox.pull (h : s.HasBox p) (pin : Id) : (s.pull pin).HasBox p := by
  unfold Scene.pull
  split
  · exact h
  · split
    · exact h.write ..
    · exact h

theorem HasBox.foldl_pull (h : s.HasBox p) (pins : List Id) :
    (pins.foldl Scene.pull s).HasBox p := by
  induction pins generalizing s with
  | nil => exact h
  | cons pin pins ih => exact ih (h.pull pin)

/-- A new pin has its box, and the others keep theirs. -/
theorem addPin_boxes (hpins : ∀ p ∈ pins, s.HasBox p) {direction : Direction}
    {source target : Id → Id} {v : Value} :
    (addPin direction source target v).Ensures s (fun _ _ => True) fun pin s' =>
      ∀ p ∈ pin :: pins, s'.HasBox p := by
  unfold Attempt.Ensures
  split
  · next pin s' hadd =>
    obtain ⟨_, _, _, _, _, rfl⟩ := addPin_eq_ok hadd
    refine List.forall_mem_cons.2 ⟨?_, fun p hp => isSome_put (hpins p hp) ..⟩
    rw [HasBox, Table.get?_put, if_pos rfl]
    rfl
  · trivial

theorem addInput_boxes (hpins : ∀ p ∈ pins, s.HasBox p) (id : Id) (v : Value) :
    (addInput id v).Ensures s (fun _ _ => True) fun pin s' => ∀ p ∈ pin :: pins, s'.HasBox p :=
  addInput_eq id v ▸ addPin_boxes hpins

theorem addOutput_boxes (hpins : ∀ p ∈ pins, s.HasBox p) (id : Id) (v : Value) :
    (addOutput id v).Ensures s (fun _ _ => True) fun pin s' => ∀ p ∈ pin :: pins, s'.HasBox p :=
  addOutput_eq id v ▸ addPin_boxes hpins

theorem addIdentity_boxes (s : Scene) (type : NodeType) :
    (addIdentity type).Ensures s (fun _ _ => True) fun _ s' => ∀ p ∈ [], s'.HasBox p := by
  unfold Attempt.Ensures
  split
  · exact fun p hp => absurd hp List.not_mem_nil
  · trivial

end Scene

/-! ## Making UI nodes -/

namespace UiNode

open Scene

/-- All pins of a UI node have boxes. -/
def Boxed (s : Scene) (n : UiNode) : Prop := ∀ p ∈ n.pins, s.HasBox p

theorem Boxed.of_perm {n : UiNode} {s : Scene} {pins : List Id} (h : ∀ p ∈ pins, s.HasBox p)
    (hpins : n.pins.Perm pins) : n.Boxed s :=
  fun p hp => h p (hpins.mem_iff.1 hp)

/-- A UI node that has been made has all its pins boxed. -/
abbrev MakesBoxed (s : Scene) (x : Attempt GraphError Scene UiNode) : Prop :=
  x.Ensures s (fun _ _ => True) fun n s' => n.Boxed s'

theorem output_makesBoxed {s : Scene} {pins : List Id} (h : ∀ p ∈ pins, s.HasBox p) (id : Id)
    (v : Value) {f : Id → UiNode} (hpins : ∀ out, (f out).pins.Perm (out :: pins)) :
    MakesBoxed s (addOutput id v >>= fun out => pure (f out)) :=
  (addOutput_boxes h id v).bind fun out _ h => Attempt.ensures_pure (.of_perm h (hpins out))

theorem createBinary_makesBoxed (op : BinaryOp) (type : NodeType) (s : Scene) :
    MakesBoxed s (createBinary op type) := by
  refine (addIdentity_boxes s _).bind fun id s₁ h₁ => ?_
  refine (addInput_boxes h₁ id _).bind fun left s₂ h₂ => ?_
  refine (addInput_boxes h₂ id _).bind fun right s₃ h₃ => ?_
  exact output_makesBoxed h₃ id _ fun out => (List.reverse_perm [out, right, left])

theorem createConstant_makesBoxed (kind : ConstantKind) (s : Scene) :
    MakesBoxed s (createConstant kind) :=
  (addIdentity_boxes s _).bind fun id _ h => output_makesBoxed h id _ fun _ => .refl _

theorem createAsset_makesBoxed (kind : AssetKind) (s : Scene) :
    MakesBoxed s (createAsset kind) := by
  refine (addIdentity_boxes s _).bind fun id s₁ h₁ => ?_
  refine Attempt.ensures_get_bind (Attempt.ensures_set_bind ?_)
  exact output_makesBoxed (fun p hp => absurd hp List.not_mem_nil) id _ fun _ => .refl _

theorem createPrimitive_makesBoxed (s : Scene) : MakesBoxed s createPrimitive := by
  refine (addIdentity_boxes s _).bind fun id s₁ h₁ => ?_
  refine Attempt.ensures_get_bind (Attempt.ensures_set_bind ?_)
  exact output_makesBoxed (fun p hp => absurd hp List.not_mem_nil) id _ fun _ => .refl _

theorem create_makesBoxed (kind : UiNodeKind) (s : Scene) : MakesBoxed s (create kind) := by
  cases kind with
  | add => exact createBinary_makesBoxed .add .add s
  | multiply => exact createBinary_makesBoxed .multiply .multiply s
  | sine =>
      refine (addIdentity_boxes s _).bind fun id s₁ h₁ => ?_
      refine (addInput_boxes h₁ id _).bind fun input s₂ h₂ => ?_
      exact output_makesBoxed h₂ id _ fun out => List.reverse_perm [out, input]
  | time =>
      exact (addIdentity_boxes s _).bind fun id _ h => output_makesBoxed h id _ fun _ => .refl _
  | scalar => exact createConstant_makesBoxed .scalar s
  | vector2 => exact createConstant_makesBoxed .vector2 s
  | vector3 => exact createConstant_makesBoxed .vector3 s
  | vector4 => exact createConstant_makesBoxed .vector4 s
  | matrix4x4 => exact createConstant_makesBoxed .matrix4x4 s
  | model => exact createAsset_makesBoxed .model s
  | texture => exact createAsset_makesBoxed .texture s
  | shader => exact createAsset_makesBoxed .shader s
  | primitive => exact createPrimitive_makesBoxed s
  | camera =>
      refine (addIdentity_boxes s _).bind fun id s₁ h₁ => ?_
      refine (addInput_boxes h₁ id _).bind fun position s₂ h₂ => ?_
      refine (addInput_boxes h₂ id _).bind fun target s₃ h₃ => ?_
      exact output_makesBoxed h₃ id _ fun out => List.reverse_perm [out, target, position]
  | transform =>
      refine (addIdentity_boxes s _).bind fun id s₁ h₁ => ?_
      refine (addInput_boxes h₁ id _).bind fun move s₂ h₂ => ?_
      refine (addInput_boxes h₂ id _).bind fun turn s₃ h₃ => ?_
      refine (addInput_boxes h₃ id _).bind fun scale s₄ h₄ => ?_
      exact output_makesBoxed h₄ id _ fun out => List.reverse_perm [out, scale, turn, move]
  | draw =>
      refine (addIdentity_boxes s _).bind fun id s₁ h₁ => ?_
      refine (addInput_boxes h₁ id _).bind fun shader s₂ h₂ => ?_
      refine (addInput_boxes h₂ id _).bind fun model s₃ h₃ => ?_
      exact output_makesBoxed h₃ id _ fun out => List.reverse_perm [out, model, shader]
  | renderTarget =>
      refine (addIdentity_boxes s _).bind fun id s₁ h₁ => ?_
      refine (addInput_boxes h₁ id _).bind fun input s₂ h₂ => ?_
      exact Attempt.ensures_pure h₂

end UiNode

/-! ## Reactions -/

namespace Draw

open Scene

variable {d : Draw} {s : Scene}

theorem boxed_iff : (UiNode.draw d).Boxed s ↔ (∀ p ∈ d.params, s.HasBox p) ∧
    s.HasBox d.shader ∧ s.HasBox d.model ∧ s.HasBox d.output := by
  constructor
  · intro h
    refine ⟨fun p hp => h p (mem_pins.2 (Or.inr (Or.inr (Or.inl hp)))), ?_, ?_, ?_⟩
    · exact h _ (mem_pins.2 (Or.inl rfl))
    · exact h _ (mem_pins.2 (Or.inr (Or.inl rfl)))
    · exact h _ (mem_pins.2 (Or.inr (Or.inr (Or.inr rfl))))
  · rintro ⟨hparams, hshader, hmodel, hout⟩ p hp
    rcases mem_pins.1 hp with rfl | rfl | hp | rfl
    · exact hshader
    · exact hmodel
    · exact hparams p hp
    · exact hout

theorem teardown_boxes (d : Draw) {p : Id} (hp : p ∉ d.params) (h : s.HasBox p) :
    (d.teardown s).2.HasBox p := by
  have hmoves : Moves (· = d.id) (· ∈ d.params) s (d.teardown s).2 :=
    moves_teardown d s fun b hb => List.mem_map_of_mem hb
  exact h.moves hp hmoves

theorem build_boxes (d : Draw) {p : Id} (h : s.HasBox p) (vars : List (String × BindingType)) :
    (d.build s vars).2.HasBox p := by
  have hmoves : Moves (· = d.id) (fun _ => False) s (d.build s vars).2 := moves_build d s vars
  exact h.moves (fun hfalse => hfalse) hmoves

/-- The pins that are made for variables have boxes. -/
theorem build_boxed (d : Draw) (s : Scene) (vars : List (String × BindingType)) :
    ∀ p ∈ (d.build s vars).1.params, p ∈ d.params ∨ (d.build s vars).2.HasBox p := by
  induction vars generalizing d s with
  | nil => exact fun p hp => Or.inl hp
  | cons var vars ih =>
      obtain ⟨name, type⟩ := var
      have hnone : ∀ p ∈ ([] : List Id), s.HasBox p := fun p hp => absurd hp List.not_mem_nil
      have hadd := addInput_boxes hnone d.id (.ofKind type.kind)
      rw [build]
      split
      · next pin s' hx =>
        have hpin := hadd.of_ok hx pin List.mem_cons_self
        intro p hp
        rcases ih { d with bindings := d.bindings ++ [⟨pin, name, type⟩] } s' p hp with hp | hp
        · rw [params, List.map_append, List.mem_append] at hp
          refine hp.imp_right fun hp => ?_
          rw [List.mem_singleton.1 hp]
          exact build_boxes _ hpin vars
        · exact Or.inr hp
      · next err s' hx => exact ih d s'

theorem sync_boxed (hnodup : (UiNode.draw d).pins.Nodup) (h : (UiNode.draw d).Boxed s)
    (shader : Int32) : (UiNode.draw (d.sync s shader).1).Boxed (d.sync s shader).2 := by
  obtain ⟨hparams, hshader, hmodel, hout⟩ := boxed_iff.1 h
  obtain ⟨_, hshader', hmodel', hout'⟩ := params_apart hnodup
  unfold sync
  dsimp only
  split
  · exact boxed_iff.2 ⟨hparams, hshader, hmodel, hout⟩
  · have hkept {p : Id} (hp : p ∉ d.params) (h : s.HasBox p) :=
      build_boxes ({ d with bound := shader }.teardown s).1
        (teardown_boxes { d with bound := shader } hp h) (reflected s shader)
    obtain ⟨bs, hd, _⟩ := build_eq ({ d with bound := shader }.teardown s).1
      ({ d with bound := shader }.teardown s).2 (reflected s shader)
    refine boxed_iff.2 ⟨fun p hp => ?_, ?_, ?_, ?_⟩
    · exact (build_boxed _ _ _ p hp).resolve_left List.not_mem_nil
    · rw [hd]
      exact hkept hshader' hshader
    · rw [hd]
      exact hkept hmodel' hmodel
    · rw [hd]
      exact hkept hout' hout

theorem onEvent_boxed (hnodup : (UiNode.draw d).pins.Nodup) (h : (UiNode.draw d).Boxed s)
    (event : Event) : (UiNode.draw (d.onEvent s event).1).Boxed (d.onEvent s event).2 := by
  unfold onEvent
  cases event with
  | linkCreated source target =>
      dsimp only
      split
      · exact sync_boxed hnodup (fun p hp => (h p hp).write _ _) _
      · exact h
  | linkDeleted source target =>
      dsimp only
      split
      · obtain ⟨_, _, hmodel, hout⟩ := boxed_iff.1 h
        obtain ⟨_, hshader', hmodel', hout'⟩ := params_apart hnodup
        refine boxed_iff.2 ⟨fun p hp => absurd hp List.not_mem_nil, ?_, ?_, ?_⟩
        · exact teardown_boxes d hshader' (hasBox_write_self s d.shader _)
        · exact teardown_boxes d hmodel' (hmodel.write _ _)
        · exact teardown_boxes d hout' (hout.write _ _)
      · exact h
  | shaderUpdated shader =>
      dsimp only
      split
      · exact sync_boxed hnodup h _
      · exact h

end Draw

namespace UiNode

open Scene

variable {n : UiNode} {s : Scene}

theorem onEvent_boxed (hnodup : n.pins.Nodup) (h : n.Boxed s) (event : Event) :
    (n.onEvent event s).1.Boxed (n.onEvent event s).2 := by
  unfold onEvent
  split
  · exact Draw.onEvent_boxed hnodup h event
  · exact h
  · exact h

theorem onUpdate_boxed (hnodup : n.pins.Nodup) (h : n.Boxed s) (clock : Clock) :
    (n.onUpdate clock s).1.Boxed (n.onUpdate clock s).2 := by
  have hpulled : n.Boxed (n.inputs.foldl pull s) := fun p hp => (h p hp).foldl_pull n.inputs
  unfold onUpdate
  split
  · exact fun p hp => (h p hp).write _ _
  · dsimp only
    split
    · exact hpulled
    · split
      · exact hpulled
      · exact Draw.sync_boxed hnodup hpulled _
  · exact hpulled

end UiNode

/-! ## Evaluations -/

namespace Machine

variable {σ α : Type}

/-- No box has gone. -/
def Fills (m m' : Machine σ) : Prop :=
  ∀ p, (m.values.get? p).isSome → (m'.values.get? p).isSome

theorem fills_of_moves {m m' : Machine σ} (h : ReflTransGen Fills m m') : Fills m m' := by
  induction h with
  | refl => exact fun _ hp => hp
  | tail _ hstep ih => exact fun p hp => hstep p (ih p hp)

theorem overlooks_values : Overlooks (Machine.values : Machine σ → ValueStore) :=
  ⟨fun _ _ => rfl, fun _ _ => rfl⟩

theorem fills_of_preserves {x : Reduction σ α} (h : x.Preserves Machine.values) :
    Attempt.Moves Fills x := by
  intro m
  refine .single fun p hp => ?_
  rwa [h m]

theorem preserves_submit (site : Site) (c : DrawCall) :
    (submit site c : Reduction σ Unit).Preserves Machine.values := by
  intro m
  obtain ⟨m', hm', _, hvalues, _⟩ := submit_on site m c
  rw [hm', hvalues]

theorem fills_emit (out : Id) (v : Value) :
    Attempt.Moves Fills (emit out v : Reduction σ Unit) := by
  intro m
  rw [emit_on]
  exact .single fun _ hp => Scene.isSome_put hp out v

theorem fills_reduce (n : UiNode) (site : Site) :
    Attempt.Moves Fills (n.reduce site : Reduction σ UiNode) := by
  have hpush (v : Value) : Attempt.Moves Fills (push v : Reduction σ Unit) :=
    fills_of_preserves (preserves_push overlooks_values v)
  have hpop (k : Nat) : Attempt.Moves Fills (pop site k : Reduction σ (List Value)) :=
    fills_of_preserves (preserves_pop overlooks_values site k)
  have hpop₁ : Attempt.Moves Fills (pop₁ site : Reduction σ Value) :=
    fills_of_preserves (preserves_pop₁ overlooks_values site)
  have hpop₂ : Attempt.Moves Fills (pop₂ site : Reduction σ (Value × Value)) :=
    fills_of_preserves (preserves_pop₂ overlooks_values site)
  have hpop₃ : Attempt.Moves Fills (pop₃ site : Reduction σ (Value × Value × Value)) :=
    fills_of_preserves (preserves_pop₃ overlooks_values site)
  have hvec (v : Value) : Attempt.Moves Fills (expectVec3 site v : Reduction σ Vec3) :=
    fills_of_preserves (preserves_expectVec3 site v)
  cases n with
  | binary op id left right out =>
      exact hpop₂.bind fun _ => (fills_of_preserves (preserves_arithmetic site _)).bind fun v =>
        (fills_emit out v).bind fun _ => .pure _
  | sine id input out => exact hpop₁.bind fun v => (fills_emit out _).bind fun _ => .pure _
  | time id out => exact (fills_emit out _).bind fun _ => .pure _
  | constant kind id out loaded =>
      exact .bind (fun _ => .refl) fun m => (hpush _).bind fun _ => .pure _
  | asset kind id out path => exact .bind (fun _ => .refl) fun m => (hpush _).bind fun _ => .pure _
  | primitive id out shape =>
      exact .bind (fun _ => .refl) fun m => (hpush _).bind fun _ => .pure _
  | camera c =>
      exact (hpop₂.bind fun _ => (hvec _).bind fun _ => (hvec _).bind fun _ =>
        fills_emit c.output _).bind fun _ => .pure _
  | transform t =>
      exact (hpop₃.bind fun _ => (hvec _).bind fun _ => (hvec _).bind fun _ => (hvec _).bind
        fun _ => fills_emit t.output _).bind fun _ => .pure _
  | draw d =>
      refine ((hpop _).bind fun vs =>
        (fills_of_preserves (preserves_constants site _ _)).bind fun cs => ?_).bind fun _ => .pure _
      dsimp only
      split
      · exact (fills_of_preserves (preserves_submit site _)).bind fun _ => fills_emit d.output _
      · exact fills_emit d.output _
  | renderTarget id input ready =>
      exact hpop₁.bind fun _ =>
        (fills_of_preserves (preserves_setReady overlooks_values _)).bind fun _ => .pure _

theorem fills_owners (site : Site) : Attempt.Moves Fills (Editor.owners site) := by
  intro m
  rw [Editor.owners, Attempt.on_bind_of_ok (Attempt.on_get m)]
  cases m.owner.find? (·.id == site.node) with
  | none => exact .refl
  | some n =>
      have hreduce : Attempt.Moves Fills (n.reduce site : Reduction (List UiNode) UiNode) :=
        fills_reduce n site
      have hput (n : UiNode) : Attempt.Moves Fills (modify fun m =>
          { m with owner := m.owner.map fun k => if k.id = n.id then n else k } :
          Reduction (List UiNode) Unit) := .modify fun _ _ hp => hp
      exact hreduce.bind (fun n => (hput n).bind fun _ => .pure true) m

theorem fills_replay (g : Graph) (time : Float32) (order : List Id) :
    Attempt.Moves Fills (replay g time Editor.owners order) := by
  induction order with
  | nil => exact .pure _
  | cons id ids ih =>
      refine .bind ?_ fun _ => ih
      unfold visit
      split
      · exact fills_of_preserves fun _ => rfl
      · split
        · split
          · exact fills_of_preserves (Attempt.Preserves.bind (fun _ => rfl) fun _ =>
              preserves_push overlooks_values _)
          · exact .pure _
        · refine .bind (fills_owners _) fun taken => ?_
          split
          · exact fills_of_preserves
              (preserves_builtin overlooks_values _ (preserves_submit _) _)
          · exact .pure _

end Machine

namespace Editor

variable {tight : Prop} {w : Wiring} {e : Editor} {n : UiNode}

theorem hasBox_evaluate {p : Id} (h : e.scene.HasBox p) : e.evaluate.2.scene.HasBox p := by
  have hinvalidate {e : Editor} (h : e.scene.HasBox p) (root : Id) :
      (e.invalidate root).scene.HasBox p := by
    obtain ⟨nodes, heq⟩ := e.invalidate_eq root
    rwa [heq]
  cases hroot : e.root with
  | none =>
      simp only [evaluate, hroot]
      exact h
  | some root =>
      cases hr : e.graph.reductionOrder e.settings root with
      | error err =>
          rw [evaluate_of_no_order hroot hr]
          exact hinvalidate h root
      | ok order =>
          rw [evaluate_of_order hroot hr]
          have hfills := fills_of_moves (fills_replay e.graph e.clock.elapsed order e.start) p h
          change ((e.replayed order).2.values.get? p).isSome at hfills
          generalize e.replayed order = r at hfills
          obtain ⟨r, m⟩ := r
          cases r with
          | error err => exact hinvalidate (e := e.walked m) hfills root
          | ok u => exact hfills

/-! ## Editors -/

/-- All pins of all UI nodes have boxes. -/
def Boxed (e : Editor) : Prop := ∀ n ∈ e.nodes, n.Boxed e.scene

/-- What one UI node owns is none of another's pins. -/
theorem Held.not_owns (h : e.Held tight w) (hn : n ∈ e.nodes) {m : UiNode} (hm : m ∈ e.nodes)
    (hne : m.id ≠ n.id) {p : Id} (hp : p ∈ m.id :: m.pins) : ¬ n.Owns p := by
  intro howns
  obtain ⟨r, hr, hhome⟩ := (h.casts.plays n hn).home_eq howns
  obtain ⟨r', hr', hhome'⟩ := (h.casts.plays m hm).home_eq hp
  obtain rfl := Option.some.inj (hr.symm.trans hr')
  exact hne (hhome'.symm.trans hhome)

theorem Held.nodup_pins (h : e.Held tight w) (hn : n ∈ e.nodes) : n.pins.Nodup :=
  ((h.casts.plays n hn).nodup h.laid.coherent).of_cons

namespace Boxed

theorem moved (hb : e.Boxed) (h : e.Held tight w) (hn : n ∈ e.nodes) {s : Scene}
    (hmoves : Scene.Moves (· = n.id) n.Owns e.scene s) {m : UiNode} (hm : m ∈ e.nodes)
    (hne : m.id ≠ n.id) : m.Boxed s :=
  fun p hp => (hb m hm p hp).moves (h.not_owns hn hm hne (List.mem_cons_of_mem _ hp)) hmoves

theorem act (hb : e.Boxed) (h : e.Held tight w) (hn : n ∈ e.nodes)
    {f : UiNode → Scene → UiNode × Scene} (hid : (f n e.scene).1.id = n.id)
    (hmoves : Scene.Moves (· = n.id) n.Owns e.scene (f n e.scene).2)
    (hself : (f n e.scene).1.Boxed (f n e.scene).2) : (e.act n f).Boxed := by
  intro m hm
  rcases mem_act hm with rfl | ⟨hm, hne⟩
  · exact hself
  · exact hb.moved h hn hmoves hm (hid ▸ hne)

theorem event (hb : e.Boxed) (h : e.Held tight w) (hn : n ∈ e.nodes) (event : Event) :
    (e.act n (·.onEvent event)).Boxed :=
  hb.act h hn (n.id_onEvent event e.scene) (n.moves_onEvent event e.scene)
    (UiNode.onEvent_boxed (h.nodup_pins hn) (hb n hn) event)

theorem update (hb : e.Boxed) (h : e.Held tight w) (hn : n ∈ e.nodes) (clock : Clock) :
    (e.act n (·.onUpdate clock)).Boxed :=
  hb.act h hn (n.id_onUpdate clock e.scene) (n.moves_onUpdate clock e.scene)
    (UiNode.onUpdate_boxed (h.nodup_pins hn) (hb n hn) clock)

/-- What is set on a UI node and written into a box drops no box. -/
theorem set (hb : e.Boxed) (hn : n ∈ e.nodes) {n' : UiNode} (hpins : n'.pins = n.pins) {s : Scene}
    (hs : ∀ p, e.scene.HasBox p → s.HasBox p) :
    (({ e with scene := s } : Editor).replace n').Boxed := by
  intro m hm
  rcases mem_replace hm with rfl | ⟨hm, _⟩
  · exact fun p hp => hs p (hb n hn p (hpins ▸ hp))
  · exact fun p hp => hs p (hb m hm p hp)

theorem drain (h : ∃ w, e.Held tight w) (hb : e.Boxed) : e.drain.Boxed := by
  refine (drain_keeps (P := fun e => (∃ w, e.Held tight w) ∧ e.Boxed) ?_ ?_ ⟨h, hb⟩).2
  · rintro e events ⟨⟨w, h⟩, hb⟩
    exact ⟨⟨w, h.withOutbox events⟩, hb⟩
  · rintro e n event ⟨⟨w, h⟩, hb⟩ hn
    exact ⟨h.event hn event, hb.event h hn event⟩

theorem addNode (hb : e.Boxed) (hidle : e.graph.outbox = []) (kind : UiNodeKind) :
    (e.addNode kind).2.Boxed := by
  have hmoves : Scene.Moves (fun _ => True) (fun _ => False) e.scene
      ((UiNode.create kind).on e.scene).2 := UiNode.moves_create kind e.scene
  have hcreate := UiNode.create_makesBoxed kind e.scene
  have hold {p : Id} (hp : e.scene.HasBox p) := hp.moves (fun hfalse => hfalse) hmoves
  apply addNode_keeps (P := Boxed) hidle
  · intro err s hx m hm p hp
    rw [hx] at hold
    exact hold (hb m hm p hp)
  · intro n s hx m hm p hp
    rw [hx] at hold
    rcases List.mem_append.1 hm with hm | hm
    · exact hold (hb m hm p hp)
    · rw [List.mem_singleton.1 hm] at hp
      exact hcreate.of_ok hx p hp

theorem removeNode (h : e.Held tight w) (hb : e.Boxed) (id : Id) : (e.removeNode id).2.Boxed := by
  refine (removeNode_keeps (P := fun e => (∃ w, e.Held tight w) ∧ e.Boxed)
    (fun h _ => ⟨Held.drain h.1, drain h.1 h.2⟩) ⟨⟨w, h⟩, hb⟩ (drains_true e (.removeNode id)) ?_).2
  intro n hn
  refine ⟨h.dismiss hn, fun m hm => ?_⟩
  obtain ⟨hm, hne⟩ := List.mem_filter.1 hm
  exact hb.moved h hn (n.moves_onDelete e.scene) hm (by simpa using hne)

theorem updateAll (h : e.Held tight w) (hb : e.Boxed) (dt : Float32) : (e.update dt).Boxed := by
  refine (update_keeps (P := fun e => (∃ w, e.Held tight w) ∧ e.Boxed)
    (fun h _ => ⟨Held.drain h.1, drain h.1 h.2⟩) ⟨⟨w, h.laid, h.casts, h.bus⟩, hb⟩
    (drains_true e (.update dt)) ?_).2
  rintro e n ⟨⟨w, h⟩, hb⟩ hn
  exact ⟨h.update hn e.clock, hb.update h hn e.clock⟩

theorem evaluate (h : e.Distinct) (hb : e.Boxed) : e.evaluate.2.Boxed := by
  intro n hn p hp
  have hmem : n.unready ∈ e.nodes.map UiNode.unready :=
    h.evaluated.nodes ▸ List.mem_map_of_mem hn
  obtain ⟨m, hm, hmn⟩ := List.mem_map.1 hmem
  have hpins (k : UiNode) : k.unready.pins = k.pins := by
    rw [UiNode.pins, k.inputs_unready, k.outputs_unready, UiNode.pins]
  rw [← hpins, ← hmn, hpins] at hp
  exact hasBox_evaluate (hb m hm p hp)

end Boxed

/-- Whatever has been done to an editor, the pins of its UI nodes have boxes. -/
theorem Ran.boxed (h : Ran e) : e.Boxed := by
  induction h with
  | new services settings => exact fun n hn => absurd hn List.not_mem_nil
  | @step e hr op ih =>
      obtain ⟨w, hheld⟩ := hr.held
      have hidle := hr.outbox
      have hd := drains_true e op
      have hwrite (pin : Id) (v : Value) (p : Id) (hp : e.scene.HasBox p) := hp.write pin v
      cases op with
      | addNode kind => exact ih.addNode hidle kind
      | removeNode id => exact ih.removeNode hheld id
      | link a b =>
          exact (link_keeps (P := fun e => (∃ w, e.Held True w) ∧ e.Boxed)
            (fun h _ => ⟨Held.drain h.1, Boxed.drain h.1 h.2⟩) ⟨⟨w, hheld⟩, ih⟩ hd
            fun edge e' hmade => ⟨⟨w, hheld.makeLink hmade⟩, by
              obtain ⟨_, _, _, _, _, _, rfl⟩ := makeLink_eq_ok hmade
              exact ih⟩).2
      | unlink edge =>
          exact (unlink_keeps (P := fun e => (∃ w, e.Held True w) ∧ e.Boxed)
            (fun h _ => ⟨Held.drain h.1, Boxed.drain h.1 h.2⟩) hheld.consistent ⟨⟨w, hheld⟩, ih⟩ hd
            fun found g hfound hx he => ⟨⟨w, hheld.unlink hfound hx he⟩, ih⟩).2
      | setRoot root => exact setRoot_keeps (P := Boxed) ih fun _ => ih
      | setPin pin v =>
          exact setPin_keeps (P := Boxed) ih fun u _ n hn p hp => hwrite pin u p (ih n hn p hp)
      | setAsset id path =>
          refine setAsset_keeps (P := Boxed) hidle ih fun kind id output old index s hn hs => ?_
          obtain rfl : (e.scene.resolveAsset kind path).2 = s := congrArg Prod.snd hs
          have hpins : (UiNode.asset kind id output path).pins =
              (UiNode.asset kind id output old).pins := rfl
          refine ih.set hn hpins fun p hp => Scene.HasBox.write ?_ _ _
          rw [Scene.HasBox, (Scene.graph_resolveAsset e.scene kind path).2]
          exact hp
      | setShape id shape =>
          refine setShape_keeps (P := Boxed) hidle ih fun id output old index s hn hs => ?_
          obtain rfl : (e.scene.resolvePrimitive shape).2 = s := congrArg Prod.snd hs
          have hpins : (UiNode.primitive id output shape).pins =
              (UiNode.primitive id output old).pins := rfl
          refine ih.set hn hpins fun p hp => Scene.HasBox.write ?_ _ _
          rw [Scene.HasBox, (Scene.graph_resolvePrimitive e.scene shape).2]
          exact hp
      | setColor id color =>
          refine setColor_keeps (P := Boxed) hidle ih fun d hd => ?_
          have hpins : (UiNode.draw { d with color }).pins = (UiNode.draw d).pins := rfl
          exact ih.set hd hpins fun _ hp => hp
      | setLens id fov aspect near far =>
          refine setLens_keeps (P := Boxed) hidle ih fun c hc => ?_
          have hpins : (UiNode.camera { c with fov, aspect, near, far }).pins =
              (UiNode.camera c).pins := rfl
          exact ih.set hc hpins fun _ hp => hp
      | reloadShader shader =>
          exact (reloadShader_keeps (P := fun e => (∃ w, e.Held True w) ∧ e.Boxed)
            (fun h _ => ⟨Held.drain h.1, Boxed.drain h.1 h.2⟩) ⟨⟨w, hheld⟩, ih⟩ hd
            fun l _ => ⟨⟨w, hheld.laid.withOutbox _, hheld.casts, hheld.bus⟩, ih⟩).2
      | update dt => exact ih.updateAll hheld dt
      | evaluate => exact ih.evaluate hheld.distinct
      | frame dt =>
          obtain ⟨w', hheld'⟩ := Held.apply ⟨w, hheld⟩ hidle (.update dt)
          exact (ih.updateAll hheld dt).evaluate hheld'.distinct
      | serve services => exact ih
      | clear => exact fun n hn => absurd hn List.not_mem_nil

end Editor

end DrawGraph
