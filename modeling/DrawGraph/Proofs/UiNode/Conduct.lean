import DrawGraph.Proofs.UiNode.Move

/-!
# What UI nodes do by moves

Making a UI node, its reactions and its removal are moves. A draw node that follows a shader changes
in its bindings and its bound shader only.
-/

namespace DrawGraph

open Relation

namespace Attempt.Moves

variable {ε σ : Type} {r : σ → σ → Prop}

theorem modify {f : σ → σ} (h : ∀ s, r s (f s)) :
    Moves r (MonadState.modifyGet fun s => (PUnit.unit, f s) : Attempt ε σ PUnit) :=
  fun s => .single (h s)

end Attempt.Moves

namespace Scene

variable {home mine : Id → Prop} {s : Scene} {id pin : Id}

theorem moves_onGraph {α : Type} {f : Graph → Except GraphError (α × Graph)}
    (h : ∀ s a g, f s.graph = .ok (a, g) → Move home mine s { s with graph := g }) :
    Attempt.Moves (Move home mine) (onGraph f) := by
  intro s
  cases hx : (onGraph f).on s with
  | mk r s' =>
      cases r with
      | ok a =>
          obtain ⟨g, hg, rfl⟩ := onGraph_eq_ok hx
          exact .single (h s a g hg)
      | error err => exact (onGraph_eq_error hx).2 ▸ .refl

theorem moves_addIdentity (type : NodeType) :
    Attempt.Moves (Move home mine) (addIdentity type) :=
  moves_onGraph fun _ _ _ h => .addNode h

/-- A pin that could not be made may have left its node behind. -/
theorem moves_addPin {direction : Direction} {source target : Id → Id} {v : Value}
    (h : ∀ s pin s', (addPin direction source target v).on s = (.ok pin, s') →
      Move home mine s s') :
    Attempt.Moves (Move home mine) (addPin direction source target v) := by
  intro s
  cases hx : (addPin direction source target v).on s with
  | mk r s' =>
      cases r with
      | ok pin => exact .single (h s pin s' hx)
      | error err =>
          rcases addPin_eq_error hx with ⟨_, rfl⟩ | ⟨pin, g₁, hg₁, _, rfl⟩
          · exact .refl
          · exact .single (.addNode hg₁)

theorem moves_addInput (hid : home id) (v : Value) :
    Attempt.Moves (Move home mine) (addInput id v) :=
  addInput_eq id v ▸ moves_addPin fun _ _ _ h => .addInput hid h

theorem moves_addOutput (hid : home id) (v : Value) :
    Attempt.Moves (Move home mine) (addOutput id v) :=
  addOutput_eq id v ▸ moves_addPin fun _ _ _ h => .addOutput hid h

theorem moves_eraseOwned {pins : List Id} (hpins : ∀ p ∈ pins, mine p) :
    Attempt.Moves (Move home mine) (eraseOwned pins) := by
  induction pins with
  | nil => exact .pure ()
  | cons pin pins ih =>
      have hpin := hpins pin List.mem_cons_self
      refine .bind (.modify fun s => .unbox hpin) fun _ => .bind ?_ fun _ => ?_
      · exact moves_onGraph fun _ _ _ h => .eraseNode hpin h
      · exact ih fun p hp => hpins p (List.mem_cons_of_mem _ hp)

theorem moves_resolveAsset {s' : Scene} {kind : AssetKind} {path : Option String} {index : Int32}
    (h : s.resolveAsset kind path = (index, s')) : Moves home mine s s' := by
  obtain rfl : (s.resolveAsset kind path).2 = s' := congrArg Prod.snd h
  unfold resolveAsset
  split
  · exact .refl
  · split <;> exact .refl
  · exact .refl
  · split
    · exact .single (.load _)
    · exact .refl
  · split
    · exact .single (.load _)
    · exact .refl

theorem moves_resolvePrimitive {s' : Scene} {shape : PrimitiveShape} {index : Int32}
    (h : s.resolvePrimitive shape = (index, s')) : Moves home mine s s' := by
  obtain rfl : (s.resolvePrimitive shape).2 = s' := congrArg Prod.snd h
  unfold resolvePrimitive
  split
  · exact .single (.load _)
  · exact .refl

theorem moves_pull (s : Scene) (hpin : mine pin) : Moves home mine s (s.pull pin) := by
  unfold pull
  split
  · exact .refl
  · split
    · exact .single (.write _ hpin)
    · exact .refl

theorem moves_foldl_pull {pins : List Id} (s : Scene) (hpins : ∀ p ∈ pins, mine p) :
    Moves home mine s (pins.foldl pull s) := by
  induction pins generalizing s with
  | nil => exact .refl
  | cons pin pins ih =>
      exact (moves_pull s (hpins pin List.mem_cons_self)).trans
        (ih _ fun p hp => hpins p (List.mem_cons_of_mem _ hp))

end Scene

namespace UiNode

open Scene

variable {mine : Id → Prop}

/-! ## Making UI nodes -/

theorem moves_output (id : Id) (v : Value) (f : Id → UiNode) :
    Attempt.Moves (Move (fun _ => True) mine) (addOutput id v >>= fun pin => pure (f pin)) :=
  .bind (moves_addOutput trivial v) fun _ => .pure _

theorem moves_createBinary (op : BinaryOp) (type : NodeType) :
    Attempt.Moves (Move (fun _ => True) mine) (createBinary op type) :=
  .bind (moves_addIdentity _) fun id => .bind (moves_addInput trivial _) fun _ =>
    .bind (moves_addInput trivial _) fun _ => moves_output id _ _

theorem moves_createConstant (kind : ConstantKind) :
    Attempt.Moves (Move (fun _ => True) mine) (createConstant kind) :=
  .bind (moves_addIdentity _) fun id => moves_output id _ _

theorem moves_createAsset (kind : AssetKind) :
    Attempt.Moves (Move (fun _ => True) mine) (createAsset kind) := by
  refine .bind (moves_addIdentity _) fun id s => ?_
  rw [Attempt.on_bind_of_ok (Attempt.on_get s), Attempt.on_bind_of_ok (Attempt.on_set s _)]
  exact (moves_resolveAsset rfl).trans (moves_output id _ _ _)

theorem moves_createPrimitive : Attempt.Moves (Move (fun _ => True) mine) createPrimitive := by
  refine .bind (moves_addIdentity _) fun id s => ?_
  rw [Attempt.on_bind_of_ok (Attempt.on_get s), Attempt.on_bind_of_ok (Attempt.on_set s _)]
  exact (moves_resolvePrimitive rfl).trans (moves_output id _ _ _)

theorem moves_create (kind : UiNodeKind) :
    Attempt.Moves (Move (fun _ => True) mine) (create kind) := by
  cases kind with
  | add => exact moves_createBinary _ _
  | multiply => exact moves_createBinary _ _
  | sine =>
      exact .bind (moves_addIdentity _) fun id => .bind (moves_addInput trivial _) fun _ =>
        moves_output id _ _
  | time => exact .bind (moves_addIdentity _) fun id => moves_output id _ _
  | scalar => exact moves_createConstant _
  | vector2 => exact moves_createConstant _
  | vector3 => exact moves_createConstant _
  | vector4 => exact moves_createConstant _
  | matrix4x4 => exact moves_createConstant _
  | model => exact moves_createAsset _
  | texture => exact moves_createAsset _
  | shader => exact moves_createAsset _
  | primitive => exact moves_createPrimitive
  | camera =>
      exact .bind (moves_addIdentity _) fun id => .bind (moves_addInput trivial _) fun _ =>
        .bind (moves_addInput trivial _) fun _ => moves_output id _ _
  | transform =>
      exact .bind (moves_addIdentity _) fun id => .bind (moves_addInput trivial _) fun _ =>
        .bind (moves_addInput trivial _) fun _ => .bind (moves_addInput trivial _) fun _ =>
          moves_output id _ _
  | draw =>
      exact .bind (moves_addIdentity _) fun id => .bind (moves_addInput trivial _) fun _ =>
        .bind (moves_addInput trivial _) fun _ => moves_output id _ _
  | renderTarget =>
      exact .bind (moves_addIdentity _) fun id => .bind (moves_addInput trivial _) fun _ => .pure _

/-- A new draw node has no bindings. -/
theorem kind_create (kind : UiNodeKind) :
    Attempt.Returns (UiNode.create kind) fun n => n.kind = kind := by
  cases kind with
  | add | multiply => exact .bind fun _ => .bind fun _ => .bind fun _ => .bind fun _ => .pure rfl
  | sine => exact .bind fun _ => .bind fun _ => .bind fun _ => .pure rfl
  | time | scalar | vector2 | vector3 | vector4 | matrix4x4 | renderTarget =>
      exact .bind fun _ => .bind fun _ => .pure rfl
  | model | texture | shader | primitive | camera | draw =>
      exact .bind fun _ => .bind fun _ => .bind fun _ => .bind fun _ => .pure rfl
  | transform =>
      exact .bind fun _ => .bind fun _ => .bind fun _ => .bind fun _ => .bind fun _ => .pure rfl

theorem returns_create (kind : UiNodeKind) :
    Attempt.Returns (UiNode.create kind) fun n =>
      ∀ d, n = .draw d → d.bindings = [] ∧ d.bound = noIndex := by
  cases kind with
  | add | multiply =>
      exact .bind fun _ => .bind fun _ => .bind fun _ => .bind fun _ => .pure fun _ h => nomatch h
  | sine => exact .bind fun _ => .bind fun _ => .bind fun _ => .pure fun _ h => nomatch h
  | time | scalar | vector2 | vector3 | vector4 | matrix4x4 | renderTarget =>
      exact .bind fun _ => .bind fun _ => .pure fun _ h => nomatch h
  | model | texture | shader | primitive =>
      exact .bind fun _ => .bind fun _ => .bind fun _ => .bind fun _ => .pure fun _ h => nomatch h
  | camera =>
      exact .bind fun _ => .bind fun _ => .bind fun _ => .bind fun _ => .pure fun _ h => nomatch h
  | transform =>
      exact .bind fun _ => .bind fun _ => .bind fun _ => .bind fun _ => .bind fun _ =>
        .pure fun _ h => nomatch h
  | draw =>
      refine .bind fun id => .bind fun shader => .bind fun model => .bind fun output => .pure ?_
      rintro _ ⟨⟩
      exact ⟨rfl, rfl⟩

end UiNode

namespace Draw

open Scene

variable {mine : Id → Prop} {d : Draw} {s : Scene}

/-! ## Following a shader -/

theorem moves_teardown (d : Draw) (s : Scene) (hpins : ∀ b ∈ d.bindings, mine b.pin) :
    Moves (· = d.id) mine s (d.teardown s).2 := by
  apply moves_eraseOwned
  intro p hp
  obtain ⟨b, hb, rfl⟩ := List.mem_map.1 hp
  exact hpins b hb

theorem moves_build (d : Draw) (s : Scene) (vars : List (String × BindingType)) :
    Moves (· = d.id) mine s (d.build s vars).2 := by
  induction vars generalizing d s with
  | nil => exact .refl
  | cons var vars ih =>
      have hadd : Moves (· = d.id) mine s ((addInput d.id (.ofKind var.2.kind)).on s).2 :=
        @moves_addInput (· = d.id) mine d.id rfl _ s
      rw [build]
      split
      · next pin s' hx =>
        rw [hx] at hadd
        exact hadd.trans (ih { d with bindings := d.bindings ++ [⟨pin, var.1, var.2⟩] } s')
      · next err s' hx =>
        rw [hx] at hadd
        exact hadd.trans (ih d s')

theorem moves_sync (d : Draw) (s : Scene) (shader : Int32) (hpins : ∀ b ∈ d.bindings, mine b.pin) :
    Moves (· = d.id) mine s (d.sync s shader).2 := by
  unfold sync
  dsimp only
  split
  · exact .refl
  · have hdown : Moves (· = d.id) mine s ({ d with bound := shader }.teardown s).2 :=
      moves_teardown { d with bound := shader } s hpins
    exact hdown.trans (moves_build ({ d with bound := shader }.teardown s).1 _ _)

/-- The inputs made are those of some of the variables, in order. -/
theorem build_eq (d : Draw) (s : Scene) (vars : List (String × BindingType)) :
    ∃ bs, (d.build s vars).1 = { d with bindings := d.bindings ++ bs } ∧
      (bs.map fun b => (b.name, b.type)).Sublist vars := by
  induction vars generalizing d s with
  | nil => exact ⟨[], by rw [build, List.append_nil], .refl _⟩
  | cons var vars ih =>
      rw [build]
      split
      · next pin s' _ =>
        obtain ⟨bs, hd, hbs⟩ := ih { d with bindings := d.bindings ++ [⟨pin, var.1, var.2⟩] } s'
        refine ⟨⟨pin, var.1, var.2⟩ :: bs, ?_, hbs.cons_cons _⟩
        rw [hd, List.append_assoc]
        rfl
      · next err s' _ =>
        obtain ⟨bs, hd, hbs⟩ := ih d s'
        exact ⟨bs, hd, hbs.cons _⟩

theorem sync_eq (d : Draw) (s : Scene) (shader : Int32) :
    ∃ bs, (d.sync s shader).1 = { d with bindings := bs, bound := shader } ∧
      (bs.map fun b => (b.name, b.type)).Sublist (reflected s shader) := by
  unfold sync
  dsimp only
  split
  · next h => exact ⟨d.bindings, rfl, h ▸ .refl _⟩
  · obtain ⟨bs, hd, hbs⟩ := build_eq ({ d with bound := shader }.teardown s).1
      ({ d with bound := shader }.teardown s).2 (reflected s shader)
    exact ⟨bs, hd, hbs⟩

/-- An event changes the bindings and the bound shader at most. -/
theorem onEvent_eq (d : Draw) (s : Scene) (e : Event) :
    ∃ bs bound, (d.onEvent s e).1 = { d with bindings := bs, bound := bound } := by
  have hsync (s : Scene) (shader : Int32) :
      ∃ bs bound, (d.sync s shader).1 = { d with bindings := bs, bound := bound } := by
    obtain ⟨bs, hd, _⟩ := d.sync_eq s shader
    exact ⟨bs, shader, hd⟩
  unfold onEvent
  cases e with
  | linkCreated source target =>
      dsimp only
      split
      · exact hsync _ _
      · exact ⟨_, _, rfl⟩
  | linkDeleted source target =>
      dsimp only
      split
      · exact ⟨[], noIndex, rfl⟩
      · exact ⟨_, _, rfl⟩
  | shaderUpdated shader =>
      dsimp only
      split
      · exact hsync _ _
      · exact ⟨_, _, rfl⟩

theorem moves_onEvent (d : Draw) (s : Scene) (e : Event) (hshader : mine d.shader)
    (hpins : ∀ b ∈ d.bindings, mine b.pin) : Moves (· = d.id) mine s (d.onEvent s e).2 := by
  cases e with
  | linkCreated source target =>
      unfold onEvent
      dsimp only
      split
      · exact .head (.write _ hshader) (moves_sync d _ _ hpins)
      · exact .refl
  | linkDeleted source target =>
      unfold onEvent
      dsimp only
      split
      · exact .head (.write _ hshader) (moves_teardown d _ hpins)
      · exact .refl
  | shaderUpdated shader =>
      unfold onEvent
      dsimp only
      split
      · exact moves_sync d s _ hpins
      · exact .refl

end Draw

namespace UiNode

open Scene

/-! ## Reactions -/

def Owns (n : UiNode) (id : Id) : Prop := id ∈ n.id :: n.pins

theorem owns_input {n : UiNode} {p : Id} (hp : p ∈ n.inputs) : n.Owns p :=
  List.mem_cons_of_mem _ (List.mem_append_left _ hp)

theorem owns_output {n : UiNode} {p : Id} (hp : p ∈ n.outputs) : n.Owns p :=
  List.mem_cons_of_mem _ (List.mem_append_right _ hp)

theorem owns_binding {d : Draw} {b : Binding} (hb : b ∈ d.bindings) : (draw d).Owns b.pin :=
  owns_input (List.mem_cons_of_mem _ (List.mem_cons_of_mem _ (List.mem_map.2 ⟨b, hb, rfl⟩)))

theorem moves_onEvent (n : UiNode) (e : Event) (s : Scene) :
    Moves (· = n.id) n.Owns s (n.onEvent e s).2 := by
  unfold onEvent
  split
  · next d => exact d.moves_onEvent s e (owns_input List.mem_cons_self) fun b => owns_binding
  · exact .refl
  · exact .refl

/-- An update writes and drops inputs only, but for that of a time node. -/
theorem moves_onUpdate_inputs (n : UiNode) (clock : Clock) (s : Scene)
    (h : ∀ id output, n ≠ time id output) :
    Moves (· = n.id) (· ∈ n.inputs) s (n.onUpdate clock s).2 := by
  have hpulled : Moves (· = n.id) (· ∈ n.inputs) s (n.inputs.foldl pull s) :=
    moves_foldl_pull s fun p hp => hp
  cases n with
  | time id output => exact absurd rfl (h id output)
  | draw d =>
      unfold onUpdate
      dsimp only
      split
      · exact hpulled
      · split
        · exact hpulled
        · refine hpulled.trans (d.moves_sync _ _ fun b hb => ?_)
          exact List.mem_cons_of_mem _ (List.mem_cons_of_mem _ (List.mem_map.2 ⟨b, hb, rfl⟩))
  | _ => exact hpulled

theorem moves_onUpdate (n : UiNode) (clock : Clock) (s : Scene) :
    Moves (· = n.id) n.Owns s (n.onUpdate clock s).2 := by
  by_cases h : ∃ id output, n = time id output
  · obtain ⟨id, output, rfl⟩ := h
    have hout : (time id output).Owns output := owns_output (List.mem_singleton.2 rfl)
    exact .single (.write (.float clock.elapsed) hout)
  · have hinputs := n.moves_onUpdate_inputs clock s fun id output hn => h ⟨id, output, hn⟩
    refine ReflTransGen.mono (fun s s' hmove => ?_) _ _ hinputs
    exact Move.mono hmove fun p hp => owns_input hp

@[simp] theorem id_onEvent (n : UiNode) (e : Event) (s : Scene) : (n.onEvent e s).1.id = n.id := by
  cases n with
  | draw d =>
      obtain ⟨bs, bound, hd⟩ := d.onEvent_eq s e
      change (d.onEvent s e).1.id = d.id
      rw [hd]
  | renderTarget id input ready => cases e <;> rfl
  | _ => rfl

@[simp] theorem id_onUpdate (n : UiNode) (clock : Clock) (s : Scene) :
    (n.onUpdate clock s).1.id = n.id := by
  cases n with
  | draw d =>
      unfold onUpdate
      dsimp only
      split
      · rfl
      · split
        · rfl
        · obtain ⟨bs, hd, _⟩ := d.sync_eq ((draw d).inputs.foldl pull s)
            (((draw d).inputs.foldl pull s).indexIn d.shader)
          change (d.sync _ _).1.id = d.id
          rw [hd]
  | _ => rfl

theorem moves_onDelete (n : UiNode) :
    Attempt.Moves (Move (· = n.id) n.Owns) n.onDelete :=
  .bind (moves_eraseOwned fun _ hp => List.mem_cons_of_mem _ hp) fun _ =>
    moves_eraseOwned fun _ hp => List.mem_cons.2 (Or.inl (List.mem_singleton.1 hp))

end UiNode

end DrawGraph
