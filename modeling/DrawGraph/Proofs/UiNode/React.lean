import DrawGraph.Proofs.UiNode.Pins
import DrawGraph.UiNode.React

/-!
# Reactions in their roles

A UI node that reacts keeps its identity and plays it with the pins it has afterwards, while the
others keep their roles. A draw node that makes inputs for a shader needs ids for them; when they
run out it leaves inputs out, and the node of the first of these may be left without an edge.
-/

namespace DrawGraph

open Scene

variable {w : Wiring} {g : Graph} {s : Scene}

/-- A UI node plays its roles in a wiring of the scene, so it has its seat there. -/
theorem UiNode.Plays.seated {n : UiNode} (h : n.Plays w) (hw : Wired w s.graph s.values)
    (hle : g.nextId ≤ s.graph.nextId) : Seated w g n.id n.sockets n.outputs n.offer s :=
  ⟨w, hw, h, .of_le n.id w hle⟩

namespace Draw

variable {d : Draw}

/-- None of the inputs that an identity is given for variables, one after the other, is refused. -/
def BuildServed (id : Id) : Scene → List (String × BindingType) → Prop
  | _, [] => True
  | s, (_, type) :: vars => ((addInput id (.ofKind type.kind)).on s).1.isOk ∧
      BuildServed id ((addInput id (.ofKind type.kind)).on s).2 vars

/-- No input is refused while the draw node makes its inputs those of a shader. There is nothing to
make when its variables are the ones there already. -/
def SyncServed (d : Draw) (s : Scene) (shader : Int32) : Prop :=
  reflected s shader ≠ d.bindings.map (fun b => (b.name, b.type)) →
    BuildServed d.id (d.teardown s).2 (reflected s shader)

/-- No id is refused while the draw node takes an event. -/
def EventServed (d : Draw) (s : Scene) : Event → Prop
  | .linkCreated source target => source = d.shader →
      let shader := ((s.values.get? target).bind Value.index?).getD noIndex
      d.SyncServed (s.write d.shader (.int shader)) shader
  | .linkDeleted .. => True
  | .shaderUpdated shader => shader ≥ 0 ∧ shader = d.bound → d.SyncServed s shader

instance decidableBuildServed (id : Id) : (s : Scene) → (vars : List (String × BindingType)) →
    Decidable (BuildServed id s vars)
  | _, [] => inferInstanceAs (Decidable True)
  | s, (_, type) :: vars =>
      have := decidableBuildServed id ((addInput id (.ofKind type.kind)).on s).2 vars
      inferInstanceAs (Decidable (_ ∧ _))

instance (d : Draw) (s : Scene) (shader : Int32) : Decidable (d.SyncServed s shader) :=
  inferInstanceAs (Decidable (_ → _))

instance (d : Draw) (s : Scene) : (e : Event) → Decidable (d.EventServed s e)
  | .linkCreated source target => inferInstanceAs (Decidable (source = d.shader →
      d.SyncServed (s.write d.shader (.int (((s.values.get? target).bind Value.index?).getD noIndex)))
        (((s.values.get? target).bind Value.index?).getD noIndex)))
  | .linkDeleted .. => inferInstanceAs (Decidable True)
  | .shaderUpdated shader =>
      inferInstanceAs (Decidable (shader ≥ 0 ∧ shader = d.bound → d.SyncServed s shader))

def Sits (w : Wiring) (g : Graph) (d : Draw) (s : Scene) : Prop :=
  Seated w g d.id (UiNode.draw d).sockets [d.output] (.exactly .float) s

/-- The pins of the bindings are inputs apart from the two fixed ones and from the output. -/
theorem pins_apart (hw : w.Coherent)
    (hs : w.Seats d.id (UiNode.draw d).sockets [d.output] (.exactly .float)) :
    (d.bindings.map (·.pin)).Nodup ∧ d.shader ∉ d.bindings.map (·.pin) ∧
      d.model ∉ d.bindings.map (·.pin) ∧ d.output ∉ d.bindings.map (·.pin) := by
  have hnodup := (hw.identity hs.identity).1
  rw [UiNode.map_fst_sockets, UiNode.inputs, List.nodup_cons, List.nodup_cons] at hnodup
  obtain ⟨hshader, hmodel, hpins⟩ := hnodup
  refine ⟨hpins, fun h => hshader (List.mem_cons_of_mem _ h), hmodel, fun hout => ?_⟩
  obtain ⟨b, hb, hpin⟩ := List.mem_map.1 hout
  have hin : (b.pin, b.type.kind) ∈ (UiNode.draw d).sockets :=
    List.mem_cons_of_mem _ (List.mem_cons_of_mem _ (List.mem_map.2 ⟨b, hb, rfl⟩))
  have hrole := hs.input _ hin
  rw [hpin, hs.output d.output (by simp)] at hrole
  cases hrole

/-- Without the pins of the bindings the two fixed inputs and the output are left. -/
theorem filter_pins (hw : w.Coherent)
    (hs : w.Seats d.id (UiNode.draw d).sockets [d.output] (.exactly .float)) :
    (UiNode.draw d).sockets.filter (·.1 ∉ d.bindings.map (·.pin)) =
        [(d.shader, .int), (d.model, .int)] ∧
      [d.output].filter (· ∉ d.bindings.map (·.pin)) = [d.output] := by
  obtain ⟨_, hshader, hmodel, hout⟩ := pins_apart hw hs
  constructor
  · rw [UiNode.sockets, List.filter_cons_of_pos (by simpa using hshader),
      List.filter_cons_of_pos (by simpa using hmodel), List.filter_eq_nil_iff.2]
    intro p hp
    obtain ⟨b, hb, rfl⟩ := List.mem_map.1 hp
    have : b.pin ∈ d.bindings.map (·.pin) := List.mem_map.2 ⟨b, hb, rfl⟩
    simp [this]
  · rw [List.filter_cons_of_pos (by simpa using hout), List.filter_nil]

theorem mem_sockets_of_binding {p : Id} (hp : p ∈ d.bindings.map (·.pin)) :
    p ∈ (UiNode.draw d).sockets.map Prod.fst := by
  rw [UiNode.map_fst_sockets]
  exact List.mem_cons_of_mem _ (List.mem_cons_of_mem _ hp)

theorem teardown_sits (h : Sits w g d s) :
    (d.teardown s).1.id = d.id ∧ (d.teardown s).1.shader = d.shader ∧
      Sits w g (d.teardown s).1 (d.teardown s).2 := by
  have ⟨w', hw, hs, _⟩ := h
  obtain ⟨s', hs', hseated⟩ := eraseOwned_seated h (pins_apart hw.coherent hs).1
    fun p hp => Or.inl (mem_sockets_of_binding hp)
  refine ⟨rfl, rfl, ?_⟩
  have hquiet : (d.teardown s).2 = s' := by
    rw [teardown, Attempt.quietly, hs']
  obtain ⟨hsockets, houtputs⟩ := filter_pins hw.coherent hs
  rw [hsockets, houtputs] at hseated
  rw [Sits, hquiet]
  exact hseated

theorem length_build_le (d : Draw) (s : Scene) (vars : List (String × BindingType)) :
    (d.build s vars).1.bindings.length ≤ d.bindings.length + vars.length := by
  induction vars generalizing d s with
  | nil => exact Nat.le_refl _
  | cons var vars ih =>
      rw [build]
      split
      · refine Nat.le_trans (ih _ _) ?_
        simp only [List.length_append, List.length_cons, List.length_nil]
        omega
      · refine Nat.le_trans (ih _ _) ?_
        simp only [List.length_cons]
        omega

theorem buildServed_cons {id : Id} {name : String} {type : BindingType}
    {vars : List (String × BindingType)} : BuildServed id s ((name, type) :: vars) ↔
      ∃ pin s', (addInput id (.ofKind type.kind)).on s = (.ok pin, s') ∧
        BuildServed id s' vars := by
  rw [BuildServed]
  rcases (addInput id (.ofKind type.kind)).on s with ⟨_ | pin, s'⟩ <;>
    simp [Except.isOk, Except.toBool]

/-- No input is refused just when there is one for each variable in the end. -/
theorem length_build_eq_iff (d : Draw) (s : Scene) (vars : List (String × BindingType)) :
    (d.build s vars).1.bindings.length = d.bindings.length + vars.length ↔
      BuildServed d.id s vars := by
  induction vars generalizing d s with
  | nil => exact iff_of_true rfl trivial
  | cons var vars ih =>
      obtain ⟨name, type⟩ := var
      rw [buildServed_cons, build, List.length_cons]
      rcases hx : (addInput d.id (.ofKind type.kind)).on s with ⟨err | pin, s'⟩
      · have hle := d.length_build_le s' vars
        exact iff_of_false (by dsimp only; omega) fun ⟨_, _, hok, _⟩ => by cases hok
      · have hrest := ih { d with bindings := d.bindings ++ [⟨pin, name, type⟩] } s'
        rw [List.length_append, List.length_singleton, Nat.add_assoc, Nat.add_comm 1] at hrest
        simpa using hrest

theorem build_sits {vars : List (String × BindingType)} (h : Sits w g d s)
    (hserved : BuildServed d.id s vars) :
    (d.build s vars).1.id = d.id ∧ Sits w g (d.build s vars).1 (d.build s vars).2 := by
  induction vars generalizing d s with
  | nil => exact ⟨rfl, h⟩
  | cons var vars ih =>
      obtain ⟨name, type⟩ := var
      obtain ⟨pin, s', hx, hrest⟩ := buildServed_cons.1 hserved
      have hadd := addInput_ensures h (.ofKind type.kind)
      have hsits : Sits w g { d with bindings := d.bindings ++ [⟨pin, name, type⟩] } s' := by
        simpa [Sits, UiNode.sockets] using hadd.of_ok hx
      rw [build, hx]
      exact ih hsits hrest

theorem sync_of_ne {shader : Int32}
    (h : reflected s shader ≠ d.bindings.map fun b => (b.name, b.type)) :
    d.sync s shader = ({ d with bound := shader }.teardown s).1.build (d.teardown s).2
      (reflected s shader) := if_neg h

theorem sync_sits {shader : Int32} (h : Sits w g d s) (hserved : d.SyncServed s shader) :
    (d.sync s shader).1.id = d.id ∧ Sits w g (d.sync s shader).1 (d.sync s shader).2 := by
  have hbound : Sits w g { d with bound := shader } s := h
  by_cases hvars : reflected s shader = d.bindings.map fun b => (b.name, b.type)
  · have hsync : d.sync s shader = ({ d with bound := shader }, s) := if_pos hvars
    rw [hsync]
    exact ⟨rfl, hbound⟩
  · obtain ⟨hid, _, hdown⟩ := teardown_sits hbound
    obtain ⟨hid', hbuilt⟩ := build_sits hdown (hserved hvars)
    rw [sync_of_ne hvars]
    exact ⟨hid'.trans hid, hbuilt⟩

/-- No input is refused just when every variable of the shader has one in the end. -/
theorem syncServed_iff {shader : Int32} : d.SyncServed s shader ↔
    (d.sync s shader).1.bindings.length = (reflected s shader).length := by
  by_cases hvars : reflected s shader = d.bindings.map fun b => (b.name, b.type)
  · have hsync : d.sync s shader = ({ d with bound := shader }, s) := if_pos hvars
    rw [hsync, hvars, List.length_map]
    exact iff_of_true (fun hne => absurd hvars hne) rfl
  · have hlength := length_build_eq_iff ({ d with bound := shader }.teardown s).1 (d.teardown s).2
      (reflected s shader)
    have hbare : ({ d with bound := shader }.teardown s).1.bindings.length = 0 := rfl
    rw [hbare, Nat.zero_add] at hlength
    rw [sync_of_ne hvars, hlength]
    exact forall_prop_of_true hvars

theorem onEvent_sits (hw : Wired w s.graph s.values) (hd : (UiNode.draw d).Plays w) {event : Event}
    (hserved : d.EventServed s event) :
    (d.onEvent s event).1.id = d.id ∧
      Sits w s.graph (d.onEvent s event).1 (d.onEvent s event).2 := by
  have hshader : w d.shader = some (.input d.id .int) :=
    Wiring.Seats.input hd (d.shader, .int) List.mem_cons_self
  -- the box of the shader's index may be filled at any time
  have hwrite (shader : Int32) : Sits w s.graph d (s.write d.shader (.int shader)) := by
    refine UiNode.Plays.seated hd (wired_write hw ?_) ?_
    · rw [hshader]
      exact ⟨_, rfl, rfl⟩
    · rw [nextId_write]
      exact UInt32.le_refl _
  have hsits : Sits w s.graph d s := UiNode.Plays.seated hd hw (UInt32.le_refl _)
  cases event with
  | linkCreated source target =>
      unfold onEvent
      dsimp only
      split
      · next hs => exact sync_sits (hwrite _) (hserved hs)
      · exact ⟨rfl, hsits⟩
  | linkDeleted source target =>
      unfold onEvent
      dsimp only
      split
      · obtain ⟨hid, _, hdown⟩ := teardown_sits (hwrite noIndex)
        exact ⟨hid, hdown⟩
      · exact ⟨rfl, hsits⟩
  | shaderUpdated shader =>
      unfold onEvent
      dsimp only
      split
      · next hs => exact sync_sits hsits (hserved hs)
      · exact ⟨rfl, hsits⟩

end Draw

namespace UiNode

variable {n : UiNode}

/-- What became of a UI node that reacted, and of the scene. -/
structure Acted (w : Wiring) (g : Graph) (n n' : UiNode) (s : Scene) : Prop where
  id : n'.id = n.id
  observes : n'.observes = n.observes
  seated : Seated w g n.id n'.sockets n'.outputs n'.offer s

theorem Acted.of_wired (hn : n.Plays w) (hw : Wired w s.graph s.values)
    (hle : g.nextId ≤ s.graph.nextId) : Acted w g n n s :=
  ⟨rfl, rfl, hn.seated hw hle⟩

theorem Acted.of_sits {d d' : Draw} (hid : d'.id = d.id) (h : Draw.Sits w g d' s) :
    Acted w g (draw d) (draw d') s :=
  ⟨hid, rfl, by rw [Draw.Sits, hid] at h; exact h⟩

def EventServed (n : UiNode) (e : Event) (s : Scene) : Prop :=
  ∀ d, n = draw d → d.EventServed s e

def UpdateServed (n : UiNode) (s : Scene) : Prop :=
  ∀ d, n = draw d → let s := n.inputs.foldl Scene.pull s
    (s.source? d.shader).isSome → s.indexIn d.shader ≠ d.bound →
      d.SyncServed s (s.indexIn d.shader)

/-- What is asked of draw nodes only. -/
def decidableOfDraw {p : Draw → Prop} [DecidablePred p] :
    (n : UiNode) → Decidable (∀ d, n = draw d → p d)
  | draw d => decidable_of_iff (p d) ⟨fun h _ hd => draw.inj hd ▸ h, fun h => h d rfl⟩
  | binary .. | sine .. | time .. | constant .. | asset .. | primitive .. | camera _ | transform _
  | renderTarget .. => isTrue fun _ hd => nomatch hd

instance (n : UiNode) (e : Event) (s : Scene) : Decidable (n.EventServed e s) :=
  decidableOfDraw n

instance (n : UiNode) (s : Scene) : Decidable (n.UpdateServed s) :=
  decidableOfDraw n

theorem onEvent_acted (hw : Wired w s.graph s.values) (hn : n.Plays w) {e : Event}
    (hserved : n.EventServed e s) :
    Acted w s.graph n (n.onEvent e s).1 (n.onEvent e s).2 := by
  have hsame : Acted w s.graph n n s := .of_wired hn hw (UInt32.le_refl _)
  unfold onEvent
  split
  · next d =>
    obtain ⟨hid, hsits⟩ := Draw.onEvent_sits hw hn (hserved _ rfl)
    exact .of_sits hid hsits
  · exact ⟨rfl, rfl, hsame.seated⟩
  · exact hsame

theorem onUpdate_acted (hw : Wired w s.graph s.values) (hn : n.Plays w) (clock : Clock)
    (hserved : n.UpdateServed s) :
    Acted w s.graph n (n.onUpdate clock s).1 (n.onUpdate clock s).2 := by
  have hinputs : ∀ p ∈ n.inputs, ∃ owner kind, w p = some (.input owner kind) := by
    intro p hp
    obtain ⟨kind, _, hp⟩ := hn.input hp
    exact ⟨n.id, kind, hp⟩
  obtain ⟨hpulled, hnext⟩ := wired_foldl_pull hw hinputs
  have hle : s.graph.nextId ≤ (n.inputs.foldl pull s).graph.nextId := hnext ▸ UInt32.le_refl _
  unfold onUpdate
  split
  · next id output =>
    refine .of_wired hn (wired_write hw ?_) ?_
    · rw [hn.output (List.mem_singleton.2 rfl)]
      exact ⟨_, rfl, rfl⟩
    · rw [nextId_write]
      exact UInt32.le_refl _
  · next d =>
    dsimp only
    split
    · exact .of_wired hn hpulled hle
    · next hlinked =>
      split
      · exact .of_wired hn hpulled hle
      · next hbound =>
        have hlinked : ((inputs (draw d)).foldl pull s |>.source? d.shader).isSome := by
          rwa [Bool.not_eq_true, Option.isNone_eq_false_iff] at hlinked
        have hsits : Draw.Sits w s.graph d ((inputs (draw d)).foldl pull s) :=
          hn.seated hpulled hle
        obtain ⟨hid, hsynced⟩ := Draw.sync_sits hsits (hserved d rfl hlinked hbound)
        exact .of_sits hid hsynced
  · exact .of_wired hn hpulled hle

/-- Without its pins a UI node has neither inputs nor outputs. -/
theorem filter_pins (n : UiNode) :
    n.sockets.filter (·.1 ∉ n.pins) = [] ∧ n.outputs.filter (· ∉ n.pins) = [] := by
  constructor
  · apply List.filter_eq_nil_iff.2
    intro p hp
    have hin : p.1 ∈ n.inputs := n.map_fst_sockets ▸ List.mem_map.2 ⟨p, hp, rfl⟩
    simp [pins, hin]
  · apply List.filter_eq_nil_iff.2
    intro o ho
    simp [pins, ho]

/-- A UI node can always be removed, and leaves nothing behind. -/
theorem onDelete_ok (hw : Wired w s.graph s.values) (hn : n.Plays w) :
    ∃ s' w', n.onDelete.on s = (.ok (), s') ∧ Wired w' s'.graph s'.values ∧
      Wiring.Recast n.id w s.graph w' s'.graph ∧ w' n.id = none := by
  have hseated : Seated w s.graph n.id n.sockets n.outputs n.offer s :=
    hn.seated hw (UInt32.le_refl _)
  have hnodup : n.pins.Nodup := (hn.nodup hw.coherent).of_cons
  obtain ⟨s₁, hs₁, hpins⟩ := eraseOwned_seated hseated hnodup fun p hp => by
    rw [map_fst_sockets]
    exact List.mem_append.1 hp
  obtain ⟨hsockets, houtputs⟩ := n.filter_pins
  rw [hsockets, houtputs] at hpins
  obtain ⟨s', w', hs', hw', hrecast, hgone⟩ := eraseOwned_identity hpins
  refine ⟨s', w', ?_, hw', hrecast, hgone⟩
  rw [onDelete, Attempt.on_bind_of_ok hs₁]
  exact hs'

end UiNode

end DrawGraph
