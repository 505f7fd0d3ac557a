import DrawGraph.Proofs.Editor.Draining
import DrawGraph.Proofs.UiNode.Sprout
import DrawGraph.Proofs.UiNode.Turn

/-!
# Ids enough

Ids are asked for by new UI nodes, by links, and by draw nodes that make inputs for the variables of
a shader. So none is refused in the course of an operation as long as those that are left cover
these: what an operation may ask for depends on how many variables the shaders have and on how many
UI nodes there are.
-/

namespace DrawGraph

open Scene DrawGraph.Graph

variable {most budget : Nat} {event : Event}

/-- No shader of the library has more variables. -/
def ShaderLibrary.Within (l : ShaderLibrary) (most : Nat) : Prop :=
  ∀ s ∈ l.shaders, s.vars.length ≤ most

instance (l : ShaderLibrary) (most : Nat) : Decidable (l.Within most) :=
  inferInstanceAs (Decidable (∀ s ∈ l.shaders, _))

theorem ShaderLibrary.Within.reload {l l' : ShaderLibrary} (h : l.Within most) {i : Int32}
    (hl : l.reload i = .ok l') : l'.Within most := by
  unfold ShaderLibrary.reload at hl
  split at hl
  · cases hl
    intro s hs
    obtain ⟨j, hj, rfl⟩ := List.mem_iff_getElem.1 hs
    rw [List.getElem_modify]
    have hold := h _ (List.getElem_mem (by simpa using hj))
    split <;> exact hold
  · cases hl

/-- The ids that a UI node may ask for when it hears of an event: two for each variable of a shader
that it may find. -/
def Event.cost (most : Nat) : Event → Nat
  | .linkDeleted .. => 0
  | .linkCreated .. | .shaderUpdated _ => 2 * most

/-- What leads from one scene to the other asks for `cost` ids at most. When as many are left none is
refused. -/
structure Scene.Asks (cost : Nat) (s s' : Scene) (served : Prop) : Prop where
  nextId : s'.graph.nextId.toNat ≤ s.graph.nextId.toNat + cost
  served : s.graph.nextId.toNat + cost ≤ lastId.toNat → served

namespace Scene.Asks

variable {cost : Nat} {s s' t : Scene} {served served' : Prop}

theorem refl (cost : Nat) (s : Scene) (h : served) : Asks cost s s served :=
  ⟨Nat.le_add_right .., fun _ => h⟩

theorem imp (h : Asks cost s s' served) (himp : served → served') : Asks cost s s' served' :=
  ⟨h.nextId, fun hroom => himp (h.served hroom)⟩

theorem of_nextId (h : Asks cost s s' served) (hnext : s.graph.nextId = t.graph.nextId) :
    Asks cost t s' served :=
  ⟨hnext ▸ h.nextId, hnext ▸ h.served⟩

end Scene.Asks

/-! ## Draw nodes -/

namespace Draw

variable {d : Draw} {s : Scene}

theorem length_reflected_le (h : s.services.shaders.Within most) (shader : Int32) :
    (reflected s shader).length ≤ most := by
  unfold reflected
  split
  · exact Nat.zero_le most
  · split
    · next vars hvars =>
      refine (List.length_filterMap_le ..).trans ?_
      unfold ShaderLibrary.vars at hvars
      split at hvars
      · next found hfound =>
        cases hvars
        refine h found ?_
        unfold atIndex? at hfound
        split at hfound
        · cases hfound
        · exact List.mem_of_getElem? hfound
      · cases hvars
    · exact Nat.zero_le most

/-- Each input takes an id for its node and one for its edge. -/
theorem nextId_build_le (hc : s.graph.Consistent) (d : Draw) (vars : List (String × BindingType)) :
    (d.build s vars).2.graph.nextId.toNat ≤ s.graph.nextId.toNat + 2 * vars.length := by
  induction vars generalizing d s with
  | nil => exact Nat.le_refl _
  | cons var vars ih =>
      obtain ⟨name, type⟩ := var
      have hadd := addInput_makes hc d.id (.ofKind type.kind)
      rw [build, List.length_cons]
      split
      · next pin s' hx =>
        obtain ⟨g₁, edge, ha, he⟩ := hadd.of_ok hx
        have hrest := ih he.consistent { d with bindings := d.bindings ++ [⟨pin, name, type⟩] }
        rw [he.toNat_nextId, ha.toNat_nextId] at hrest
        omega
      · next err s' hx =>
        rcases hadd.of_error hx with hsame | ⟨n, pin, ha⟩
        · have hrest := ih (hsame ▸ hc) d
          rw [hsame] at hrest
          omega
        · have hrest := ih ha.consistent d
          rw [ha.toNat_nextId] at hrest
          omega

section Live

variable (hc : s.graph.Consistent) (hnodup : (d.id :: d.params).Nodup)
  (hlive : ∀ p ∈ d.id :: d.params, s.graph.hasNode p)

include hc hnodup hlive

theorem nextId_sync_le (shader : Int32) : (d.sync s shader).2.graph.nextId.toNat ≤
    s.graph.nextId.toNat + 2 * (reflected s shader).length := by
  by_cases hvars : reflected s shader = d.bindings.map fun b => (b.name, b.type)
  · have hsync : d.sync s shader = ({ d with bound := shader }, s) := if_pos hvars
    rw [hsync]
    exact Nat.le_add_right ..
  · have hdown := trims_teardown hc (List.nodup_cons.1 hnodup).2 (List.forall_mem_cons.1 hlive).2
    rw [sync_of_ne hvars, ← hdown.nextId]
    exact nextId_build_le hdown.consistent _ _

theorem asks_sync (hwithin : s.services.shaders.Within most) (shader : Int32) :
    Asks (2 * most) s (d.sync s shader).2 (d.SyncServed s shader) := by
  have hlength := length_reflected_le hwithin shader
  have hnext := nextId_sync_le hc hnodup hlive shader
  exact ⟨by omega, fun hroom => syncServed_of_room hc hnodup hlive (by omega)⟩

theorem asks_onEvent (hwithin : s.services.shaders.Within most) (event : Event) :
    Asks (event.cost most) s (d.onEvent s event).2 (d.EventServed s event) := by
  unfold onEvent
  cases event with
  | linkCreated source target =>
      dsimp only
      split
      · refine ((asks_sync (consistent_write hc ..) hnodup (fun p hp => ?_) ?_ _).of_nextId
          (nextId_write ..)).imp fun hserved _ => hserved
        · exact (hasNode_write ..).trans (hlive p hp)
        · rwa [services_write]
      · next hsource => exact .refl _ s fun hshader => absurd hshader hsource
  | linkDeleted source target =>
      refine ⟨?_, fun _ => trivial⟩
      dsimp only
      split
      · have hdown := trims_teardown (consistent_write hc d.shader (.int noIndex))
          (List.nodup_cons.1 hnodup).2 fun p hp =>
            (hasNode_write ..).trans (hlive p (List.mem_cons_of_mem _ hp))
        have hnext := hdown.nextId
        rw [nextId_write] at hnext
        exact Nat.le_of_eq (congrArg UInt32.toNat hnext)
      · exact Nat.le_refl _
  | shaderUpdated shader =>
      have hsync := asks_sync hc hnodup hlive hwithin shader
      dsimp only
      split
      · exact hsync.imp fun hserved _ => hserved
      · next hother => exact .refl _ s fun hshader => absurd hshader hother

end Live

end Draw

/-! ## UI nodes -/

namespace UiNode

variable {w : Wiring} {s : Scene}

/-- The pins of a draw node are there, each once. -/
theorem Plays.live {d : Draw} (hw : Wired w s.graph s.values) (hn : (draw d).Plays w) :
    (d.id :: d.params).Nodup ∧ ∀ p ∈ d.id :: d.params, s.graph.hasNode p := by
  refine ⟨Draw.nodup_params (hn.nodup hw.coherent), fun p hp => ?_⟩
  have hown : p ∈ (draw d).id :: (draw d).pins :=
    (List.mem_cons.1 hp).elim (fun heq => heq ▸ List.mem_cons_self) fun hmem =>
      List.mem_cons_of_mem _ (Draw.mem_pins_of_params hmem)
  obtain ⟨r, hr, _⟩ := hn.home_eq hown
  exact hw.hasNode hr

theorem asks_onEvent {n : UiNode} (hw : Wired w s.graph s.values) (hn : n.Plays w)
    (hwithin : s.services.shaders.Within most) (event : Event) :
    Asks (event.cost most) s (n.onEvent event s).2 (n.EventServed event s) := by
  cases n with
  | draw d =>
      obtain ⟨hnodup, hlive⟩ := Plays.live hw hn
      refine (Draw.asks_onEvent hw.consistent hnodup hlive hwithin event).imp ?_
      rintro hserved _ ⟨⟩
      exact hserved
  | renderTarget => cases event <;> exact .refl _ s nofun
  | _ => exact .refl _ s nofun

theorem asks_onUpdate {n : UiNode} (hw : Wired w s.graph s.values) (hn : n.Plays w)
    (hwithin : s.services.shaders.Within most) (clock : Clock) :
    Asks (2 * most) s (n.onUpdate clock s).2 (n.UpdateServed s) := by
  have hinputs : ∀ p ∈ n.inputs, ∃ owner kind, w p = some (.input owner kind) := by
    intro p hp
    obtain ⟨kind, _, hp⟩ := hn.input hp
    exact ⟨n.id, kind, hp⟩
  obtain ⟨hpulled, hnext⟩ := wired_foldl_pull hw hinputs
  have hsame {served : Prop} (h : served) : Asks (2 * most) s (n.inputs.foldl pull s) served :=
    (Asks.refl _ _ h).of_nextId hnext
  unfold onUpdate
  split
  · exact (Asks.refl _ _ nofun).of_nextId (nextId_write ..)
  · next d =>
    have hmoves : Moves (· = d.id) (fun _ => True) s ((draw d).inputs.foldl pull s) :=
      moves_foldl_pull s fun _ _ => trivial
    obtain ⟨hnodup, hlive⟩ := Plays.live hpulled hn
    have hsync := (Draw.asks_sync hpulled.consistent hnodup hlive (hmoves.shaders ▸ hwithin)
      (((draw d).inputs.foldl pull s).indexIn d.shader)).of_nextId hnext
    dsimp only
    split
    · next hnone =>
      refine hsame fun _ hd => ?_
      cases hd
      rw [Option.isNone_iff_eq_none] at hnone
      exact fun hsome => absurd hsome (by simp [hnone])
    · split
      · next hbound =>
        refine hsame fun _ hd => ?_
        cases hd
        exact fun _ hne => absurd hbound hne
      · refine hsync.imp fun hserved _ hd => ?_
        cases hd
        exact fun _ _ => hserved
  · next hdraw => exact hsame fun d hd => absurd hd (hdraw d)

end UiNode

/-! ## Deliveries -/

namespace Editor

variable {w : Wiring} {e : Editor} {id : Id}

/-- A sound editor with `budget` ids left, whose shaders have `most` variables at most. -/
structure Roomy (most budget : Nat) (e : Editor) : Prop where
  sound : ∃ w, e.Sound w
  within : e.scene.services.shaders.Within most
  room : e.graph.nextId.toNat + budget ≤ lastId.toNat

theorem Roomy.mono {budget' : Nat} (h : Roomy most budget e) (hle : budget' ≤ budget) :
    Roomy most budget' e :=
  ⟨h.sound, h.within, (Nat.add_le_add_left hle _).trans h.room⟩

theorem Roomy.withOutbox (h : Roomy most budget e) (events : List Event) :
    Roomy most budget (e.withOutbox events) := by
  obtain ⟨w, hs⟩ := h.sound
  obtain ⟨w', hs', _⟩ := carries_withOutbox e events w hs
  exact ⟨⟨w', hs'⟩, h.within, h.room⟩

/-- What a UI node does leaves the ids that it does not ask for. -/
theorem Roomy.act {cost : Nat} (h : Roomy most (cost + budget) e)
    {f : UiNode → Scene → UiNode × Scene} {n : UiNode} {served : Prop}
    (hasks : Asks cost e.scene (f n e.scene).2 served)
    (hmoves : Scene.Moves (· = n.id) n.Owns e.scene (f n e.scene).2)
    (hcarries : served → e.Carries (e.act n f)) : served ∧ Roomy most budget (e.act n f) := by
  obtain ⟨w, hs⟩ := h.sound
  have hroom : e.scene.graph.nextId.toNat + (cost + budget) ≤ lastId.toNat := h.room
  have hserved := hasks.served (by omega)
  obtain ⟨w', hs', _⟩ := hcarries hserved w hs
  refine ⟨hserved, ⟨w', hs'⟩, ?_, ?_⟩
  · exact hmoves.shaders.symm ▸ h.within
  · have hnext := hasks.nextId
    change (f n e.scene).2.graph.nextId.toNat + budget ≤ lastId.toNat
    omega

theorem Roomy.notify (h : Roomy most (event.cost most + budget) e) (id : Id) :
    NotifyServed event e id ∧ Roomy most budget (notify event e id) := by
  obtain ⟨w, hs⟩ := h.sound
  unfold NotifyServed Editor.notify
  cases hn : e.node? id with
  | none => exact ⟨nofun, h.mono (Nat.le_add_left ..)⟩
  | some n =>
      have hmem := (node?_eq_some hn).1
      obtain ⟨hserved, hroomy⟩ := h.act (f := (·.onEvent event))
        (UiNode.asks_onEvent hs.wired (hs.casts.plays n hmem) h.within event)
        (n.moves_onEvent event e.scene) fun hserved => carries_act hmem fun w hs =>
          UiNode.onEvent_acted hs.wired (hs.casts.plays n hmem) hserved
      exact ⟨fun _ hk => Option.some.inj hk ▸ hserved, hroomy⟩

/-- When an event is told to observers, each asks for the ids that it may ask for. -/
theorem Roomy.along_notify {ids : List Id}
    (h : Roomy most (event.cost most * ids.length + budget) e) :
    Along (NotifyServed event) (Editor.notify event) ids e ∧
      Roomy most budget (ids.foldl (Editor.notify event) e) := by
  induction ids generalizing e with
  | nil => exact ⟨trivial, h.mono (Nat.le_add_left ..)⟩
  | cons id ids ih =>
      rw [List.length_cons, Nat.mul_succ, Nat.add_comm (_ * _), Nat.add_assoc] at h
      obtain ⟨hserved, hrest⟩ := h.notify id
      exact ⟨⟨hserved, (ih hrest).1⟩, (ih hrest).2⟩

/-- The events that wait tell of links that ended only. -/
def Cutting (e : Editor) : Prop := ∀ event ∈ e.graph.outbox, ∃ p q, event = .linkDeleted p q

theorem cutting_of_cuts {g : Graph} {cut : List Edge} {e' : Editor} (h : g.Cuts cut e'.graph)
    (hg : ∀ event ∈ g.outbox, ∃ p q, event = .linkDeleted p q) : e'.Cutting := by
  intro event hevent
  rw [h.outbox] at hevent
  rcases List.mem_append.1 hevent with hevent | hevent
  · exact hg event hevent
  · obtain ⟨f, _, rfl⟩ := List.mem_map.1 hevent
    exact ⟨f.source, f.target, rfl⟩

theorem cutting_of_idle {g : Graph} {cut : List Edge} {e' : Editor} (h : g.Cuts cut e'.graph)
    (hg : g.outbox = []) : e'.Cutting :=
  cutting_of_cuts h fun _ hevent => absurd (hg ▸ hevent) List.not_mem_nil

/-- Such events are heard without asking for ids, and call forth only others like them. -/
theorem drain_of_cutting (limit : Nat) (h : e.Cutting) : DrainServed limit e ∧
    ∀ {most budget : Nat}, Roomy most budget e → Roomy most budget (drainUpTo limit e) := by
  induction limit generalizing e with
  | zero => exact ⟨trivial, fun h => h.withOutbox []⟩
  | succ limit ih =>
      cases htaken : e.graph.takeEvent with
      | none =>
          refine ⟨fun _ _ hsome => ?_, fun h => ?_⟩
          · rw [htaken] at hsome
            cases hsome
          · rwa [drainUpTo, htaken]
      | some p =>
          obtain ⟨event, g⟩ := p
          obtain ⟨houtbox, hg⟩ := takeEvent_eq_some htaken
          obtain ⟨source, target, rfl⟩ := h event (houtbox ▸ List.mem_cons_self)
          obtain ⟨cut, hcut⟩ := (hears_deliver (e.withOutbox g.outbox)
            (.linkDeleted source target)).cuts
          have hrest := ih (cutting_of_cuts hcut fun event hevent =>
            h event (houtbox ▸ List.mem_cons_of_mem _ hevent))
          have htake : e.withGraph g = e.withOutbox g.outbox := by rw [hg]; rfl
          constructor
          · intro event' g' hsome
            cases htaken.symm.trans hsome
            rw [htake]
            exact ⟨along_true (fun _ _ _ _ _ _ => trivial) _ _, hrest.1⟩
          · intro most budget hroomy
            rw [drainUpTo, htaken]
            dsimp only
            rw [htake]
            refine hrest.2 (Roomy.along_notify ?_).2
            simpa [Event.cost] using hroomy.withOutbox g.outbox

/-- One event of another kind may come before them: all that it calls forth are links that end. -/
theorem Roomy.drainServed (h : Roomy most (event.cost most * e.bus.length) e)
    (houtbox : e.graph.outbox = [event]) : DrainServed drainLimit e := by
  intro event' g htaken
  obtain ⟨hout, hg⟩ := takeEvent_eq_some htaken
  rw [houtbox] at hout
  obtain ⟨rfl, hrest⟩ := List.cons.inj hout
  have htake : e.withGraph g = e.withOutbox [] := by rw [hg, ← hrest]; rfl
  obtain ⟨cut, hcut⟩ := (hears_deliver (e.withOutbox []) event).cuts
  have hlater : ((e.withOutbox []).deliver event).Cutting := cutting_of_idle hcut rfl
  have hroomy : Roomy most (event.cost most * e.bus.length + 0) (e.withOutbox []) :=
    h.withOutbox []
  rw [htake]
  exact ⟨hroomy.along_notify.1, (drain_of_cutting _ hlater).1⟩

/-! ## Updates -/

theorem Roomy.updateNode (h : Roomy most (2 * most + budget) e) (hidle : e.graph.outbox = [])
    (id : Id) : e.NodeUpdateServed id ∧ Roomy most budget (e.updateNode id) ∧
      (e.updateNode id).graph.outbox = [] := by
  obtain ⟨w, hs⟩ := h.sound
  unfold NodeUpdateServed Editor.updateNode
  cases hn : e.node? id with
  | none => exact ⟨nofun, h.mono (Nat.le_add_left ..), hidle⟩
  | some n =>
      have hmem := (node?_eq_some hn).1
      obtain ⟨hserved, hroomy⟩ := h.act (f := (·.onUpdate e.clock))
        (UiNode.asks_onUpdate hs.wired (hs.casts.plays n hmem) h.within e.clock)
        (n.moves_onUpdate e.clock e.scene) fun hserved => carries_act hmem fun w hs =>
          UiNode.onUpdate_acted hs.wired (hs.casts.plays n hmem) e.clock hserved
      obtain ⟨cut, hcut⟩ := Scene.Moves.cuts (n.moves_onUpdate e.clock e.scene)
      have hcutting : (e.act n (·.onUpdate e.clock)).Cutting :=
        cutting_of_idle hcut hidle
      obtain ⟨hdrain, hkept⟩ := drain_of_cutting drainLimit hcutting
      exact ⟨fun _ hk => Option.some.inj hk ▸ ⟨hserved, hdrain⟩, hkept hroomy, outbox_drain _⟩

theorem Roomy.along_updateNode {ids : List Id} (h : Roomy most (2 * most * ids.length) e)
    (hidle : e.graph.outbox = []) : Along NodeUpdateServed Editor.updateNode ids e := by
  induction ids generalizing e with
  | nil => trivial
  | cons id ids ih =>
      rw [List.length_cons, Nat.mul_succ, Nat.add_comm] at h
      obtain ⟨hserved, hroomy, hidle⟩ := h.updateNode hidle id
      exact ⟨hserved, ih hroomy hidle⟩

end Editor

/-! ## Operations -/

namespace Operation

open Editor

/-- The ids that an operation may ask for when no shader has more than `most` variables. -/
def demand (e : Editor) (most : Nat) : Operation → Nat
  | addNode kind => kind.ids
  | link .. => 1 + 2 * most * e.bus.length
  | reloadShader _ => 2 * most * e.bus.length
  | update _ | frame _ => 2 * most * e.nodes.length
  | _ => 0

end Operation

namespace Editor

variable {e : Editor}

/-- With ids enough for all that it may ask for, none is refused in the course of an operation. -/
theorem Reached.served_of_room (h : Reached e) (hwithin : e.scene.services.shaders.Within most)
    {op : Operation} (hroom : e.graph.nextId.toNat + op.demand e most ≤ lastId.toNat) :
    op.Served e := by
  obtain ⟨w, hs⟩ := h.sound
  have hidle := h.outbox
  cases op with
  | addNode kind =>
      obtain ⟨n, t, hcreate, _⟩ := UiNode.create_of_room hs.wired.consistent hroom
      apply served_addNode
      rw [addNode, hcreate]
      rfl
  | removeNode id =>
      intro n hn
      obtain ⟨cut, hcut⟩ := Scene.Moves.cuts (n.moves_onDelete e.scene)
      have hcutting : (e.dismiss n (n.onDelete.on e.scene).2).Cutting :=
        cutting_of_idle hcut hidle
      exact (drain_of_cutting drainLimit hcutting).1
  | link a b =>
      intro edge e' hmade
      obtain ⟨w', hs', _⟩ := carries_makeLink hmade w hs
      obtain ⟨input, output, g, _, _, hadd, rfl⟩ := makeLink_eq_ok hmade
      obtain ⟨_, _, hadds⟩ := hs.wired.consistent.addEdge hadd
      have hlinked : Roomy most (2 * most * e.bus.length) (e.withGraph g) := by
        refine ⟨⟨w', hs'⟩, hwithin, ?_⟩
        change e.graph.nextId.toNat + (1 + 2 * most * e.bus.length) ≤ _ at hroom
        change g.nextId.toNat + _ ≤ _
        rw [hadds.toNat_nextId]
        omega
      have houtbox : (e.withGraph g).graph.outbox = [.linkCreated input output] := by
        change g.outbox = _
        rw [hadds.outbox, hidle]
        rfl
      exact hlinked.drainServed houtbox
  | unlink edge =>
      intro found g herase
      have hcutting : (e.withGraph g).Cutting :=
        cutting_of_idle (drops_eraseEdge herase).cuts hidle
      exact (drain_of_cutting drainLimit hcutting).1
  | reloadShader shader =>
      intro l hl
      have hreloaded : Roomy most (2 * most * e.bus.length)
          ((e.withServices { e.scene.services with shaders := l }).withGraph
            (e.graph.pushEvent (.shaderUpdated shader))) :=
        ⟨⟨w, hs.wired.withOutbox _, hs.casts, hs.bus⟩, hwithin.reload hl, hroom⟩
      have houtbox : (e.graph.pushEvent (.shaderUpdated shader)).outbox =
          [.shaderUpdated shader] := by
        change e.graph.outbox ++ _ = _
        rw [hidle]
        rfl
      exact hreloaded.drainServed houtbox
  | update dt | frame dt =>
      have htick : Roomy most (2 * most * (e.nodes.map UiNode.id).length) (e.tick dt) := by
        rw [List.length_map]
        exact ⟨⟨w, hs.wired, hs.casts, hs.bus⟩, hwithin, hroom⟩
      exact htick.along_updateNode hidle
  | _ => trivial

end Editor

end DrawGraph
