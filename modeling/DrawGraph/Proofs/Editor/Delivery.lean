import DrawGraph.Editor.Basic
import DrawGraph.Proofs.UiNode.Create
import DrawGraph.Proofs.UiNode.React

/-!
# Sound editors and their events

In a sound editor the UI nodes play the roles of a wiring of the scene, and the observers are those
among them that observe, in their order. What one UI node does keeps the editor sound, hence so does
the delivery of any number of events, as long as no id is refused to a draw node on the way.
-/

namespace DrawGraph

namespace Editor

variable {w : Wiring} {e e' e'' : Editor} {n : UiNode}

/-- The scene, the UI nodes and the observers fit together. -/
structure Sound (w : Wiring) (e : Editor) : Prop where
  wired : Wired w e.graph e.values
  casts : Casts w e.nodes
  bus : e.bus = (e.nodes.filter UiNode.observes).map UiNode.id

/-- A change that keeps a sound editor sound, and its inputs what they are. -/
def Carries (e e' : Editor) : Prop :=
  ∀ w, e.Sound w → ∃ w', e'.Sound w' ∧ Wiring.Later w e.graph w' e'.graph

theorem Carries.refl (e : Editor) : e.Carries e := fun w h => ⟨w, h, .refl w e.graph⟩

theorem Carries.trans (h : e.Carries e') (h' : e'.Carries e'') : e.Carries e'' := by
  intro w hw
  obtain ⟨w', hw', hlater⟩ := h w hw
  obtain ⟨w'', hw'', hlater'⟩ := h' w' hw'
  exact ⟨w'', hw'', hlater.trans hlater'⟩

theorem Carries.of_wired (hnodes : e'.nodes = e.nodes) (hbus : e'.bus = e.bus)
    (hw : ∀ w, Wired w e.graph e.values → Wired w e'.graph e'.values)
    (hnext : e'.graph.nextId = e.graph.nextId) : e.Carries e' := by
  intro w h
  refine ⟨w, ⟨hw w h.wired, hnodes ▸ h.casts, ?_⟩, ⟨fun _ _ _ _ hj => hj, ?_⟩⟩
  · rw [hbus, hnodes]
    exact h.bus
  · exact hnext ▸ UInt32.le_refl _

theorem node?_eq_some {id : Id} (h : e.node? id = some n) : n ∈ e.nodes ∧ n.id = id :=
  ⟨List.mem_of_find?_eq_some h, by simpa using List.find?_some h⟩

theorem Sound.identity_node (hs : e.Sound w) {id : Id} {inputs outputs : List Id}
    (hr : w id = some (.identity inputs outputs)) :
    ∃ n ∈ e.nodes, n.id = id ∧ n.inputs = inputs ∧ n.outputs = outputs := by
  obtain ⟨n, hn, rfl⟩ := hs.casts.cast id inputs outputs hr
  have hrole := (hs.casts.plays n hn).identity
  rw [hr] at hrole
  cases hrole
  exact ⟨n, hn, rfl, rfl, rfl⟩

theorem Sound.input_node (hs : e.Sound w) {pin owner : Id} {kind : ValueKind}
    (hr : w pin = some (.input owner kind)) : ∃ n ∈ e.nodes, n.id = owner ∧ pin ∈ n.inputs := by
  obtain ⟨inputs, outputs, ho, hmem⟩ := hs.wired.input_belongs hr
  obtain ⟨n, hn, hid, rfl, _⟩ := hs.identity_node ho
  exact ⟨n, hn, hid, hmem⟩

theorem Sound.output_node (hs : e.Sound w) {pin owner : Id} {offer : Offer}
    (hr : w pin = some (.output owner offer)) : ∃ n ∈ e.nodes, n.id = owner ∧ pin ∈ n.outputs := by
  obtain ⟨inputs, outputs, ho, hmem⟩ := hs.wired.output_belongs hr
  obtain ⟨n, hn, hid, _, rfl⟩ := hs.identity_node ho
  exact ⟨n, hn, hid, hmem⟩

/-! ## One UI node acts -/

/-- The observers stay when a UI node is replaced by one that observes no less and no more. -/
theorem observers_replace {nodes : List UiNode}
    (h : ∀ m ∈ nodes, m.id = n.id → m.observes = n.observes) :
    ((nodes.map fun m => if m.id = n.id then n else m).filter UiNode.observes).map UiNode.id =
      (nodes.filter UiNode.observes).map UiNode.id := by
  rw [List.filter_map, List.map_map]
  have hfilter : nodes.filter (UiNode.observes ∘ fun m => if m.id = n.id then n else m) =
      nodes.filter UiNode.observes := by
    apply List.filter_congr
    intro m hm
    by_cases hid : m.id = n.id
    · simp [hid, h m hm hid]
    · simp [hid]
  rw [hfilter]
  apply List.map_congr_left
  intro m _
  by_cases hid : m.id = n.id <;> simp [hid]

/-! ### Observers -/

section Observers

variable (hcasts : Casts w e.nodes) (hbus : e.bus = (e.nodes.filter UiNode.observes).map UiNode.id)

include hcasts hbus

theorem bus_enroll (hnew : w n.id = none) (s : Scene) :
    (e.enroll n s).bus = ((e.enroll n s).nodes.filter UiNode.observes).map UiNode.id := by
  have hfresh : n.id ∉ e.bus := by
    rw [hbus]
    intro hmem
    obtain ⟨m, hm, hid⟩ := List.mem_map.1 hmem
    have hrole := (hcasts.plays m (List.mem_of_mem_filter hm)).identity
    simp [hid, hnew] at hrole
  change (if n.observes then (e.bus.attach n.id).1 else e.bus) =
    ((e.nodes ++ [n]).filter UiNode.observes).map UiNode.id
  rw [List.filter_append, List.map_append, ← hbus, Bus.attach, if_neg hfresh]
  cases hobserves : n.observes <;> simp [hobserves]

theorem bus_dismiss (hn : n ∈ e.nodes) (s : Scene) :
    (e.dismiss n s).bus = ((e.dismiss n s).nodes.filter UiNode.observes).map UiNode.id := by
  have hnodup : e.bus.Nodup := by
    rw [hbus]
    exact hcasts.nodup.sublist (List.filter_sublist.map _)
  have hids : ∀ {nodes : List UiNode}, (nodes.map UiNode.id).filter (· != n.id) =
      (nodes.filter (·.id != n.id)).map UiNode.id := by
    intro nodes
    rw [List.filter_map]
    rfl
  change (if n.observes then (e.bus.detach n.id).1 else e.bus) =
    ((e.nodes.filter (·.id != n.id)).filter UiNode.observes).map UiNode.id
  have hboth : (e.nodes.filter (·.id != n.id)).filter UiNode.observes =
      (e.nodes.filter UiNode.observes).filter (·.id != n.id) := List.filter_comm ..
  rw [hboth, ← hids, ← hbus]
  cases hobserves : n.observes with
  | true => exact hnodup.erase_eq_filter n.id
  | false =>
      refine (List.filter_eq_self.2 fun id hid => ?_).symm
      rw [hbus] at hid
      obtain ⟨m, hm, rfl⟩ := List.mem_map.1 hid
      obtain ⟨hm, ho⟩ := List.mem_filter.1 hm
      have hne : m.id ≠ n.id := by
        intro hid
        rw [hcasts.eq_of_id hm hn hid, hobserves] at ho
        cases ho
      simpa using hne

theorem bus_replace {n' : UiNode} (hn : n ∈ e.nodes) (hid : n'.id = n.id)
    (hobserves : n'.observes = n.observes) :
    e.bus = ((e.replace n').nodes.filter UiNode.observes).map UiNode.id := by
  refine hbus.trans (observers_replace fun m hm hmid => ?_).symm
  rw [hcasts.eq_of_id hm hn (hmid.trans hid), hobserves]

end Observers

/-! ### Reactions -/

theorem Sound.replace (h : e.Sound w) (hn : n ∈ e.nodes) {n' : UiNode} {s : Scene}
    (ha : n.Acted w e.graph n' s) :
    ∃ w', (({ e with scene := s } : Editor).replace n').Sound w' ∧
      Wiring.Later w e.graph w' s.graph := by
  obtain ⟨w', hw', hplays, hrecast⟩ := ha.seated
  rw [← ha.id] at hplays hrecast
  have hmem : n'.id ∈ e.nodes.map UiNode.id := List.mem_map.2 ⟨n, hn, ha.id.symm⟩
  exact ⟨w', ⟨hw', h.casts.replace hmem hrecast hplays,
    bus_replace h.casts h.bus hn ha.id ha.observes⟩, hrecast.toLater⟩

theorem carries_act {f : UiNode → Scene → UiNode × Scene} (hn : n ∈ e.nodes)
    (hf : ∀ w, e.Sound w → n.Acted w e.graph (f n e.scene).1 (f n e.scene).2) :
    e.Carries (e.act n f) :=
  fun w h => h.replace hn (hf w h)

/-! ## Events are delivered -/

/-- A condition met before each step of a fold. -/
def Along {α : Type} (p : Editor → α → Prop) (f : Editor → α → Editor) : List α → Editor → Prop
  | [], _ => True
  | a :: as, e => p e a ∧ Along p f as (f e a)

theorem carries_foldl {α : Type} {p : Editor → α → Prop} {f : Editor → α → Editor} {as : List α}
    (hf : ∀ e a, p e a → e.Carries (f e a)) (h : Along p f as e) : e.Carries (as.foldl f e) := by
  induction as generalizing e with
  | nil => exact .refl e
  | cons a as ih => exact (hf e a h.1).trans (ih h.2)

def NotifyServed (event : Event) (e : Editor) (observer : Id) : Prop :=
  ∀ n, e.node? observer = some n → n.EventServed event e.scene

/-- No id is refused while events are delivered. -/
def DrainServed : Nat → Editor → Prop
  | 0, _ => True
  | limit + 1, e => ∀ event g, e.graph.takeEvent = some (event, g) →
      Along (NotifyServed event) (notify event) e.bus (e.withGraph g) ∧
        DrainServed limit ((e.withGraph g).deliver event)

instance decidableAlong {α : Type} {p : Editor → α → Prop} [∀ e a, Decidable (p e a)]
    {f : Editor → α → Editor} : (as : List α) → (e : Editor) → Decidable (Along p f as e)
  | [], _ => inferInstanceAs (Decidable True)
  | a :: as, e =>
      have : Decidable (Along p f as (f e a)) := decidableAlong as (f e a)
      inferInstanceAs (Decidable (p e a ∧ Along p f as (f e a)))

instance (event : Event) (e : Editor) (observer : Id) :
    Decidable (NotifyServed event e observer) :=
  match h : e.node? observer with
  | none => isTrue fun n hn => by simp [h] at hn
  | some n => decidable_of_iff (n.EventServed event e.scene)
      ⟨fun hn k hk => Option.some.inj (h.symm.trans hk) ▸ hn, fun hn => hn n h⟩

instance decidableDrainServed : (limit : Nat) → (e : Editor) → Decidable (DrainServed limit e)
  | 0, _ => inferInstanceAs (Decidable True)
  | limit + 1, e =>
      match h : e.graph.takeEvent with
      | none => isTrue fun event g hg => by simp [h] at hg
      | some (event, g) =>
          have := decidableDrainServed limit ((e.withGraph g).deliver event)
          decidable_of_iff
            (Along (NotifyServed event) (notify event) e.bus (e.withGraph g) ∧
              DrainServed limit ((e.withGraph g).deliver event))
            ⟨fun hd event' g' hg => by
                cases h.symm.trans hg
                exact hd,
              fun hd => hd event g h⟩

theorem carries_notify {event : Event} {observer : Id} (h : NotifyServed event e observer) :
    e.Carries (notify event e observer) := by
  unfold notify
  split
  · next n hn =>
    have hmem := (node?_eq_some hn).1
    exact carries_act hmem fun w hs =>
      UiNode.onEvent_acted hs.wired (hs.casts.plays n hmem) (h n hn)
  · exact .refl e

theorem carries_withOutbox (e : Editor) (events : List Event) :
    e.Carries (e.withGraph { e.graph with outbox := events }) :=
  .of_wired rfl rfl (fun _ h => h.withOutbox events) rfl

theorem takeEvent_eq_some {g g' : Graph} {event : Event} (h : g.takeEvent = some (event, g')) :
    g.outbox = event :: g'.outbox ∧ g' = { g with outbox := g'.outbox } := by
  unfold Graph.takeEvent at h
  split at h
  · cases h
  · next ho =>
    obtain ⟨rfl, rfl⟩ := Prod.mk.inj (Option.some.inj h)
    exact ⟨ho, rfl⟩

theorem carries_drainUpTo {limit : Nat} (h : DrainServed limit e) :
    e.Carries (drainUpTo limit e) := by
  induction limit generalizing e with
  | zero => exact carries_withOutbox e []
  | succ limit ih =>
      unfold drainUpTo
      split
      · exact .refl e
      · next event g htake =>
        obtain ⟨hdeliver, hrest⟩ := h event g htake
        have htaken : e.Carries (e.withGraph g) := by
          rw [(takeEvent_eq_some htake).2]
          exact carries_withOutbox e _
        exact htaken.trans ((carries_foldl (fun _ _ => carries_notify) hdeliver).trans (ih hrest))

theorem carries_drain (h : DrainServed drainLimit e) : e.Carries e.drain := carries_drainUpTo h

/-- Without observers no event asks for ids. -/
theorem drainServed_of_bus (limit : Nat) (h : e.bus = []) : DrainServed limit e := by
  induction limit generalizing e with
  | zero => trivial
  | succ limit ih =>
      intro event g _
      have hbus : (e.withGraph g).bus = [] := h
      have hdeliver : (e.withGraph g).deliver event = e.withGraph g := by
        rw [deliver, hbus, List.foldl_nil]
      rw [h, hdeliver]
      exact ⟨trivial, ih hbus⟩

/-- No event waits after a delivery. -/
theorem outbox_drainUpTo (limit : Nat) (e : Editor) : (drainUpTo limit e).graph.outbox = [] := by
  induction limit generalizing e with
  | zero => rfl
  | succ limit ih =>
      unfold drainUpTo
      split
      · next htake =>
        unfold Graph.takeEvent at htake
        split at htake
        · next ho => exact ho
        · cases htake
      · exact ih _

theorem outbox_drain (e : Editor) : e.drain.graph.outbox = [] := outbox_drainUpTo _ e

theorem drain_of_outbox (h : e.graph.outbox = []) : e.drain = e := by
  have htake : e.graph.takeEvent = none := by
    unfold Graph.takeEvent
    rw [h]
  unfold drain drainLimit drainUpTo
  rw [htake]

/-! ## UI nodes come and go -/

theorem Sound.enroll (h : e.Sound w) {s : Scene} (hn : UiNode.Arrives w e.graph n s) :
    ∃ w', (e.enroll n s).Sound w' ∧ Wiring.Later w e.graph w' s.graph := by
  obtain ⟨hnew, w', hw', hplays, hrecast⟩ := hn
  exact ⟨w', ⟨hw', h.casts.add hrecast hnew hplays, bus_enroll h.casts h.bus hnew s⟩,
    hrecast.toLater⟩

theorem Sound.dismiss (h : e.Sound w) (hn : n ∈ e.nodes) {s : Scene} {w' : Wiring}
    (hw' : Wired w' s.graph s.values) (hrecast : Wiring.Recast n.id w e.graph w' s.graph)
    (hgone : w' n.id = none) : (e.dismiss n s).Sound w' :=
  ⟨hw', h.casts.remove hrecast hgone, bus_dismiss h.casts h.bus hn s⟩

end Editor

end DrawGraph
