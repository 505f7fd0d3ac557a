import DrawGraph.Proofs.Editor.Root
import DrawGraph.Proofs.UiNode.Cutting

/-!
# Every event is heard in its turn

A delivery takes the events first in, first out. Each is heard by the observers among the UI nodes,
one after another, before the next is taken; what is queued meanwhile comes after all that waits.
Since UI nodes queue an event only when they cut a link, and make none, the events that wait and the
links bound how many are taken. Past the limit the rest is dropped.
-/

namespace DrawGraph

namespace Editor

variable {e e' : Editor} {event : Event} {ids : List Id}

def withOutbox (e : Editor) (events : List Event) : Editor :=
  e.withGraph { e.graph with outbox := events }

/-- The observers that are UI nodes, in the order in which they were attached. -/
def audience (e : Editor) : List Id := e.bus.filter fun id => (e.node? id).isSome

/-- The UI nodes of `ids` hear an event, one after another. -/
inductive Hears (event : Event) : List Id → Editor → Editor → Prop
  | nil (e : Editor) : Hears event [] e e
  | cons {id : Id} {ids : List Id} {n : UiNode} {e e' : Editor} (hn : e.node? id = some n)
      (h : Hears event ids (e.act n (·.onEvent event)) e') : Hears event (id :: ids) e e'

/-- One turn of a delivery: the event that is heard and the links that are cut meanwhile. -/
structure Turn where
  event : Event
  cut : List Edge

/-- What is queued in the course of a turn. -/
def Turn.queued (t : Turn) : List Event := t.cut.map Edge.cutEvent

/-- The events at the head of the outbox are taken, one in each turn, and each is heard by `ids`
before the next is taken. -/
inductive Takes (ids : List Id) : List Turn → Editor → Editor → Prop
  | nil (e : Editor) : Takes ids [] e e
  | cons {t : Turn} {ts : List Turn} {events : List Event} {e e₁ e₂ : Editor}
      (htake : e.graph.outbox = t.event :: events)
      (hhears : Hears t.event ids (e.withOutbox events) e₁)
      (hcuts : (e.withOutbox events).graph.Cuts t.cut e₁.graph) (h : Takes ids ts e₁ e₂) :
      Takes ids (t :: ts) e e₂

/-- All events that a delivery comes to: those that waited, and then those of its turns. -/
def stream (e : Editor) (turns : List Turn) : List Event :=
  e.graph.outbox ++ turns.flatMap Turn.queued

/-! ## Who hears an event -/

theorem isSome_node? (e : Editor) (id : Id) :
    (e.node? id).isSome = (e.nodes.map UiNode.id).any (· == id) := by
  rw [node?, List.isSome_find?, List.any_map]
  rfl

theorem audience_eq (hbus : e'.bus = e.bus)
    (hids : e'.nodes.map UiNode.id = e.nodes.map UiNode.id) : e'.audience = e.audience := by
  simp only [audience, isSome_node?, hbus, hids]

theorem Hears.audience (h : Hears event ids e e') : e'.audience = e.audience := by
  induction h with
  | nil => rfl
  | cons _ _ ih => exact ih.trans (audience_eq rfl (map_id_replace _ _))

/-- Observers that are no UI nodes are passed over. -/
theorem hears_foldl (event : Event) (ids : List Id) (e : Editor) :
    Hears event (ids.filter fun id => (e.node? id).isSome) e (ids.foldl (notify event) e) := by
  induction ids generalizing e with
  | nil => exact .nil e
  | cons id ids ih =>
      rw [List.foldl_cons]
      cases hn : e.node? id with
      | none =>
          rw [List.filter_cons_of_neg (by simp [hn]), notify, hn]
          exact ih e
      | some n =>
          have hrest := ih (e.act n (·.onEvent event))
          have hids : (e.act n (·.onEvent event)).nodes.map UiNode.id = e.nodes.map UiNode.id :=
            map_id_replace _ _
          simp only [isSome_node?, hids] at hrest
          rw [List.filter_cons_of_pos (by simp [hn]), notify, hn]
          simp only [isSome_node?]
          exact .cons hn hrest

theorem hears_deliver (e : Editor) (event : Event) :
    Hears event e.audience e (e.deliver event) :=
  hears_foldl event e.bus e

theorem Hears.cuts (h : Hears event ids e e') : ∃ cut, e.graph.Cuts cut e'.graph := by
  induction h with
  | nil e => exact ⟨[], .refl _⟩
  | @cons id ids n e e' _ _ ih =>
      obtain ⟨cut, hcut⟩ := n.cuts_onEvent event e.scene
      obtain ⟨cut', hcut'⟩ := ih
      exact ⟨cut ++ cut', hcut.trans hcut'⟩

/-! ## Turns -/

variable {turns : List Turn}

theorem Takes.audience (h : Takes ids turns e e') : e'.audience = e.audience := by
  induction h with
  | nil => rfl
  | cons _ hhears _ _ ih => exact ih.trans hhears.audience

/-- What a delivery comes to has been taken, in order, or still waits. -/
theorem Takes.stream (h : Takes ids turns e e') :
    e.stream turns = turns.map Turn.event ++ e'.graph.outbox := by
  induction h with
  | nil e => exact List.append_nil _
  | @cons t ts events e e₁ e₂ htake _ hcuts _ ih =>
      have hnext : e₁.graph.outbox = events ++ t.queued := hcuts.outbox
      rw [Editor.stream, hnext, List.append_assoc] at ih
      rw [Editor.stream, htake, List.cons_append, List.flatMap_cons, ih, List.map_cons,
        List.cons_append]

theorem Takes.perm_links (h : Takes ids turns e e') :
    e.graph.links.Perm (turns.flatMap Turn.cut ++ e'.graph.links) := by
  induction h with
  | nil => exact .refl _
  | @cons t _ _ _ _ _ _ _ hcuts _ ih =>
      rw [List.flatMap_cons, List.append_assoc]
      exact hcuts.links.trans (ih.append_left t.cut)

/-- Each event beyond those that waited has its link. -/
theorem Takes.length_stream_le (h : Takes ids turns e e') :
    (e.stream turns).length ≤ e.graph.outbox.length + e.graph.links.length := by
  have hqueued : turns.flatMap Turn.queued = (turns.flatMap Turn.cut).map Edge.cutEvent :=
    List.map_flatMap.symm
  have hlinks := h.perm_links.length_eq
  rw [List.length_append] at hlinks
  rw [Editor.stream, List.length_append, hqueued, List.length_map]
  omega

/-- Events are taken until none waits or the limit is reached. -/
theorem takes_drainUpTo (limit : Nat) (e : Editor) : ∃ turns e', Takes e.audience turns e e' ∧
    drainUpTo limit e = e'.withOutbox [] ∧ turns.length ≤ limit ∧
      (turns.length = limit ∨ e'.graph.outbox = []) := by
  induction limit generalizing e with
  | zero => exact ⟨[], e, .nil e, rfl, Nat.le_refl _, Or.inl rfl⟩
  | succ limit ih =>
      cases htaken : e.graph.takeEvent with
      | none =>
          have hidle : e.graph.outbox = [] := by
            unfold Graph.takeEvent at htaken
            split at htaken
            · next h => exact h
            · cases htaken
          refine ⟨[], e, .nil e, ?_, Nat.zero_le _, Or.inr hidle⟩
          rw [drainUpTo, htaken]
          change e = e.withGraph { e.graph with outbox := [] }
          rw [← hidle]
          rfl
      | some p =>
          obtain ⟨event, g⟩ := p
          obtain ⟨houtbox, hg⟩ := takeEvent_eq_some htaken
          have htold := hears_deliver (e.withOutbox g.outbox) event
          obtain ⟨cut, hcut⟩ := htold.cuts
          obtain ⟨turns, e', htakes, hdrain, hle, hend⟩ :=
            ih ((e.withOutbox g.outbox).deliver event)
          rw [htold.audience] at htakes
          refine ⟨⟨event, cut⟩ :: turns, e', .cons houtbox htold hcut htakes, ?_,
            Nat.succ_le_succ hle, hend.imp_left (congrArg Nat.succ)⟩
          rw [drainUpTo, htaken, ← hdrain, hg]
          rfl

/-! ## Observers -/

theorem nodup_bus_drain (h : e.bus.Nodup) : e.drain.bus.Nodup :=
  drain_keeps (P := fun e => e.bus.Nodup) (fun _ h => h) (fun _ h _ => h) h

theorem nodup_bus_enroll (h : e.bus.Nodup) (n : UiNode) (s : Scene) : (e.enroll n s).bus.Nodup := by
  unfold enroll
  dsimp only
  split
  · exact Bus.nodup_attach h n.id
  · exact h

theorem nodup_bus_dismiss (h : e.bus.Nodup) (n : UiNode) (s : Scene) :
    (e.dismiss n s).bus.Nodup := by
  unfold dismiss
  dsimp only
  split
  · exact Bus.nodup_detach h n.id
  · exact h

theorem bus_evaluate (e : Editor) : e.evaluate.2.bus = e.bus := by
  unfold evaluate
  split
  · rfl
  · next root _ =>
    dsimp only
    split
    · next err _ =>
      obtain ⟨nodes, h⟩ := invalidate_eq _ root
      rw [h]
    · rfl

theorem nodup_bus_ofDocument (d : Document) (services : Services) (settings : EvalSettings) :
    (ofDocument d services settings).bus.Nodup := by
  have hattach (ns : List UiNode) (b : Bus) (h : b.Nodup) :
      (ns.foldl (fun b n => (Bus.attach b n.id).1) b).Nodup := by
    induction ns generalizing b with
    | nil => exact h
    | cons n ns ih => exact ih _ (Bus.nodup_attach h n.id)
  exact hattach _ [] List.nodup_nil

theorem Opened.nodup_bus (h : Opened e) : e.bus.Nodup := by
  induction h with
  | new services settings => exact List.nodup_nil
  | @step e hopened r h =>
      have hidle := hopened.outbox
      have hdrain {e : Editor} (h : e.bus.Nodup) (_ : True) : e.drain.bus.Nodup := nodup_bus_drain h
      have hupdate (dt : Float32) : (e.update dt).bus.Nodup :=
        update_keeps (P := fun e => e.bus.Nodup) hdrain h (drains_true e (.update dt)) fun h _ => h
      rcases r with op | text
      · have hd := drains_true e op
        cases op with
        | addNode kind =>
            exact addNode_keeps (P := fun e => e.bus.Nodup) hidle (fun _ _ _ => h) fun n s _ =>
              nodup_bus_enroll h n s
        | removeNode id =>
            exact removeNode_keeps (P := fun e => e.bus.Nodup) hdrain h hd fun n _ =>
              nodup_bus_dismiss h n _
        | link a b =>
            refine link_keeps (P := fun e => e.bus.Nodup) hdrain h hd fun edge e' hmade => ?_
            obtain ⟨_, _, g, _, _, _, rfl⟩ := makeLink_eq_ok hmade
            exact h
        | unlink edge =>
            exact unlink_keeps (P := fun e => e.bus.Nodup) hdrain hopened.rooted.consistent h hd
              fun _ _ _ _ _ => h
        | setRoot root => exact setRoot_keeps (P := fun e => e.bus.Nodup) h fun _ => h
        | setPin pin v => exact setPin_keeps (P := fun e => e.bus.Nodup) h fun _ _ => h
        | setAsset id path =>
            exact setAsset_keeps (P := fun e => e.bus.Nodup) hidle h fun _ _ _ _ _ _ _ _ => h
        | setShape id shape =>
            exact setShape_keeps (P := fun e => e.bus.Nodup) hidle h fun _ _ _ _ _ _ _ => h
        | setColor id color =>
            exact setColor_keeps (P := fun e => e.bus.Nodup) hidle h fun _ _ => h
        | setLens id fov aspect near far =>
            exact setLens_keeps (P := fun e => e.bus.Nodup) hidle h fun _ _ => h
        | reloadShader shader =>
            exact reloadShader_keeps (P := fun e => e.bus.Nodup) hdrain h hd fun _ _ => h
        | update dt => exact hupdate dt
        | evaluate => exact (bus_evaluate e).symm ▸ h
        | frame dt => exact (bus_evaluate (e.update dt)).symm ▸ hupdate dt
        | serve services => exact h
        | clear => exact List.nodup_nil
      · change (e.load text).2.bus.Nodup
        unfold load
        split
        · exact h
        · exact nodup_bus_ofDocument _ _ _

/-- A delivery takes the events in turn, and who hears them are the same observers all along, each
once; it takes `4096` events at most and drops just those after them, of which there is none unless
more events wait and links stand at the start. No UI node makes a link in answer to an event, and
after every request no event waits. -/
theorem drain_in_turns :
    (∀ e : Editor, ∃ turns e', Takes e.audience turns e e' ∧ e.drain = e'.withOutbox [] ∧
      e.drain.audience = e.audience ∧
      turns.map Turn.event = (e.stream turns).take 4096 ∧
      e'.graph.outbox = (e.stream turns).drop 4096 ∧
      (e.stream turns).length ≤ e.graph.outbox.length + e.graph.links.length ∧
      (e.graph.outbox.length + e.graph.links.length ≤ 4096 → e'.graph.outbox = [])) ∧
    (∀ (n : UiNode) (event : Event) (s : Scene),
      (n.onEvent event s).2.graph.links ⊆ s.graph.links) ∧
    ∀ services settings rs, (asked services settings rs).audience.Nodup ∧
      (asked services settings rs).graph.outbox = [] := by
  refine ⟨fun e => ?_, fun n event s => ?_, fun services settings rs => ?_⟩
  · obtain ⟨turns, e', htakes, hdrain, hle, hend⟩ := takes_drainUpTo drainLimit e
    have hstream := htakes.stream
    have hlength := htakes.length_stream_le
    have hlimit : turns.length ≤ 4096 := hle
    have hsplit : turns.map Turn.event = (e.stream turns).take 4096 ∧
        e'.graph.outbox = (e.stream turns).drop 4096 := by
      rcases hend with hfull | hidle
      · have hfull : (turns.map Turn.event).length = 4096 := (List.length_map _).trans hfull
        rw [hstream, List.take_left' hfull, List.drop_left' hfull]
        exact ⟨rfl, rfl⟩
      · rw [hidle, List.append_nil] at hstream
        have hall : (e.stream turns).length ≤ 4096 := by
          rw [hstream, List.length_map]
          exact hlimit
        rw [List.take_of_length_le hall, List.drop_of_length_le hall]
        exact ⟨hstream.symm, hidle⟩
    refine ⟨turns, e', htakes, hdrain, ?_, hsplit.1, hsplit.2, hlength, fun hfew => ?_⟩
    · change e.drain = _ at hdrain
      rw [hdrain]
      exact htakes.audience
    · rw [hsplit.2]
      exact List.drop_of_length_le (hlength.trans hfew)
  · obtain ⟨cut, hcut⟩ := n.cuts_onEvent event s
    exact hcut.subset
  · have hopened : Opened (asked services settings rs) := opened_asked rs
    exact ⟨hopened.nodup_bus.filter _, hopened.outbox⟩

/-- Two draw nodes, of which the first has been linked to the lamp and has not heard of it yet. -/
def untold : Editor :=
  let e := [.addNode .shader, .setAsset 0 (some "lamp"), .addNode .draw, .addNode .draw].foldl
    Operation.apply (.new { shaders := lampLibrary [⟨"tint", "float3"⟩] })
  match e.makeLink 4 1 with
  | .ok (_, e) => e
  | .error _ => e

/-- The delivery takes one turn, in which both hear of the link. The first makes an input for the
variable of the lamp, and no link is cut. -/
theorem turn_untold : ∃ e', Takes [3, 10] [⟨.linkCreated 4 1, []⟩] untold e' ∧
    untold.drain = e'.withOutbox [] ∧ e'.graph.outbox = [] ∧
    untold.audience = [3, 10] ∧ untold.graph.hasNode 18 = false ∧
    .draw { id := 3, shader := 4, model := 6, output := 8, bindings := [⟨18, "tint", .float3⟩],
            bound := 1 } ∈ untold.drain.nodes ∧
    .draw { id := 10, shader := 11, model := 13, output := 15 } ∈ untold.drain.nodes := by
  obtain ⟨turns, e', htakes, hdrain, -, hevents, -, -, hkept⟩ := drain_in_turns.1 untold
  have haudience : untold.audience = [3, 10] := by decide +kernel
  have houtbox : untold.graph.outbox = [.linkCreated 4 1] := by decide +kernel
  have hlinks : e'.graph.links.length = untold.graph.links.length := by
    have hsame : untold.drain.graph.links = e'.graph.links := by
      rw [hdrain]
      rfl
    rw [← hsame]
    decide +kernel
  have hcut : turns.flatMap Turn.cut = [] := by
    have hlength := htakes.perm_links.length_eq
    rw [List.length_append, hlinks] at hlength
    exact List.length_eq_zero_iff.1 (by omega)
  have hqueued : turns.flatMap Turn.queued = (turns.flatMap Turn.cut).map Edge.cutEvent :=
    List.map_flatMap.symm
  have hturns : turns = [⟨.linkCreated 4 1, []⟩] := by
    rw [stream, hqueued, hcut, houtbox] at hevents
    obtain ⟨⟨event, cut⟩, rfl, rfl⟩ := List.map_eq_singleton_iff.1 hevents
    rw [List.flatMap_singleton] at hcut
    rw [show cut = [] from hcut]
  rw [hturns, haudience] at htakes
  exact ⟨e', htakes, hdrain, hkept (by decide +kernel), haudience, by decide +kernel,
    by decide +kernel, by decide +kernel⟩

end Editor

end DrawGraph
