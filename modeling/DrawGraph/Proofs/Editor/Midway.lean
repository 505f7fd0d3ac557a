import DrawGraph.Proofs.Editor.Boxing
import DrawGraph.Proofs.Editor.Settled

/-!
# An update under way

In an update the UI nodes take their turns one after another, and none of them disturbs another:
what one is linked to has not changed when its turn comes, unless it is a time node whose turn came
before. An invariant says what has become of the editor when some of them have had their turns.
-/

namespace DrawGraph

open Scene DrawGraph.Graph

namespace Laid

variable {w : Wiring} {g : Graph} {i o owner : Id} {kind : ValueKind}

/-- An input leads to one output at most. -/
theorem output_of_link (h : Laid True w g) (hi : w i = some (.input owner kind))
    (ho : o ∈ g.neighbors i) : g.neighbors i = [o] ∧ ∃ p offer, w o = some (.output p offer) := by
  obtain ⟨-, hheads, -, hinside⟩ := h.lies i _ hi
  obtain ⟨r, hr⟩ := Option.isSome_iff_exists.1 (hinside trivial o ho)
  rcases hheads with hnil | ⟨o', n, hlink, hn, hdir⟩
  · rw [hnil] at ho
    cases ho
  · rw [hlink] at ho ⊢
    obtain rfl := List.mem_singleton.1 ho
    refine ⟨rfl, ?_⟩
    obtain ⟨n', hn', hdescribes⟩ := (h.lies o r hr).node
    obtain rfl := Option.some.inj (hn.symm.trans hn')
    cases r with
    | identity inputs outputs => simp [Role.Describes, hdir] at hdescribes
    | input owner kind => simp [Role.Describes, hdir] at hdescribes
    | output p offer => exact ⟨p, offer, hr⟩

/-- No link leads to an input. -/
theorem unfed {s : Scene} {n : UiNode} (h : Laid True w s.graph) (hn : n.Plays w) :
    Unfed (· ∈ n.inputs) s := by
  intro k f hf hx hmem
  obtain ⟨kind, _, htarget⟩ := hn.input hmem
  have hstep : f.target ∈ s.graph.neighbors f.source :=
    h.ordered.consistent.mem_neighbors.2 ⟨f, mem_edgesFrom.2 ⟨⟨k, hf⟩, rfl⟩, rfl⟩
  cases hw : w f.source with
  | none =>
      obtain ⟨hnone, _⟩ := (h.stray trivial f.source hw).idle _ hstep
      rw [htarget] at hnone
      cases hnone
  | some r =>
      obtain ⟨owner, kind', rfl⟩ := (h.kind k f r hf hw).1 hx
      obtain ⟨_, _, _, hout⟩ := h.output_of_link hw hstep
      rw [htarget] at hout
      cases hout

end Laid

namespace Editor

variable {w : Wiring} {e x : Editor} {n m : UiNode} {i o p : Id}

/-- The editor when a UI node has had its turn and no event waits any more. -/
def afterTurn (e : Editor) (n : UiNode) : Editor :=
  (e.act n (·.onUpdate e.clock)).withGraph
    { (n.onUpdate e.clock e.scene).2.graph with outbox := [] }

theorem mem_or_of_mem_afterTurn (hm : m ∈ (e.afterTurn n).nodes) :
    m = (n.onUpdate e.clock e.scene).1 ∨ m ∈ e.nodes ∧ m.id ≠ (n.onUpdate e.clock e.scene).1.id :=
  mem_act (e := e) (f := (·.onUpdate e.clock)) hm

theorem mem_afterTurn (hm : m ∈ e.nodes) (hne : m.id ≠ n.id) : m ∈ (e.afterTurn n).nodes :=
  List.mem_map.2 ⟨m, hm, if_neg fun hid => hne (hid.trans (n.id_onUpdate e.clock e.scene))⟩

theorem mem_afterTurn_self (hn : n ∈ e.nodes) :
    (n.onUpdate e.clock e.scene).1 ∈ (e.afterTurn n).nodes :=
  List.mem_map.2 ⟨n, hn, if_pos (n.id_onUpdate e.clock e.scene).symm⟩

/-- Nobody reacts to links that ended with their inputs. -/
theorem deliver_of_gone (hnodup : (e.nodes.map UiNode.id).Nodup)
    (hlive : ∀ n ∈ e.nodes, ∀ p ∈ n.inputs, e.graph.hasNode p) {event : Event}
    (hgone : e.scene.TellsOfGone event) : e.deliver event = e := by
  have hnotify (ids : List Id) : ids.foldl (notify event) e = e := by
    induction ids with
    | nil => rfl
    | cons id ids ih =>
        have hfirst : notify event e id = e := by
          unfold notify
          split
          · next n hn =>
            have hmem := (node?_eq_some hn).1
            exact act_eq_self (fun m hm hid => List.inj_on_of_nodup_map hnodup hm hmem hid)
              (UiNode.onEvent_of_gone hgone (hlive n hmem))
          · rfl
        rw [List.foldl_cons, hfirst, ih]
  exact hnotify e.bus

theorem drainUpTo_of_gone (limit : Nat) (hnodup : (e.nodes.map UiNode.id).Nodup)
    (hlive : ∀ n ∈ e.nodes, ∀ p ∈ n.inputs, e.graph.hasNode p)
    (hgone : ∀ event ∈ e.graph.outbox, e.scene.TellsOfGone event) :
    drainUpTo limit e = e.withGraph { e.graph with outbox := [] } := by
  induction limit generalizing e with
  | zero => rfl
  | succ limit ih =>
      unfold drainUpTo
      split
      · next htake =>
        have hidle : ({ e.graph with outbox := [] } : Graph) = e.graph := by
          unfold Graph.takeEvent at htake
          split at htake
          · next hout => rw [← hout]
          · cases htake
        rw [hidle]
        rfl
      · next event g htake =>
        obtain ⟨hout, hg⟩ := takeEvent_eq_some htake
        rw [hout] at hgone
        obtain ⟨hfirst, hrest⟩ := List.forall_mem_cons.1 hgone
        have hdeliver : (e.withGraph { e.graph with outbox := g.outbox }).deliver event =
            e.withGraph { e.graph with outbox := g.outbox } :=
          deliver_of_gone (e := e.withGraph { e.graph with outbox := g.outbox }) hnodup hlive hfirst
        rw [hg, hdeliver]
        exact ih hnodup hlive hrest

namespace Held

variable (h : e.Held True w)

include h

theorem hasNode (hn : n ∈ e.nodes) (hp : p ∈ n.id :: n.pins) : e.graph.hasNode p := by
  obtain ⟨r, hr, _⟩ := (h.casts.plays n hn).home_eq hp
  exact h.laid.hasNode hr

/-- An input is linked to one output at most, and it is an output of a UI node. -/
theorem producer (hn : n ∈ e.nodes) (hi : i ∈ n.inputs) (ho : o ∈ e.graph.neighbors i) :
    e.graph.neighbors i = [o] ∧ ∃ m ∈ e.nodes, o ∈ m.outputs := by
  obtain ⟨kind, _, hrole⟩ := (h.casts.plays n hn).input hi
  obtain ⟨hlink, p, offer, hout⟩ := h.laid.output_of_link hrole ho
  obtain ⟨inputs, outputs, hidentity, hmem⟩ := h.laid.coherent.output hout
  obtain ⟨m, hm, rfl⟩ := h.casts.cast p inputs outputs hidentity
  rw [(h.casts.plays m hm).identity] at hidentity
  cases hidentity
  exact ⟨hlink, m, hm, hmem⟩

/-- An output of one UI node is no input of any. -/
theorem output_notMem (hn : n ∈ e.nodes) (ho : o ∈ n.outputs) (hm : m ∈ e.nodes) :
    o ∉ m.inputs := by
  intro hmem
  obtain ⟨kind, _, hrole⟩ := (h.casts.plays m hm).input hmem
  rw [(h.casts.plays n hn).output ho] at hrole
  cases hrole

/-- A UI node takes its turn, and nobody reacts to the links that are cut thereby. -/
theorem updateNode_eq (hidle : e.graph.outbox = []) (hn : n ∈ e.nodes) :
    e.updateNode n.id = e.afterTurn n := by
  obtain ⟨w', h'⟩ := h.update hn e.clock
  have hfind : e.node? n.id = some n := h.casts.find?_id hn
  obtain ⟨_, htold⟩ := UiNode.told_onUpdate e.clock h.consistent
    (h.laid.unfed (h.casts.plays n hn))
  have hgone : ∀ event ∈ (e.act n (·.onUpdate e.clock)).graph.outbox,
      (e.act n (·.onUpdate e.clock)).scene.TellsOfGone event := by
    intro event hevent
    refine (htold event hevent).resolve_left fun hold => ?_
    rw [show e.scene.graph.outbox = [] from hidle] at hold
    cases hold
  have hlive (m : UiNode) (hm : m ∈ (e.act n (·.onUpdate e.clock)).nodes) (p : Id)
      (hp : p ∈ m.inputs) : (e.act n (·.onUpdate e.clock)).graph.hasNode p :=
    h'.hasNode hm (List.mem_cons_of_mem _ (List.mem_append_left _ hp))
  rw [updateNode, hfind]
  exact drainUpTo_of_gone drainLimit h'.casts.nodup hlive hgone

end Held

/-! ## Turn after turn -/

section Turns

variable {done : List UiNode} {d d' : Draw}

/-- A draw node whose turn has come and that found another shader linked to it. -/
structure Reshades (done : List UiNode) (s : Scene) (x : Editor) (d : Draw) : Prop
    extends d.Reshaded s x.scene where
  mem : .draw d ∈ done

/-- What became of it. -/
structure Rebuilds (done : List UiNode) (s : Scene) (x : Editor) (d d' : Draw) : Prop
    extends Reshades done s x d where
  still : .draw d' ∈ x.nodes
  id : d'.id = d.id

/-- The inputs for variables that draw nodes had before they found another shader. -/
def Drops (done : List UiNode) (s : Scene) (x : Editor) (j : Id) : Prop :=
  ∃ d, Reshades done s x d ∧ j ∈ d.params

/-- The inputs for variables that they have instead. When ids run out, one node may be left without
its edge. -/
def Adds (done : List UiNode) (s : Scene) (x : Editor) (j : Id) : Prop :=
  ∃ d d', Rebuilds done s x d d' ∧ (j ∈ d'.params ∨ j + 1 = lastId)

/-- Each of these is tied to the draw node that has it. -/
def Ties (done : List UiNode) (s : Scene) (x : Editor) (owner p : Id) : Prop :=
  ∃ d d', Rebuilds done s x d d' ∧ owner = d.id ∧ p ∈ d'.params

/-- What is in the box of an output of a UI node when those in `done` have had their turns: only
time nodes fill theirs. -/
def given (e : Editor) (done : List UiNode) (n : UiNode) (o : Id) : Option Value :=
  if n ∈ done ∧ n.kind = .time then some (.float e.clock.elapsed) else e.values.get? o

theorem exists_given (hboxed : e.Boxed) (done : List UiNode) (hn : n ∈ e.nodes)
    (ho : o ∈ n.outputs) : ∃ v, e.given done n o = some v := by
  unfold given
  split
  · exact ⟨_, rfl⟩
  · exact Option.isSome_iff_exists.1 (hboxed n hn o (List.mem_append_right _ ho))

/-- What an input holds after the turn of its UI node, which comes after those in `before`. -/
def Receives (e : Editor) (before : List UiNode) (i : Id) (b : Option Value) : Prop :=
  (e.graph.neighbors i = [] → b = e.values.get? i) ∧
    ∀ o ∈ e.graph.neighbors i, ∃ m ∈ e.nodes, o ∈ m.outputs ∧ ∃ u v,
      e.values.get? i = some u ∧ e.given before m o = some v ∧
        b = some ((v.coerce u.kind).getD u)

/-- The update of `e` has come to `x`: the UI nodes in `done` have had their turns. -/
structure Midway (e : Editor) (done : List UiNode) (x : Editor) : Prop where
  held : ∃ w, x.Held True w
  boxed : x.Boxed
  idle : x.graph.outbox = []
  clock : x.clock = e.clock
  refits : e.graph.Refits (Drops done e.scene x) (Adds done e.scene x) (Ties done e.scene x) x.graph
  nodes : ∀ m ∈ x.nodes, m ∈ e.nodes ∨ ∃ d d', Rebuilds done e.scene x d d' ∧ m = .draw d'
  output : ∀ n ∈ e.nodes, ∀ o ∈ n.outputs, x.values.get? o = e.given done n o
  waiting : ∀ n ∈ e.nodes, n ∉ done → n ∈ x.nodes ∧
    ∀ i ∈ n.inputs, x.values.get? i = e.values.get? i
  taken : ∀ before n after, done = before ++ n :: after → ∀ i ∈ n.inputs, x.graph.hasNode i →
    e.Receives before i (x.values.get? i)

theorem Midway.start (h : e.Held True w) (hboxed : e.Boxed) (hidle : e.graph.outbox = []) :
    e.Midway [] e where
  held := ⟨w, h⟩
  boxed := hboxed
  idle := hidle
  clock := rfl
  refits := .refl h.consistent
  nodes _ hm := Or.inl hm
  output n _ o _ := by simp [given]
  waiting n hn _ := ⟨hn, fun _ _ => rfl⟩
  taken before n after hsplit := by simp at hsplit

namespace Midway

variable (h : e.Held True w) (hx : e.Midway done x) (hdone : ∀ m ∈ done, m ∈ e.nodes)

include h hx hdone

/-- No output goes. -/
theorem hasNode_output (hm : m ∈ e.nodes) (ho : o ∈ m.outputs) : x.graph.hasNode o := by
  have hlive := h.hasNode hm (List.mem_cons_of_mem _ (List.mem_append_right _ ho))
  refine (hx.refits.lost o hlive).resolve_right ?_
  rintro ⟨d, hd, hmem⟩
  exact h.output_notMem hm ho (hdone _ hd.mem)
    (List.mem_cons_of_mem _ (List.mem_cons_of_mem _ hmem))

/-- An input that is still there is linked as it was. -/
theorem neighbors_eq (hm : m ∈ e.nodes) (hi : i ∈ m.inputs) (hlive : x.graph.hasNode i) :
    x.graph.neighbors i = e.graph.neighbors i := by
  have hperm : (x.graph.neighbors i).Perm (e.graph.neighbors i) := by
    refine hx.refits.neighbors_perm h.consistent hlive (fun o ho => ?_) ?_
    · obtain ⟨_, k, hk, hout⟩ := h.producer hm hi ho
      exact hx.hasNode_output h hdone hk hout
    · rintro p ⟨d, _, hd, rfl, _⟩
      obtain ⟨kind, _, hrole⟩ := (h.casts.plays m hm).input hi
      have hidentity : w d.id = _ := (h.casts.plays _ (hdone _ hd.mem)).identity
      rw [hrole] at hidentity
      cases hidentity
  cases hnil : e.graph.neighbors i with
  | nil => exact List.perm_nil.1 (hnil ▸ hperm)
  | cons o os =>
      obtain ⟨hlink, _⟩ := h.producer hm hi (hnil ▸ List.mem_cons_self : o ∈ e.graph.neighbors i)
      rw [hlink] at hperm hnil
      rw [List.perm_singleton.1 hperm, hnil]

/-! ### One more turn -/

section Turn

variable (hn : n ∈ e.nodes) (hnew : n ∉ done)

include hn hnew

omit hdone hnew in
/-- The turn of a UI node leaves the boxes of the pins of the others. -/
theorem box_other (hm : m ∈ e.nodes) (hne : m ≠ n) (hp : p ∈ m.pins) :
    (n.onUpdate x.clock x.scene).2.values.get? p = x.values.get? p := by
  obtain ⟨w', hheld⟩ := hx.held
  have hother : p ∉ n.id :: n.pins := h.not_owns hn hm (fun hid => hne (h.casts.eq_of_id hm hn hid))
    (List.mem_cons_of_mem _ hp)
  have hlt : p < x.graph.nextId :=
    UInt32.lt_of_lt_of_le (h.owns_lt hm (List.mem_cons_of_mem _ hp)) hx.refits.nextId
  refine (UiNode.turns_onUpdate hheld.consistent n x.clock).box_of_notMem hheld.consistent hlt ?_
    ?_ fun _ => ?_
  · rintro rfl
    exact hother List.mem_cons_self
  · exact fun hin => hother (List.mem_cons_of_mem _ (List.mem_append_left _ hin))
  · exact fun hout => hother (List.mem_cons_of_mem _ (List.mem_append_right _ hout))

theorem output_turn (hm : m ∈ e.nodes) (ho : o ∈ m.outputs) :
    (n.onUpdate x.clock x.scene).2.values.get? o = e.given (done ++ [n]) m o := by
  have hpin : o ∈ m.pins := List.mem_append_right _ ho
  by_cases hmn : m = n
  · subst hmn
    obtain ⟨w', hheld⟩ := hx.held
    have hturn := UiNode.turns_onUpdate hheld.consistent m x.clock
    by_cases htime : m.kind = .time
    · rw [hturn.box_time htime ho, given, if_pos ⟨by simp, htime⟩, hx.clock]
    · have hlive := hx.hasNode_output h hdone hm ho
      have hnodup := (h.casts.plays m hm).nodup h.laid.coherent
      rw [hturn.box_of_notMem hheld.consistent (hheld.consistent.node_lt o hlive) ?_
        (h.output_notMem hm ho hm) fun hkind => absurd hkind htime, given,
        if_neg fun hkind => htime hkind.2]
      · have hold := hx.output m hm o ho
        rwa [given, if_neg fun hkind => htime hkind.2] at hold
      · rintro rfl
        exact (List.nodup_cons.1 hnodup).1 hpin
  · rw [hx.box_other h hn hm hmn hpin]
    refine (hx.output m hm o ho).trans ?_
    simp only [given, List.mem_append, List.mem_singleton, hmn, or_false]

/-- What is linked to an input has come to its UI node when this has had its turn. -/
theorem receives_turn (hboxed : e.Boxed) (hi : i ∈ n.inputs)
    (hlive : (n.onUpdate x.clock x.scene).2.graph.hasNode i) :
    e.Receives done i ((n.onUpdate x.clock x.scene).2.values.get? i) := by
  obtain ⟨w', hheld⟩ := hx.held
  obtain ⟨hnx, hwait⟩ := hx.waiting n hn hnew
  have hc := hheld.consistent
  have hnodup := (h.casts.plays n hn).nodup h.laid.coherent
  have hstill : ∀ p ∈ n.id :: n.pins, x.graph.hasNode p := fun p hp => hheld.hasNode hnx hp
  have hpulled := (UiNode.turns_onUpdate hc n x.clock).box_input hc hnodup hstill hi
    fun _ _ _ => hlive
  have hpin : i ∈ n.pins := List.mem_append_left _ hi
  have hlinked := hx.neighbors_eq h hdone hn hi (hstill i (List.mem_cons_of_mem _ hpin))
  rw [hpulled]
  constructor
  · intro hnil
    rw [box_foldl_pull_of_nil hc (hlinked.trans hnil)]
    exact hwait i hi
  · intro o ho
    obtain ⟨hlink, m, hm, hout⟩ := h.producer hn hi ho
    rw [← hlinked] at hlink
    obtain ⟨u, hu⟩ := Option.isSome_iff_exists.1 (hboxed n hn i hpin)
    obtain ⟨v, hv⟩ := exists_given hboxed done hm hout
    have hu' : x.values.get? i = some u := (hwait i hi).trans hu
    have hv' : x.values.get? o = some v := (hx.output m hm o hout).trans hv
    refine ⟨m, hm, hout, u, v, hu, hv, ?_⟩
    exact box_foldl_pull hc (List.nodup_append.1 hnodup.of_cons).1 hi hlink
      (h.output_notMem hm hout hn) hu' hv'

theorem reshades_turn {d : Draw} (hd : Reshades done e.scene x d) :
    Reshades (done ++ [n]) e.scene (x.afterTurn n) d := by
  have hmem := hdone _ hd.mem
  have hne : UiNode.draw d ≠ n := by
    rintro rfl
    exact hnew hd.mem
  have hbox := hx.box_other h hn hmem hne List.mem_cons_self
  refine ⟨⟨hd.linked, ?_⟩, List.mem_append_left _ hd.mem⟩
  have hindex : (x.afterTurn n).scene.indexIn d.shader = x.scene.indexIn d.shader :=
    Draw.indexIn_of_box hbox
  rw [hindex]
  exact hd.index

theorem rebuilds_turn {d d' : Draw} (hd : Rebuilds done e.scene x d d') :
    Rebuilds (done ++ [n]) e.scene (x.afterTurn n) d d' := by
  refine ⟨hx.reshades_turn h hdone hn hnew hd.toReshades, mem_afterTurn hd.still fun hid => hnew ?_,
    hd.id⟩
  rw [← h.casts.eq_of_id (hdone _ hd.mem) hn (hd.id.symm.trans hid)]
  exact hd.mem

/-- A draw node that finds another shader in its turn. -/
theorem reshades_of_turn {d : Draw} (hd : n = .draw d)
    (hshader : d.Reshaded x.scene (n.onUpdate x.clock x.scene).2) :
    Reshades (done ++ [n]) e.scene (x.afterTurn n) d := by
  obtain ⟨w', hheld⟩ := hx.held
  obtain ⟨hnx, _⟩ := hx.waiting n hn hnew
  have hpin : d.shader ∈ n.inputs := hd ▸ List.mem_cons_self
  have hlinked := hx.neighbors_eq h hdone hn hpin
    (hheld.hasNode hnx (List.mem_cons_of_mem _ (List.mem_append_left _ hpin)))
  exact ⟨⟨hlinked ▸ hshader.linked, hshader.index⟩, by simp [hd]⟩

theorem rebuilds_of_turn {d d' : Draw} (hd : n = .draw d)
    (hshader : d.Reshaded x.scene (n.onUpdate x.clock x.scene).2)
    (hd' : (n.onUpdate x.clock x.scene).1 = .draw d') :
    Rebuilds (done ++ [n]) e.scene (x.afterTurn n) d d' := by
  obtain ⟨hnx, _⟩ := hx.waiting n hn hnew
  have hmem := mem_afterTurn_self hnx
  have hid := n.id_onUpdate x.clock x.scene
  rw [hd'] at hmem hid
  exact ⟨hx.reshades_of_turn h hdone hn hnew hd hshader, hmem, hid.trans (congrArg UiNode.id hd)⟩

/-- What the turn itself does to the graph. -/
theorem refits_of_turn : x.graph.Refits (Drops (done ++ [n]) e.scene (x.afterTurn n))
    (Adds (done ++ [n]) e.scene (x.afterTurn n)) (Ties (done ++ [n]) e.scene (x.afterTurn n))
    (x.afterTurn n).graph := by
  obtain ⟨w', hheld⟩ := hx.held
  obtain ⟨hnx, _⟩ := hx.waiting n hn hnew
  have hturn := UiNode.turns_onUpdate hheld.consistent n x.clock
  refine (hturn.refits hheld.consistent ((h.casts.plays n hn).nodup h.laid.coherent)
    (fun p hp => hheld.hasNode hnx hp) ?_ ?_).withOutbox []
  · exact fun d hd hshader p hp => ⟨d, hx.reshades_of_turn h hdone hn hnew hd hshader, hp⟩
  · intro d d' hd hshader hd'
    have hrebuilds := hx.rebuilds_of_turn h hdone hn hnew hd hshader hd'
    exact ⟨fun p hp => ⟨⟨d, d', hrebuilds, Or.inl hp⟩, d, d', hrebuilds, congrArg UiNode.id hd, hp⟩,
      fun j hj => ⟨d, d', hrebuilds, Or.inr hj⟩⟩

theorem refits_turn : e.graph.Refits (Drops (done ++ [n]) e.scene (x.afterTurn n))
    (Adds (done ++ [n]) e.scene (x.afterTurn n)) (Ties (done ++ [n]) e.scene (x.afterTurn n))
    (x.afterTurn n).graph := by
  have hbefore : e.graph.Refits (Drops (done ++ [n]) e.scene (x.afterTurn n))
      (Adds (done ++ [n]) e.scene (x.afterTurn n)) (Ties (done ++ [n]) e.scene (x.afterTurn n))
      x.graph := by
    refine hx.refits.mono ?_ ?_ ?_
    · rintro j ⟨d, hd, hj⟩
      exact ⟨d, hx.reshades_turn h hdone hn hnew hd, hj⟩
    · rintro j ⟨d, d', hd, hj⟩
      exact ⟨d, d', hx.rebuilds_turn h hdone hn hnew hd, hj⟩
    · rintro owner p ⟨d, d', hd, hp⟩
      exact ⟨d, d', hx.rebuilds_turn h hdone hn hnew hd, hp⟩
  exact hbefore.trans h.consistent (hx.refits_of_turn h hdone hn hnew)

theorem nodes_turn (hm : m ∈ (x.afterTurn n).nodes) :
    m ∈ e.nodes ∨ ∃ d d', Rebuilds (done ++ [n]) e.scene (x.afterTurn n) d d' ∧ m = .draw d' := by
  obtain ⟨w', hheld⟩ := hx.held
  obtain ⟨hnx, _⟩ := hx.waiting n hn hnew
  rcases mem_or_of_mem_afterTurn hm with rfl | ⟨hm, _⟩
  · rcases (UiNode.turns_onUpdate hheld.consistent n x.clock).self_or hheld.consistent
      ((h.casts.plays n hn).nodup h.laid.coherent) (fun p hp => hheld.hasNode hnx hp) with
      hself | ⟨d, d', hd, hshader, hd'⟩
    · exact Or.inl (hself.symm ▸ hn)
    · exact Or.inr ⟨d, d', hx.rebuilds_of_turn h hdone hn hnew hd hshader hd', hd'⟩
  · rcases hx.nodes m hm with hm | ⟨d, d', hd, rfl⟩
    · exact Or.inl hm
    · exact Or.inr ⟨d, d', hx.rebuilds_turn h hdone hn hnew hd, rfl⟩

theorem turn (hboxed : e.Boxed) : e.Midway (done ++ [n]) (x.updateNode n.id) := by
  obtain ⟨w', hheld⟩ := hx.held
  obtain ⟨hnx, _⟩ := hx.waiting n hn hnew
  rw [hheld.updateNode_eq hx.idle hnx]
  have hother {m : UiNode} (hm : m ∈ e.nodes) (hne : m ≠ n) {p : Id} (hp : p ∈ m.pins) :
      (x.afterTurn n).values.get? p = x.values.get? p := hx.box_other h hn hm hne hp
  constructor
  case held =>
    obtain ⟨w'', h''⟩ := hheld.update hnx x.clock
    exact ⟨w'', h''.withOutbox []⟩
  case boxed => exact hx.boxed.update hheld hnx x.clock
  case idle => rfl
  case clock => exact hx.clock
  case refits => exact hx.refits_turn h hdone hn hnew
  case nodes => exact fun m hm => hx.nodes_turn h hdone hn hnew hm
  case output => exact fun m hm o ho => hx.output_turn h hdone hn hnew hm ho
  case waiting =>
    intro m hm hmnew
    obtain ⟨hmdone, hmn⟩ := not_or.1 (List.mem_append.not.1 hmnew)
    obtain ⟨hmx, hwait⟩ := hx.waiting m hm hmdone
    have hne : m ≠ n := List.mem_singleton.not.1 hmn
    refine ⟨mem_afterTurn hmx fun hid => hne (h.casts.eq_of_id hm hn hid), fun i hi => ?_⟩
    exact (hother hm hne (List.mem_append_left _ hi)).trans (hwait i hi)
  case taken =>
    intro before m after hsplit i hi hlive
    -- the turn was that of `m` itself, or `m` had its turn before
    rcases List.eq_nil_or_concat after with rfl | ⟨after, k, rfl⟩
    · obtain ⟨rfl, hmn⟩ := List.append_inj' hsplit rfl
      obtain rfl := List.singleton_inj.1 hmn
      exact hx.receives_turn h hdone hn hnew hboxed hi hlive
    · rw [List.concat_eq_append, ← List.cons_append, ← List.append_assoc] at hsplit
      obtain ⟨hdone', _⟩ := List.append_inj' hsplit rfl
      have hmdone : m ∈ done := by simp [hdone']
      have hm := hdone m hmdone
      have hne : m ≠ n := fun heq => hnew (heq ▸ hmdone)
      have hpin : i ∈ m.pins := List.mem_append_left _ hi
      rw [hother hm hne hpin]
      have hlt : i < x.graph.nextId :=
        UInt32.lt_of_lt_of_le (h.owns_lt hm (List.mem_cons_of_mem _ hpin)) hx.refits.nextId
      exact hx.taken before m after hdone' i hi
        ((hx.refits_of_turn h hdone hn hnew).hasNode_of_hasNode hlive hlt)

end Turn

end Midway

/-! ## All turns -/

/-- The UI nodes take their turns in the order in which they are listed. -/
def turns (e : Editor) (order : List UiNode) : Editor := (order.map UiNode.id).foldl updateNode e

theorem Midway.turns {rest : List UiNode} (h : e.Held True w) (hboxed : e.Boxed)
    (hx : e.Midway done x) (hmem : ∀ m ∈ done ++ rest, m ∈ e.nodes)
    (hnodup : (done ++ rest).Nodup) : e.Midway (done ++ rest) (x.turns rest) := by
  induction rest generalizing done x with
  | nil => rwa [List.append_nil]
  | cons n rest ih =>
      have hdone : ∀ m ∈ done, m ∈ e.nodes := fun m hm => hmem m (List.mem_append_left _ hm)
      have hn : n ∈ e.nodes := hmem n (List.mem_append_right _ List.mem_cons_self)
      have hnew : n ∉ done := fun hdone =>
        (List.nodup_append.1 hnodup).2.2 n hdone n List.mem_cons_self rfl
      rw [List.append_cons] at hmem hnodup ⊢
      exact ih (hx.turn h hdone hn hnew hboxed) hmem hnodup

end Turns

end Editor

end DrawGraph
