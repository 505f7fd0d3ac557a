import DrawGraph.Proofs.Editor.WellFormed
import DrawGraph.Proofs.Editor.Untouched
import DrawGraph.Proofs.UiNode.Conduct

/-!
# Properties that last

A property that no single reaction of a UI node breaks is kept by every delivery of events and by
every update. So it is with tidy scenes: those of all reached editors are.
-/

namespace DrawGraph

open Wiring

namespace Editor

variable {w : Wiring} {e : Editor} {P : Editor → Prop}

/-- Sound editors that have the property keep it when a UI node reacts. Of the events that it is
told of, these have a property of their own, which lasts while they are delivered. -/
structure Lasting (Q : Event → Editor → Prop) (P : Editor → Prop) : Prop where
  dropped : ∀ {e : Editor}, P e → P (e.withGraph { e.graph with outbox := [] })
  taken : ∀ {e : Editor} {event : Event} {events : List Event}, P e →
    e.graph.outbox = event :: events →
      P (e.withGraph { e.graph with outbox := events }) ∧
        Q event (e.withGraph { e.graph with outbox := events })
  clock : ∀ {e : Editor} (clock : Clock), P e → P { e with clock }
  event : ∀ {w : Wiring} {e : Editor} {n : UiNode} {event : Event}, e.Sound w → P e → Q event e →
    n ∈ e.nodes → n.EventServed event e.scene →
      P (e.act n (·.onEvent event)) ∧ Q event (e.act n (·.onEvent event))
  update : ∀ {w : Wiring} {e : Editor} {n : UiNode}, e.Sound w → P e → n ∈ e.nodes →
    n.UpdateServed e.scene → P (e.act n (·.onUpdate e.clock))

/-- A property that no event whatever breaks. -/
theorem Lasting.of_reactions
    (houtbox : ∀ {e : Editor} (events : List Event), P e →
      P (e.withGraph { e.graph with outbox := events }))
    (hclock : ∀ {e : Editor} (clock : Clock), P e → P { e with clock })
    (hevent : ∀ {w : Wiring} {e : Editor} {n : UiNode} (event : Event), e.Sound w → P e →
      n ∈ e.nodes → n.EventServed event e.scene → P (e.act n (·.onEvent event)))
    (hupdate : ∀ {w : Wiring} {e : Editor} {n : UiNode}, e.Sound w → P e → n ∈ e.nodes →
      n.UpdateServed e.scene → P (e.act n (·.onUpdate e.clock))) :
    Lasting (fun _ _ => True) P where
  dropped h := houtbox [] h
  taken h _ := ⟨houtbox _ h, trivial⟩
  clock := hclock
  event hs h _ hn hserved := ⟨hevent _ hs h hn hserved, trivial⟩
  update := hupdate

/-- Events and updates put no UI node in or out. -/
theorem lasting_ids (ids : List Id) :
    Lasting (fun _ _ => True) fun e => e.nodes.map UiNode.id = ids := by
  have hreplace {e : Editor} (n : UiNode) : (e.replace n).nodes.map UiNode.id =
      e.nodes.map UiNode.id := by
    rw [replace, List.map_map]
    apply List.map_congr_left
    intro m _
    by_cases hid : m.id = n.id <;> simp [hid]
  apply Lasting.of_reactions
  · exact fun _ h => h
  · exact fun _ h => h
  · exact fun _ _ h _ _ => (hreplace _).trans h
  · exact fun _ h _ _ => (hreplace _).trans h

/-- A property kept by each step of a fold, given that the editor stays sound. -/
theorem along_foldl {α : Type} {p : Editor → α → Prop} {f : Editor → α → Editor} {as : List α}
    (hcarries : ∀ e a, p e a → e.Carries (f e a))
    (hstep : ∀ {w : Wiring} {e : Editor} {a : α}, e.Sound w → P e → p e a → P (f e a))
    (hs : e.Sound w) (h : P e) (halong : Along p f as e) : P (as.foldl f e) := by
  induction as generalizing e w with
  | nil => exact h
  | cons a as ih =>
      obtain ⟨hp, hrest⟩ := halong
      obtain ⟨w', hs', _⟩ := hcarries e a hp w hs
      exact ih hs' (hstep hs h hp) hrest

namespace Lasting

variable {Q : Event → Editor → Prop} (hP : Lasting Q P)

include hP

theorem notify {event : Event} {observer : Id} (hs : e.Sound w) (h : P e ∧ Q event e)
    (hserved : NotifyServed event e observer) :
    P (notify event e observer) ∧ Q event (notify event e observer) := by
  unfold Editor.notify
  split
  · next n hn => exact hP.event hs h.1 h.2 (node?_eq_some hn).1 (hserved n hn)
  · exact h

theorem drainUpTo {limit : Nat} (hs : e.Sound w) (h : P e) (hserved : DrainServed limit e) :
    P (drainUpTo limit e) := by
  induction limit generalizing e w with
  | zero => exact hP.dropped h
  | succ limit ih =>
      unfold Editor.drainUpTo
      split
      · exact h
      · next event g htake =>
        obtain ⟨hdeliver, hrest⟩ := hserved event g htake
        obtain ⟨houtbox, hg⟩ := takeEvent_eq_some htake
        have htaken : P (e.withGraph g) ∧ Q event (e.withGraph g) := by
          rw [hg]
          exact hP.taken h houtbox
        have hsound : ∃ w', (e.withGraph g).Sound w' := by
          rw [hg]
          obtain ⟨w', hs', _⟩ := carries_withOutbox e g.outbox w hs
          exact ⟨w', hs'⟩
        obtain ⟨w', hs'⟩ := hsound
        obtain ⟨w'', hs'', _⟩ := carries_foldl (fun _ _ => carries_notify) hdeliver w' hs'
        have hdelivered : P ((e.withGraph g).deliver event) ∧ Q event _ :=
          along_foldl (P := fun e => P e ∧ Q event e) (fun _ _ => carries_notify) hP.notify hs'
            htaken hdeliver
        exact ih hs'' hdelivered.1 hrest

theorem drain (hs : e.Sound w) (h : P e) (hserved : DrainServed drainLimit e) : P e.drain :=
  hP.drainUpTo hs h hserved

theorem updateNode {id : Id} (hs : e.Sound w) (h : P e) (hserved : e.NodeUpdateServed id) :
    P (e.updateNode id) := by
  unfold Editor.updateNode
  split
  · exact h
  · next n hn =>
    obtain ⟨hnode, hdrain⟩ := hserved n hn
    have hmem := (node?_eq_some hn).1
    have hacted : e.Carries (e.act n (·.onUpdate e.clock)) := carries_act hmem fun w hs =>
      UiNode.onUpdate_acted hs.wired (hs.casts.plays n hmem) e.clock hnode
    obtain ⟨w', hs', _⟩ := hacted w hs
    exact hP.drain hs' (hP.update hs h hmem hnode) hdrain

theorem apply_update {dt : Float32} (hs : e.Sound w) (h : P e) (hserved : e.UpdateServed dt) :
    P (e.update dt) := by
  have htick : (e.tick dt).Sound w := ⟨hs.wired, hs.casts, hs.bus⟩
  exact along_foldl (fun _ _ => carries_updateNode) hP.updateNode htick (hP.clock _ h) hserved

omit hP

section Turns

variable {R : List Id → Editor → Prop} (hall : ∀ ids, Lasting Q (R ids))
  (hturn : ∀ {w : Wiring} {e : Editor} {n : UiNode} {ids : List Id}, e.Sound w → R ids e →
    n ∈ e.nodes → n.UpdateServed e.scene → R (n.id :: ids) (e.act n (·.onUpdate e.clock)))

include hall hturn

theorem turn {id : Id} {ids : List Id} (hs : e.Sound w) (h : R ids e)
    (hlive : id ∈ e.nodes.map UiNode.id) (hserved : e.NodeUpdateServed id) :
    R (id :: ids) (e.updateNode id) := by
  unfold Editor.updateNode
  split
  · next hnone =>
    obtain ⟨n, hn, hid⟩ := List.mem_map.1 hlive
    have hfind : (e.node? id).isSome := List.find?_isSome.2 ⟨n, hn, beq_iff_eq.2 hid⟩
    rw [hnone] at hfind
    cases hfind
  · next n hn =>
    obtain ⟨hnode, hdrain⟩ := hserved n hn
    obtain ⟨hmem, rfl⟩ := node?_eq_some hn
    have hacted : e.Carries (e.act n (·.onUpdate e.clock)) := carries_act hmem fun w hs =>
      UiNode.onUpdate_acted hs.wired (hs.casts.plays n hmem) e.clock hnode
    obtain ⟨w', hs', _⟩ := hacted w hs
    exact (hall _).drain hs' (hturn hs h hmem hnode) hdrain

theorem turns {as ids : List Id} (hs : e.Sound w) (h : R ids e)
    (hlive : ∀ id ∈ as, id ∈ e.nodes.map UiNode.id)
    (hserved : Along NodeUpdateServed Editor.updateNode as e) :
    R (as.reverse ++ ids) (as.foldl Editor.updateNode e) := by
  induction as generalizing ids e w with
  | nil => exact h
  | cons id as ih =>
      obtain ⟨hid, hrest⟩ := hserved
      obtain ⟨w', hs', _⟩ := carries_updateNode hid w hs
      have hnodes := (lasting_ids (e.nodes.map UiNode.id)).updateNode hs rfl hid
      have hnext := ih hs' (turn hall hturn hs h (hlive id List.mem_cons_self) hid)
        (fun i hi => hnodes ▸ hlive i (List.mem_cons_of_mem _ hi)) hrest
      simpa using hnext

/-- When each UI node adds itself to the list in its turn, an update lists them all. -/
theorem sweep {dt : Float32} (hs : e.Sound w) (h : R [] e) (hserved : e.UpdateServed dt) :
    R (e.nodes.map UiNode.id).reverse (e.update dt) := by
  have htick : (e.tick dt).Sound w := ⟨hs.wired, hs.casts, hs.bus⟩
  have hturns := turns hall hturn htick ((hall []).clock _ h) (fun _ h => h) hserved
  rwa [List.append_nil] at hturns

end Turns

include hP

/-! ### Operations that are followed by a delivery -/

theorem removeNode {id : Id} (hs : e.Sound w) (h : P e)
    (hserved : (Operation.removeNode id).Served e)
    (hdismiss : ∀ n ∈ e.nodes, P (e.dismiss n (n.onDelete.on e.scene).2)) :
    P (e.removeNode id).2 := by
  unfold Editor.removeNode
  split
  · exact h
  · next n hn =>
    have hmem := (node?_eq_some hn).1
    obtain ⟨s, w', hdelete, hw', hrecast, hgone⟩ :=
      UiNode.onDelete_ok hs.wired (hs.casts.plays n hmem)
    have hgiven := hdismiss n hmem
    have hdrained := hserved n hn
    rw [hdelete] at hgiven hdrained ⊢
    exact hP.drain (hs.dismiss hmem hw' hrecast hgone) hgiven hdrained

theorem link {a b : Id} (hs : e.Sound w) (h : P e) (hserved : (Operation.link a b).Served e)
    (hlink : ∀ edge input output g, e.graph.neighbors input = [] →
      e.graph.AddsEdge ⟨edge, input, output, .external⟩ g → P (e.withGraph g)) :
    P (e.link a b).2 := by
  unfold Editor.link
  split
  · next edge e' hmade =>
    obtain ⟨w', hs', _⟩ := carries_makeLink hmade w hs
    refine hP.drain hs' ?_ (hserved edge e' hmade)
    obtain ⟨input, output, g, _, hcheck, hadd, rfl⟩ := makeLink_eq_ok hmade
    obtain ⟨_, _, hdegree, _⟩ := checkLink_eq_ok hcheck
    obtain ⟨_, _, he⟩ := hs.wired.consistent.addEdge hadd
    exact hlink edge input output g (hs.wired.consistent.outDegree_eq_zero_iff.1 hdegree) he
  · exact h

theorem unlink {edge : Id} (hs : e.Sound w) (h : P e) (hserved : (Operation.unlink edge).Served e)
    (hunlink : ∀ found g, e.graph.edge? edge = some found → e.graph.ErasesEdge found g →
      P (e.withGraph g)) :
    P (e.unlink edge).2 := by
  unfold Editor.unlink
  split
  · exact h
  · next found hfound =>
    split
    · exact h
    · next hext =>
      split
      · next g herase =>
        have hkind : found.kind = .external := by simpa [Edge.isExternal] using hext
        obtain ⟨g', hg', herases⟩ := hs.wired.consistent.eraseEdge hfound
        rw [herase] at hg'
        cases hg'
        have hunlinked : (e.withGraph g).Sound w :=
          ⟨hs.wired.unlink hfound hkind herases, hs.casts, hs.bus⟩
        exact hP.drain hunlinked (hunlink found g hfound herases) (hserved _ g herase)
      · exact h

theorem reloadShader {shader : Int32} (hs : e.Sound w) (h : P e)
    (hserved : (Operation.reloadShader shader).Served e)
    (hreload : ∀ l, e.scene.services.shaders.reload shader = .ok l →
      P ((e.withServices { e.scene.services with shaders := l }).withGraph
        (e.graph.pushEvent (.shaderUpdated shader)))) :
    P (e.reloadShader shader).2 := by
  unfold Editor.reloadShader
  split
  · exact h
  · next l hl =>
    have hpushed : ((e.withServices { e.scene.services with shaders := l }).withGraph
        (e.graph.pushEvent (.shaderUpdated shader))).Sound w :=
      ⟨hs.wired.withOutbox _, hs.casts, hs.bus⟩
    exact hP.drain hpushed (hreload l hl) (hserved l hl)

end Lasting

/-! ### Operations that wake nobody -/

theorem addNode_keeps {kind : UiNodeKind} (hidle : e.graph.outbox = [])
    (hfail : ∀ err s, (UiNode.create kind).on e.scene = (.error err, s) → P { e with scene := s })
    (hmade : ∀ n s, (UiNode.create kind).on e.scene = (.ok n, s) → P (e.enroll n s)) :
    P (e.addNode kind).2 := by
  have hquiet : ((UiNode.create kind).on e.scene).2.graph.outbox = e.graph.outbox :=
    UiNode.preserves_create kind e.scene
  unfold addNode
  cases hx : (UiNode.create kind).on e.scene with
  | mk r s =>
      rw [hx] at hquiet
      cases r with
      | error err => exact hfail err s hx
      | ok n =>
          have hdrain := drain_of_outbox (e := e.enroll n s) (hquiet.trans hidle)
          dsimp only
          rw [hdrain]
          exact hmade n s hx

theorem withNode_keeps {α : Type} {id : Id} {expected : String}
    {f : UiNode → Option (Scene → α × UiNode × Scene)} (hidle : e.graph.outbox = []) (h : P e)
    (hf : ∀ n g, n ∈ e.nodes → f n = some g → (g e.scene).2.2.graph.outbox = [] ∧
      P (({ e with scene := (g e.scene).2.2 } : Editor).replace (g e.scene).2.1)) :
    P (e.withNode id expected f).2 := by
  unfold withNode
  split
  · exact h
  · next n hn =>
    split
    · rwa [drain_of_outbox hidle]
    · next g hg =>
      obtain ⟨hout, hgiven⟩ := hf n g (node?_eq_some hn).1 hg
      generalize g e.scene = r at hout hgiven ⊢
      obtain ⟨a, n', s⟩ := r
      dsimp only
      rwa [drain_of_outbox (e := ({ e with scene := s } : Editor).replace n') hout]

/-- An asset is looked for and its index written. -/
theorem setAsset_keeps (hidle : e.graph.outbox = []) (h : P e) {id : Id} {path : Option String}
    (hset : ∀ kind id output old index s, .asset kind id output old ∈ e.nodes →
      e.scene.resolveAsset kind path = (index, s) →
        P (({ e with scene := s.write output (.int index) } : Editor).replace
          (.asset kind id output path))) :
    P (e.setAsset id path).2 := by
  apply withNode_keeps hidle h
  intro n g hn hg
  split at hg
  · next kind id output old =>
    cases hg
    refine ⟨?_, hset kind id output old _ _ hn rfl⟩
    rw [Scene.outbox_write, (Scene.graph_resolveAsset e.scene kind path).1]
    exact hidle
  · cases hg

theorem setShape_keeps (hidle : e.graph.outbox = []) (h : P e) {id : Id} {shape : PrimitiveShape}
    (hset : ∀ id output old index s, .primitive id output old ∈ e.nodes →
      e.scene.resolvePrimitive shape = (index, s) →
        P (({ e with scene := s.write output (.int index) } : Editor).replace
          (.primitive id output shape))) :
    P (e.setShape id shape).2 := by
  apply withNode_keeps hidle h
  intro n g hn hg
  split at hg
  · next id output old =>
    cases hg
    refine ⟨?_, hset id output old _ _ hn rfl⟩
    rw [Scene.outbox_write, (Scene.graph_resolvePrimitive e.scene shape).1]
    exact hidle
  · cases hg

theorem setColor_keeps (hidle : e.graph.outbox = []) (h : P e) {id : Id} {color : Vec3}
    (hset : ∀ d, .draw d ∈ e.nodes → P (e.replace (.draw { d with color }))) :
    P (e.setColor id color).2 := by
  apply withNode_keeps hidle h
  intro n g hn hg
  split at hg
  · next d =>
    cases hg
    exact ⟨hidle, hset d hn⟩
  · cases hg

theorem setLens_keeps (hidle : e.graph.outbox = []) (h : P e) {id : Id}
    {fov aspect near far : Float32}
    (hset : ∀ c, .camera c ∈ e.nodes → P (e.replace (.camera { c with fov, aspect, near, far }))) :
    P (e.setLens id fov aspect near far).2 := by
  apply withNode_keeps hidle h
  intro n g hn hg
  split at hg
  · next c =>
    cases hg
    exact ⟨hidle, hset c hn⟩
  · cases hg

theorem setPin_keeps (h : P e) {pin : Id} {v : Value}
    (hset : ∀ u, (e.values.get? pin).isSome → P { e with scene := e.scene.write pin u }) :
    P (e.setPin pin v).2 := by
  unfold setPin
  split
  · exact h
  · next kind hkind =>
    split
    · next u _ =>
      obtain ⟨old, hold, _⟩ := pinKind_eq_ok hkind
      exact hset u (by rw [hold]; rfl)
    · exact h

theorem setRoot_keeps (h : P e) {root : Option Id} (hset : ∀ root, P { e with root }) :
    P (e.setRoot root).2 := by
  unfold setRoot
  split
  · exact hset none
  · split
    · exact hset _
    · exact h

/-! ## Tidy scenes -/

theorem tidy_act {n : UiNode} {f : UiNode → Scene → UiNode × Scene} (hs : e.Sound w)
    (h : e.scene.Tidy) (hn : n ∈ e.nodes)
    (hmoves : Scene.Moves (· = n.id) n.Owns e.scene (f n e.scene).2) : (e.act n f).scene.Tidy :=
  hmoves.tidy h fun _ => hs.owns_lt hn

theorem lasting_tidy : Lasting (fun _ _ => True) fun e => e.scene.Tidy := by
  apply Lasting.of_reactions
  · exact fun _ h => ⟨h.ordered.withOutbox _, h.boxes_lt, h.mirrors⟩
  · exact fun _ h => h
  · exact fun _ hs h hn _ => tidy_act hs h hn (UiNode.moves_onEvent ..)
  · exact fun hs h hn _ => tidy_act hs h hn (UiNode.moves_onUpdate ..)

theorem tidy_create (h : e.scene.Tidy) (kind : UiNodeKind) :
    ((UiNode.create kind).on e.scene).2.Tidy := by
  have hmoves : Scene.Moves (fun _ => True) (fun _ => False) e.scene
      ((UiNode.create kind).on e.scene).2 := UiNode.moves_create kind e.scene
  exact hmoves.tidy h fun _ => False.elim

theorem tidy_withGraph (h : e.scene.Tidy) {g : Graph} (hg : g.Ordered)
    (hnext : e.graph.nextId ≤ g.nextId) (hnode : ∀ j, g.node? j = e.graph.node? j) :
    (e.withGraph g).scene.Tidy := by
  constructor
  · exact hg
  · exact fun p hp => UInt32.lt_of_lt_of_le (h.boxes_lt p hp) hnext
  · intro p n v x hn
    change g.node? p = some n at hn
    rw [hnode] at hn
    exact h.mirrors p n v x hn

theorem tidy_removeNode {id : Id} (hs : e.Sound w) (h : e.scene.Tidy)
    (hserved : (Operation.removeNode id).Served e) : (e.removeNode id).2.scene.Tidy := by
  apply lasting_tidy.removeNode hs h hserved
  intro n hn
  have hmoves : Scene.Moves (· = n.id) n.Owns e.scene (n.onDelete.on e.scene).2 :=
    n.moves_onDelete e.scene
  exact hmoves.tidy h fun _ => hs.owns_lt hn

theorem tidy_link {a b : Id} (hs : e.Sound w) (h : e.scene.Tidy)
    (hserved : (Operation.link a b).Served e) : (e.link a b).2.scene.Tidy := by
  apply lasting_tidy.link hs h hserved
  intro edge input output g hnil he
  refine tidy_withGraph h (h.ordered.addsEdge he fun hmem => ?_) he.nextId_le he.node?
  change output ∈ e.graph.neighbors input at hmem
  rw [hnil] at hmem
  cases hmem

theorem tidy_unlink {edge : Id} (hs : e.Sound w) (h : e.scene.Tidy)
    (hserved : (Operation.unlink edge).Served e) : (e.unlink edge).2.scene.Tidy := by
  apply lasting_tidy.unlink hs h hserved
  intro found g hfound he
  exact tidy_withGraph h (h.ordered.erasesEdge hfound he) (he.nextId ▸ UInt32.le_refl _) he.node?

theorem tidy_setPin (h : e.scene.Tidy) (pin : Id) (v : Value) : (e.setPin pin v).2.scene.Tidy := by
  apply setPin_keeps (P := fun e => e.scene.Tidy) h
  intro u hbox
  have hmove : Scene.Move (fun _ => False) (· = pin) e.scene (e.scene.write pin u) := .write u rfl
  apply hmove.tidy h
  rintro p rfl
  exact h.boxes_lt p hbox

theorem tidy_setAsset (hs : e.Sound w) (hidle : e.graph.outbox = []) (h : e.scene.Tidy) (id : Id)
    (path : Option String) : (e.setAsset id path).2.scene.Tidy := by
  apply setAsset_keeps (P := fun e => e.scene.Tidy) hidle h
  intro kind id output old index s hn hs'
  have hmoves : Scene.Moves (fun _ => False) (· = output) e.scene (s.write output (.int index)) :=
    (Scene.moves_resolveAsset hs').tail (.write _ rfl)
  apply hmoves.tidy h
  rintro p rfl
  exact hs.owns_lt hn (UiNode.owns_output (List.mem_singleton.2 rfl))

theorem tidy_setShape (hs : e.Sound w) (hidle : e.graph.outbox = []) (h : e.scene.Tidy) (id : Id)
    (shape : PrimitiveShape) : (e.setShape id shape).2.scene.Tidy := by
  apply setShape_keeps (P := fun e => e.scene.Tidy) hidle h
  intro id output old index s hn hs'
  have hmoves : Scene.Moves (fun _ => False) (· = output) e.scene (s.write output (.int index)) :=
    (Scene.moves_resolvePrimitive hs').tail (.write _ rfl)
  apply hmoves.tidy h
  rintro p rfl
  exact hs.owns_lt hn (UiNode.owns_output (List.mem_singleton.2 rfl))

theorem tidy_evaluate (hs : e.Sound w) (h : e.scene.Tidy) : e.evaluate.2.scene.Tidy := by
  obtain ⟨w', hs', _⟩ := carries_evaluate e w hs
  have he := hs.evaluated
  have hgraph : e.evaluate.2.scene.graph = e.scene.graph := he.graph
  constructor
  · rw [hgraph]
    exact h.ordered
  · intro p hp
    obtain ⟨n, hn, hmem⟩ := (hs'.box_iff_mem p).1 hp
    exact hs'.owns_lt hn (List.mem_cons_of_mem _ hmem)
  · intro p n v x hn hdir hv
    rw [hgraph] at hn
    rw [show e.evaluate.2.scene.values.get? p = e.scene.values.get? p from he.box p ?_] at hv
    · exact h.mirrors p n v x hn hdir hv
    · -- an input is nobody's output
      intro m hm hres
      obtain ⟨owner, kind, hin⟩ := hs.input_of_direction hn hdir
      have hout := (hs.casts.plays m hm).output (m.results_subset hres)
      rw [hin] at hout
      cases hout

theorem Reached.tidy (h : Reached e) : e.scene.Tidy := by
  have hempty (services : Services) : Scene.Tidy { services } := by
    constructor
    · exact .empty
    · intro p hp
      simp at hp
    · intro p n v x hn
      simp [Graph.node?, Graph.empty] at hn
  induction h with
  | new services settings => exact hempty services
  | @step e hr op served ih =>
      obtain ⟨w, hs⟩ := hr.sound
      have hidle := hr.outbox
      cases op with
      | addNode kind =>
          have hmade := tidy_create ih kind
          apply addNode_keeps (P := fun e => e.scene.Tidy) hidle
          · intro err s hx
            rwa [hx] at hmade
          · intro n s hx
            rwa [hx] at hmade
      | removeNode id => exact tidy_removeNode hs ih served
      | link a b => exact tidy_link hs ih served
      | unlink edge => exact tidy_unlink hs ih served
      | setRoot root => exact setRoot_keeps (P := fun e => e.scene.Tidy) ih fun _ => ih
      | setPin pin v => exact tidy_setPin ih pin v
      | setAsset id path => exact tidy_setAsset hs hidle ih id path
      | setShape id shape => exact tidy_setShape hs hidle ih id shape
      | setColor id color =>
          exact setColor_keeps (P := fun e => e.scene.Tidy) hidle ih fun _ _ => ih
      | setLens id fov aspect near far =>
          exact setLens_keeps (P := fun e => e.scene.Tidy) hidle ih fun _ _ => ih
      | reloadShader shader =>
          apply lasting_tidy.reloadShader hs ih served
          exact fun l _ => ⟨ih.ordered.withOutbox _, ih.boxes_lt, ih.mirrors⟩
      | update dt => exact lasting_tidy.apply_update hs ih served
      | evaluate => exact tidy_evaluate hs ih
      | frame dt =>
          obtain ⟨w', hs', _⟩ := carries_update served w hs
          exact tidy_evaluate hs' (lasting_tidy.apply_update hs ih served)
      | serve services => exact ⟨ih.ordered, ih.boxes_lt, ih.mirrors⟩
      | clear => exact hempty _

end Editor

end DrawGraph
