import DrawGraph.Editor.Assign
import DrawGraph.Proofs.Editor.Evaluate

/-!
# The operations of an editor

Every operation but loading keeps an editor sound and its inputs what they are, as long as no id is
refused on the way. The editors that such operations lead to are the reached ones; between
operations no event waits.
-/

namespace DrawGraph

open Wiring

/-- The operations on an editor other than loading. The services may be others at any time. -/
inductive Operation
  | addNode (kind : UiNodeKind)
  | removeNode (id : Id)
  | link (a b : Id)
  | unlink (edge : Id)
  | setRoot (root : Option Id)
  | setPin (pin : Id) (v : Value)
  | setAsset (id : Id) (path : Option String)
  | setShape (id : Id) (shape : PrimitiveShape)
  | setColor (id : Id) (color : Vec3)
  | setLens (id : Id) (fov aspect near far : Float32)
  | reloadShader (shader : Int32)
  | update (dt : Float32)
  | evaluate
  | frame (dt : Float32)
  | serve (services : Services)
  | clear

namespace Editor

/-- No id is refused while one UI node takes over what is linked to it. -/
def NodeUpdateServed (e : Editor) (id : Id) : Prop :=
  ∀ n, e.node? id = some n → n.UpdateServed e.scene ∧
    DrainServed drainLimit (e.act n (·.onUpdate e.clock))

def UpdateServed (e : Editor) (dt : Float32) : Prop :=
  Along NodeUpdateServed updateNode (e.nodes.map (·.id)) (e.tick dt)

instance (e : Editor) (id : Id) : Decidable (e.NodeUpdateServed id) :=
  match h : e.node? id with
  | none => isTrue fun n hn => by simp [h] at hn
  | some n => decidable_of_iff
      (n.UpdateServed e.scene ∧ DrainServed drainLimit (e.act n (·.onUpdate e.clock)))
      ⟨fun hn k hk => Option.some.inj (h.symm.trans hk) ▸ hn, fun hn => hn n h⟩

instance (e : Editor) (dt : Float32) : Decidable (e.UpdateServed dt) :=
  inferInstanceAs (Decidable (Along NodeUpdateServed updateNode _ _))

end Editor

namespace Operation

open Editor

def apply (e : Editor) : Operation → Editor
  | addNode kind => (e.addNode kind).2
  | removeNode id => (e.removeNode id).2
  | link a b => (e.link a b).2
  | unlink edge => (e.unlink edge).2
  | setRoot root => (e.setRoot root).2
  | setPin pin v => (e.setPin pin v).2
  | setAsset id path => (e.setAsset id path).2
  | setShape id shape => (e.setShape id shape).2
  | setColor id color => (e.setColor id color).2
  | setLens id fov aspect near far => (e.setLens id fov aspect near far).2
  | reloadShader shader => (e.reloadShader shader).2
  | update dt => e.update dt
  | evaluate => e.evaluate.2
  | frame dt => (e.frame dt).2
  | serve services => e.withServices services
  | clear => e.clear

/-- No id is refused in the course of an operation: neither to a new UI node nor to a draw node that
makes inputs for its shader. -/
def Served (e : Editor) : Operation → Prop
  | addNode kind => (e.addNode kind).1 ≠ .error (.graph .idSpaceExhausted)
  | removeNode id => ∀ n, e.node? id = some n →
      DrainServed drainLimit (e.dismiss n (n.onDelete.on e.scene).2)
  | link a b => ∀ edge e', e.makeLink a b = .ok (edge, e') → DrainServed drainLimit e'
  | unlink edge => ∀ found g, e.graph.eraseEdge edge = .ok (found, g) →
      DrainServed drainLimit (e.withGraph g)
  | reloadShader shader => ∀ l, e.scene.services.shaders.reload shader = .ok l →
      DrainServed drainLimit ((e.withServices { e.scene.services with shaders := l }).withGraph
        (e.graph.pushEvent (.shaderUpdated shader)))
  | update dt | frame dt => e.UpdateServed dt
  | _ => True

/-- What is asked of the result of an operation that succeeds. -/
def decidableOfOk {ε α : Type} {p : α → Prop} [DecidablePred p] :
    (r : Except ε α) → Decidable (∀ a, r = .ok a → p a)
  | .error _ => isTrue fun _ h => nomatch h
  | .ok a => decidable_of_iff (p a) ⟨fun h _ ha => Except.ok.inj ha ▸ h, fun h => h a rfl⟩

instance (e : Editor) : (op : Operation) → Decidable (op.Served e)
  | addNode kind =>
      match h : (e.addNode kind).1 with
      | .ok id => isTrue fun he => by simp [h] at he
      | .error err => decidable_of_iff (err ≠ .graph .idSpaceExhausted) (by
          rw [Served, h, ne_eq, ne_eq, Except.error.injEq])
  | removeNode id =>
      match h : e.node? id with
      | none => isTrue fun n hn => by simp [h] at hn
      | some n => decidable_of_iff
          (DrainServed drainLimit (e.dismiss n (n.onDelete.on e.scene).2))
          ⟨fun hn k hk => Option.some.inj (h.symm.trans hk) ▸ hn, fun hn => hn n h⟩
  | link a b =>
      have := decidableOfOk (p := fun r : Id × Editor => DrainServed drainLimit r.2) (e.makeLink a b)
      decidable_of_iff (∀ r, e.makeLink a b = .ok r → DrainServed drainLimit r.2) Prod.forall
  | unlink edge =>
      have := decidableOfOk (p := fun r : Edge × Graph => DrainServed drainLimit (e.withGraph r.2))
        (e.graph.eraseEdge edge)
      decidable_of_iff
        (∀ r, e.graph.eraseEdge edge = .ok r → DrainServed drainLimit (e.withGraph r.2)) Prod.forall
  | reloadShader shader => decidableOfOk (e.scene.services.shaders.reload shader)
  | update dt | frame dt => inferInstanceAs (Decidable (e.UpdateServed dt))
  | setRoot _ | setPin .. | setAsset .. | setShape .. | setColor .. | setLens .. | evaluate | serve _
  | clear => inferInstanceAs (Decidable True)

end Operation

/-- The editors that operations lead to from a new one, no id being refused. -/
inductive Editor.Reached : Editor → Prop
  | new (services : Services) (settings : EvalSettings) : Reached (.new services settings)
  | step {e : Editor} (h : Reached e) (op : Operation) (served : op.Served e) : Reached (op.apply e)

namespace Editor

variable {w : Wiring} {e : Editor}

/-! ## UI nodes come and go -/

theorem carries_addNode {kind : UiNodeKind} (hidle : e.graph.outbox = [])
    (h : (Operation.addNode kind).Served e) : e.Carries (e.addNode kind).2 := by
  intro w hs
  have hcreate := UiNode.create_ensures hs.wired kind
  have hquiet : ((UiNode.create kind).on e.scene).2.graph.outbox = e.graph.outbox :=
    UiNode.preserves_create kind e.scene
  rw [Operation.Served] at h
  unfold addNode at h ⊢
  cases hx : (UiNode.create kind).on e.scene with
  | mk r s =>
      cases r with
      | error err =>
          rw [hx] at h
          exact absurd (congrArg (fun err => Except.error (EditorError.graph err))
            (hcreate.of_error hx)) h
      | ok n =>
          rw [hx] at hquiet
          have hdrain := drain_of_outbox (e := e.enroll n s) (hquiet.trans hidle)
          dsimp only
          rw [hdrain]
          exact hs.enroll (hcreate.of_ok hx)

theorem carries_removeNode {id : Id} (h : (Operation.removeNode id).Served e) :
    e.Carries (e.removeNode id).2 := by
  unfold removeNode
  split
  · exact .refl e
  · next n hn =>
    intro w hs
    have hmem := (node?_eq_some hn).1
    obtain ⟨s, w', hdelete, hw', hrecast, hgone⟩ :=
      UiNode.onDelete_ok hs.wired (hs.casts.plays n hmem)
    have hserved := h n hn
    rw [hdelete] at hserved ⊢
    obtain ⟨w'', hs'', hlater⟩ := carries_drain hserved w' (hs.dismiss hmem hw' hrecast hgone)
    exact ⟨w'', hs'', hrecast.toLater.trans hlater⟩

/-! ## Links -/

theorem orient_eq_ok {a b input output : Id} (h : e.orient a b = .ok (input, output)) :
    (∃ n, e.graph.node? input = some n ∧ n.direction = .input) ∧
      ∃ n, e.graph.node? output = some n ∧ n.direction = .output := by
  unfold orient at h
  split at h
  · cases h
  · cases h
  · next m n hm hn =>
    split at h
    · cases h
    split at h
    · cases h
    split at h
    · cases h
    next hmpin hnpin hne =>
    by_cases hdir : m.direction = .input
    · rw [if_pos hdir] at h
      cases h
      refine ⟨⟨m, hm, hdir⟩, n, hn, ?_⟩
      cases hn' : n.direction <;> simp_all [Direction.isPin]
    · rw [if_neg hdir] at h
      cases h
      refine ⟨⟨n, hn, ?_⟩, m, hm, ?_⟩
      · cases hm' : m.direction <;> cases hn' : n.direction <;> simp_all [Direction.isPin]
      · cases hm' : m.direction <;> simp_all [Direction.isPin]

theorem pinKind_eq_ok {pin : Id} {k : ValueKind} (h : e.pinKind pin = .ok k) :
    ∃ v, e.values.get? pin = some v ∧ v.kind = k := by
  unfold pinKind ValueStore.fetch at h
  cases hv : e.values.get? pin with
  | none => simp [hv] at h
  | some v => exact ⟨v, rfl, by simpa [hv] using h⟩

theorem checkLink_eq_ok {input output : Id} (h : e.checkLink input output = .ok ()) :
    (∃ p q, e.ownerOf input = some p ∧ e.ownerOf output = some q ∧ p ≠ q) ∧
      (∃ k k', e.pinKind input = .ok k ∧ e.pinKind output = .ok k' ∧ k'.canFeed k) ∧
        e.graph.outDegree input = 0 ∧ e.graph.reaches output input = false := by
  simp only [checkLink, bind, Except.bind, throw, throwThe, MonadExceptOf.throw, pure,
    Except.pure] at h
  cases hp : e.ownerOf input with
  | none => simp [hp] at h
  | some p =>
  cases hq : e.ownerOf output with
  | none => simp [hp, hq] at h
  | some q =>
  by_cases hpq : p = q
  · simp [hp, hq, hpq] at h
  cases hk : e.pinKind input with
  | error err => simp [hp, hq, hpq, hk] at h
  | ok k =>
  cases hk' : e.pinKind output with
  | error err => simp [hp, hq, hpq, hk, hk'] at h
  | ok k' =>
  by_cases hfeed : k'.canFeed k
  swap
  · simp [hp, hq, hpq, hk, hk', hfeed] at h
  by_cases hdegree : e.graph.outDegree input > 0
  · simp [hp, hq, hpq, hk, hk', hfeed, hdegree] at h
  cases hreach : e.graph.reaches output input with
  | true => simp [hp, hq, hpq, hk, hk', hfeed, hdegree, hreach] at h
  | false => exact ⟨⟨p, q, rfl, rfl, hpq⟩, ⟨k, k', rfl, rfl, hfeed⟩, by omega, rfl⟩

theorem makeLink_eq_ok {a b edge : Id} {e' : Editor} (h : e.makeLink a b = .ok (edge, e')) :
    ∃ input output g, e.orient a b = .ok (input, output) ∧ e.checkLink input output = .ok () ∧
      e.graph.addEdge input output .external = .ok (edge, g) ∧ e' = e.withGraph g := by
  simp only [makeLink, bind, Except.bind, pure, Except.pure] at h
  cases ho : e.orient a b with
  | error err => simp [ho] at h
  | ok pins =>
  cases hc : e.checkLink pins.1 pins.2 with
  | error err => simp [ho, hc] at h
  | ok u =>
  cases hg : e.graph.addEdge pins.1 pins.2 .external with
  | error err => simp [ho, hc, hg, Except.mapError] at h
  | ok p =>
  simp only [ho, hc, hg, Except.mapError, Except.ok.injEq, Prod.mk.injEq] at h
  obtain ⟨rfl, rfl⟩ := h
  exact ⟨pins.1, pins.2, p.2, rfl, hc, hg, rfl⟩

/-- The owner of a pin is the UI node whose role it plays. -/
theorem Sound.ownerOf_eq (hs : e.Sound w) {pin owner home : Id} {r : Role} (hr : w pin = some r)
    (hhome : r.home pin = home) (h : e.ownerOf pin = some owner) : owner = home := by
  unfold ownerOf at h
  split at h
  · next hany =>
    obtain ⟨n, hn, hid⟩ := List.any_eq_true.1 hany
    obtain rfl : n.id = pin := by simpa using hid
    have hrole := (hs.casts.plays n hn).identity
    rw [hr] at hrole
    cases hrole
    exact (Option.some.inj h).symm.trans hhome
  · obtain ⟨n, hfind, rfl⟩ := Option.map_eq_some_iff.1 h
    have hplays := hs.casts.plays n (List.mem_of_find?_eq_some hfind)
    have hmem : pin ∈ n.pins := by simpa using List.find?_some hfind
    rcases List.mem_append.1 hmem with hin | hout
    · obtain ⟨kind, _, hrole⟩ := hplays.input hin
      rw [hr] at hrole
      cases hrole
      exact hhome
    · have hrole := hplays.output hout
      rw [hr] at hrole
      cases hrole
      exact hhome

theorem Sound.input_of_direction (hs : e.Sound w) {pin : Id} {n : Node}
    (hn : e.graph.node? pin = some n) (hdir : n.direction = .input) :
    ∃ owner kind, w pin = some (.input owner kind) := by
  cases hr : w pin with
  | none => simp [hs.wired.absent pin hr] at hn
  | some r =>
      obtain ⟨n', hn', hdesc⟩ := hs.wired.node pin r hr
      rw [hn] at hn'
      cases hn'
      cases r with
      | identity inputs outputs => simp [Role.Describes, hdir] at hdesc
      | input owner kind => exact ⟨owner, kind, rfl⟩
      | output owner offer => simp [Role.Describes, hdir] at hdesc

theorem Sound.output_of_direction (hs : e.Sound w) {pin : Id} {n : Node}
    (hn : e.graph.node? pin = some n) (hdir : n.direction = .output) :
    ∃ owner offer, w pin = some (.output owner offer) := by
  cases hr : w pin with
  | none => simp [hs.wired.absent pin hr] at hn
  | some r =>
      obtain ⟨n', hn', hdesc⟩ := hs.wired.node pin r hr
      rw [hn] at hn'
      cases hn'
      cases r with
      | identity inputs outputs => simp [Role.Describes, hdir] at hdesc
      | input owner kind => simp [Role.Describes, hdir] at hdesc
      | output owner offer => exact ⟨owner, offer, rfl⟩

theorem carries_makeLink {a b edge : Id} {e' : Editor} (h : e.makeLink a b = .ok (edge, e')) :
    e.Carries e' := by
  obtain ⟨input, output, g, horient, hcheck, hadd, rfl⟩ := makeLink_eq_ok h
  obtain ⟨⟨m, hm, hmdir⟩, n, hn, hndir⟩ := orient_eq_ok horient
  obtain ⟨⟨p, q, hp, hq, hpq⟩, ⟨k, k', hk, hk', hfeed⟩, hdegree, hreach⟩ := checkLink_eq_ok hcheck
  intro w hs
  obtain ⟨owner, kind, hinput⟩ := hs.input_of_direction hm hmdir
  obtain ⟨owner', offer, houtput⟩ := hs.output_of_direction hn hndir
  obtain rfl := hs.ownerOf_eq hinput rfl hp
  obtain rfl := hs.ownerOf_eq houtput rfl hq
  -- the kinds that were compared are those of the boxes
  have hfeeds : offer.Feeds kind := by
    obtain ⟨v, hv, rfl⟩ := pinKind_eq_ok hk
    obtain ⟨v', hv', rfl⟩ := pinKind_eq_ok hk'
    obtain ⟨u, hu, rfl⟩ := hs.wired.input_box hinput
    obtain ⟨u', hu', hadmits⟩ := hs.wired.output_box houtput
    rw [hv] at hu
    cases hu
    rw [hv'] at hu'
    cases hu'
    exact ⟨_, hadmits, hfeed⟩
  have hnil := hs.wired.consistent.outDegree_eq_zero_iff.1 hdegree
  have hlead : ¬ e.graph.Leads output input := by
    rw [← Graph.reaches_iff, hreach]
    simp
  obtain ⟨_, _, hedge⟩ := hs.wired.consistent.addEdge hadd
  have hwired := hs.wired.link hinput houtput (Ne.symm hpq) hfeeds hnil hlead hedge
  exact ⟨w, ⟨hwired, hs.casts, hs.bus⟩, ⟨fun _ _ _ _ hj => hj, hedge.nextId_le⟩⟩

theorem carries_link {a b : Id} (h : (Operation.link a b).Served e) : e.Carries (e.link a b).2 := by
  unfold link
  split
  · next edge e' hlink => exact (carries_makeLink hlink).trans (carries_drain (h edge e' hlink))
  · exact .refl e

theorem carries_unlink {edge : Id} (h : (Operation.unlink edge).Served e) :
    e.Carries (e.unlink edge).2 := by
  unfold unlink
  split
  · exact .refl e
  · next found hfound =>
    split
    · exact .refl e
    · next hext =>
      split
      · next g herase =>
        refine Carries.trans (fun w hs => ?_) (carries_drain (h _ g herase))
        obtain ⟨g', hg', herases⟩ := hs.wired.consistent.eraseEdge hfound
        rw [herase] at hg'
        cases hg'
        have hkind : found.kind = .external := by simpa [Edge.isExternal] using hext
        refine ⟨w, ⟨hs.wired.unlink hfound hkind herases, hs.casts, hs.bus⟩,
          fun _ _ _ _ hj => hj, ?_⟩
        exact herases.nextId ▸ UInt32.le_refl _
      · exact .refl e

/-! ## Values are set -/

theorem carries_setRoot (e : Editor) (root : Option Id) : e.Carries (e.setRoot root).2 := by
  unfold setRoot
  split
  · exact .of_wired rfl rfl (fun _ h => h) rfl
  · split
    · exact .of_wired rfl rfl (fun _ h => h) rfl
    · exact .refl e

theorem carries_setPin (e : Editor) (pin : Id) (v : Value) : e.Carries (e.setPin pin v).2 := by
  unfold setPin
  split
  · exact .refl e
  · next kind hkind =>
    split
    · next u hu =>
      obtain ⟨old, hold, rfl⟩ := pinKind_eq_ok hkind
      refine .of_wired rfl rfl (fun w hw => Scene.wired_write hw ?_) (Scene.nextId_write ..)
      have hbox := hw.box pin
      rw [hold] at hbox
      exact hbox.of_kind (Value.kind_of_coerce hu)
    · exact .refl e

theorem carries_withNode {α : Type} {id : Id} {expected : String}
    {f : UiNode → Option (Scene → α × UiNode × Scene)} (hidle : e.graph.outbox = [])
    (hf : ∀ n g, f n = some g → (g e.scene).2.2.graph.outbox = [] ∧
      ∀ w, Wired w e.graph e.values → n.Plays w →
        n.Acted w e.graph (g e.scene).2.1 (g e.scene).2.2) :
    e.Carries (e.withNode id expected f).2 := by
  unfold withNode
  split
  · exact .refl e
  · next n hn =>
    have hmem := (node?_eq_some hn).1
    split
    · rw [drain_of_outbox hidle]
      exact .refl e
    · next g hg =>
      obtain ⟨hout, hacted⟩ := hf n g hg
      generalize g e.scene = r at hout hacted ⊢
      obtain ⟨a, n', s⟩ := r
      intro w hs
      have hdrain := drain_of_outbox (e := ({ e with scene := s } : Editor).replace n') hout
      dsimp only
      rw [hdrain]
      exact hs.replace hmem (hacted w hs.wired (hs.casts.plays n hmem))

/-- An output whose box holds an index takes any other. -/
theorem acted_write_index {s s' : Scene} {n n' : UiNode} {out : Id} (index : Int32)
    (hw : Wired w s.graph s.values) (hs : s'.graph = s.graph ∧ s'.values = s.values)
    (hout : w out = some (.output n.id (.exactly .int))) (hid : n'.id = n.id)
    (hobserves : n'.observes = n.observes) (hplays : n'.Plays w) :
    n.Acted w s.graph n' (s'.write out (.int index)) := by
  have hw' : Wired w s'.graph s'.values := by rwa [hs.1, hs.2]
  refine ⟨hid, hobserves, ?_⟩
  rw [← hid]
  refine hplays.seated (Scene.wired_write hw' ?_) ?_
  · rw [hout]
    exact ⟨_, rfl, rfl⟩
  · rw [Scene.nextId_write, hs.1]
    exact UInt32.le_refl _

theorem carries_setAsset (hidle : e.graph.outbox = []) (id : Id) (path : Option String) :
    e.Carries (e.setAsset id path).2 := by
  apply carries_withNode hidle
  intro n g hg
  split at hg
  · next kind id output old =>
    cases hg
    have hs := Scene.graph_resolveAsset e.scene kind path
    refine ⟨by rw [Scene.outbox_write, hs.1]; exact hidle, fun w hw hn => ?_⟩
    exact acted_write_index _ hw hs (hn.output (List.mem_singleton.2 rfl)) rfl rfl hn
  · cases hg

theorem carries_setShape (hidle : e.graph.outbox = []) (id : Id) (shape : PrimitiveShape) :
    e.Carries (e.setShape id shape).2 := by
  apply carries_withNode hidle
  intro n g hg
  split at hg
  · next id output old =>
    cases hg
    have hs := Scene.graph_resolvePrimitive e.scene shape
    refine ⟨by rw [Scene.outbox_write, hs.1]; exact hidle, fun w hw hn => ?_⟩
    exact acted_write_index _ hw hs (hn.output (List.mem_singleton.2 rfl)) rfl rfl hn
  · cases hg

theorem carries_setColor (hidle : e.graph.outbox = []) (id : Id) (color : Vec3) :
    e.Carries (e.setColor id color).2 := by
  apply carries_withNode hidle
  intro n g hg
  split at hg
  · next d =>
    cases hg
    refine ⟨hidle, fun w hw hn => ⟨rfl, rfl, ?_⟩⟩
    exact UiNode.Plays.seated hn hw (UInt32.le_refl _)
  · cases hg

theorem carries_setLens (hidle : e.graph.outbox = []) (id : Id) (fov aspect near far : Float32) :
    e.Carries (e.setLens id fov aspect near far).2 := by
  apply carries_withNode hidle
  intro n g hg
  split at hg
  · next c =>
    cases hg
    refine ⟨hidle, fun w hw hn => ⟨rfl, rfl, ?_⟩⟩
    exact UiNode.Plays.seated hn hw (UInt32.le_refl _)
  · cases hg

/-! ## Frames -/

theorem carries_reloadShader {shader : Int32} (h : (Operation.reloadShader shader).Served e) :
    e.Carries (e.reloadShader shader).2 := by
  unfold reloadShader
  split
  · exact .refl e
  · next l hl =>
    refine Carries.trans ?_ (carries_drain (h l hl))
    exact .of_wired rfl rfl (fun w hw => hw.withOutbox _) rfl

theorem carries_updateNode {id : Id} (h : e.NodeUpdateServed id) : e.Carries (e.updateNode id) := by
  unfold updateNode
  split
  · exact .refl e
  · next n hn =>
    obtain ⟨hserved, hdrain⟩ := h n hn
    have hmem := (node?_eq_some hn).1
    refine Carries.trans (carries_act hmem fun w hs => ?_) (carries_drain hdrain)
    exact UiNode.onUpdate_acted hs.wired (hs.casts.plays n hmem) e.clock hserved

theorem carries_update {dt : Float32} (h : e.UpdateServed dt) : e.Carries (e.update dt) := by
  have htick : e.Carries (e.tick dt) := .of_wired rfl rfl (fun _ hw => hw) rfl
  exact htick.trans (carries_foldl (fun _ _ => carries_updateNode) h)

/-- Every operation but clearing keeps the inputs that there are. -/
theorem carries_apply {op : Operation} (hidle : e.graph.outbox = []) (h : op.Served e)
    (hop : op ≠ .clear) : e.Carries (op.apply e) := by
  cases op with
  | addNode kind => exact carries_addNode hidle h
  | removeNode id => exact carries_removeNode h
  | link a b => exact carries_link h
  | unlink edge => exact carries_unlink h
  | setRoot root => exact carries_setRoot e root
  | setPin pin v => exact carries_setPin e pin v
  | setAsset id path => exact carries_setAsset hidle id path
  | setShape id shape => exact carries_setShape hidle id shape
  | setColor id color => exact carries_setColor hidle id color
  | setLens id fov aspect near far => exact carries_setLens hidle id fov aspect near far
  | reloadShader shader => exact carries_reloadShader h
  | update dt => exact carries_update h
  | evaluate => exact carries_evaluate e
  | frame dt => exact (carries_update h).trans (carries_evaluate _)
  | serve services => exact carries_withServices e services
  | clear => exact absurd rfl hop

theorem sound_clear (e : Editor) : e.clear.Sound fun _ => none :=
  ⟨.empty, .empty, rfl⟩

/-! ## No event waits -/

theorem outbox_withNode {α : Type} {id : Id} {expected : String}
    {f : UiNode → Option (Scene → α × UiNode × Scene)} (hidle : e.graph.outbox = []) :
    (e.withNode id expected f).2.graph.outbox = [] := by
  unfold withNode
  split
  · exact hidle
  · split <;> exact outbox_drain _

theorem graph_invalidate (e : Editor) (id : Id) : (e.invalidate id).graph = e.graph := by
  unfold invalidate
  split <;> rfl

theorem graph_evaluate (e : Editor) : e.evaluate.2.graph = e.graph := by
  unfold evaluate
  split
  · rfl
  · dsimp only
    split
    · exact graph_invalidate _ _
    · rfl

theorem outbox_updateNode (hidle : e.graph.outbox = []) (id : Id) :
    (e.updateNode id).graph.outbox = [] := by
  unfold updateNode
  split
  · exact hidle
  · exact outbox_drain _

theorem outbox_update (hidle : e.graph.outbox = []) (dt : Float32) :
    (e.update dt).graph.outbox = [] := by
  have hfold : ∀ (ids : List Id) (e : Editor), e.graph.outbox = [] →
      (ids.foldl updateNode e).graph.outbox = [] := by
    intro ids
    induction ids with
    | nil => exact fun e he => he
    | cons id ids ih => exact fun e he => ih _ (outbox_updateNode he id)
  exact hfold _ _ hidle

theorem outbox_apply (hidle : e.graph.outbox = []) (op : Operation) :
    (op.apply e).graph.outbox = [] := by
  cases op with
  | addNode kind =>
      have hquiet : ((UiNode.create kind).on e.scene).2.graph.outbox = e.graph.outbox :=
        UiNode.preserves_create kind e.scene
      rw [Operation.apply, addNode]
      split
      · next hx =>
        rw [hx] at hquiet
        exact hquiet.trans hidle
      · exact outbox_drain _
  | removeNode id =>
      rw [Operation.apply, removeNode]
      split
      · exact hidle
      · exact outbox_drain _
  | link a b =>
      rw [Operation.apply, link]
      split
      · exact outbox_drain _
      · exact hidle
  | unlink edge =>
      rw [Operation.apply, unlink]
      split
      · exact hidle
      · split
        · exact hidle
        · split
          · exact outbox_drain _
          · exact hidle
  | setRoot root =>
      rw [Operation.apply, setRoot.eq_def]
      split
      · exact hidle
      · split <;> exact hidle
  | setPin pin v =>
      rw [Operation.apply, setPin]
      split
      · exact hidle
      · split
        · exact (Scene.outbox_write ..).trans hidle
        · exact hidle
  | setAsset id path => exact outbox_withNode hidle
  | setShape id shape => exact outbox_withNode hidle
  | setColor id color => exact outbox_withNode hidle
  | setLens id fov aspect near far => exact outbox_withNode hidle
  | reloadShader shader =>
      rw [Operation.apply, reloadShader]
      split
      · exact hidle
      · exact outbox_drain _
  | update dt => exact outbox_update hidle dt
  | evaluate =>
      rw [Operation.apply, graph_evaluate]
      exact hidle
  | frame dt =>
      rw [Operation.apply, frame, graph_evaluate]
      exact outbox_update hidle dt
  | serve services => exact hidle
  | clear => rfl

/-! ## Reached editors -/

theorem Reached.outbox (h : Reached e) : e.graph.outbox = [] := by
  induction h with
  | new services settings => rfl
  | step _ op _ ih => exact outbox_apply ih op

theorem Reached.sound (h : Reached e) : ∃ w, e.Sound w := by
  induction h with
  | new services settings => exact ⟨_, sound_clear (.new services settings)⟩
  | @step e h op served ih =>
      by_cases hop : op = .clear
      · subst hop
        exact ⟨_, sound_clear e⟩
      · obtain ⟨w, hs⟩ := ih
        obtain ⟨w', hs', _⟩ := carries_apply h.outbox served hop w hs
        exact ⟨w', hs'⟩

def built (ops : List Operation) : Editor := ops.foldl Operation.apply .new

theorem reached_built {ops : List Operation}
    (h : Along (fun e op => op.Served e) Operation.apply ops .new) : Reached (built ops) := by
  have hfold : ∀ {e : Editor}, Reached e → Along (fun e op => op.Served e) Operation.apply ops e →
      Reached (ops.foldl Operation.apply e) := by
    clear h
    induction ops with
    | nil => exact fun he _ => he
    | cons op ops ih => exact fun he hops => ih (.step he op hops.1) hops.2
  exact hfold (.new {} {}) h

theorem served_addNode {kind : UiNodeKind} (h : (e.addNode kind).1.isOk) :
    (Operation.addNode kind).Served e := by
  intro hrefused
  rw [hrefused] at h
  cases h

/-- Without observers a link asks for no ids. -/
theorem served_link {a b : Id} (h : e.bus = []) : (Operation.link a b).Served e := by
  intro edge e' hlink
  obtain ⟨input, output, g, _, _, _, rfl⟩ := makeLink_eq_ok hlink
  exact drainServed_of_bus drainLimit h

end Editor

end DrawGraph
