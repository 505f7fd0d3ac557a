import DrawGraph.Proofs.Editor.Lasting
import DrawGraph.Proofs.UiNode.Follow

/-!
# Draw nodes and the shaders of an editor

As long as the variables of a shader change only together with a reload of that shader, every draw
node has an input for each variable of the shader that it is bound to, and after an update those
whose shader pin is linked are bound to the shader whose index is in the pin's box.
-/

namespace DrawGraph

open Wiring

namespace Editor

variable {w : Wiring} {e : Editor} {d : Draw} {n : UiNode}

/-- Every draw node fits the shader that it is bound to. -/
def Fit (e : Editor) : Prop := ∀ d, .draw d ∈ e.nodes → d.Fits e.scene

theorem mem_replace {m : UiNode} (h : m ∈ (e.replace n).nodes) :
    m = n ∨ m ∈ e.nodes ∧ m.id ≠ n.id := by
  obtain ⟨k, hk, rfl⟩ := List.mem_map.1 h
  by_cases hid : k.id = n.id
  · simp [hid]
  · simp [hid, hk]

theorem mem_act {f : UiNode → Scene → UiNode × Scene} {m : UiNode} (h : m ∈ (e.act n f).nodes) :
    m = (f n e.scene).1 ∨ m ∈ e.nodes ∧ m.id ≠ (f n e.scene).1.id :=
  mem_replace h

theorem act_eq_self {f : UiNode → Scene → UiNode × Scene}
    (hn : ∀ m ∈ e.nodes, m.id = n.id → m = n) (hf : f n e.scene = (n, e.scene)) :
    e.act n f = e := by
  have hnodes : e.nodes.map (fun m => if m.id = n.id then n else m) = e.nodes := by
    conv_rhs => rw [← List.map_id e.nodes]
    apply List.map_congr_left
    intro m hm
    split
    · next hid => exact (hn m hm hid).symm
    · rfl
  rw [act, hf]
  dsimp only [replace]
  rw [hnodes]

theorem fit_replace (h : e.Fit) {s : Scene}
    (hshaders : s.services.shaders = e.scene.services.shaders)
    (hn : ∀ d, n = .draw d → d.Fits s) : (({ e with scene := s } : Editor).replace n).Fit := by
  intro d hd
  rcases mem_replace hd with rfl | ⟨hd, _⟩
  · exact hn d rfl
  · exact (h d hd).of_shaders hshaders

theorem fit_event (h : e.Fit) (hn : n ∈ e.nodes) {event : Event}
    (hserved : n.EventServed event e.scene) : (e.act n (·.onEvent event)).Fit := by
  apply fit_replace h (n.moves_onEvent event e.scene).shaders
  intro d hd
  obtain ⟨d₀, rfl, rfl⟩ := UiNode.eq_draw_of_onEvent hd
  exact (h d₀ hn).onEvent (hserved d₀ rfl)

theorem fit_onUpdate (h : e.Fit) (hn : n ∈ e.nodes) (hserved : n.UpdateServed e.scene) :
    (e.act n (·.onUpdate e.clock)).Fit := by
  apply fit_replace h (n.moves_onUpdate e.clock e.scene).shaders
  intro d hd
  obtain ⟨d₀, rfl⟩ := UiNode.eq_draw_of_onUpdate hd
  exact UiNode.fits_onUpdate (h d₀ hn) hserved hd

theorem lasting_fit : Lasting (fun _ _ => True) Fit := by
  apply Lasting.of_reactions
  · exact fun _ h => h
  · exact fun _ h => h
  · exact fun _ _ h hn hserved => fit_event h hn hserved
  · exact fun _ h hn hserved => fit_onUpdate h hn hserved

/-! ## Shaders that are declared anew -/

theorem vars_reload {l l' : ShaderLibrary} {shader : Int32} (h : l.reload shader = .ok l')
    (i : Int32) : l'.vars i = l.vars i := by
  unfold ShaderLibrary.reload at h
  split at h
  · cases h
    unfold ShaderLibrary.vars atIndex?
    by_cases hi : i < 0
    · simp only [hi, if_true]
    · simp only [hi, if_false, List.getElem?_modify]
      cases l.shaders[i.toInt.toNat]? with
      | none => simp
      | some s =>
          rw [Option.map_eq_map, Option.map_some]
          dsimp only
          split <;> rfl
  · cases h

theorem ofNat_toNat_of_nonneg {i : Int32} (h : ¬ i < 0) : Int32.ofNat i.toInt.toNat = i := by
  have hnat : 0 ≤ i.toInt := by
    rw [Int32.not_lt] at h
    exact Int32.le_iff_toInt_le.1 h
  rw [← Int32.ofInt_eq_ofNat, Int.toNat_of_nonneg hnat, Int32.ofInt_toInt]

/-- Declaring a shader is no change for the others. -/
theorem vars_declare (l : ShaderLibrary) (path : String) (vars : List ShaderVar) {i : Int32}
    (hi : i ≠ (l.declare path vars).1) : (l.declare path vars).2.vars i = l.vars i := by
  unfold ShaderLibrary.declare at hi ⊢
  unfold ShaderLibrary.vars atIndex?
  by_cases hneg : i < 0
  · simp only [hneg, if_true]
  simp only [hneg, if_false]
  have hne (k : Nat) (hk : i ≠ .ofNat k) : k ≠ i.toInt.toNat := by
    rintro rfl
    exact hk (ofNat_toNat_of_nonneg hneg).symm
  cases hindex : l.indexOf? path with
  | some k =>
      simp only [hindex] at hi
      dsimp only
      rw [List.getElem?_modify_ne _ _ (hne k hi)]
  | none =>
      simp only [hindex] at hi
      have hlen := hne l.shaders.length hi
      dsimp only
      by_cases hlt : i.toInt.toNat < l.shaders.length
      · rw [List.getElem?_append_left hlt]
      · have hpast : (l.shaders ++ [(⟨path, vars, 0⟩ : Shader)]).length ≤ i.toInt.toNat := by
          rw [List.length_append, List.length_singleton]
          omega
        rw [List.getElem?_eq_none hpast, List.getElem?_eq_none (by omega)]

theorem reflected_reload {s : Scene} {l : ShaderLibrary} {shader : Int32}
    (h : s.services.shaders.reload shader = .ok l) (i : Int32) :
    Draw.reflected { s with services := { s.services with shaders := l } } i =
      Draw.reflected s i := by
  unfold Draw.reflected
  dsimp only
  rw [vars_reload h]

/-- Every draw node fits but those among `ids` that are bound to one shader. -/
def FitBeside (shader : Int32) (ids : List Id) (e : Editor) : Prop :=
  ∀ d, .draw d ∈ e.nodes → d.Fits e.scene ∨ d.bound = shader ∧ shader ≥ 0 ∧ d.id ∈ ids

/-- A draw node that hears of the shader fits it again. -/
theorem FitBeside.notify {shader : Int32} {id : Id} {ids : List Id}
    (h : FitBeside shader (id :: ids) e) (hserved : NotifyServed (.shaderUpdated shader) e id) :
    FitBeside shader ids (notify (.shaderUpdated shader) e id) := by
  unfold Editor.notify
  split
  · next n hn =>
    obtain ⟨hmem, hid⟩ := node?_eq_some hn
    have hshaders := (n.moves_onEvent (.shaderUpdated shader) e.scene).shaders
    intro d hd
    rcases mem_act hd with hnew | ⟨hd, hne⟩
    · obtain ⟨d₀, rfl, rfl⟩ := UiNode.eq_draw_of_onEvent hnew.symm
      refine Or.inl ?_
      rcases h d₀ hmem with hfit | ⟨rfl, hnat, _⟩
      · exact hfit.onEvent (hserved _ hn d₀ rfl)
      · have hsync := hserved _ hn d₀ rfl ⟨hnat, rfl⟩
        have hevent : d₀.onEvent e.scene (.shaderUpdated d₀.bound) = d₀.sync e.scene d₀.bound :=
          if_pos ⟨hnat, rfl⟩
        change (d₀.onEvent e.scene (.shaderUpdated d₀.bound)).1.Fits
          (d₀.onEvent e.scene (.shaderUpdated d₀.bound)).2
        rw [hevent]
        exact Draw.fits_sync hsync
    · rcases h d hd with hfit | ⟨hbound, hnat, hmem⟩
      · exact Or.inl (hfit.of_shaders hshaders)
      · rw [n.id_onEvent, hid] at hne
        exact Or.inr ⟨hbound, hnat, (List.mem_cons.1 hmem).resolve_left hne⟩
  · next hnone =>
    intro d hd
    refine (h d hd).imp_right fun ⟨hbound, hnat, hmem⟩ => ⟨hbound, hnat, ?_⟩
    refine (List.mem_cons.1 hmem).resolve_left fun hid => ?_
    have hfind : (e.node? id).isSome := List.find?_isSome.2 ⟨_, hd, beq_iff_eq.2 hid⟩
    rw [hnone] at hfind
    cases hfind

theorem FitBeside.deliver {shader : Int32} {ids : List Id} (h : FitBeside shader ids e)
    (hserved : Along (NotifyServed (.shaderUpdated shader))
      (Editor.notify (.shaderUpdated shader)) ids e) :
    (ids.foldl (Editor.notify (.shaderUpdated shader)) e).Fit := by
  induction ids generalizing e with
  | nil => exact fun d hd => (h d hd).resolve_right fun ⟨_, _, hmem⟩ => List.not_mem_nil hmem
  | cons id ids ih =>
      obtain ⟨hid, hrest⟩ := hserved
      exact ih (h.notify hid) hrest

theorem drain_of_takeEvent {event : Event} {g : Graph}
    (h : e.graph.takeEvent = some (event, g)) :
    e.drain = drainUpTo 4095 ((e.withGraph g).deliver event) := by
  change drainUpTo (4095 + 1) e = _
  rw [drainUpTo, h]

/-- When the variables of one shader changed, its reload brings the draw nodes bound to it up to
date. -/
theorem fit_redeclare (hs : e.Sound w) (hidle : e.graph.outbox = []) (h : e.Fit)
    {services : Services} {shader : Int32}
    (hothers : ∀ i, i ≠ shader →
      Draw.reflected { e.scene with services } i = Draw.reflected e.scene i)
    (hknown : (services.shaders.reload shader).isOk)
    (hserved : (Operation.reloadShader shader).Served (e.withServices services)) :
    ((e.withServices services).reloadShader shader).2.Fit := by
  unfold Editor.reloadShader
  split
  · next err herr =>
    rw [show services.shaders.reload shader = .error err from herr] at hknown
    cases hknown
  · next l hl =>
    have hreflected (i : Int32) (hi : i ≠ shader) : Draw.reflected { e.scene with
        services := { services with shaders := l } } i = Draw.reflected e.scene i :=
      (reflected_reload (s := { e.scene with services }) hl i).trans (hothers i hi)
    -- the event of the reload is the first to be delivered
    have htake : (e.graph.pushEvent (.shaderUpdated shader)).takeEvent =
        some (.shaderUpdated shader, { e.graph with outbox := [] }) := by
      simp [Graph.takeEvent, Graph.pushEvent, hidle]
    have hdrained : DrainServed (4095 + 1)
        ((e.withServices { services with shaders := l }).withGraph
          (e.graph.pushEvent (.shaderUpdated shader))) := hserved l hl
    obtain ⟨hdeliver, hrest⟩ := hdrained _ _ htake
    have htaken : ((e.withServices { services with shaders := l }).withGraph
        { e.graph with outbox := [] }).Sound w := ⟨hs.wired.withOutbox _, hs.casts, hs.bus⟩
    obtain ⟨w', hs', _⟩ := carries_foldl (fun _ _ => carries_notify) hdeliver w htaken
    have hbeside : FitBeside shader e.bus ((e.withServices { services with shaders := l }).withGraph
        { e.graph with outbox := [] }) := by
      intro d hd
      by_cases hbound : d.bound = shader
      · by_cases hnat : shader ≥ 0
        · refine Or.inr ⟨hbound, hnat, ?_⟩
          rw [hs.bus]
          exact List.mem_map.2 ⟨.draw d, List.mem_filter.2 ⟨hd, rfl⟩, rfl⟩
        · have hneg : d.bound < 0 := by rwa [hbound, ← Int32.not_le]
          refine Or.inl ((h d hd).trans ?_)
          rw [Draw.reflected_of_neg _ hneg, Draw.reflected_of_neg _ hneg]
      · exact Or.inl ((h d hd).trans (hreflected d.bound hbound).symm)
    have hdrain := drain_of_takeEvent
      (e := (e.withServices { services with shaders := l }).withGraph
        (e.graph.pushEvent (.shaderUpdated shader))) htake
    change (drain ((e.withServices { services with shaders := l }).withGraph
      (e.graph.pushEvent (.shaderUpdated shader)))).Fit
    rw [hdrain]
    exact lasting_fit.drainUpTo hs' (hbeside.deliver hdeliver) hrest

/-! ## Tracked editors -/

/-- The editors that operations lead to from a new one, no id being refused, while the variables of
a shader change only together with a reload of it. -/
inductive Tracked : Editor → Prop
  | new (services : Services) (settings : EvalSettings) : Tracked (.new services settings)
  | step {e : Editor} (h : Tracked e) (op : Operation) (served : op.Served e)
      (still : ∀ services, op = .serve services → ∀ i,
        Draw.reflected { e.scene with services } i = Draw.reflected e.scene i) :
      Tracked (op.apply e)
  | redeclare {e : Editor} (h : Tracked e) (services : Services) (shader : Int32)
      (others : ∀ i, i ≠ shader →
        Draw.reflected { e.scene with services } i = Draw.reflected e.scene i)
      (known : (services.shaders.reload shader).isOk)
      (served : (Operation.reloadShader shader).Served (e.withServices services)) :
      Tracked ((Operation.reloadShader shader).apply (e.withServices services))

theorem Tracked.reached (h : Tracked e) : Reached e := by
  induction h with
  | new services settings => exact .new services settings
  | step _ op served _ ih => exact .step ih op served
  | redeclare _ services shader _ _ served ih =>
      exact .step (.step ih (.serve services) trivial) (.reloadShader shader) served

theorem fit_evaluate (hs : e.Sound w) (h : e.Fit) : e.evaluate.2.Fit := by
  have he := hs.evaluated
  intro d hd
  have hmem : UiNode.draw d ∈ e.nodes.map UiNode.unready := by
    rw [← he.nodes]
    exact List.mem_map.2 ⟨_, hd, rfl⟩
  obtain ⟨n, hn, hunready⟩ := List.mem_map.1 hmem
  rw [UiNode.unready_eq_draw] at hunready
  subst hunready
  exact (h d hn).of_shaders he.shaders

theorem fit_apply (hs : e.Sound w) (hidle : e.graph.outbox = []) (h : e.Fit) {op : Operation}
    (served : op.Served e)
    (still : ∀ services, op = .serve services → ∀ i,
      Draw.reflected { e.scene with services } i = Draw.reflected e.scene i) :
    (op.apply e).Fit := by
  cases op with
  | addNode kind =>
      have hmoves : Scene.Moves (fun _ => True) (fun _ => False) e.scene
          ((UiNode.create kind).on e.scene).2 := UiNode.moves_create kind e.scene
      have hshaders := hmoves.shaders
      apply addNode_keeps hidle
      · intro err s hx
        rw [hx] at hshaders
        exact fun d hd => (h d hd).of_shaders hshaders
      · intro n s hx d hd
        rw [hx] at hshaders
        rcases List.mem_append.1 hd with hd | hd
        · exact (h d hd).of_shaders hshaders
        · have hnew := UiNode.returns_create kind e.scene n s hx
          obtain ⟨hbindings, hbound⟩ := hnew d (List.mem_singleton.1 hd).symm
          exact Draw.fits_nothing hbindings hbound
  | removeNode id =>
      apply lasting_fit.removeNode hs h served
      intro n _ d hd
      have hmoves : Scene.Moves (· = n.id) n.Owns e.scene (n.onDelete.on e.scene).2 :=
        n.moves_onDelete e.scene
      exact (h d (List.mem_of_mem_filter hd)).of_shaders hmoves.shaders
  | link a b => exact lasting_fit.link hs h served fun _ _ _ _ _ _ => h
  | unlink edge => exact lasting_fit.unlink hs h served fun _ _ _ _ => h
  | setRoot root => exact setRoot_keeps h fun _ => h
  | setPin pin v =>
      apply setPin_keeps h
      intro u _ d hd
      exact (h d hd).of_shaders (by rw [Scene.services_write])
  | setAsset id path =>
      apply setAsset_keeps hidle h
      intro kind id output old index s _ hfound
      have hmoves : Scene.Moves (fun _ => False) (fun _ => False) e.scene s :=
        Scene.moves_resolveAsset hfound
      apply fit_replace h
      · rw [Scene.services_write, hmoves.shaders]
      · rintro d ⟨⟩
  | setShape id shape =>
      apply setShape_keeps hidle h
      intro id output old index s _ hfound
      have hmoves : Scene.Moves (fun _ => False) (fun _ => False) e.scene s :=
        Scene.moves_resolvePrimitive hfound
      apply fit_replace h
      · rw [Scene.services_write, hmoves.shaders]
      · rintro d ⟨⟩
  | setColor id color =>
      apply setColor_keeps hidle h
      intro d hd
      apply fit_replace h rfl
      rintro _ ⟨⟩
      exact h d hd
  | setLens id fov aspect near far =>
      apply setLens_keeps hidle h
      intro c _
      apply fit_replace h rfl
      rintro d ⟨⟩
  | reloadShader shader =>
      apply lasting_fit.reloadShader hs h served
      exact fun l hl d hd => (h d hd).trans (reflected_reload hl d.bound).symm
  | update dt => exact lasting_fit.apply_update hs h served
  | evaluate => exact fit_evaluate hs h
  | frame dt =>
      obtain ⟨w', hs', _⟩ := carries_update served w hs
      exact fit_evaluate hs' (lasting_fit.apply_update hs h served)
  | serve services => exact fun d hd => (h d hd).trans (still services rfl d.bound).symm
  | clear => exact fun d hd => nomatch hd

theorem Tracked.fit (h : Tracked e) : e.Fit := by
  induction h with
  | new services settings => exact fun d hd => nomatch hd
  | step htracked op served still ih =>
      obtain ⟨w, hs⟩ := htracked.reached.sound
      exact fit_apply hs htracked.reached.outbox ih served still
  | redeclare htracked services shader others known served ih =>
      obtain ⟨w, hs⟩ := htracked.reached.sound
      exact fit_redeclare hs htracked.reached.outbox ih others known served

/-! ## The linked shader -/

/-- The draw nodes among `ids` are bound to the shaders that are linked to them. -/
def IndexedIn (ids : List Id) (e : Editor) : Prop :=
  e.scene.Tidy ∧ ∀ d, .draw d ∈ e.nodes → d.id ∈ ids → d.Indexed e.scene

theorem Sound.apart (hs : e.Sound w) (hd : .draw d ∈ e.nodes) : d.Apart e.scene := by
  have hnodup := (hs.casts.plays _ hd).nodup hs.wired.coherent
  simp only [UiNode.id, UiNode.pins, UiNode.inputs, List.cons_append, List.nodup_cons,
    List.mem_cons, List.mem_append, List.mem_map, not_or] at hnodup
  constructor
  · exact hs.owns_lt hd (UiNode.owns_input List.mem_cons_self)
  · exact fun b hb => hs.owns_lt hd (UiNode.owns_binding hb)
  · exact Ne.symm hnodup.1.1
  · intro b hb hpin
    exact hnodup.2.1.2.1 ⟨b, hb, hpin⟩

/-- What one UI node does leaves the pins of the others. -/
theorem Sound.spares_act (hs : e.Sound w) (htidy : e.scene.Tidy) (hn : n ∈ e.nodes) {m : UiNode}
    (hm : m ∈ e.nodes) (hne : m.id ≠ n.id) {pin : Id} (hpin : m.Owns pin) {s : Scene}
    (hmoves : Scene.Moves (· = n.id) n.Owns e.scene s) : Scene.Spares pin e.scene s := by
  obtain ⟨r, hr, hhome⟩ := (hs.casts.plays m hm).home_eq hpin
  have hother : ¬ n.Owns pin := by
    intro hown
    obtain ⟨r', hr', hhome'⟩ := (hs.casts.plays n hn).home_eq hown
    rw [hr] at hr'
    cases hr'
    exact hne (hhome.symm.trans hhome')
  refine hmoves.spares htidy.ordered.consistent (hs.owns_lt hm hpin) ?_ hother
  rintro rfl
  exact hother List.mem_cons_self

theorem indexed_of_spares {s : Scene} (h : d.Indexed e.scene)
    (hspares : Scene.Spares d.shader e.scene s) : d.Indexed s := by
  intro hlinked
  rw [Draw.indexIn_of_box hspares.box]
  exact h (Draw.linked_of_spares hspares hlinked)

theorem indexed_act {ids : List Id} {f : UiNode → Scene → UiNode × Scene} (hs : e.Sound w)
    (h : IndexedIn ids e) (hn : n ∈ e.nodes) (hid : (f n e.scene).1.id = n.id)
    (hmoves : Scene.Moves (· = n.id) n.Owns e.scene (f n e.scene).2)
    (hself : ∀ d, (f n e.scene).1 = .draw d → d.id ∈ ids → d.Indexed (f n e.scene).2) :
    IndexedIn ids (e.act n f) := by
  refine ⟨tidy_act hs h.1 hn hmoves, ?_⟩
  intro d hd hmem
  rcases mem_act hd with hnew | ⟨hd, hne⟩
  · exact hself d hnew.symm hmem
  · rw [hid] at hne
    apply indexed_of_spares (h.2 d hd hmem)
    exact hs.spares_act h.1 hn hd hne (UiNode.owns_input List.mem_cons_self) hmoves

theorem indexed_event {ids : List Id} (hs : e.Sound w) (h : IndexedIn ids e) (hn : n ∈ e.nodes)
    (event : Event) : IndexedIn ids (e.act n (·.onEvent event)) := by
  apply indexed_act hs h hn (n.id_onEvent event e.scene) (n.moves_onEvent event e.scene)
  intro d hd hmem
  have hid := n.id_onEvent event e.scene
  rw [hd] at hid
  obtain ⟨d₀, rfl, rfl⟩ := UiNode.eq_draw_of_onEvent hd
  have hmem₀ : (UiNode.draw d₀).id ∈ ids := by rwa [← hid]
  exact (h.2 d₀ hn hmem₀).onEvent (hs.apart hn) h.1 event

theorem indexed_onUpdate {ids : List Id} (hs : e.Sound w) (h : IndexedIn ids e) (hn : n ∈ e.nodes) :
    IndexedIn (n.id :: ids) (e.act n (·.onUpdate e.clock)) := by
  have hself : ∀ d, (n.onUpdate e.clock e.scene).1 = .draw d →
      d.Indexed (n.onUpdate e.clock e.scene).2 := by
    intro d hd
    obtain ⟨d₀, rfl⟩ := UiNode.eq_draw_of_onUpdate hd
    exact UiNode.indexed_onUpdate (hs.apart hn) h.1
      (fun p hp => hs.owns_lt hn (UiNode.owns_input hp)) hd
  have hacted : IndexedIn ids (e.act n (·.onUpdate e.clock)) :=
    indexed_act hs h hn (n.id_onUpdate e.clock e.scene) (n.moves_onUpdate e.clock e.scene)
      fun d hd _ => hself d hd
  refine ⟨hacted.1, fun d hd hmem => ?_⟩
  rcases List.mem_cons.1 hmem with hid | hmem
  · rcases mem_act hd with hnew | ⟨_, hne⟩
    · exact hself d hnew.symm
    · exact absurd (hid.trans (n.id_onUpdate e.clock e.scene).symm) hne
  · exact hacted.2 d hd hmem

theorem lasting_indexed (ids : List Id) : Lasting (fun _ _ => True) (IndexedIn ids) := by
  apply Lasting.of_reactions
  · exact fun _ h => ⟨⟨h.1.ordered.withOutbox _, h.1.boxes_lt, h.1.mirrors⟩, h.2⟩
  · exact fun _ h => h
  · exact fun event hs h hn _ => indexed_event hs h hn event
  · intro w e n hs h hn _
    have hmore := indexed_onUpdate hs h hn
    exact ⟨hmore.1, fun d hd hmem => hmore.2 d hd (List.mem_cons_of_mem _ hmem)⟩

/-- After an update every draw node is bound to the shader that is linked to it. -/
theorem indexed_update {dt : Float32} (hs : e.Sound w) (htidy : e.scene.Tidy)
    (hserved : e.UpdateServed dt) :
    ∀ d, .draw d ∈ (e.update dt).nodes → d.Indexed (e.update dt).scene := by
  have hall := Lasting.sweep lasting_indexed (fun hs h hn _ => indexed_onUpdate hs h hn) hs
    ⟨htidy, fun _ _ h => nomatch h⟩ hserved
  intro d hd
  apply hall.2 d hd
  have hnodes := (lasting_ids (e.nodes.map UiNode.id)).apply_update hs rfl hserved
  rw [List.mem_reverse, ← hnodes]
  exact List.mem_map.2 ⟨_, hd, rfl⟩

/-! ## Inputs for the variables of a shader -/

/-- The bindings of a draw node are the variables of the shader that it is bound to, each with a
live input of its own, and following a shader of the same variables changes none of this. -/
structure Follows (e : Editor) (d : Draw) : Prop where
  vars : d.bindings.map (fun b => (b.name, b.type)) = Draw.reflected e.scene d.bound
  nodup : (d.bindings.map (·.pin)).Nodup
  own : ∀ b ∈ d.bindings, ∀ n ∈ e.nodes, b.pin ∈ n.pins → n = .draw d
  live : ∀ b ∈ d.bindings, (e.graph.node? b.pin).map Node.direction = some .input
  boxed : ∀ b ∈ d.bindings, e.boxKind b.pin = some b.type.kind
  still : ∀ shader, Draw.reflected e.scene shader = Draw.reflected e.scene d.bound →
    d.sync e.scene shader = ({ d with bound := shader }, e.scene)

theorem Sound.follows (hs : e.Sound w) (hfit : e.Fit) (hd : .draw d ∈ e.nodes) : e.Follows d := by
  have hplays := hs.casts.plays _ hd
  have hinput {b : Binding} (hb : b ∈ d.bindings) :
      w b.pin = some (.input d.id b.type.kind) :=
    Seats.input hplays (b.pin, b.type.kind)
      (List.mem_cons_of_mem _ (List.mem_cons_of_mem _ (List.mem_map.2 ⟨b, hb, rfl⟩)))
  constructor
  · exact hfit d hd
  · have hnodup := (List.nodup_append.1 (hplays.nodup hs.wired.coherent).of_cons).1
    exact hnodup.of_cons.of_cons
  · intro b hb n hn hmem
    obtain ⟨r, hr, hhome⟩ := (hs.casts.plays n hn).home_eq (List.mem_cons_of_mem _ hmem)
    rw [hinput hb] at hr
    cases hr
    exact hs.casts.eq_of_id hn hd hhome.symm
  · exact fun b hb => hs.tables.input _ hd b.pin
      (List.mem_cons_of_mem _ (List.mem_cons_of_mem _ (List.mem_map.2 ⟨b, hb, rfl⟩)))
  · exact fun b hb => hs.boxKind_input (hinput hb)
  · exact fun shader hshader => if_pos (hshader.trans (hfit d hd).symm)

theorem Sound.box_of_indexed (hs : e.Sound w) (hd : .draw d ∈ e.nodes) (h : d.Indexed e.scene)
    (hlinked : e.graph.neighbors d.shader ≠ []) :
    e.values.get? d.shader = some (.int d.bound) := by
  have hrole := Seats.input (hs.casts.plays _ hd) (d.shader, .int) List.mem_cons_self
  obtain ⟨v, hv, hkind⟩ := hs.wired.input_box hrole
  rw [h hlinked, Scene.indexIn, show e.scene.values.get? d.shader = some v from hv, hv]
  cases v <;> first | rfl | cases hkind

/-- Draw nodes follow the shaders that are linked to them. -/
theorem Tracked.followsShaders (h : Tracked e) :
    (∀ d, .draw d ∈ e.nodes → e.Follows d) ∧
      ∀ dt, e.UpdateServed dt → ∀ d, .draw d ∈ (e.update dt).nodes →
        (e.update dt).graph.neighbors d.shader ≠ [] →
          (e.update dt).values.get? d.shader = some (.int d.bound) := by
  obtain ⟨w, hs⟩ := h.reached.sound
  refine ⟨fun d hd => hs.follows h.fit hd, fun dt hserved d hd hlinked => ?_⟩
  obtain ⟨w', hs', _⟩ := carries_update hserved w hs
  exact hs'.box_of_indexed hd (indexed_update hs h.reached.tidy hserved d hd) hlinked

/-- The library with a lamp of the given variables under index 1. -/
def lampLibrary (vars : List ShaderVar) : ShaderLibrary :=
  (({} : ShaderLibrary).declare "lamp" vars).2

/-- A draw node that is linked to the lamp. -/
def lit : Editor :=
  [.addNode .shader, .setAsset 0 (some "lamp"), .addNode .draw, .link 4 1].foldl Operation.apply
    (.new { shaders := lampLibrary [⟨"tint", "float3"⟩] })

/-- The lamp has got other variables, one of a type that no input takes. -/
def relit : Editor :=
  (Operation.reloadShader 1).apply (lit.withServices { lit.scene.services with
    shaders := (lit.scene.services.shaders.declare "lamp"
      [⟨"glow", "float"⟩, ⟨"map", "sampler"⟩]).2 })

theorem tracked_lit : Tracked lit := by
  have hnew : Tracked (.new { shaders := lampLibrary [⟨"tint", "float3"⟩] }) := .new _ _
  have hshader := hnew.step (.addNode .shader) (by decide +kernel) fun _ h => nomatch h
  have hasset := hshader.step (.setAsset 0 (some "lamp")) trivial fun _ h => nomatch h
  have hdraw := hasset.step (.addNode .draw) (by decide +kernel) fun _ h => nomatch h
  exact hdraw.step (.link 4 1) (by decide +kernel) fun _ h => nomatch h

theorem tracked_relit : Tracked relit := by
  apply tracked_lit.redeclare
  · intro i hi
    unfold Draw.reflected
    dsimp only
    rw [vars_declare]
    have hlamp : (lit.scene.services.shaders.declare "lamp"
        [⟨"glow", "float"⟩, ⟨"map", "sampler"⟩]).1 = 1 := by decide +kernel
    rwa [hlamp]
  · decide +kernel
  · decide +kernel

theorem follows_relit : Tracked relit ∧
    (∃ d, .draw d ∈ relit.nodes ∧ relit.Follows d ∧
      d.bindings.map (fun b => (b.name, b.type)) = [("glow", .float)]) ∧
    (relit.update 1).values.get? 4 = some (.int 1) := by
  have hd : .draw ⟨3, 4, 6, 8, #v[0, 0, 0], [⟨13, "glow", .float⟩], 1⟩ ∈ relit.nodes := by
    decide +kernel
  have hd' : .draw ⟨3, 4, 6, 8, #v[0, 0, 0], [⟨13, "glow", .float⟩], 1⟩ ∈
      (relit.update 1).nodes := by decide +kernel
  obtain ⟨hfollows, hupdate⟩ := tracked_relit.followsShaders
  exact ⟨tracked_relit, ⟨_, hd, hfollows _ hd, rfl⟩,
    hupdate 1 (by decide +kernel) _ hd' (by decide +kernel)⟩

end Editor

end DrawGraph
