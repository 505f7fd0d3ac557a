import DrawGraph.Proofs.Editor.DrawCalls
import DrawGraph.Proofs.Editor.Rendering
import DrawGraph.Proofs.Editor.WellFormed
import DrawGraph.Proofs.UiNode.Load

/-!
# Draw nodes that are on show

A draw node is on show when its shader and its model are linked to indices and the root takes in
what it gives. Nothing that a frame does changes what this rests on. So every frame succeeds, the
render target is ready after it, and there is one draw call.
-/

namespace DrawGraph

open Evaluation Machine Wiring

theorem Graph.Postorder.congr {g g' : Graph} (hneighbors : ∀ p, g'.neighbors p = g.neighbors p)
    {ns order : List Id} (h : g.Postorder ns order) : g'.Postorder ns order := by
  induction h with
  | nil => exact .nil
  | cons _ _ ihBelow ihBeside => exact .cons (hneighbors _ ▸ ihBelow) ihBeside

/-! ## Taking over what is linked -/

/-- A draw node whose shader pin is linked to an index finds this index there. -/
theorem Draw.indexIn_foldl_pull {w : Wiring} {d : Draw} {s : Scene} {o : Id} {index : Int32}
    (hw : Wired w s.graph s.values) (hd : (UiNode.draw d).Plays w)
    (hlink : s.graph.neighbors d.shader = [o]) (ho : s.values.get? o = some (.int index)) :
    ((UiNode.draw d).inputs.foldl Scene.pull s).indexIn d.shader = index := by
  have hmoves : Scene.Moves (· = d.id) (· ∈ (UiNode.draw d).inputs.tail) (s.pull d.shader)
      ((UiNode.draw d).inputs.foldl Scene.pull s) := Scene.moves_foldl_pull _ fun _ hp => hp
  have hbox := (spares_shader hw hd hmoves).box
  rw [box_pull_shader hw hd hlink ho rfl] at hbox
  unfold Scene.indexIn
  rw [hbox]

namespace UiNode

/-- A UI node that is bound to the shader it finds, if it is a draw node, stays what it is. -/
theorem onUpdate_of_bound {n : UiNode} {s : Scene} (clock : Clock)
    (hbound : ∀ d, n = draw d → (n.inputs.foldl Scene.pull s).indexIn d.shader = d.bound) :
    (n.onUpdate clock s).1 = n ∧ Scene.Refills n.pins s (n.onUpdate clock s).2 := by
  cases n with
  | time id output =>
      exact ⟨rfl, Scene.refills_write (List.mem_singleton_self output) s (.float clock.elapsed)⟩
  | draw d =>
      have hrefills := (Scene.refills_foldl_pull (draw d).inputs s).mono
        (List.subset_append_left (draw d).inputs (draw d).outputs)
      unfold onUpdate
      dsimp only
      rw [hbound d rfl]
      simp only [if_true, ite_self, true_and]
      exact hrefills
  | _ => exact ⟨rfl, (Scene.refills_foldl_pull _ s).mono (List.subset_append_left _ _)⟩

theorem served_of_bound {n : UiNode} {s : Scene}
    (hbound : ∀ d, n = draw d → (n.inputs.foldl Scene.pull s).indexIn d.shader = d.bound) :
    n.UpdateServed s := fun d hd _ hne => absurd (hbound d hd) hne

/-- A stored value is given as it is. -/
theorem effect_stored {n : UiNode} {o : Id} (ho : o ∈ n.outputs) (hres : o ∉ n.results)
    {values : ValueStore} {v : Value} (hv : values.get? o = some v) (site : Site)
    (vs : List Value) : n.effect site values vs = .ok (.gives v) := by
  cases n with
  | constant kind id output loaded =>
      rw [List.mem_singleton.1 ho] at hv
      simp only [effect, constantValue, hv, Option.getD_some]
      rfl
  | asset kind id output path =>
      rw [List.mem_singleton.1 ho] at hv
      simp only [effect, hv, Option.getD_some]
      rfl
  | primitive id output shape =>
      rw [List.mem_singleton.1 ho] at hv
      simp only [effect, hv, Option.getD_some]
      rfl
  | _ => exact absurd ho hres

end UiNode

/-- The constants of a draw call are named as the inputs are. -/
theorem Draw.Calls.map_bindings {d : Draw} {vs : List Value} {c : DrawCall} (h : d.Calls vs c)
    (hlen : vs.length = 2 + d.bindings.length) :
    c.bindings.map (fun b => (b.name, b.type)) = d.bindings.map fun b => (b.name, b.type) := by
  obtain ⟨constants, htakes, rfl⟩ := h
  have hnames : ∀ {ps : List (Binding × Value)} {ks : List Constant},
      List.Forall₂ (fun p k => Constant.Takes k p.1 p.2) ps ks →
        ks.map (fun b => (b.name, b.type)) = (ps.map Prod.fst).map fun b => (b.name, b.type) := by
    intro ps ks h
    induction h with
    | nil => rfl
    | cons h _ ih => rw [List.map_cons, List.map_cons, List.map_cons, ih, h.name, h.type]
  have hfst : (d.bindings.zip (vs.drop 2)).map Prod.fst = d.bindings :=
    List.map_fst_zip (by rw [List.length_drop]; omega)
  exact (hnames htakes).trans (congrArg _ hfst)

namespace Editor

variable {w : Wiring} {e e' : Editor} {n : UiNode} {d : Draw} {i o p t : Id} {index : Int32}
  {v : Value} {visits : Nat}

/-! ## What a pin gives -/

/-- A pin gives what it leads to gives. -/
theorem Gives.through {k : Node} (hk : e.graph.node? p = some k) (hpin : k.direction.isPin)
    (hlink : e.graph.neighbors p = [t]) (h : e.Gives [t] [v]) : e.Gives [p] [v] :=
  .cons (hlink ▸ h) (effectAt_pin hk hpin) rfl .nil

theorem WellFormed.gives_output (h : e.WellFormed) (hn : n ∈ e.nodes) (ho : o ∈ n.outputs)
    (hv : e.Gives [n.id] [v]) : e.Gives [o] [v] := by
  obtain ⟨k, hk, hdir⟩ := Option.map_eq_some_iff.1 (h.output n hn o ho)
  exact .through hk (by rw [hdir]; rfl) (h.neighbors_output n hn o ho) hv

theorem WellFormed.gives_input (h : e.WellFormed) (hn : n ∈ e.nodes) (hi : i ∈ n.inputs)
    (hlink : e.graph.neighbors i = [o]) (hv : e.Gives [o] [v]) : e.Gives [i] [v] := by
  obtain ⟨k, hk, hdir⟩ := Option.map_eq_some_iff.1 (h.input n hn i hi)
  exact .through hk (by rw [hdir]; rfl) hlink hv

theorem Gives.of_cons {ps : List Id} {vs : List Value} (h : e.Gives (p :: ps) vs)
    (hv : e.Gives [p] [v]) : ∃ us, vs = v :: us ∧ e.Gives ps us := by
  cases h with
  | cons below effect value beside =>
      have hone := (Gives.cons below effect value .nil).unique hv
      rw [List.singleton_inj.1 hone]
      exact ⟨_, rfl, beside⟩

theorem Held.gives_indicated {tight : Prop} (h : e.Held tight w) (htables : e.WellFormed)
    (ho : e.Indicates o index) : e.Gives [o] [.int index] := by
  obtain ⟨⟨n, hn, hout, hres⟩, hbox⟩ := ho
  obtain ⟨type, heffect⟩ := h.effectAt_node hn
  have hbelow : e.Gives (e.graph.neighbors n.id) [] := by
    rw [htables.neighbors_identity n hn, inputs_of_stored hout hres]
    exact .nil
  have hgives : e.effectAt n.id [] = .ok (.gives (.int index)) :=
    (heffect []).trans (UiNode.effect_stored hout hres hbox _ _)
  exact htables.gives_output hn hout (.cons hbelow hgives rfl .nil)

/-! ## Draw nodes on show -/

/-- The walk down from the ids makes this many visits. -/
def Descends (e : Editor) (ids : List Id) (visits : Nat) : Prop :=
  ∃ order, e.graph.Postorder ids order ∧ order.length = visits

/-- The only draw node of an editor is taken in by its root, and linked to a shader and a model. No
UI node computes numbers of which it is not known whether they are integers. -/
structure Staged (d : Draw) (visits : Nat) (e : Editor) : Prop where
  sound : ∃ w, e.Sound w
  tidy : e.scene.Tidy
  idle : e.graph.outbox = []
  draw_iff : ∀ d', .draw d' ∈ e.nodes ↔ d' = d
  plain : ∀ n ∈ e.nodes, n.offer ≠ .number
  shader : 0 ≤ d.bound ∧ ∃ o, e.graph.neighbors d.shader = [o] ∧ e.Indicates o d.bound
  model : ∃ index, 0 ≤ index ∧ ∃ o, e.graph.neighbors d.model = [o] ∧ e.Indicates o index
  root : ∃ t input ready, .renderTarget t input ready ∈ e.nodes ∧ e.root = some t ∧
    e.graph.neighbors input = [d.output] ∧ e.Descends [t] visits
  limit : visits ≤ e.settings.maxVisits

/-- One draw call carries a constant for each variable. -/
structure Shows (vars : List (String × BindingType)) (visits : Nat) (report : EvalReport) :
    Prop where
  ready : report.ready = some true
  visited : report.visited = visits
  call : ∃ c, report.calls = [c] ∧ c.bindings.map (fun b => (b.name, b.type)) = vars

/-- Without sums and products, no input is linked to something that it cannot take. -/
theorem Sound.not_misfed (hs : e.Sound w) (hplain : ∀ n ∈ e.nodes, n.offer ≠ .number) (id : Id) :
    ¬ w.Misfed e.graph id := by
  rintro ⟨_, _, _, pin, _, owner, kind, o, hpin, hlink, hint, hno⟩
  rcases hs.wired.aims pin _ hpin with hnil | ⟨o', home, offer, ho', hrole, _, k, hk, hfeeds⟩
  · rw [hlink] at hnil
    cases hnil
  obtain rfl := List.singleton_inj.1 (hlink.symm.trans ho')
  rcases hint.offer hrole with rfl | rfl
  · rw [show k = .int from hk] at hfeeds
    exact hno hfeeds
  · obtain ⟨ins, outs, hhome, hout⟩ := hs.wired.output_belongs hrole
    obtain ⟨n, hn, rfl⟩ := hs.casts.cast home _ _ hhome
    have hplays := hs.casts.plays n hn
    rw [hplays.identity] at hhome
    cases hhome
    rw [hplays.output hout] at hrole
    exact hplain n hn (Role.output.inj (Option.some.inj hrole)).2

namespace Staged

/-- What is on show stays so as long as links, stored boxes and UI nodes stay. -/
theorem of_same (h : e.Staged d visits) (hsound : ∃ w, e'.Sound w) (htidy : e'.scene.Tidy)
    (hidle : e'.graph.outbox = [])
    (hnodes : e'.nodes.map UiNode.unready = e.nodes.map UiNode.unready)
    (hneighbors : ∀ p, e'.graph.neighbors p = e.graph.neighbors p)
    (hbox : ∀ n ∈ e.nodes, ∀ o ∈ n.outputs, o ∉ n.results → e'.values.get? o = e.values.get? o)
    (hroot : e'.root = e.root) (hsettings : e'.settings = e.settings) : e'.Staged d visits := by
  have hfrom {n : UiNode} (hn : n ∈ e'.nodes) : ∃ k ∈ e.nodes, k.unready = n.unready := by
    have hmem := List.mem_map_of_mem (f := UiNode.unready) hn
    rw [hnodes] at hmem
    exact List.mem_map.1 hmem
  have hto {n : UiNode} (hn : n ∈ e.nodes) : ∃ k ∈ e'.nodes, k.unready = n.unready := by
    have hmem := List.mem_map_of_mem (f := UiNode.unready) hn
    rw [← hnodes] at hmem
    exact List.mem_map.1 hmem
  have hindicates {o : Id} {index : Int32} (ho : e.Indicates o index) : e'.Indicates o index := by
    obtain ⟨⟨n, hn, hout, hres⟩, hv⟩ := ho
    obtain ⟨k, hk, hsame⟩ := hto hn
    refine ⟨⟨k, hk, ?_, ?_⟩, (hbox n hn o hout hres).trans hv⟩
    · rw [← k.outputs_unready, hsame, n.outputs_unready]
      exact hout
    · rw [← k.results_unready, hsame, n.results_unready]
      exact hres
  have hlinked {p : Id} {index : Int32}
      (hp : ∃ o, e.graph.neighbors p = [o] ∧ e.Indicates o index) :
      ∃ o, e'.graph.neighbors p = [o] ∧ e'.Indicates o index := by
    obtain ⟨o, hlink, ho⟩ := hp
    exact ⟨o, (hneighbors p).trans hlink, hindicates ho⟩
  refine ⟨hsound, htidy, hidle, fun d' => ?_, fun n hn => ?_, ⟨h.shader.1, hlinked h.shader.2⟩, ?_,
    ?_, hsettings ▸ h.limit⟩
  · rw [← h.draw_iff]
    constructor
    · intro hd'
      obtain ⟨k, hk, hsame⟩ := hfrom hd'
      rwa [UiNode.unready_eq_draw.1 hsame] at hk
    · intro hd'
      obtain ⟨k, hk, hsame⟩ := hto hd'
      rwa [UiNode.unready_eq_draw.1 hsame] at hk
  · obtain ⟨k, hk, hsame⟩ := hfrom hn
    have hplain := h.plain k hk
    rwa [← k.offer_unready, hsame, n.offer_unready] at hplain
  · obtain ⟨index, hindex, hmodel⟩ := h.model
    exact ⟨index, hindex, hlinked hmodel⟩
  · obtain ⟨t, input, ready, hmem, htop, hlink, order, horder, hlen⟩ := h.root
    obtain ⟨k, hk, hsame⟩ := hto hmem
    obtain ⟨ready', rfl⟩ := unready_eq_renderTarget hsame
    exact ⟨t, input, ready', hk, hroot.trans htop, (hneighbors input).trans hlink, order,
      horder.congr hneighbors, hlen⟩

/-! ### Updates -/

theorem bound (h : e.Staged d visits) (hn : n ∈ e.nodes) :
    ∀ d', n = .draw d' → (n.inputs.foldl Scene.pull e.scene).indexIn d'.shader = d'.bound := by
  rintro d' rfl
  obtain ⟨w, hs⟩ := h.sound
  obtain rfl := (h.draw_iff d').1 hn
  obtain ⟨_, o, hlink, _, hbox⟩ := h.shader
  exact Draw.indexIn_foldl_pull hs.wired (hs.casts.plays _ hn) hlink hbox

theorem turn (h : e.Staged d visits) (hn : n ∈ e.nodes) :
    (e.act n (·.onUpdate e.clock)).Staged d visits := by
  obtain ⟨w, hs⟩ := h.sound
  have hplays := hs.casts.plays n hn
  obtain ⟨hsame, hrefills⟩ := UiNode.onUpdate_of_bound e.clock (h.bound hn)
  have hcarries : e.Carries (e.act n (·.onUpdate e.clock)) := carries_act hn fun w hs =>
    UiNode.onUpdate_acted hs.wired (hs.casts.plays n hn) e.clock
      (UiNode.served_of_bound (h.bound hn))
  obtain ⟨w', hs', _⟩ := hcarries w hs
  have hnodes : (e.act n (·.onUpdate e.clock)).nodes = e.nodes := by
    change e.nodes.map (fun m => if m.id = (n.onUpdate e.clock e.scene).1.id then
      (n.onUpdate e.clock e.scene).1 else m) = e.nodes
    rw [hsame]
    conv_rhs => rw [← List.map_id e.nodes]
    refine List.map_congr_left fun m hm => ?_
    split
    · next hid => exact hs.casts.eq_of_id hn hm hid.symm
    · rfl
  refine h.of_same ⟨w', hs'⟩ (tidy_act hs h.tidy hn (UiNode.moves_onUpdate ..))
    (hrefills.outbox.trans h.idle) (by rw [hnodes]) hrefills.neighbors ?_ rfl rfl
  intro k hk o ho hres
  exact UiNode.box_onUpdate h.tidy hs.wired hplays ((hs.casts.plays k hk).output ho)
    (hs.casts.notMem_results hk ho hres n hn)

theorem updateNode (h : e.Staged d visits) (id : Id) :
    e.NodeUpdateServed id ∧ (e.updateNode id).Staged d visits := by
  have hserved {limit : Nat} {e' : Editor} (hidle : e'.graph.outbox = []) :
      DrainServed limit e' := by
    cases limit with
    | zero => trivial
    | succ limit =>
        intro event g htake
        rw [Graph.takeEvent, hidle] at htake
        cases htake
  constructor
  · intro n hn
    have hmem := (node?_eq_some hn).1
    exact ⟨UiNode.served_of_bound (h.bound hmem), hserved (h.turn hmem).idle⟩
  · unfold Editor.updateNode
    split
    · exact h
    · next n hn =>
      have hturn := h.turn (node?_eq_some hn).1
      rwa [drain_of_outbox hturn.idle]

/-- An update finds all bound to what is linked to them, and leaves it so. -/
theorem update (h : e.Staged d visits) (dt : Float32) :
    e.UpdateServed dt ∧ (e.update dt).Staged d visits := by
  have htick : (e.tick dt).Staged d visits := by
    obtain ⟨w, hs⟩ := h.sound
    exact h.of_same ⟨w, hs.wired, hs.casts, hs.bus⟩ h.tidy h.idle rfl (fun _ => rfl)
      (fun _ _ _ _ _ => rfl) rfl rfl
  have hall : ∀ (ids : List Id) {e : Editor}, e.Staged d visits →
      Along NodeUpdateServed Editor.updateNode ids e ∧
        (ids.foldl Editor.updateNode e).Staged d visits := by
    intro ids
    induction ids with
    | nil => exact fun h => ⟨trivial, h⟩
    | cons id ids ih =>
        intro e h
        obtain ⟨hserved, hnext⟩ := h.updateNode id
        exact ⟨⟨hserved, (ih hnext).1⟩, (ih hnext).2⟩
  exact hall _ htick

/-! ### Evaluations -/

theorem complete (h : e.Staged d visits) (hheld : e.Held True w) {vs : List Value}
    (hvs : e.Gives (e.graph.neighbors d.id) vs) {c : DrawCall} (hc : d.Calls vs c) :
    c.isComplete ∧
      c.bindings.map (fun b => (b.name, b.type)) = d.bindings.map fun b => (b.name, b.type) := by
  obtain ⟨_, hs⟩ := h.sound
  have htables := hs.tables
  have hd := (h.draw_iff d).2 rfl
  obtain ⟨hbound, o, hshader, ho⟩ := h.shader
  obtain ⟨index, hindex, q, hmodel, hq⟩ := h.model
  have hinputs : e.graph.neighbors d.id = d.shader :: d.model :: d.bindings.map (·.pin) :=
    htables.neighbors_identity _ hd
  rw [hinputs] at hvs
  have hlen := hvs.length_eq
  obtain ⟨us, rfl, hrest⟩ := hvs.of_cons (htables.gives_input hd List.mem_cons_self hshader
    (hheld.gives_indicated htables ho))
  obtain ⟨us, rfl, _⟩ := hrest.of_cons (htables.gives_input hd
    (List.mem_cons_of_mem _ List.mem_cons_self) hmodel (hheld.gives_indicated htables hq))
  refine ⟨?_, hc.map_bindings (by simp at hlen ⊢; omega)⟩
  rw [hc.isComplete_eq]
  obtain ⟨_, _, rfl⟩ := hc
  exact decide_eq_true ⟨hbound, hindex⟩

/-- The draw node shows that its draw call was made. -/
theorem gives_shown (h : e.Staged d visits) (hheld : e.Held True w) {f : Effect}
    (hf : e.Does d.id f) {input : Id} (hinput : ∃ n ∈ e.nodes, input ∈ n.inputs)
    (hlink : e.graph.neighbors input = [d.output]) : e.Gives [input] [.float 1] := by
  obtain ⟨_, hs⟩ := h.sound
  have hd := (h.draw_iff d).2 rfl
  obtain ⟨n, hn, hi⟩ := hinput
  obtain ⟨us, hus, heffect⟩ := hf
  obtain ⟨c, hc, rfl⟩ := hheld.effect_of_draw hd heffect
  have hcomplete := (h.complete hheld hus hc).1
  have hone : e.Gives [d.id] [.float 1] :=
    .cons hus heffect (by rw [if_pos hcomplete]; rfl) .nil
  exact hs.tables.gives_input hn hi hlink
    (hs.tables.gives_output hd (List.mem_singleton_self d.output) hone)

theorem evaluate (h : e.Staged d visits) (hheld : e.Held True w) :
    ∃ report, e.evaluate = (.ok report, e.evaluate.2) ∧
      Shows (d.bindings.map fun b => (b.name, b.type)) visits report := by
  obtain ⟨w', hs⟩ := h.sound
  obtain ⟨t, input, old, htarget, htop, hlink, order, horder, rfl⟩ := h.root
  have htables := hs.tables
  have hd := (h.draw_iff d).2 rfl
  have hlive : e.graph.hasNode t := (htables.hasNode_iff t).2 ⟨_, htarget, Or.inl rfl⟩
  have hr := hs.reductionOrder_eq hlive horder h.limit
  obtain ⟨m, hrun⟩ : ∃ m, e.replayed order = (.ok (), m) := by
    have hensures := hs.walk_ensures hr
    cases hrun : e.replayed order with
    | mk r m =>
        cases r with
        | ok u => exact ⟨m, rfl⟩
        | error err =>
            obtain ⟨_, ⟨id, _, hmisfed⟩, _⟩ := hensures.of_error hrun
            exact absurd hmisfed (hs.not_misfed h.plain id)
  have hwroot : (w t).isSome := by
    rw [show w t = _ from (hheld.casts.plays _ htarget).identity]
    rfl
  have hreaches : e.graph.Leads t d.id := by
    have hstep : input ∈ e.graph.neighbors t := by
      rw [show e.graph.neighbors t = _ from htables.neighbors_identity _ htarget]
      exact List.mem_singleton_self _
    have hup : d.id ∈ e.graph.neighbors d.output := by
      rw [htables.neighbors_output _ hd d.output (List.mem_singleton_self _)]
      exact List.mem_singleton_self _
    have hinto : d.output ∈ e.graph.neighbors input := by
      rw [hlink]
      exact List.mem_singleton_self _
    exact .head hstep (.head hinto (.single hup))
  have hdid := horder.mem_iff_leads.2 hreaches
  obtain ⟨made, hmade, hcalls⟩ := hheld.calls_replayed hr hwroot hrun
  have hdraws : e.draws order = [d] := by
    refine List.perm_singleton.1 ((List.perm_ext_iff_of_nodup (e.nodup_draws order)
      (List.nodup_singleton d)).2 fun d' => ?_)
    rw [hheld.mem_draws_iff, h.draw_iff, List.mem_singleton, and_iff_left_of_imp]
    rintro rfl
    exact hdid
  obtain ⟨_, vs, hvs, hc⟩ := hmade d (by rw [hdraws]; exact List.mem_singleton_self d)
  obtain ⟨hcomplete, hnames⟩ := h.complete hheld hvs hc
  refine ⟨report m order.length, by rw [evaluate_of_order htop hr, hrun], ?_, rfl, made d, ?_,
    hnames⟩
  · obtain ⟨steps, f, htraces, rfl⟩ := hheld.replayed_ok hr hwroot hrun
    obtain ⟨g, hg⟩ := htraces.exists_mem hdid
    have hgives := h.gives_shown hheld (htraces.does _ hg)
      ⟨_, htarget, List.mem_singleton_self input⟩ hlink
    obtain ⟨us, hus, heffect⟩ := htraces.does (t, f) (List.mem_append_right _
      (List.mem_singleton_self _))
    rw [show e.graph.neighbors t = _ from htables.neighbors_identity _ htarget] at hus
    obtain rfl := hus.unique hgives
    obtain ⟨type, hnode⟩ := hheld.effectAt_node htarget
    rw [show e.effectAt t [.float 1] = _ from hnode _] at heffect
    obtain rfl := Except.ok.inj heffect
    rw [report, log_append]
    exact congrArg some (by decide : (Value.float 1).isNonzero = true)
  · rw [report, hcalls, hdraws, List.map_singleton, List.filter_cons_of_pos hcomplete]
    rfl

theorem evaluated (h : e.Staged d visits) : e.evaluate.2.Staged d visits := by
  obtain ⟨w, hs⟩ := h.sound
  obtain ⟨w', hs', _⟩ := carries_evaluate e w hs
  have he := hs.evaluated
  refine h.of_same ⟨w', hs'⟩ (tidy_evaluate hs h.tidy) ?_ he.nodes (fun p => ?_) ?_ he.root ?_
  · rw [he.graph]
    exact h.idle
  · rw [he.graph]
  · exact fun n hn o ho hres => he.box o (hs.casts.notMem_results hn ho hres)
  · exact settings_evaluate e

/-- A frame draws what is on show, and it is on show again after the frame. -/
theorem frame (h : e.Staged d visits) (htracked : Tracked e) (dt : Float32) :
    ∃ report e', e.frame dt = (.ok report, e') ∧
      Shows (d.bindings.map fun b => (b.name, b.type)) visits report ∧ e'.Staged d visits ∧
        Tracked e' := by
  obtain ⟨hserved, hupdated⟩ := h.update dt
  have hnext := htracked.step (.update dt) hserved fun _ heq => nomatch heq
  obtain ⟨w, hheld⟩ := hnext.reached.ran.held
  obtain ⟨report, heq, hshows⟩ := hupdated.evaluate hheld
  exact ⟨report, _, heq, hshows, hupdated.evaluated,
    hnext.step .evaluate trivial fun _ heq => nomatch heq⟩

end Staged

/-- Frame after frame succeeds, with a report of the kind. -/
def Runs (shows : EvalReport → Prop) (dt : Float32) : Nat → Editor → Prop
  | 0, _ => True
  | n + 1, e => ∃ report e', e.frame dt = (.ok report, e') ∧ shows report ∧ Runs shows dt n e'

/-- What is on show is drawn in every frame. -/
theorem Staged.runs (h : e.Staged d visits) (htracked : Tracked e) (dt : Float32) (n : Nat) :
    Runs (Shows (d.bindings.map fun b => (b.name, b.type)) visits) dt n e := by
  induction n generalizing e with
  | zero => trivial
  | succ n ih =>
      obtain ⟨report, e', hframe, hshows, hnext, htracked'⟩ := h.frame htracked dt
      exact ⟨report, e', hframe, hshows, ih hnext htracked'⟩

end Editor

end DrawGraph
