import DrawGraph.Proofs.Host.Feeding
import DrawGraph.Proofs.Host.Services

/-!
# The demo graph

The demo graph of a configuration can be built as long as ids are left for it. Its draw node has an
input for each variable of the first shader and is linked throughout, so that every frame shows it.
-/

namespace DrawGraph

open DrawGraph.Graph

/-- A UI node that gives an index is added. -/
def Editor.Sketch.addIndexed (k : Editor.Sketch) (n : UiNode) (o : Id) (index : Int32) :
    Editor.Sketch :=
  { k with nodes := k.nodes ++ [n], indices := (o, index) :: k.indices, ids := k.ids + 3 }

/-- A pin is linked to an output of a UI node, and to nothing else. -/
def Editor.LinkedTo (e : Editor) (pin : Id) (n : UiNode) : Prop :=
  n ∈ e.nodes ∧ ∃ o ∈ n.outputs, e.graph.neighbors pin = [o]

namespace Demo

open Editor Editor.Sketch

variable {e e' : Editor} {k : Sketch} {c : HostConfig} {d : Draw} {n : UiNode} {i o pin : Id}
  {index : Int32}

/-! ## Assets and models -/

/-- An asset node is added and given its path. -/
theorem addAsset_on (h : k.Depicts e) (kind : AssetKind) (path : Option String)
    (hroom : k.ids + 3 ≤ lastId.toNat) (hresolve : ∀ s : Scene, s.services = e.scene.services →
      ∃ s', s.resolveAsset kind path = (index, s')) :
      ∃ id o e₁ e', ∃ s : Scene,
        (add (UiNode.asset kind 0 0 none).kind).on e = (.ok id, e₁) ∧
          e₁.setAsset id path = (.ok index, e') ∧ s.services = e.scene.services ∧
            e'.scene.services = (s.resolveAsset kind path).2.services ∧
              (k.addIndexed (.asset kind id o path) o index).Depicts e' := by
  have hids : (UiNode.asset kind 0 0 none).kind.ids = 3 := by cases kind <;> rfl
  have hcreate : UiNode.create (UiNode.asset kind 0 0 none).kind = UiNode.createAsset kind := by
    cases kind <;> rfl
  obtain ⟨n, s, hx, hkind, _, hadd, h₁⟩ := h.add (UiNode.asset kind 0 0 none).kind
    (hids.symm ▸ hroom)
  obtain ⟨id, o, old, rfl⟩ := UiNode.eq_asset_of_kind hkind
  have hservices : s.services = e.scene.services := by
    have hpreserves := UiNode.services_createAsset kind e.scene
    rwa [← hcreate, hx] at hpreserves
  obtain ⟨_, _, _, hindices⟩ := h.fresh h₁
  obtain ⟨s', hs'⟩ := hresolve s hservices
  obtain ⟨e', hset, hsame, h'⟩ := h₁.assign k.nodes rfl
    (fun p hp heq => hindices p hp (heq ▸ List.mem_singleton_self o)) hs'
  refine ⟨id, o, _, e', s, hadd, hset, hservices, by rw [hs', hsame], ?_⟩
  have hsketch : k.addIndexed (.asset kind id o path) o index = { k.add (.asset kind id o old) with
      nodes := k.nodes ++ [.asset kind id o path]
      indices := (o, index) :: k.indices } := by
    cases kind <;> rfl
  rw [hsketch]
  exact h'

/-- The kind of the UI node that gives the model. -/
def modelKind (c : HostConfig) : UiNodeKind := if c.models.isEmpty then .primitive else .model

theorem addModel_on (h : k.Depicts e) (hroom : k.ids + 3 ≤ lastId.toNat)
    (hservices : e.scene.services = Host.services c) : ∃ n o e',
      (addModel c).on e = (.ok n.id, e') ∧ n.kind = modelKind c ∧ n.outputs = [o] ∧
        (k.addIndexed n o 0).Depicts e' := by
  unfold addModel modelKind
  cases hmodels : c.models with
  | cons path paths =>
      have hhead : c.models.head? = some path := by rw [hmodels]; rfl
      obtain ⟨id, o, e₁, e', _, hadd, hset, _, _, h'⟩ := addAsset_on h .model (some path) hroom
        fun s hs => Host.resolveAsset_model hhead (hs.trans hservices)
      refine ⟨.asset .model id o (some path), o, e', ?_, rfl, rfl, h'⟩
      exact (Attempt.on_bind_of_ok hadd).trans (Attempt.on_bind_of_ok (setAsset_on hset))
  | nil =>
      obtain ⟨n, s, hx, hkind, _, hadd, h'⟩ := h.add .primitive hroom
      obtain ⟨id, o, rfl, hbox⟩ := UiNode.box_createPrimitive hx
      obtain ⟨s', hs'⟩ := Host.resolvePrimitive hservices .cube
      rw [hs'] at hbox
      have hmem : .primitive id o .cube ∈ (e.enroll (.primitive id o .cube) s).nodes :=
        List.mem_append_right _ (List.mem_singleton_self _)
      exact ⟨.primitive id o .cube, o, _, hadd, rfl, rfl,
        h'.note ⟨⟨_, hmem, List.mem_singleton_self o, List.not_mem_nil⟩, hbox⟩⟩

/-- A draw node is added and given its color. -/
theorem addDraw_on (h : k.Depicts e) (hroom : k.ids + 7 ≤ lastId.toNat) : ∃ d e₁ e',
    (add .draw).on e = (.ok d.id, e₁) ∧ e₁.setColor d.id color = (.ok (), e') ∧ d.bindings = [] ∧
      (k.add (.draw d)).Depicts e' := by
  obtain ⟨n, s, _, hkind, hbare, hadd, h₁⟩ := h.add .draw hroom
  obtain ⟨d, rfl⟩ := UiNode.eq_draw_of_kind hkind
  obtain ⟨e', hset, h'⟩ := h₁.setColor k.nodes rfl color
  exact ⟨{ d with color }, _, e', hadd, hset, hbare d rfl, h'⟩

/-! ## The UI nodes that every demo graph has -/

/-- What is done once these UI nodes are there. -/
def wire (c : HostConfig) (shader model draw target : Id) : Build Unit := do
  let pins ← drawOf draw
  link pins.shader (← output shader)
  link pins.model (← output model)
  discard ((← drawOf draw).bindings.foldlM (feed c) none)
  let drawn ← output draw
  link (← input target) drawn

def placed (c : HostConfig) (shader model target : UiNode) (d : Draw) (o q : Id) (index : Int32) :
    Sketch where
  nodes := [shader, model, .draw d, target]
  indices := [(q, 0), (o, index)]
  root := some target.id
  ids := 16
  shaders := (Host.services c).shaders
  settings := c.evaluation.toEvalSettings

/-- The shader and the model give indices. -/
structure Placed (c : HostConfig) (shader model target : UiNode) (o q : Id) (index : Int32) :
    Prop where
  shader : shader.kind = .shader ∧ shader.outputs = [o]
  model : model.kind = modelKind c ∧ model.outputs = [q]
  target : target.kind = .renderTarget
  nonneg : 0 ≤ index
  vars : Draw.reflected { services := { shaders := (Host.services c).shaders } } index = vars c

theorem place_on (c : HostConfig) : ∃ shader model target d o q index e,
    (build c).on (.new (Host.services c) c.evaluation.toEvalSettings) =
        (wire c shader.id model.id d.id target.id).on e ∧
      Placed c shader model target o q index ∧ d.bindings = [] ∧
        (placed c shader model target d o q index).Depicts e := by
  obtain ⟨index, hindex, hresolve⟩ := Host.resolveAsset_shader c
  have h₀ := Depicts.new (Host.services c) c.evaluation.toEvalSettings
  obtain ⟨id, o, e₁, e₂, s, hshader, hset, hs, hservices, h₂⟩ := addAsset_on h₀ .shader
    (c.shaders.head?.map (·.path)) (show 0 + 3 ≤ lastId.toNat by decide)
    fun s hs => ⟨s, (hresolve s (congrArg Services.shaders hs)).1⟩
  have hsame : e₂.scene.services = Host.services c := by
    rw [hservices, (hresolve s (congrArg Services.shaders hs)).1]
    exact hs
  obtain ⟨model, q, e₃, hmodel, hkind, hout, h₃⟩ := addModel_on h₂
    (show 3 + 3 ≤ lastId.toNat by decide) hsame
  obtain ⟨d, e₄, e₅, hdraw, hcolor, hbare, h₅⟩ := addDraw_on h₃
    (show 6 + 7 ≤ lastId.toNat by decide)
  obtain ⟨target, s', _, htarget, _, hadd, h₆⟩ := h₅.add .renderTarget
    (show 13 + 3 ≤ lastId.toNat by decide)
  obtain ⟨t, i, ready, rfl⟩ := UiNode.eq_renderTarget_of_kind htarget
  have hplaced : Placed c (.asset .shader id o (c.shaders.head?.map (·.path))) model
      (.renderTarget t i ready) o q index :=
    ⟨⟨rfl, rfl⟩, ⟨hkind, hout⟩, rfl, hindex, (hresolve _ rfl).2⟩
  refine ⟨_, _, _, d, o, q, index, _, ?_, hplaced, hbare, h₆⟩
  rw [build, Attempt.on_bind_of_ok (show (add .shader).on _ = _ from hshader),
    Attempt.on_bind_of_ok (setAsset_on hset), Attempt.on_bind_of_ok hmodel,
    Attempt.on_bind_of_ok hdraw,
    Attempt.on_bind_of_ok (show (Attempt.of (·.setColor d.id color)).on e₄ = _ from hcolor),
    Attempt.on_bind_of_ok (show (add .renderTarget).on e₅ = _ from hadd)]
  rfl

/-! ## Links to the shader and the model -/

section Links

variable {shader model target : UiNode} {q : Id} (hp : Placed c shader model target o q index)

/-- What is done once the draw node has its inputs. -/
def finish (c : HostConfig) (d : Draw) (target : Id) : Build Unit := do
  discard (d.bindings.foldlM (feed c) none)
  let drawn ← output d.id
  link (← input target) drawn

/-- The shader has been linked. -/
def shaded (c : HostConfig) (shader model target : UiNode) (d : Draw) (o q : Id) (index : Int32) :
    Sketch :=
  { placed c shader model target d o q index with
    links := [(d.shader, o)]
    ids := 17 + 2 * d.bindings.length }

/-- The model has been linked, too. -/
def joined (c : HostConfig) (shader model target : UiNode) (d : Draw) (o q : Id) (index : Int32) :
    Sketch :=
  (shaded c shader model target d o q index).link d.model q

theorem drawOf_on (h : k.Depicts e) (hd : .draw d ∈ k.nodes) : (drawOf d.id).on e = (.ok d, e) :=
  ofNode_on h hd rfl

/-- Index pins of the draw node may be linked to what gives indices. -/
theorem invites_index (hd : .draw d ∈ k.nodes) (hn : n ∈ k.nodes)
    (hgives : n.kind.gives? = some .int) (ho : n.outputs = [o])
    (hpin : pin = d.shader ∨ pin = d.model) (hfree : ∀ q, (pin, q) ∉ k.links)
    (hidle : ∀ l ∈ k.links, l.2 ≠ d.output) : k.Invites (.draw d) pin n o where
  consumer := hd
  producer := hn
  apart := by
    rintro rfl
    cases hgives
  output := ho ▸ List.mem_singleton_self o
  kinds := by
    refine ⟨.int, .int, ?_, (UiNode.gives_of_kind hgives).1, rfl⟩
    rcases hpin with rfl | rfl
    · exact List.mem_cons_self
    · exact List.mem_cons_of_mem _ List.mem_cons_self
  free := hfree
  idle l hl hmem := hidle l hl (List.mem_singleton.1 hmem)

theorem ne_draw_of_index (h : n.kind.gives? = some .int) : n.kind ≠ .draw := by
  intro hkind
  rw [hkind] at h
  cases h

theorem gives_modelKind (c : HostConfig) : (modelKind c).gives? = some .int := by
  unfold modelKind
  split <;> rfl

include hp

theorem Placed.gives : shader.kind.gives? = some .int ∧ model.kind.gives? = some .int :=
  ⟨by rw [hp.shader.1]; rfl, by rw [hp.model.1]; exact gives_modelKind c⟩

theorem Placed.draw_iff (d' d'' : Draw) :
    .draw d'' ∈ [shader, model, .draw d', target] ↔ d'' = d' := by
  have hne {n : UiNode} (hkind : n.kind ≠ .draw) : .draw d'' ≠ n := by
    rintro rfl
    exact hkind rfl
  simp only [List.mem_cons, List.not_mem_nil, or_false, UiNode.draw.injEq]
  rw [or_iff_right (hne (ne_draw_of_index hp.gives.1)),
    or_iff_right (hne (ne_draw_of_index hp.gives.2)), or_iff_left (hne (by rw [hp.target]; nofun))]

/-- The draw node gets its inputs when the shader is linked. -/
theorem shade_on (hbare : d.bindings = [])
    (h : (placed c shader model target d o q index).Depicts e)
    (hroom : 18 + 2 * (vars c).length ≤ lastId.toNat) : ∃ d' edge e',
      e.link d.shader o = (.ok edge, e') ∧ d'.id = d.id ∧ d'.model = d.model ∧ d'.bound = index ∧
        d'.bindings.map (fun b => (b.name, b.type)) = vars c ∧
          (shaded c shader model target d' o q index).Depicts e' ∧
            Unshown d' (shaded c shader model target d' o q index) := by
  have hvars : (placed c shader model target d o q index).vars index = vars c := hp.vars
  have hd : .draw d ∈ (placed c shader model target d o q index).nodes := by simp [placed]
  have hin := invites_index hd List.mem_cons_self hp.gives.1 hp.shader.2 (Or.inl rfl)
    (fun _ h => nomatch h) (fun _ h => nomatch h)
  obtain ⟨edge, bs, e', hlink, hnames, h'⟩ := h.link_shader
    (show _ = [shader, model] ++ .draw d :: [target] from rfl) hin hbare
    (List.mem_cons_of_mem _ List.mem_cons_self) (by
      rw [hvars]
      change 16 + 1 + 2 * (vars c).length ≤ _
      omega)
  refine ⟨{ d with bindings := bs, bound := index }, edge, e', hlink, rfl, rfl, rfl,
    hnames.trans hvars, h', hp.draw_iff _, fun l hl => ?_, fun l hl => ?_⟩
  all_goals rw [List.mem_singleton.1 hl]
  · exact h'.ne_output (by simp) (by simp) (ne_draw_of_index hp.gives.1)
      (hp.shader.2 ▸ List.mem_singleton_self o)
  · exact ⟨_, by simp [shaded, placed], List.mem_cons_self, Or.inl rfl⟩

theorem join_on (hbare : d.bindings = [])
    (h : (placed c shader model target d o q index).Depicts e)
    (hroom : 18 + 2 * (vars c).length ≤ lastId.toNat) : ∃ d' e',
      (wire c shader.id model.id d.id target.id).on e = (finish c d' target.id).on e' ∧
        d'.bound = index ∧ d'.bindings.map (fun b => (b.name, b.type)) = vars c ∧
          (joined c shader model target d' o q index).Depicts e' ∧
            Unshown d' (joined c shader model target d' o q index) := by
  obtain ⟨d', edge, e₁, hlink, hid, hpin, hbound, hnames, h₁, hunshown⟩ := shade_on hp hbare h hroom
  have hd : .draw d ∈ (placed c shader model target d o q index).nodes := by simp [placed]
  have hd' := (hunshown.draw_iff d').2 rfl
  have hmodel : model ∈ (shaded c shader model target d' o q index).nodes :=
    List.mem_cons_of_mem _ List.mem_cons_self
  have hne : d'.shader ≠ d'.model := by
    have hnodup := (List.nodup_cons.1 (h₁.inputs_nodup hd')).1
    exact fun heq => hnodup (heq ▸ List.mem_cons_self)
  have hin := invites_index hd' hmodel hp.gives.2 hp.model.2 (Or.inr rfl) (fun q' hl => hne
    (Prod.mk.inj (List.mem_singleton.1 hl)).1.symm) hunshown.idle
  obtain ⟨edge', e₂, hlink', h₂⟩ := h₁.link hin (fun d'' hd'' => by
    rw [(hunshown.draw_iff d'').1 hd'']
    exact hne) (by
    have hlen : d'.bindings.length = (vars c).length := by rw [← hnames, List.length_map]
    change 17 + 2 * d'.bindings.length < _
    omega)
  have hout : q ≠ d'.output := h₁.ne_output hd' hmodel (ne_draw_of_index hp.gives.2)
    (hp.model.2 ▸ List.mem_singleton_self q)
  refine ⟨d', e₂, ?_, hbound, hnames, h₂,
    hunshown.link (List.mem_cons_of_mem _ List.mem_cons_self) hout⟩
  rw [wire, Attempt.on_bind_of_ok (drawOf_on h hd),
    Attempt.on_bind_of_ok (output_on h List.mem_cons_self hp.shader.2),
    Attempt.on_bind_of_ok (link_on hlink), Attempt.on_bind_of_ok (output_on h₁ hmodel hp.model.2),
    ← hpin, Attempt.on_bind_of_ok (link_on hlink'), ← hid, Attempt.on_bind_of_ok (drawOf_on h₂ hd')]
  rfl

/-! ## The draw node is shown -/

/-- How many ids the demo graph takes. -/
def ids (c : HostConfig) : Nat := 19 + 2 * (vars c).length + cost none (vars c)

/-- All inputs for variables are fed, and the render target is given what the draw node gives. -/
theorem finish_on (h : (joined c shader model target d o q index).Depicts e)
    (hunshown : Unshown d (joined c shader model target d o q index))
    (hnames : d.bindings.map (fun b => (b.name, b.type)) = vars c)
    (hroom : ids c ≤ lastId.toNat) : ∃ i k e₁ e',
      (finish c d target.id).on e = (.ok (), e') ∧ target.inputs = [i] ∧
        Fills d none (joined c shader model target d o q index) d.bindings k ∧ k.Depicts e₁ ∧
          (k.link i d.output).Depicts e' := by
  have hlen : d.bindings.length = (vars c).length := by rw [← hnames, List.length_map]
  have hd := (hunshown.draw_iff d).2 rfl
  have hapart := h.inputs_nodup hd
  rw [UiNode.inputs, List.nodup_cons, List.nodup_cons] at hapart
  obtain ⟨hshader, hmodel, hnodup⟩ := hapart
  have hfree (b : Binding) (hb : b ∈ d.bindings) (q' : Id) :
      (b.pin, q') ∉ (joined c shader model target d o q index).links := by
    intro hl
    have hpin : b.pin ∈ d.bindings.map (·.pin) := List.mem_map_of_mem hb
    rcases List.mem_cons.1 hl with hl | hl
    · exact hmodel ((Prod.mk.inj hl).1 ▸ hpin)
    · exact hshader (List.mem_cons_of_mem _ ((Prod.mk.inj (List.mem_singleton.1 hl)).1 ▸ hpin))
  have hids : (joined c shader model target d o q index).ids = 18 + 2 * (vars c).length := by
    change 17 + 2 * d.bindings.length + 1 = _
    omega
  have hroom' : (joined c shader model target d o q index).ids +
      cost none (d.bindings.map fun b => (b.name, b.type)) < lastId.toNat := by
    rw [hids, hnames]
    unfold ids at hroom
    omega
  obtain ⟨_, e₁, k, hon, h₁, hfills⟩ := foldlM_feed_on (c := c) h hunshown
    (show ∀ o ∈ (none : Option Id), _ from fun _ h => by cases h) (List.Subset.refl _) hnodup hfree
    hroom'.le
  obtain ⟨ts, fs, ls, hadds, _⟩ := id hfills.adds
  have hd₁ : .draw d ∈ k.nodes := (hfills.unshown.draw_iff d).2 rfl
  have htarget : target ∈ k.nodes :=
    hadds.mem_nodes.2 (Or.inl (by simp [joined, shaded, placed, Sketch.link]))
  obtain ⟨t, i, ready, rfl⟩ := UiNode.eq_renderTarget_of_kind hp.target
  have hin : k.Invites (.renderTarget t i ready) i (.draw d) d.output := by
    refine ⟨htarget, hd₁, by rintro ⟨⟩, List.mem_singleton_self _,
      ⟨.float, .float, List.mem_singleton_self _, rfl, rfl⟩, ?_, fun _ _ h => by cases h⟩
    exact hfills.unshown.free h₁ htarget (by rintro ⟨⟩) (by rintro ⟨⟩) (List.mem_singleton_self i)
  obtain ⟨edge, e', hlink, h'⟩ := h₁.link hin (fun d' hd' heq => by
    have hsame := h₁.eq_of_pin hd' htarget (heq ▸ List.mem_cons_of_mem _ List.mem_cons_self)
      (List.mem_cons_of_mem _ List.mem_cons_self)
    cases hsame) (hfills.ids ▸ hroom')
  refine ⟨i, k, e₁, e', ?_, rfl, hfills, h₁, h'⟩
  rw [finish, Attempt.on_bind_of_ok (on_discard hon),
    Attempt.on_bind_of_ok (show (output d.id).on e₁ = _ from output_on h₁ hd₁ rfl),
    Attempt.on_bind_of_ok (input_on h₁ htarget rfl)]
  exact link_on hlink

end Links

/-! ## What has been built -/

/-- The UI node feeds the variable of an input. It is given the time if it is a sine, and nothing
otherwise. -/
structure Feeds (e : Editor) (times : List UiNode) (b : Binding) (n : UiNode) : Prop where
  kind : n.kind = feeder (b.name, b.type)
  linked : e.LinkedTo b.pin n
  clock : n.kind = .sine → ∀ i ∈ n.inputs, ∃ t ∈ times, e.LinkedTo i t
  alone : n.kind ≠ .sine → ∀ i ∈ n.inputs, e.graph.neighbors i = []

/-- The UI nodes of the demo graph: four that are always there, at most one clock, and a feeder for
each input for a variable. -/
structure Built (c : HostConfig) (e : Editor) (shader model target : UiNode) (d : Draw)
    (times feeders : List UiNode) : Prop where
  nodes : e.nodes.Perm ([shader, model, .draw d, target] ++ (times ++ feeders))
  kinds : shader.kind = .shader ∧ model.kind = modelKind c ∧ target.kind = .renderTarget
  shader : e.LinkedTo d.shader shader
  model : e.LinkedTo d.model model
  vars : d.bindings.map (fun b => (b.name, b.type)) = vars c
  feeders : List.Forall₂ (Feeds e times) d.bindings feeders
  times : times.length = clocks (Demo.vars c) ∧ ∀ t ∈ times, t.kind = .time
  root : e.root = some target.id
  target : ∃ i, target.inputs = [i] ∧ e.LinkedTo i (.draw d)
  ids : e.graph.nextId.toNat = ids c

theorem kind_of_mem {bs : List Binding} {ns : List UiNode} {r : Binding → UiNode → Prop}
    (hr : ∀ b n, r b n → n.kind = feeder (b.name, b.type)) (h : List.Forall₂ r bs ns)
    (hn : n ∈ ns) : ∃ v, n.kind = feeder v := by
  have hkinds : bs.map (fun b => feeder (b.name, b.type)) = ns.map (·.kind) := by
    rw [← List.forall₂_eq_eq_eq, List.forall₂_map_left_iff, List.forall₂_map_right_iff]
    exact h.imp fun b n h => (hr b n h).symm
  obtain ⟨b, _, hb⟩ := List.mem_map.1 (hkinds ▸ List.mem_map_of_mem hn)
  exact ⟨_, hb.symm⟩

section Built

variable {shader model target : UiNode} {q : Id} {e₁ : Editor}

theorem built (hp : Placed c shader model target o q index) (hi : target.inputs = [i])
    (hnames : d.bindings.map (fun b => (b.name, b.type)) = vars c)
    (hfills : Fills d none (joined c shader model target d o q index) d.bindings k)
    (h₁ : k.Depicts e₁) (h : (k.link i d.output).Depicts e) :
    ∃ times feeders, Built c e shader model target d times feeders := by
  obtain ⟨ts, fs, ls, hadds, htimes, hlen, hfed, _⟩ := hfills.adds
  rw [hnames] at hlen
  have hlinked {m : UiNode} {p out : Id} (hm : m ∈ k.nodes) (ho : out ∈ m.outputs)
      (hl : (p, out) ∈ (k.link i d.output).links) : e.LinkedTo p m :=
    ⟨h.nodes ▸ hm, out, ho, (h.linked hl).1⟩
  have hjoined {m : UiNode} (hm : m ∈ [shader, model, .draw d, target]) : m ∈ k.nodes :=
    hadds.mem_nodes.2 (Or.inl hm)
  have hlinks {l : Id × Id} (hl : l ∈ [(d.model, q), (d.shader, o)]) :
      l ∈ (k.link i d.output).links := List.mem_cons_of_mem _ (hadds.mem_links.2 (Or.inr hl))
  have hticks {out : Id} (ho : k.Ticks out) : ∃ t ∈ ts, t ∈ k.nodes ∧ out ∈ t.outputs := by
    obtain ⟨t, ht, hkind, hout⟩ := ho
    refine ⟨t, ?_, ht, hout ▸ List.mem_singleton_self out⟩
    have hindex {m : UiNode} (hgives : m.kind.gives? = some .int) : t ≠ m := by
      rintro rfl
      rw [hkind] at hgives
      cases hgives
    rcases hadds.mem_nodes.1 ht with hmem | hmem
    · simp only [joined, shaded, placed, Sketch.link, List.mem_cons, List.not_mem_nil,
        or_false] at hmem
      rcases hmem with hmem | hmem | rfl | rfl
      · exact absurd hmem (hindex hp.gives.1)
      · exact absurd hmem (hindex hp.gives.2)
      · cases hkind
      · rw [hp.target] at hkind
        cases hkind
    · refine (List.mem_append.1 hmem).resolve_right fun hfeeder => ?_
      obtain ⟨v, hv⟩ := kind_of_mem (fun _ _ h => h.kind) hfed hfeeder
      exact (gives_feeder v).2.2.2 (hv.symm.trans hkind)
  refine ⟨ts, fs, ?_, ⟨hp.shader.1, hp.model.1, hp.target⟩, ?_, ?_, hnames, ?_, ⟨hlen, htimes⟩, ?_,
    ⟨i, hi, ?_⟩, ?_⟩
  · exact h.nodes ▸ hadds.nodes
  · exact hlinked (hjoined (by simp)) (hp.shader.2 ▸ List.mem_singleton_self o) (hlinks (by simp))
  · exact hlinked (hjoined (by simp)) (hp.model.2 ▸ List.mem_singleton_self q) (hlinks (by simp))
  · refine hfed.imp fun b n hbn => ⟨hbn.kind, ?_, fun hsine j hj => ?_, fun hsine j hj => ?_⟩
    · obtain ⟨out, hout, hl⟩ := hbn.linked
      exact hlinked hbn.mem hout (List.mem_cons_of_mem _ hl)
    · obtain ⟨j', hj', out, hl, hout⟩ := hbn.clock hsine
      obtain ⟨t, ht, hmem, hout⟩ := hticks hout
      obtain ⟨_, _, _, rfl⟩ := UiNode.eq_sine_of_kind hsine
      rw [List.mem_singleton.1 hj, ← List.mem_singleton.1 hj']
      exact ⟨t, ht, hlinked hmem hout (List.mem_cons_of_mem _ hl)⟩
    · obtain ⟨_, hdraw, htarget, _⟩ := gives_feeder (b.name, b.type)
      refine h.unlinked hbn.mem hj fun out hl => ?_
      rcases List.mem_cons.1 hl with hl | hl
      · have hsame := h₁.eq_of_pin hbn.mem (hjoined (m := target) (by simp))
          (List.mem_cons_of_mem _ (List.mem_append_left _ hj)) (List.mem_cons_of_mem _
            (List.mem_append_left _ (hi ▸ (Prod.mk.inj hl).1 ▸ List.mem_singleton_self j)))
        exact htarget (hbn.kind.symm.trans (hsame ▸ hp.target))
      · exact hfills.unshown.free h₁ hbn.mem (hbn.kind ▸ hdraw) hsine hj out hl
  · exact h.root.trans hadds.root
  · exact hlinked (hjoined (by simp)) (List.mem_singleton_self _) List.mem_cons_self
  · have hlength : d.bindings.length = (vars c).length := by rw [← hnames, List.length_map]
    rw [h.ids]
    change k.ids + 1 = _
    rw [hfills.ids, hnames, ids]
    change 17 + 2 * d.bindings.length + 1 + _ + 1 = _
    omega

/-- What the shader and the model give are indices. -/
theorem indicated (hfills : Fills d none (joined c shader model target d o q index) d.bindings k)
    (h : (k.link i d.output).Depicts e) :
    (∃ o, e.graph.neighbors d.shader = [o] ∧ e.Indicates o index) ∧
      ∃ o, e.graph.neighbors d.model = [o] ∧ e.Indicates o 0 := by
  obtain ⟨_, _, _, hadds, _⟩ := hfills.adds
  have hlinked {l : Id × Id} (hl : l ∈ [(d.model, q), (d.shader, o)]) :
      e.graph.neighbors l.1 = [l.2] :=
    (h.linked (List.mem_cons_of_mem _ (hadds.mem_links.2 (Or.inr hl)))).1
  have hindex {l : Id × Int32} (hl : l ∈ [(q, 0), (o, index)]) : e.Indicates l.1 l.2 :=
    h.indices l (hadds.indices hl)
  have hlast {α : Type} (x y : α) : y ∈ [x, y] := List.mem_cons_of_mem _ (List.mem_singleton_self y)
  exact ⟨⟨o, hlinked (hlast ..), hindex (hlast ..)⟩, q, hlinked List.mem_cons_self,
    hindex List.mem_cons_self⟩

end Built

/-- The demo graph is built as long as ids are left for it. -/
theorem build_on (c : HostConfig) (hids : ids c ≤ lastId.toNat) :
    ∃ shader model target d times feeders e,
      (build c).on (.new (Host.services c) c.evaluation.toEvalSettings) = (.ok (), e) ∧
        Built c e shader model target d times feeders ∧ Tracked e ∧ 0 ≤ d.bound ∧
          (∃ o, e.graph.neighbors d.shader = [o] ∧ e.Indicates o d.bound) ∧
            (∃ o, e.graph.neighbors d.model = [o] ∧ e.Indicates o 0) ∧
              e.settings = c.evaluation.toEvalSettings := by
  obtain ⟨shader, model, target, d, o, q, index, e, hbuild, hp, hbare, h⟩ := place_on c
  obtain ⟨d', e', hwire, rfl, hnames, h', hunshown⟩ := join_on hp hbare h (by
    unfold ids at hids
    omega)
  obtain ⟨i, k, e₁, e₂, hfinish, hi, hfills, h₁, h₂⟩ := finish_on hp h' hunshown hnames hids
  obtain ⟨times, feeders, hbuilt⟩ := built hp hi hnames hfills h₁ h₂
  obtain ⟨hshader, hmodel⟩ := indicated hfills h₂
  obtain ⟨_, _, _, hadds, _⟩ := hfills.adds
  exact ⟨shader, model, target, d', times, feeders, e₂, hbuild.trans (hwire.trans hfinish), hbuilt,
    h₂.tracked, hp.nonneg, hshader, hmodel, h₂.settings.trans hadds.settings⟩

end Demo

end DrawGraph
