import DrawGraph.Host.Basic
import DrawGraph.Proofs.Editor.Staging
import DrawGraph.Proofs.Host.Demo

/-!
# Runs of the demo graph

The draw node of the demo graph is on show: it takes in an index of a shader and one of a model, all
its variables are fed, and the root takes in what it gives. So every frame of a run succeeds and
makes one draw call, with a constant for each variable of the shader.
-/

namespace DrawGraph

open DrawGraph.Graph

/-! ## Visits -/

namespace Editor

variable {e : Editor} {n : UiNode} {id p : Id} {ids ids' : List Id} {visits visits' : Nat}

theorem Descends.nil (e : Editor) : e.Descends [] 0 := ⟨[], .nil, rfl⟩

theorem Descends.append (h : e.Descends ids visits) (h' : e.Descends ids' visits') :
    e.Descends (ids ++ ids') (visits + visits') := by
  obtain ⟨xs, hxs, rfl⟩ := h
  obtain ⟨ys, hys, rfl⟩ := h'
  exact ⟨xs ++ ys, hxs.append hys, List.length_append⟩

theorem Descends.singleton (h : e.Descends (e.graph.neighbors id) visits) :
    e.Descends [id] (visits + 1) := by
  obtain ⟨xs, hxs, rfl⟩ := h
  exact ⟨xs ++ [id], .singleton hxs, List.length_append⟩

/-- Below pins that lead to nothing there is nothing to visit. -/
theorem descends_bare (h : ∀ p ∈ ids, e.graph.neighbors p = []) : e.Descends ids ids.length := by
  induction ids with
  | nil => exact .nil e
  | cons p ps ih =>
      obtain ⟨hp, hps⟩ := List.forall_mem_cons.1 h
      have hfirst : e.Descends [p] 1 := .singleton (hp ▸ .nil e)
      rw [List.length_cons, Nat.add_comm]
      exact hfirst.append (ih hps)

/-- The pin is visited, the output that it is linked to, and the UI node. -/
theorem LinkedTo.descends (h : e.LinkedTo p n) (hw : e.WellFormed)
    (hbelow : e.Descends n.inputs visits) : e.Descends [p] (visits + 3) := by
  obtain ⟨hn, o, ho, hlink⟩ := h
  have hid : e.Descends [n.id] (visits + 1) := .singleton (hw.neighbors_identity n hn ▸ hbelow)
  have hout : e.Descends [o] (visits + 2) := .singleton (hw.neighbors_output n hn o ho ▸ hid)
  exact .singleton (hlink ▸ hout)

end Editor

namespace Demo

open Editor

variable {e : Editor} {c : HostConfig} {shader model target n : UiNode} {d : Draw} {b : Binding}
  {times feeders : List UiNode} {v : String × BindingType}

/-- How many visits are made for a variable: to its input, to the output and the identity of its
feeder, and to what is below that. -/
def visitsOf (v : String × BindingType) : Nat :=
  match feeder v with
  | .sine | .transform => 6
  | .camera => 5
  | _ => 3

/-- The size of the walk. -/
def visits (c : HostConfig) : Nat := 10 + ((vars c).map visitsOf).sum

/-- All ids of a UI node with one output are for itself, this output and its inputs. -/
theorem ids_eq_inputs {kind : ValueKind} (hgives : n.kind.gives? = some kind)
    (hdraw : n.kind ≠ .draw) : n.kind.ids = 3 + 2 * n.inputs.length := by
  obtain ⟨_, o, ho⟩ := UiNode.gives_of_kind hgives
  rw [UiNode.ids_kind, UiNode.pins, ho, List.length_append, List.length_singleton]
  · omega
  · rintro d rfl
    exact absurd rfl hdraw

theorem mem_feeders (v : String × BindingType) : feeder v ∈
    [UiNodeKind.sine, .texture, .vector2, .vector3, .vector4, .camera, .transform] := by
  unfold feeder feederKind
  cases v.2.kind with
  | float4x4 => dsimp only; split <;> decide
  | _ => dsimp only; decide

theorem visitsOf_eq {inputs : Nat} (hids : (feeder v).ids = 3 + 2 * inputs)
    (hsine : feeder v ≠ .sine) : visitsOf v = inputs + 3 := by
  have hmem := mem_feeders v
  unfold visitsOf
  generalize feeder v = kind at *
  simp only [List.mem_cons, List.not_mem_nil, or_false] at hmem
  rcases hmem with rfl | rfl | rfl | rfl | rfl | rfl | rfl
  · exact absurd rfl hsine
  all_goals
    change _ = 3 + 2 * inputs at hids
    simp only [UiNodeKind.ids] at hids ⊢
    omega

/-- A UI node with three ids and an output has no inputs. -/
theorem descends_leaf {kind : ValueKind} (hgives : n.kind.gives? = some kind)
    (hids : n.kind.ids = 3) : e.Descends n.inputs 0 := by
  have hdraw : n.kind ≠ .draw := fun hkind => by
    rw [hkind] at hids
    cases hids
  have hlen := ids_eq_inputs hgives hdraw
  have hnil : n.inputs = [] := List.length_eq_zero_iff.1 (by omega)
  exact hnil ▸ .nil e

theorem Feeds.descends (h : Feeds e times b n) (hw : e.WellFormed)
    (htimes : ∀ t ∈ times, t.kind = .time) :
    e.Descends [b.pin] (visitsOf (b.name, b.type)) := by
  obtain ⟨⟨kind, hgives, _⟩, hdraw, _⟩ := gives_feeder (b.name, b.type)
  rw [← h.kind] at hgives hdraw
  by_cases hsine : n.kind = .sine
  · obtain ⟨id, i, o, rfl⟩ := UiNode.eq_sine_of_kind hsine
    obtain ⟨t, ht, hclock⟩ := h.clock hsine i (List.mem_singleton_self i)
    have htime : t.kind.gives? = some .float := by rw [htimes t ht]; rfl
    have hleaf : e.Descends t.inputs 0 := descends_leaf htime (by rw [htimes t ht]; rfl)
    have hvisits : visitsOf (b.name, b.type) = 6 := by
      rw [visitsOf, ← h.kind]
      rfl
    rw [hvisits]
    exact h.linked.descends hw (hclock.descends hw hleaf)
  · have hids := ids_eq_inputs hgives hdraw
    rw [h.kind] at hids
    rw [visitsOf_eq hids (h.kind ▸ hsine)]
    exact h.linked.descends hw (descends_bare (h.alone hsine))

theorem Built.descends (h : Built c e shader model target d times feeders) (hw : e.WellFormed) :
    e.Descends [target.id] (visits c) := by
  have hpins : ∀ {bs : List Binding} {ns : List UiNode}, List.Forall₂ (Feeds e times) bs ns →
      e.Descends (bs.map (·.pin)) ((bs.map fun b => visitsOf (b.name, b.type)).sum) := by
    intro bs ns hfeeds
    induction hfeeds with
    | nil => exact .nil e
    | cons hfirst _ ih => exact (hfirst.descends hw h.times.2).append ih
  have hfed := hpins h.feeders
  have hvars : d.bindings.map (fun b => visitsOf (b.name, b.type)) =
      (Demo.vars c).map visitsOf := by
    rw [← h.vars, List.map_map]
    rfl
  rw [hvars] at hfed
  have hshader : e.Descends [d.shader] 3 := h.shader.descends hw
    (descends_leaf (by rw [h.kinds.1]; rfl) (by rw [h.kinds.1]; rfl))
  have hmodel : e.Descends [d.model] 3 := h.model.descends hw
    (descends_leaf (by rw [h.kinds.2.1]; exact gives_modelKind c)
      (by rw [h.kinds.2.1, modelKind]; split <;> rfl))
  obtain ⟨i, hi, hdraw⟩ := h.target
  have hinput := hdraw.descends hw (hshader.append (hmodel.append hfed))
  have htarget : target ∈ e.nodes := h.nodes.mem_iff.2 (by simp)
  have hroot : e.graph.neighbors target.id = [i] := (hw.neighbors_identity target htarget).trans hi
  have hall : e.Descends [target.id] _ := .singleton (hroot ▸ hinput)
  have hvisits : visits c = 3 + (3 + ((Demo.vars c).map visitsOf).sum) + 3 + 1 := by
    rw [visits]
    omega
  exact hvisits ▸ hall

/-- There is no other draw node than the one, and no UI node that computes numbers. -/
theorem Built.plain (h : Built c e shader model target d times feeders) (hn : n ∈ e.nodes) :
    (n = .draw d ∨ n.kind ≠ .draw) ∧ n.offer ≠ .number := by
  have hgives {n : UiNode} {kind : ValueKind} (hgives : n.kind.gives? = some kind)
      (hdraw : n.kind ≠ .draw) : (n = .draw d ∨ n.kind ≠ .draw) ∧ n.offer ≠ .number := by
    rw [(UiNode.gives_of_kind hgives).1]
    exact ⟨Or.inr hdraw, nofun⟩
  rcases List.mem_append.1 (h.nodes.mem_iff.1 hn) with hn | hn
  · simp only [List.mem_cons, List.not_mem_nil, or_false] at hn
    rcases hn with rfl | rfl | rfl | rfl
    · have hindex : n.kind.gives? = some .int := by rw [h.kinds.1]; rfl
      exact hgives hindex (ne_draw_of_index hindex)
    · have hindex : n.kind.gives? = some .int := by
        rw [h.kinds.2.1]
        exact gives_modelKind c
      exact hgives hindex (ne_draw_of_index hindex)
    · exact ⟨Or.inl rfl, nofun⟩
    · obtain ⟨_, _, _, rfl⟩ := UiNode.eq_renderTarget_of_kind h.kinds.2.2
      exact ⟨Or.inr nofun, nofun⟩
  rcases List.mem_append.1 hn with hn | hn
  · have hkind := h.times.2 n hn
    have htime : n.kind.gives? = some .float := by rw [hkind]; rfl
    exact hgives htime (by rw [hkind]; nofun)
  · obtain ⟨v, hv⟩ := kind_of_mem (fun _ _ h => h.kind) h.feeders hn
    obtain ⟨⟨_, hsource, _⟩, hdraw, _⟩ := gives_feeder v
    exact hgives (hv ▸ hsource) (hv ▸ hdraw)

/-- The draw node is on show. -/
theorem Built.staged (h : Built c e shader model target d times feeders) (htracked : Tracked e)
    (hbound : 0 ≤ d.bound)
    (hshader : ∃ o, e.graph.neighbors d.shader = [o] ∧ e.Indicates o d.bound)
    (hmodel : ∃ o, e.graph.neighbors d.model = [o] ∧ e.Indicates o 0)
    (hlimit : visits c ≤ e.settings.maxVisits) : e.Staged d (visits c) := by
  obtain ⟨w, hs⟩ := htracked.reached.sound
  have hdescends := h.descends hs.tables
  have htarget : target ∈ e.nodes := h.nodes.mem_iff.2 (by simp)
  have hd : .draw d ∈ e.nodes := h.nodes.mem_iff.2 (by simp)
  obtain ⟨i, hi, hlinked⟩ := h.target
  obtain ⟨t, input, ready, rfl⟩ := UiNode.eq_renderTarget_of_kind h.kinds.2.2
  obtain rfl := List.singleton_inj.1 hi
  obtain ⟨_, o, ho, hlink⟩ := hlinked
  obtain rfl := List.mem_singleton.1 ho
  refine ⟨⟨w, hs⟩, htracked.reached.tidy, htracked.reached.outbox, fun d' => ⟨fun hd' => ?_, ?_⟩,
    fun n hn => (h.plain hn).2, ⟨hbound, hshader⟩, ⟨0, by decide, hmodel⟩,
    ⟨t, input, ready, htarget, h.root, hlink, hdescends⟩, hlimit⟩
  · exact UiNode.draw.inj ((h.plain hd').1.resolve_right fun hkind => hkind rfl)
  · rintro rfl
    exact hd

end Demo

namespace Host

open Demo Editor

variable {c : HostConfig} {e : Editor} {report : EvalReport} {shows : EvalReport → Prop}
  {dt : Float32} {n : Nat}

/-- When frame after frame succeeds, the report of a run is that of the last one. -/
theorem frames_of_runs (h : Runs shows dt n e) (hn : 0 < n) (last : Option EvalReport) :
    ∃ report, (frames dt n last e).1 = some report ∧ shows report := by
  have hlast : ∀ {n : Nat} {e : Editor} {report : EvalReport}, Runs shows dt n e → shows report →
      ∃ report', (frames dt n (some report) e).1 = some report' ∧ shows report' := by
    intro n
    induction n with
    | zero => exact fun _ hreport => ⟨_, rfl, hreport⟩
    | succ n ih =>
        intro e report h _
        obtain ⟨next, e', hframe, hnext, hrest⟩ := h
        rw [frames, hframe]
        exact ih hrest hnext
  cases n with
  | zero => exact absurd hn (Nat.lt_irrefl 0)
  | succ n =>
      obtain ⟨report, e', hframe, hreport, hrest⟩ := h
      rw [frames, hframe]
      exact hlast hrest hreport

/-- A host without a document builds the demo graph, as long as ids are left for it. Every frame
then shows its draw node, with a constant for each variable of the first shader. -/
theorem demo_shown (c : HostConfig) (file? : String → Option String) (hgraph : c.graphPath = none)
    (hids : Demo.ids c ≤ lastId.toNat)
    (hvisits : Demo.visits c ≤ c.evaluation.toEvalSettings.maxVisits) :
    ∃ h shader model target d times feeders,
      start c file? = .ok h ∧ h.config = c ∧
        (build c).on (.new (services c) c.evaluation.toEvalSettings) = (.ok (), h.editor) ∧
          Built c h.editor shader model target d times feeders ∧
            (∀ dt n, Runs (Shows (vars c) (Demo.visits c)) dt n h.editor) ∧
              (0 < c.frames.toNat →
                ∃ report, h.run.1 = some report ∧ Shows (vars c) (Demo.visits c) report) := by
  obtain ⟨shader, model, target, d, times, feeders, e, hbuild, hbuilt, htracked, hbound, hshader,
    hmodel, hsettings⟩ := build_on c hids
  have hstaged := hbuilt.staged htracked hbound hshader hmodel (hsettings ▸ hvisits)
  have hruns (dt : Float32) (n : Nat) : Runs (Shows (vars c) (Demo.visits c)) dt n e := by
    rw [← hbuilt.vars]
    exact hstaged.runs htracked dt n
  refine ⟨⟨c, e⟩, shader, model, target, d, times, feeders, ?_, rfl, hbuild, hbuilt, hruns,
    fun hframes => frames_of_runs (hruns _ _) hframes none⟩
  rw [start, hgraph]
  dsimp only
  rw [hbuild]
  rfl

/-- The shader is declared twice, and the second time with a variable of an unknown type. -/
def lit : HostConfig where
  shaders := [⟨"lit", []⟩, ⟨"flat", []⟩,
    ⟨"lit", [⟨"glow", "float"⟩, ⟨"worldView", "float4x4"⟩, ⟨"skin", "sampler"⟩,
      ⟨"pulse", "float"⟩]⟩]

theorem demo_shown_lit :
    vars lit = [("glow", .float), ("worldView", .float4x4), ("pulse", .float)] ∧
      ∃ h, start lit (fun _ => none) = .ok h ∧
        ∃ report, h.run.1 = some report ∧ Shows (vars lit) 27 report := by
  refine ⟨by decide +kernel, ?_⟩
  obtain ⟨h, _, _, _, _, _, _, hstart, _, _, _, _, hreport⟩ :=
    demo_shown lit (fun _ => none) rfl (by decide +kernel) (by decide +kernel)
  have hvisits : Demo.visits lit = 27 := by decide +kernel
  exact ⟨h, hstart, hvisits ▸ hreport (by decide)⟩

end Host

end DrawGraph
