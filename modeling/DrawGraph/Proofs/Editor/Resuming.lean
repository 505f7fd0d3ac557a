import DrawGraph.Proofs.Document.Passing
import DrawGraph.Proofs.Editor.Reopening
import DrawGraph.Proofs.Editor.Unlinked

/-!
# Draw nodes of editors that load what was saved

A saved text gives the graph back, and of the UI nodes those whose records can be read. What is left
over of the others plays no role any more. So draw nodes stay tended also through saving and
loading, but for those that loading binds to the shader whose index their unlinked shader pin
happens to hold.
-/

namespace DrawGraph

open UiNode

/-! ## Roles that are left -/

/-- The wiring of just these UI nodes. -/
def Wiring.among (w : Wiring) (ids : List Id) : Wiring := fun id =>
  (w id).filter fun r => r.home id ∈ ids

namespace Wiring

variable {w : Wiring} {ids : List Id} {id : Id} {r : Role}

theorem among_eq_some : w.among ids id = some r ↔ w id = some r ∧ r.home id ∈ ids := by
  rw [among, Option.filter_eq_some_iff, decide_eq_true_eq]

theorem Coherent.among (h : w.Coherent) (ids : List Id) : (w.among ids).Coherent := by
  intro id r hr
  obtain ⟨hr, hhome⟩ := among_eq_some.1 hr
  have hbelongs := h id r hr
  cases r with
  | identity inputs outputs =>
      obtain ⟨hnodup, hin, hout⟩ := hbelongs
      refine ⟨hnodup, fun i hi => ?_, fun o ho => ?_⟩
      · obtain ⟨kind, hi⟩ := hin i hi
        exact ⟨kind, among_eq_some.2 ⟨hi, hhome⟩⟩
      · obtain ⟨offer, ho⟩ := hout o ho
        exact ⟨offer, among_eq_some.2 ⟨ho, hhome⟩⟩
  | input owner kind | output owner offer =>
      obtain ⟨inputs, outputs, ho, hmem⟩ := hbelongs
      exact ⟨inputs, outputs, among_eq_some.2 ⟨ho, hhome⟩, hmem⟩

end Wiring

namespace UiNode

variable {w : Wiring} {ids : List Id} {n n' : UiNode}

theorem Plays.among (h : n.Plays w) (hid : n.id ∈ ids) : n.Plays (w.among ids) where
  identity := Wiring.among_eq_some.2 ⟨Wiring.Seats.identity h, hid⟩
  input p hp := Wiring.among_eq_some.2 ⟨Wiring.Seats.input h p hp, hid⟩
  output o ho := Wiring.among_eq_some.2 ⟨Wiring.Seats.output h o ho, hid⟩

theorem plays_essence : n.essence.Plays w ↔ n.Plays w := by cases n <;> exact Iff.rfl

theorem Plays.of_essence (h : n.Plays w) (heq : n'.essence = n.essence) : n'.Plays w := by
  rw [← plays_essence, heq, plays_essence]
  exact h

/-- What the document has of a draw node. -/
theorem eq_draw_of_essence {d : Draw} (h : n.essence = (draw d).essence) :
    ∃ d₀ : Draw, n = draw d₀ ∧ d₀.id = d.id ∧ d₀.shader = d.shader ∧ d₀.bindings = d.bindings := by
  cases n with
  | draw d₀ =>
      simp only [essence, draw.injEq, Draw.mk.injEq] at h
      exact ⟨d₀, rfl, h.1, h.2.1, h.2.2.2.2.2.1⟩
  | binary | sine | time | constant | asset | primitive | camera | transform | renderTarget =>
      cases h

end UiNode

namespace Document.Salvages

variable {w : Wiring} {nodes found found' : List UiNode}

theorem of_essence (h : Salvages nodes found) (heq : found'.map essence = found.map essence) :
    Salvages nodes found' := by
  obtain ⟨kept, hkept, hfound⟩ := h
  exact ⟨kept, hkept, heq.trans hfound⟩

theorem exists_mem (h : Salvages nodes found) {n : UiNode} (hn : n ∈ found) :
    ∃ m ∈ nodes, m.essence = n.essence := by
  obtain ⟨kept, hkept, hfound⟩ := h
  have hmem : n.essence ∈ kept.map essence := hfound ▸ List.mem_map_of_mem hn
  obtain ⟨m, hm, heq⟩ := List.mem_map.1 hmem
  exact ⟨m, hkept.subset hm, heq⟩

theorem ids (h : Salvages nodes found) :
    (found.map UiNode.id).Sublist (nodes.map UiNode.id) := by
  obtain ⟨kept, hkept, hfound⟩ := h
  have hessence (ns : List UiNode) : ns.map UiNode.id = (ns.map essence).map UiNode.id := by
    rw [List.map_map]
    exact List.map_congr_left fun n _ => (id_essence n).symm
  rw [hessence, hfound, ← hessence]
  exact hkept.map _

theorem casts (h : Salvages nodes found) (hc : Casts w nodes) :
    Casts (w.among (found.map UiNode.id)) found where
  nodup := hc.nodup.sublist h.ids
  plays n hn := by
    obtain ⟨m, hm, heq⟩ := h.exists_mem hn
    exact ((hc.plays m hm).of_essence heq.symm).among (List.mem_map_of_mem hn)
  cast id inputs outputs hr := List.mem_map.1 (Wiring.among_eq_some.1 hr).2

end Document.Salvages

/-! ## Loading -/

namespace Scene

@[simp] theorem graph_reload (s : Scene) (pin : Id) (v : Value) :
    (s.reload pin v).graph = s.graph := by
  rw [reload_eq]
  rfl

@[simp] theorem graph_foldl_reload {α : Type} (as : List α) (pin : α → Id) (fallback : α → Value)
    (s : Scene) :
    (as.foldl (fun s a => s.reload (pin a) (fallback a)) s).graph = s.graph := by
  induction as generalizing s with
  | nil => rfl
  | cons a as ih => rw [List.foldl_cons, ih, graph_reload]

end Scene

section Loading

variable {P : Graph → Prop} {s : Scene}

/-- Loading a UI node writes numbers of pins and does nothing else to the graph. -/
theorem UiNode.onLoad_keeps
    (hwrite : ∀ (s : Scene) (pin : Id) (v : Value), P s.graph → P (s.write pin v).graph)
    (h : P s.graph) (n : UiNode) : P (n.onLoad s).2.graph := by
  cases n with
  | binary | sine | time | draw | renderTarget =>
      simp only [UiNode.onLoad, Scene.graph_reload, Scene.graph_foldl_reload]
      exact h
  | constant kind id output loaded => exact hwrite s output loaded h
  | asset kind id output path =>
      refine hwrite (s.resolveAsset kind path).2 output _ ?_
      rwa [(Scene.graph_resolveAsset s kind path).1]
  | primitive id output shape =>
      refine hwrite (s.resolvePrimitive shape).2 output _ ?_
      rwa [(Scene.graph_resolvePrimitive s shape).1]
  | camera | transform =>
      simp only [UiNode.onLoad, Scene.store]
      exact h

theorem Editor.loadNodes_keeps
    (hwrite : ∀ (s : Scene) (pin : Id) (v : Value), P s.graph → P (s.write pin v).graph)
    (h : P s.graph) (ns : List UiNode) : P (Editor.loadNodes ns s).2.graph := by
  induction ns generalizing s with
  | nil => exact h
  | cons n ns ih => exact ih (UiNode.onLoad_keeps hwrite h n)

end Loading

namespace Laid

variable {tight : Prop} {w : Wiring} {s : Scene}

theorem loadNodes (h : Laid tight w s.graph) (ns : List UiNode) :
    Laid tight w (Editor.loadNodes ns s).2.graph :=
  Editor.loadNodes_keeps (fun _ pin v h => Laid.write h pin v) h ns

end Laid

namespace Editor

variable {w : Wiring} {e : Editor}

/-- A UI node can have fewer pins than there are ids. -/
theorem Held.length_bindings (h : e.Held False w) {n : UiNode} (hn : n ∈ e.nodes) :
    n.bindings.length < UInt32.size := by
  cases n with
  | draw d =>
      have hinputs := (h.laid.coherent.identity (h.casts.plays _ hn).identity).1
      have hpins : (d.bindings.map (·.pin)).Nodup :=
        (List.nodup_cons.1 (List.nodup_cons.1 hinputs).2).2
      change d.bindings.length < UInt32.size
      rw [← List.length_map (·.pin)]
      apply Graph.length_lt_size hpins
      intro pin hpin
      obtain ⟨b, hb, rfl⟩ := List.mem_map.1 hpin
      exact h.owns_lt hn (owns_binding hb)
  | binary | sine | time | constant | asset | primitive | camera | transform | renderTarget =>
      exact (by decide : 0 < UInt32.size)

/-- There can be fewer UI nodes than there are ids. -/
theorem length_nodes_lt (hnodup : (e.nodes.map UiNode.id).Nodup)
    (hlt : ∀ n ∈ e.nodes, n.id < e.graph.nextId) : e.nodes.length < UInt32.size := by
  rw [← List.length_map UiNode.id]
  exact Graph.length_lt_size hnodup (List.forall_mem_map.2 hlt)

theorem Held.length_nodes (h : e.Held False w) : e.nodes.length < UInt32.size :=
  length_nodes_lt h.casts.nodup fun _ hn => h.owns_lt hn List.mem_cons_self

/-- The text of an editor that is held together can be loaded, though some UI nodes may be left
out. -/
theorem Held.load_text (h : e.Held False w) (e₀ : Editor) :
    ∃ found, Document.Salvages e.nodes found ∧ e₀.load e.save = (.ok (), ofDocument
      ⟨{ e.graph with outbox := [] }, e.root.filter e.graph.hasNode, found⟩
      e₀.scene.services e₀.settings) := by
  obtain ⟨found, hfound, hparse⟩ : ∃ found, Document.Salvages e.nodes found ∧
      Document.parse (e.document.render e.values) = .ok
        ⟨{ e.graph with outbox := [] }, e.root.filter e.graph.hasNode, found⟩ :=
    Document.parse_render_ensures (show e.document.graph.Ordered from h.laid.ordered)
      (fun n hn => h.length_bindings hn) h.length_nodes
  refine ⟨found, hfound, ?_⟩
  rw [load, save, hparse]

theorem Held.ofDocument (h : e.Held False w) {found : List UiNode}
    (hfound : Document.Salvages e.nodes found) (root : Option Id) (services : Services)
    (settings : EvalSettings) :
    ∃ w', (Editor.ofDocument ⟨{ e.graph with outbox := [] }, root, found⟩ services settings).Held
      False w' := by
  have hessence := essence_loadNodes found { graph := { e.graph with outbox := [] }, services }
  have hloaded := hfound.of_essence hessence
  have hcasts := hloaded.casts h.casts
  refine ⟨_, ?_, hcasts, ?_⟩
  · have hforget (ids : List Id) : Laid False (w.among ids) e.graph :=
      h.laid.forget (fun j r hr => (Wiring.among_eq_some.1 hr).1) (h.laid.coherent.among ids)
        False.elim False.elim
    exact Laid.withOutbox (Laid.loadNodes ((hforget _).withOutbox []) found) []
  · refine (Bus.foldl_attach ?_).trans (List.nil_append _)
    rw [List.nil_append]
    exact hcasts.nodup.sublist (List.filter_sublist.map _)

/-- The draw nodes that are bound to a shader though none is linked to them. -/
def boundAlone (e : Editor) : List Id :=
  e.nodes.filterMap fun n =>
    match n with
    | .draw d => if 0 ≤ d.bound ∧ e.graph.neighbors d.shader = [] then some d.id else none
    | _ => none

theorem mem_boundAlone {d : Draw} (hd : .draw d ∈ e.nodes) (hbound : 0 ≤ d.bound)
    (hnil : e.graph.neighbors d.shader = []) : d.id ∈ e.boundAlone :=
  List.mem_filterMap.2 ⟨_, hd, if_pos ⟨hbound, hnil⟩⟩

/-- Loading finds the draw nodes as they were saved, but binds them anew. -/
theorem Based.load {rash : List Id} (h : e.Based False rash) (hidle : e.graph.outbox = [])
    (e₀ : Editor) :
    (e₀.load e.save).2.Based False ((e₀.load e.save).2.boundAlone ++ rash) := by
  obtain ⟨w, hw⟩ := h.held
  obtain ⟨found, hfound, hload⟩ := hw.load_text e₀
  rw [hload]
  generalize e.root.filter e.graph.hasNode = root
  generalize e₀.scene.services = services
  generalize e₀.settings = settings
  obtain ⟨w', hw'⟩ := hw.ofDocument hfound root services settings
  refine ⟨⟨w', hw'⟩, fun d hd hrash => ?_⟩
  obtain ⟨halone, hrash⟩ := not_or.1 (fun hmem => hrash (List.mem_append.2 hmem))
  have hessence := essence_loadNodes found { graph := { e.graph with outbox := [] }, services }
  obtain ⟨n, hn, heq⟩ := (hfound.of_essence hessence).exists_mem hd
  obtain ⟨d₀, rfl, hid, hshader, hbindings⟩ := eq_draw_of_essence heq
  have hrefills := refills_loadNodes found { graph := { e.graph with outbox := [] }, services }
  have hfed (hfed : e.graph.Fed d.shader) :
      (Editor.ofDocument ⟨{ e.graph with outbox := [] }, root, found⟩ services
        settings).graph.Fed d.shader := by
    obtain ⟨i, edge, he, hs⟩ := hfed
    exact ⟨i, edge, (congrArg (·.get? i) hrefills.edges).trans he, hs⟩
  have htended := h.tended d₀ hn (hid ▸ hrash)
  refine ⟨?_, fun pre t post heq => ?_⟩
  · rw [hidle] at htended
    rcases htended.base with hlinked | ⟨t, ht⟩ | ⟨hnone, -⟩
    · exact Or.inl (hfed (hshader ▸ hlinked))
    · cases ht
    · rcases Int32.lt_or_le d.bound 0 with hneg | hbound
      · exact Or.inr (Or.inr ⟨hbindings ▸ hnone, hneg, False.elim⟩)
      · have hpin : w' d.shader = some (.input d.id .int) :=
          Wiring.Seats.input (hw'.casts.plays _ hd) (d.shader, .int) List.mem_cons_self
        exact Or.inl ((hw'.laid.fed_iff hpin).2 fun hnil =>
          halone (mem_boundAlone hd hbound hnil))
  · cases pre <;> cases heq

/-! ## Runs that load what was saved -/

/-- The editors that operations and loading lead to, when no event is dropped. A text that is loaded
was saved by such an editor. `rash` has the draw nodes that loading found without a link and bound
to a shader. -/
inductive Resumed : List Id → Editor → Prop
  | new (services : Services) (settings : EvalSettings) : Resumed [] (.new services settings)
  | step {rash : List Id} {e : Editor} (h : Resumed rash e) (op : Operation)
      (hwhole : op.Whole e) : Resumed rash (op.apply e)
  | load {rash rash₀ : List Id} {e e₀ : Editor} (h : Resumed rash e) (h₀ : Resumed rash₀ e₀) :
      Resumed ((e₀.load e.save).2.boundAlone ++ rash) (e₀.load e.save).2

namespace Resumed

variable {rash : List Id}

theorem based (h : Resumed rash e) : e.Based False rash ∧ e.graph.outbox = [] := by
  induction h with
  | new services settings => exact ⟨.new services settings, rfl⟩
  | step _ op hwhole ih => exact ⟨ih.1.apply ih.2 hwhole, outbox_apply ih.2 op⟩
  | @load _ _ e e₀ _ _ ih _ =>
      refine ⟨ih.1.load ih.2 e₀, ?_⟩
      obtain ⟨w, hw⟩ := ih.1.held
      obtain ⟨_, _, hload⟩ := hw.load_text e₀
      rw [hload]
      rfl

/-- A draw node to whose shader pin nothing is linked has just the two inputs that it was made with,
unless loading bound it to a shader all the same. -/
theorem inputs_eq_of_unlinked (h : Resumed rash e) {d : Draw} (hd : .draw d ∈ e.nodes)
    (hrash : d.id ∉ rash) (hnil : e.graph.edgesFrom d.shader = []) :
    d.bindings = [] ∧ (UiNode.draw d).inputs = [d.shader, d.model] := by
  obtain ⟨hbased, hidle⟩ := h.based
  have hneighbors : e.graph.neighbors d.shader = [] := by
    have hperm := hbased.consistent.perm d.shader
    rw [hnil] at hperm
    exact hperm.eq_nil
  have hbase := hbased.isBase hidle hd hrash hneighbors
  exact ⟨hbase.1, hbase.inputs⟩

end Resumed

/-- Two draw nodes; the shader pin of the first holds an index, though nothing is linked to it. -/
def paired : Editor :=
  [.addNode .draw, .addNode .draw, .setPin 1 (.int 1), .setRoot (some 0)].foldl Operation.apply
    (.new { shaders := lampLibrary [⟨"tint", "float3"⟩] })

/-- When the editor is opened again, the first is bound without a link. So it gets an input for the
variable of the shader when this is loaded again. -/
example : (paired.reopened paired.scene.services paired.settings).graph.edgesFrom 1 = [] ∧
    .draw { id := 0, shader := 1, model := 3, output := 5, bindings := [⟨14, "tint", .float3⟩],
            bound := 1 } ∈ ((Operation.reloadShader 1).apply
      (paired.reopened paired.scene.services paired.settings)).nodes := by decide +kernel

/-- They are saved and loaded, and then a shader is loaded again. -/
def awoken : Editor := (Operation.reloadShader 1).apply (paired.load paired.save).2

theorem load_save_paired : paired.load paired.save =
    (.ok (), paired.reopened paired.scene.services paired.settings) := by
  have hreached : Reached paired :=
    (((Reached.new _ _).step (.addNode .draw) (by decide +kernel)).step (.addNode .draw)
      (by decide +kernel)).step (.setPin 1 (.int 1)) trivial |>.step (.setRoot (some 0)) trivial
  exact hreached.load_save_eq ⟨by decide +kernel, by decide +kernel⟩ paired

theorem resumed_awoken : Resumed [0] awoken := by
  have hpaired : Resumed [] paired :=
    (((Resumed.new _ _).step (.addNode .draw) trivial).step (.addNode .draw) trivial).step
      (.setPin 1 (.int 1)) trivial |>.step (.setRoot (some 0)) trivial
  have hloaded := hpaired.load hpaired
  have halone : (paired.load paired.save).2.boundAlone = [0] := by
    rw [load_save_paired]
    decide +kernel
  rw [halone] at hloaded
  refine hloaded.step (.reloadShader 1) ?_
  rw [load_save_paired]
  decide +kernel

/-- The second has its two inputs still. -/
theorem unlinked_awoken :
    .draw { id := 7, shader := 8, model := 10, output := 12 } ∈ awoken.nodes ∧
      awoken.graph.edgesFrom 8 = [] ∧
        (UiNode.draw { id := 7, shader := 8, model := 10, output := 12 }).inputs = [8, 10] := by
  have hd : UiNode.draw { id := 7, shader := 8, model := 10, output := 12 } ∈ awoken.nodes := by
    rw [awoken, load_save_paired]
    decide +kernel
  have hnil : awoken.graph.edgesFrom 8 = [] := by
    rw [awoken, load_save_paired]
    decide +kernel
  exact ⟨hd, hnil, (resumed_awoken.inputs_eq_of_unlinked hd (by decide) hnil).2⟩

end Editor

end DrawGraph
