import DrawGraph.Editor.Document
import DrawGraph.Proofs.Document
import DrawGraph.Proofs.Editor.Reflection
import DrawGraph.Proofs.UiNode.Load

/-!
# Saved editors are opened again

What a reached editor saves can be loaded, by that editor or any other. The graph comes back with
its ids, nodes, edges and targets, and the UI nodes come back in their order with their pins and all
that was set on them; the observers and the root are those of before.
-/

namespace DrawGraph

open UiNode

namespace Bus

theorem foldl_attach {ns : List UiNode} {b : Bus} (h : (b ++ ns.map UiNode.id).Nodup) :
    ns.foldl (fun b n => (attach b n.id).1) b = b ++ ns.map UiNode.id := by
  induction ns generalizing b with
  | nil => simp
  | cons n ns ih =>
      have hsplit : b ++ (n :: ns).map UiNode.id = (b ++ [n.id]) ++ ns.map UiNode.id := by simp
      have hnew : n.id ∉ b := by
        rw [hsplit] at h
        have hb := (List.nodup_append.1 h).1
        exact fun hmem => (List.nodup_append.1 hb).2.2 _ hmem _ List.mem_cons_self rfl
      have hattach : (attach b n.id).1 = b ++ [n.id] := by rw [attach, if_neg hnew]
      rw [List.foldl_cons, hattach, hsplit]
      exact ih (hsplit ▸ h)

end Bus

namespace Editor

variable {w : Wiring} {e : Editor}

/-! ## Loading UI nodes -/

theorem essence_loadNodes (ns : List UiNode) (s : Scene) :
    (loadNodes ns s).1.map essence = ns.map essence := by
  induction ns generalizing s with
  | nil => rfl
  | cons n ns ih =>
      rw [List.map_cons, ← essence_onLoad n s, ← ih (n.onLoad s).2]
      rfl

theorem refills_loadNodes (ns : List UiNode) (s : Scene) :
    Scene.Refills (ns.flatMap UiNode.pins) s (loadNodes ns s).2 := by
  induction ns generalizing s with
  | nil => exact .refl _ s
  | cons n ns ih =>
      rw [List.flatMap_cons]
      apply ((refills_onLoad n s).mono (List.subset_append_left _ _)).trans
      exact (ih _).mono (List.subset_append_right _ _)

/-- Of UI nodes that are the same to a document, the same ones are picked by what it keeps. -/
theorem ids_eq_of_essence {p : UiNode → Bool} (hp : ∀ n : UiNode, p n.essence = p n)
    {ns ns' : List UiNode} (h : ns.map essence = ns'.map essence) :
    (ns.filter p).map UiNode.id = (ns'.filter p).map UiNode.id := by
  have hessence (ns : List UiNode) :
      (ns.filter p).map UiNode.id = ((ns.map essence).filter p).map UiNode.id := by
    rw [List.filter_map, List.map_map]
    have hid : UiNode.id ∘ essence = UiNode.id := funext id_essence
    have hpicked : p ∘ essence = p := funext hp
    rw [hid, hpicked]
  rw [hessence, h, ← hessence]

/-! ## The document of a reached editor -/

/-- What saving asks of an editor: the root is a node and the variables of shaders have names. -/
structure Savable (e : Editor) : Prop where
  root : e.root.any e.graph.hasNode
  named : ∀ n ∈ e.nodes, ∀ b ∈ n.bindings, b.name ≠ ""

theorem Savable.exists_root (h : e.Savable) : ∃ r, e.root = some r ∧ e.graph.hasNode r := by
  have hroot := h.root
  cases hr : e.root with
  | none =>
      rw [hr] at hroot
      cases hroot
  | some r =>
      rw [hr] at hroot
      exact ⟨r, rfl, hroot⟩

theorem Sound.recordable (hs : e.Sound w) (hsave : e.Savable) {n : UiNode} (hn : n ∈ e.nodes) :
    n.Recordable e.values := by
  have hplays := hs.casts.plays n hn
  cases n with
  | constant kind id output loaded =>
      obtain ⟨v, hv, hkind⟩ := hs.wired.output_box (hplays.output List.mem_cons_self)
      rw [Recordable, constantValue, hv]
      exact hkind
  | draw d =>
      refine ⟨hsave.named _ hn, ?_⟩
      have hpins : (d.bindings.map (·.pin)).Nodup := by
        have hinputs := (hs.wired.identity_belongs hplays.identity).1
        exact (List.nodup_cons.1 (List.nodup_cons.1 hinputs).2).2
      rw [← List.length_map (·.pin)]
      apply Graph.length_lt_size hpins
      intro pin hpin
      obtain ⟨b, hb, rfl⟩ := List.mem_map.1 hpin
      exact hs.owns_lt hn (owns_binding hb)
  | binary | sine | time | asset | primitive | camera | transform | renderTarget => exact trivial

theorem WellFormed.resolves (h : e.WellFormed) {n : UiNode} (hn : n ∈ e.nodes) :
    Document.resolves e.graph n := by
  have hpin {p : Id} {d : Direction} (hp : (e.graph.node? p).map Node.direction = some d)
      (hd : d.isPin) : (e.graph.node? p).any fun m => m.direction.isPin := by
    obtain ⟨m, hm, rfl⟩ := Option.map_eq_some_iff.1 hp
    rw [hm]
    exact hd
  rw [Document.resolves, Bool.and_eq_true, List.all_eq_true]
  constructor
  · obtain ⟨m, hm, hdir⟩ := Option.map_eq_some_iff.1 (h.identity n hn)
    rw [hm, Option.any_some, hdir]
    rfl
  · intro p hp
    rcases List.mem_append.1 hp with hp | hp
    · exact hpin (h.input n hn p hp) rfl
    · exact hpin (h.output n hn p hp) rfl

theorem Sound.writable (hs : e.Sound w) (ht : e.scene.Tidy) (hsave : e.Savable) :
    e.document.Writable e.values where
  ordered := ht.ordered
  resolves _ hn := hs.tables.resolves hn
  nodup := hs.casts.nodup
  recordable _ hn := hs.recordable hsave hn

/-- The editor that opens what another has saved. -/
def reopened (e : Editor) (services : Services) (settings : EvalSettings) : Editor :=
  ofDocument ⟨e.graph, e.root, e.nodes.map (recorded e.values)⟩ services settings

theorem Reached.load_save_eq (h : Reached e) (hsave : e.Savable) (e₀ : Editor) :
    e₀.load e.save = (.ok (), e.reopened e₀.scene.services e₀.settings) := by
  obtain ⟨w, hs⟩ := h.sound
  obtain ⟨r, hroot, hlive⟩ := hsave.exists_root
  have hparse := (hs.writable h.tidy hsave).parse_render
  have hgraph : ({ e.graph with outbox := [] } : Graph) = e.graph := by rw [← h.outbox]
  have hfilter : e.root.filter e.graph.hasNode = e.root := by
    rw [hroot, Option.filter_some, if_pos hlive]
  rw [load, save, hparse]
  dsimp only [document]
  rw [hgraph, hfilter]
  rfl

/-! ## What comes back -/

/-- An editor that holds what another held, apart from the values of pins and what UI nodes learn at
work. -/
structure Restores (e e' : Editor) : Prop where
  nextId : e'.graph.nextId = e.graph.nextId
  outline : ∀ id, e'.graph.outline id = e.graph.outline id
  edges : e'.graph.edgeList = e.graph.edgeList
  neighbors : ∀ id, e'.graph.neighbors id = e.graph.neighbors id
  nodes : e'.nodes.map essence = e.nodes.map essence
  bus : e'.bus = e.bus
  root : e'.root = e.root

/-- What a reached editor saves is loaded without fail, and brings back all that the editor held. -/
theorem Reached.load_save (h : Reached e) (hsave : e.Savable) (e₀ : Editor) :
    ∃ e', e₀.load e.save = (.ok (), e') ∧ Restores e e' := by
  refine ⟨_, h.load_save_eq hsave e₀, ?_⟩
  obtain ⟨w, hs⟩ := h.sound
  obtain ⟨r, hroot, _⟩ := hsave.exists_root
  have hrefills := refills_loadNodes (e.nodes.map (recorded e.values))
    { graph := e.graph, services := e₀.scene.services }
  have hessence := essence_loadNodes (e.nodes.map (recorded e.values))
    { graph := e.graph, services := e₀.scene.services }
  have hrecorded : (e.nodes.map (recorded e.values)).map essence = e.nodes.map essence := by
    rw [List.map_map]
    exact List.map_congr_left fun n _ => essence_recorded e.values n
  rw [hrecorded] at hessence
  have hobservers := (ids_eq_of_essence observes_essence hessence).trans hs.bus.symm
  constructor
  · exact hrefills.nextId
  · exact hrefills.outline
  · exact congrArg (fun t => t.elems.toList) hrefills.edges
  · exact hrefills.neighbors
  · exact hessence
  · refine (Bus.foldl_attach ?_).trans ((List.nil_append _).trans hobservers)
    rw [List.nil_append, hobservers]
    exact hs.tables.bus_nodup
  · change e.root.or _ = e.root
    rw [hroot, Option.some_or]

/-- The lamp stands before a camera, beside a sum, and a target shows it. -/
def staged : Editor :=
  [.addNode .renderTarget, .addNode .camera, .addNode .add, .setLens 16 45 1 0.5 50,
    .setPin 26 (.float 2.5), .setColor 3 #v[1, 0, 0.25], .link 14 8].foldl Operation.apply lit

theorem reached_staged : Reached staged := by
  have htarget := tracked_lit.reached.step (.addNode .renderTarget) (by decide +kernel)
  have hcamera := htarget.step (.addNode .camera) (by decide +kernel)
  have hadd := hcamera.step (.addNode .add) (by decide +kernel)
  have hset := ((hadd.step (.setLens 16 45 1 0.5 50) trivial).step
    (.setPin 26 (.float 2.5)) trivial).step (.setColor 3 #v[1, 0, 0.25]) trivial
  exact hset.step (.link 14 8) (by decide +kernel)

theorem savable_staged : staged.Savable where
  root := by decide +kernel
  named := by decide +kernel

theorem load_save_staged : Reached staged ∧ staged.Savable ∧
    ∃ e', (new).load staged.save = (.ok (), e') ∧ Restores staged e' :=
  ⟨reached_staged, savable_staged, reached_staged.load_save savable_staged new⟩

end Editor

end DrawGraph
