import DrawGraph.Proofs.UiNode.Move
import DrawGraph.Proofs.UiNode.Pins
import DrawGraph.Proofs.UiNode.Record
import DrawGraph.UiNode.React

/-!
# UI nodes put in place

A UI node that acts on being loaded fills the boxes of its own pins and sets the numbers there. The
graph keeps its nodes and edges, the other pins keep all they have, and the UI node stays what its
record says.
-/

namespace DrawGraph

/-- What a node is, whatever number it holds. -/
def Graph.outline (g : Graph) (id : Id) : Option (NodeType × Direction) :=
  (g.node? id).map fun n => (n.type, n.direction)

/-- The value with another number in the place of its own. A vector has none. -/
def Value.renumbered (v : Value) (x : Float32) : Value :=
  match v with
  | .float _ => .float x
  | .int _ => .int (Binary32.toInt32 x)
  | v => v

namespace Scene

/-- A scene in which at most the boxes and the numbers of some pins have changed. -/
structure Refills (pins : List Id) (s s' : Scene) : Prop where
  nextId : s'.graph.nextId = s.graph.nextId
  targets : s'.graph.targets = s.graph.targets
  edges : s'.graph.edges = s.graph.edges
  outbox : s'.graph.outbox = s.graph.outbox
  outline : ∀ id, s'.graph.outline id = s.graph.outline id
  node? : ∀ id, id ∉ pins → s'.graph.node? id = s.graph.node? id
  box : ∀ id, id ∉ pins → s'.values.get? id = s.values.get? id

variable {pins pins' : List Id} {s s' s'' : Scene} {pin : Id}

namespace Refills

theorem refl (pins : List Id) (s : Scene) : Refills pins s s :=
  ⟨rfl, rfl, rfl, rfl, fun _ => rfl, fun _ _ => rfl, fun _ _ => rfl⟩

theorem trans (h : Refills pins s s') (h' : Refills pins s' s'') : Refills pins s s'' where
  nextId := h'.nextId.trans h.nextId
  targets := h'.targets.trans h.targets
  edges := h'.edges.trans h.edges
  outbox := h'.outbox.trans h.outbox
  outline id := (h'.outline id).trans (h.outline id)
  node? id hid := (h'.node? id hid).trans (h.node? id hid)
  box id hid := (h'.box id hid).trans (h.box id hid)

theorem mono (h : Refills pins s s') (hle : pins ⊆ pins') : Refills pins' s s' where
  nextId := h.nextId
  targets := h.targets
  edges := h.edges
  outbox := h.outbox
  outline := h.outline
  node? id hid := h.node? id fun hmem => hid (hle hmem)
  box id hid := h.box id fun hmem => hid (hle hmem)

theorem neighbors (h : Refills pins s s') (id : Id) :
    s'.graph.neighbors id = s.graph.neighbors id := by
  rw [Graph.neighbors, h.targets, Graph.neighbors]

theorem of_graph (hgraph : s'.graph = s.graph) (hvalues : s'.values = s.values) :
    Refills pins s s' := by
  constructor <;> simp [hgraph, hvalues]

end Refills

theorem refills_store (hpin : pin ∈ pins) (s : Scene) (v : Value) :
    Refills pins s (s.store pin v) := by
  refine ⟨rfl, rfl, rfl, rfl, fun _ => rfl, fun _ _ => rfl, ?_⟩
  intro id hid
  exact (Table.get?_put ..).trans (if_neg (ne_of_mem_of_not_mem hpin hid).symm)

theorem refills_write (hpin : pin ∈ pins) (s : Scene) (v : Value) :
    Refills pins s (s.write pin v) := by
  constructor
  · exact nextId_write s pin v
  · cases hv : v.scalar? <;> simp [write, store, hv]
  · cases hv : v.scalar? <;> simp [write, store, hv]
  · exact outbox_write s pin v
  · intro id
    rw [Graph.outline, node?_write, Option.map_map]
    apply congrArg (Option.map · (s.graph.node? id))
    funext n
    dsimp only [Function.comp_apply]
    split <;> rfl
  · intro id hid
    rw [node?_write]
    simp [(ne_of_mem_of_not_mem hpin hid).symm]
  · intro id hid
    rw [get?_write, if_neg (ne_of_mem_of_not_mem hpin hid).symm]

theorem refills_reload (hpin : pin ∈ pins) (s : Scene) (v : Value) :
    Refills pins s (s.reload pin v) := by
  unfold reload
  cases v <;> exact refills_store hpin s _

theorem refills_foldl {α : Type} {as : List α} {f : Scene → α → Scene}
    (hf : ∀ a ∈ as, ∀ s, Refills pins s (f s a)) (s : Scene) : Refills pins s (as.foldl f s) := by
  induction as generalizing s with
  | nil => exact .refl pins s
  | cons a as ih =>
      obtain ⟨ha, has⟩ := List.forall_mem_cons.1 hf
      exact (ha s).trans (ih has _)

theorem refills_pull {pins : List Id} {pin : Id} (hpin : pin ∈ pins) (s : Scene) :
    Refills pins s (s.pull pin) := by
  unfold pull
  split
  · exact .refl pins s
  · split
    · exact refills_write hpin s _
    · exact .refl pins s

theorem refills_foldl_pull (pins : List Id) (s : Scene) : Refills pins s (pins.foldl pull s) :=
  refills_foldl (fun _ hpin => refills_pull hpin) s

/-! ## Boxes filled from numbers -/

/-- The number of a pin's node. -/
def number (s : Scene) (pin : Id) : Float32 := ((s.graph.node? pin).map (·.value)).getD 0

@[simp] theorem get?_store (s : Scene) (pin : Id) (v : Value) (p : Id) :
    (s.store pin v).values.get? p = if p = pin then some v else s.values.get? p :=
  Table.get?_put ..

theorem reload_eq (s : Scene) (pin : Id) (v : Value) :
    s.reload pin v = s.store pin (v.renumbered (s.number pin)) := by
  unfold reload
  cases v <;> rfl

@[simp] theorem number_store (s : Scene) (pin : Id) (v : Value) (p : Id) :
    (s.store pin v).number p = s.number p := rfl

theorem number_reload (s : Scene) (pin : Id) (v : Value) (p : Id) :
    (s.reload pin v).number p = s.number p := by
  rw [reload_eq, number_store]

/-- Pins that are reloaded one after another each get their own number. -/
theorem get?_foldl_reload {α : Type} {as : List α} (pin : α → Id) (fallback : α → Value)
    (hnodup : (as.map pin).Nodup) {a : α} (ha : a ∈ as) (s : Scene) :
    (as.foldl (fun s a => s.reload (pin a) (fallback a)) s).values.get? (pin a) =
      some ((fallback a).renumbered (s.number (pin a))) := by
  induction as generalizing s with
  | nil => cases ha
  | cons b as ih =>
      obtain ⟨hb, hnodup⟩ := List.nodup_cons.1 hnodup
      rw [List.foldl_cons]
      rcases List.mem_cons.1 ha with rfl | ha
      · have hrest : Refills (as.map pin) (s.reload (pin a) (fallback a))
            (as.foldl (fun s a => s.reload (pin a) (fallback a))
              (s.reload (pin a) (fallback a))) := by
          apply refills_foldl
          exact fun c hc s => refills_reload (List.mem_map_of_mem hc) s _
        rw [hrest.box _ hb, reload_eq, get?_store, if_pos rfl]
      · rw [ih hnodup ha, number_reload]

end Scene

namespace UiNode

open Scene

/-- What a document keeps of a UI node: all but the values of its pins and what it learns at work.
An empty path counts as none. -/
def essence : UiNode → UiNode
  | constant kind id output _ => constant kind id output default
  | asset kind id output path => asset kind id output (path.filter (· ≠ ""))
  | camera c => camera { c with loadedPosition := default, loadedTarget := default }
  | transform t =>
    transform
      { t with loadedTranslation := default, loadedRotation := default, loadedScale := default }
  | draw d => draw { d with bound := noIndex }
  | renderTarget id input _ => renderTarget id input false
  | n => n

variable {n n' : UiNode}

@[simp] theorem id_essence (n : UiNode) : n.essence.id = n.id := by cases n <;> rfl

@[simp] theorem observes_essence (n : UiNode) : n.essence.observes = n.observes := by
  cases n <;> rfl

theorem isRenderTarget_essence (n : UiNode) : n.essence.isRenderTarget = n.isRenderTarget := by
  cases n <;> rfl

theorem essence_recorded (values : ValueStore) (n : UiNode) :
    (n.recorded values).essence = n.essence := by
  cases n with
  | asset kind id output path => simp [recorded, essence]
  | binary | sine | time | constant | primitive | camera | transform | draw | renderTarget => rfl

theorem sockets_recorded (values : ValueStore) (n : UiNode) :
    (n.recorded values).sockets = n.sockets := by
  cases n <;> rfl

theorem essence_onLoad (n : UiNode) (s : Scene) : (n.onLoad s).1.essence = n.essence := by
  cases n <;> rfl

theorem refills_onLoad (n : UiNode) (s : Scene) : Refills n.pins s (n.onLoad s).2 := by
  cases n with
  | binary | sine | time =>
      apply refills_foldl
      exact fun p hp s => refills_reload hp s _
  | constant kind id output loaded => exact refills_write List.mem_cons_self s loaded
  | asset kind id output path =>
      have hs := graph_resolveAsset s kind path
      have houtput : output ∈ (asset kind id output path).pins := List.mem_cons_self
      apply (Refills.of_graph hs.1 hs.2).trans
      exact refills_write houtput _ (.int (s.resolveAsset kind path).1)
  | primitive id output shape =>
      have hs := graph_resolvePrimitive s shape
      have houtput : output ∈ (primitive id output shape).pins := List.mem_cons_self
      apply (Refills.of_graph hs.1 hs.2).trans
      exact refills_write houtput _ (.int (s.resolvePrimitive shape).1)
  | camera c =>
      have hposition : c.position ∈ (camera c).pins := by simp [pins, inputs]
      have htarget : c.target ∈ (camera c).pins := by simp [pins, inputs]
      have houtput : c.output ∈ (camera c).pins := by simp [pins, outputs]
      apply (refills_store hposition s _).trans
      apply (refills_store htarget _ _).trans
      exact refills_store houtput _ _
  | transform t =>
      have htranslation : t.translation ∈ (transform t).pins := by simp [pins, inputs]
      have hrotation : t.rotation ∈ (transform t).pins := by simp [pins, inputs]
      have hscale : t.scale ∈ (transform t).pins := by simp [pins, inputs]
      have houtput : t.output ∈ (transform t).pins := by simp [pins, outputs]
      apply (refills_store htranslation s _).trans
      apply (refills_store hrotation _ _).trans
      apply (refills_store hscale _ _).trans
      exact refills_store houtput _ _
  | draw d =>
      have hshader : d.shader ∈ (draw d).pins := by simp [pins, inputs]
      have hmodel : d.model ∈ (draw d).pins := by simp [pins, inputs]
      have houtput : d.output ∈ (draw d).pins := by simp [pins, outputs]
      have hbinding : ∀ b ∈ d.bindings, b.pin ∈ (draw d).pins := by
        intro b hb
        simp only [pins, inputs, List.mem_append, List.mem_cons, List.mem_map]
        exact Or.inl (Or.inr (Or.inr ⟨b, hb, rfl⟩))
      apply (refills_reload hshader s _).trans
      apply (refills_reload hmodel _ _).trans
      apply (refills_reload houtput _ _).trans
      exact refills_foldl (fun b hb s => refills_reload (hbinding b hb) s _) _
  | renderTarget id input ready =>
      have hinput : input ∈ (renderTarget id input ready).pins := List.mem_cons_self
      exact refills_reload hinput s (.float 0)

/-- The vector that an input was loaded with. -/
def loadedInput (n : UiNode) (p : Id) : Option Value :=
  match n with
  | camera c =>
    if p = c.position then some (.float3 c.loadedPosition)
    else if p = c.target then some (.float3 c.loadedTarget)
    else none
  | transform t =>
    if p = t.translation then some (.float3 t.loadedTranslation)
    else if p = t.rotation then some (.float3 t.loadedRotation)
    else if p = t.scale then some (.float3 t.loadedScale)
    else none
  | _ => none

theorem box_onLoad_draw {d : Draw} (hnodup : (draw d).pins.Nodup) {p : Id} {kind : ValueKind}
    (hp : (p, kind) ∈ (draw d).sockets) (s : Scene) :
    ((draw d).onLoad s).2.values.get? p =
      some ((Value.ofKind kind).renumbered (s.number p)) := by
  simp only [pins, inputs, outputs, List.cons_append, List.nodup_cons, List.mem_cons,
    List.mem_append, List.not_mem_nil, or_false, not_or] at hnodup
  obtain ⟨⟨hmodel, hbindings, houtput⟩, ⟨hbindings', houtput'⟩, hrest⟩ := hnodup
  obtain ⟨hpins, -, hdisjoint⟩ := List.nodup_append.1 hrest
  have hfold (t : Scene) : Refills (d.bindings.map (·.pin)) t
      (d.bindings.foldl (fun s b => s.reload b.pin (.ofKind b.type.kind)) t) := by
    apply refills_foldl
    exact fun b hb s => refills_reload (List.mem_map_of_mem hb) s _
  simp only [sockets, List.mem_cons, List.mem_map, Prod.mk.injEq] at hp
  rcases hp with ⟨rfl, rfl⟩ | ⟨rfl, rfl⟩ | ⟨b, hb, rfl, rfl⟩
  · refine ((hfold _).box _ hbindings).trans ?_
    simp [reload_eq, hmodel, houtput, Value.ofKind]
  · refine ((hfold _).box _ hbindings').trans ?_
    simp [reload_eq, houtput', Value.ofKind]
  · have hread := get?_foldl_reload (·.pin) (fun b => .ofKind b.type.kind) hpins hb
      (((s.reload d.shader (.int noIndex)).reload d.model (.int noIndex)).reload d.output
        (.float 0))
    rw [number_reload, number_reload, number_reload] at hread
    exact hread

/-- What an input of a kind holds after loading: what it was loaded with, or else what the number of
its node says. -/
theorem box_onLoad {n : UiNode} (hnodup : n.pins.Nodup) {p : Id} {kind : ValueKind}
    (hp : (p, kind) ∈ n.sockets) (s : Scene) :
    (n.onLoad s).2.values.get? p =
      some ((n.loadedInput p).getD ((Value.ofKind kind).renumbered (s.number p))) := by
  cases n with
  | binary op id left right output =>
      have hpin : p ∈ (binary op id left right output).pins ∧ kind = .float := by
        simp only [sockets, List.mem_cons, Prod.mk.injEq, List.not_mem_nil, or_false] at hp
        rcases hp with ⟨rfl, rfl⟩ | ⟨rfl, rfl⟩ <;> simp [pins, inputs]
      obtain ⟨hpin, rfl⟩ := hpin
      exact get?_foldl_reload (fun p => p) (fun _ => .float 0) (by simpa using hnodup) hpin s
  | sine id input output =>
      have hpin : p ∈ (sine id input output).pins ∧ kind = .float := by
        simp only [sockets, List.mem_singleton, Prod.mk.injEq] at hp
        obtain ⟨rfl, rfl⟩ := hp
        simp [pins, inputs]
      obtain ⟨hpin, rfl⟩ := hpin
      exact get?_foldl_reload (fun p => p) (fun _ => .float 0) (by simpa using hnodup) hpin s
  | time | constant | asset | primitive => cases hp
  | camera c =>
      simp only [pins, inputs, outputs, List.cons_append, List.nil_append, List.nodup_cons,
        List.mem_cons, List.not_mem_nil, or_false, not_or] at hnodup
      simp only [sockets, List.mem_cons, Prod.mk.injEq, List.not_mem_nil, or_false] at hp
      rcases hp with ⟨rfl, rfl⟩ | ⟨rfl, rfl⟩ <;>
        simp [onLoad, loadedInput, hnodup, Ne.symm hnodup.1.1]
  | transform t =>
      simp only [pins, inputs, outputs, List.cons_append, List.nil_append, List.nodup_cons,
        List.mem_cons, List.not_mem_nil, or_false, not_or] at hnodup
      simp only [sockets, List.mem_cons, Prod.mk.injEq, List.not_mem_nil, or_false] at hp
      rcases hp with ⟨rfl, rfl⟩ | ⟨rfl, rfl⟩ | ⟨rfl, rfl⟩ <;>
        simp [onLoad, loadedInput, hnodup, Ne.symm hnodup.1.1, Ne.symm hnodup.1.2.1,
          Ne.symm hnodup.2.1.1]
  | draw d => exact box_onLoad_draw hnodup hp s
  | renderTarget id input ready =>
      simp only [sockets, List.mem_singleton, Prod.mk.injEq] at hp
      obtain ⟨rfl, rfl⟩ := hp
      simp [onLoad, reload_eq, loadedInput, Value.ofKind]

end UiNode

end DrawGraph
