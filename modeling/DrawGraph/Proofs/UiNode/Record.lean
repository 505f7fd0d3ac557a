import DrawGraph.Proofs.Record.Worded
import DrawGraph.Table.View
import DrawGraph.UiNode.Record

/-!
# Records of UI nodes are read back

Reading the record of a UI node gives the UI node with the values of its boxes as those that it was
loaded with. An empty path is then no path, and what a draw node or a render target learns at work
is forgotten. A UI node that was read from whatever text is written, as long as there are no boxes,
to a record that gives it again.
-/

namespace DrawGraph

open Reading

namespace UiNode

/-- The UI node that a record tells of. -/
def recorded (values : ValueStore) : UiNode → UiNode
  | constant kind id output loaded =>
    constant kind id output (constantValue values output loaded)
  | asset kind id output path => asset kind id output (path.filter (· ≠ ""))
  | camera c =>
    camera
      { c with
        loadedPosition := storedVec3 values c.position c.loadedPosition
        loadedTarget := storedVec3 values c.target c.loadedTarget }
  | transform t =>
    transform
      { t with
        loadedTranslation := storedVec3 values t.translation t.loadedTranslation
        loadedRotation := storedVec3 values t.rotation t.loadedRotation
        loadedScale := storedVec3 values t.scale t.loadedScale }
  | draw d => draw { d with bound := noIndex }
  | renderTarget id input _ => renderTarget id input false
  | n => n

/-- The inputs for the variables of a shader. -/
def bindings : UiNode → List Binding
  | draw d => d.bindings
  | _ => []

/-- A record of the UI node can be read: a constant gives a value of its kind, and the variables
of a draw node have names and can be counted. -/
def Recordable (values : ValueStore) : UiNode → Prop
  | constant kind _ output loaded => (constantValue values output loaded).kind = kind.valueKind
  | draw d => (∀ b ∈ d.bindings, b.name ≠ "") ∧ d.bindings.length < UInt32.size
  | _ => True

/-- The lines of a record can be read: a constant gives a value of its kind, and the variables of a
draw node have names, be they too many to count or not. -/
def Legible (values : ValueStore) : UiNode → Prop
  | constant kind _ output loaded => (constantValue values output loaded).kind = kind.valueKind
  | draw d => ∀ b ∈ d.bindings, b.name ≠ ""
  | _ => True

/-- The UI node that is read off a record: of the inputs of a draw node as many as are counted. -/
def counted (values : ValueStore) : UiNode → UiNode
  | draw d =>
    draw { d with bindings := d.bindings.take (d.bindings.length % UInt32.size), bound := noIndex }
  | n => n.recorded values

/-- The inputs of a draw node beyond those that are counted. -/
def uncounted (n : UiNode) : List Binding := n.bindings.drop (n.bindings.length % UInt32.size)

variable {values : ValueStore} {n : UiNode}

theorem recordable_iff :
    n.Recordable values ↔ n.Legible values ∧ n.bindings.length < UInt32.size := by
  have hnone : 0 < UInt32.size := by decide
  cases n with
  | draw d => exact Iff.rfl
  | binary | sine | time | constant | asset | primitive | camera | transform | renderTarget =>
      exact (and_iff_left hnone).symm

@[simp] theorem id_recorded (values : ValueStore) (n : UiNode) : (n.recorded values).id = n.id := by
  cases n <;> rfl

@[simp] theorem inputs_recorded (values : ValueStore) (n : UiNode) :
    (n.recorded values).inputs = n.inputs := by
  cases n <;> rfl

@[simp] theorem outputs_recorded (values : ValueStore) (n : UiNode) :
    (n.recorded values).outputs = n.outputs := by
  cases n <;> rfl

theorem pins_recorded (values : ValueStore) (n : UiNode) : (n.recorded values).pins = n.pins := by
  rw [pins, inputs_recorded, outputs_recorded, pins]

/-! ## Inputs that are counted -/

@[simp] theorem id_counted (values : ValueStore) (n : UiNode) : (n.counted values).id = n.id := by
  cases n <;> rfl

theorem pins_counted (values : ValueStore) (n : UiNode) :
    (n.counted values).pins.Sublist n.pins := by
  cases n with
  | draw d =>
      have htake := (List.take_sublist (d.bindings.length % UInt32.size) d.bindings).map Binding.pin
      exact ((htake.cons_cons d.model).cons_cons d.shader).append_right _
  | binary | sine | time | constant | asset | primitive | camera | transform | renderTarget =>
      exact .refl _

/-- All inputs are read just if their number is one of 32 bits. -/
theorem counted_eq_iff :
    n.counted values = n.recorded values ↔ n.bindings.length < UInt32.size := by
  have hnone : 0 < UInt32.size := by decide
  cases n with
  | draw d =>
      have htake : d.bindings.take (d.bindings.length % UInt32.size) = d.bindings ↔
          d.bindings.length < UInt32.size := by
        rw [List.take_eq_self_iff, ← Nat.mod_eq_iff_lt (by decide)]
        exact ⟨fun h => Nat.le_antisymm (Nat.mod_le _ _) h, fun h => h.ge⟩
      rw [bindings, ← htake]
      simp [counted, recorded]
  | binary | sine | time | constant | asset | primitive | camera | transform | renderTarget =>
      exact iff_of_true rfl hnone

theorem uncounted_eq_nil (h : n.bindings.length < UInt32.size) : n.uncounted = [] := by
  rw [uncounted, Nat.mod_eq_of_lt h, List.drop_length]

/-! ## Lines of records -/

theorem plain_bindingLine {b : Binding} (h : b.name ≠ "") : (bindingLine b).Plain := by
  constructor
  · intro s hs
    simp only [bindingLine, List.mem_cons, Field.word.injEq, reduceCtorEq, List.not_mem_nil,
      or_false, false_or] at hs
    rcases hs with rfl | rfl
    · exact h
    · cases b.type <;> decide
  · exact List.cons_ne_nil _ _

theorem reads_readBinding (b : Binding) (ws : List Word) (ls : List (List Word)) :
    Reads readBinding (ws, (bindingLine b).words :: ls) b ([], ls) := by
  apply (reads_nextLine _ _).bind
  apply (reads_ident b.pin).bind
  apply (reads_string b.name).bind
  apply (reads_string b.type.name).bind
  rw [BindingType.ofName?_name]
  exact reads_pure _ _

theorem reads_readBindings (bs : List Binding) (ls : List (List Word)) :
    Reads (readBindings bs.length) ([], (bs.map bindingLine).map Line.words ++ ls) bs
      ([], ls) := by
  induction bs with
  | nil => exact reads_pure _ _
  | cons b bs ih => exact (reads_readBinding b _ _).bind ih.bind_pure

theorem reads_readConstant {kind : ConstantKind} {v : Value} (id output : Id)
    (hkind : v.kind = kind.valueKind) (ls : List (List Word)) :
    Reads (readConstant kind) (Line.words [.id id, .id output, .value v], ls)
      (.constant kind id output v) ([], ls) := by
  apply (reads_ident id).bind
  apply (reads_ident output).bind
  rw [← hkind]
  exact (reads_value v).bind_pure

theorem reads_readAsset (kind : AssetKind) (id output : Id) (path : Option String)
    (ls : List (List Word)) :
    Reads (readAsset kind) (Line.words [.id id, .id output, .text path], ls)
      (.asset kind id output (path.filter (· ≠ ""))) ([], ls) := by
  apply (reads_ident id).bind
  apply (reads_ident output).bind
  exact (reads_text path).bind_pure

theorem reads_readBinary (op : BinaryOp) (id left right output : Id) (ls : List (List Word)) :
    Reads (readBinary op) (Line.words [.id id, .id left, .id right, .id output], ls)
      (.binary op id left right output) ([], ls) := by
  apply (reads_ident id).bind
  apply (reads_ident left).bind
  apply (reads_ident right).bind
  exact (reads_ident output).bind_pure

theorem reads_readCamera (c : Camera) (ls : List (List Word)) :
    Reads readCamera (((camera c).record values).1.words, ls) ((camera c).recorded values)
      ([], ls) := by
  apply (reads_ident c.id).bind
  apply (reads_ident c.position).bind
  apply (reads_ident c.target).bind
  apply (reads_ident c.output).bind
  apply (reads_number c.fov).bind
  apply (reads_number c.aspect).bind
  apply (reads_number c.near).bind
  apply (reads_number c.far).bind
  apply (reads_float3 _).bind
  exact (reads_float3 _).bind_pure

theorem reads_readTransform (t : Transform) (ls : List (List Word)) :
    Reads readTransform (((transform t).record values).1.words, ls)
      ((transform t).recorded values) ([], ls) := by
  apply (reads_ident t.id).bind
  apply (reads_ident t.translation).bind
  apply (reads_ident t.rotation).bind
  apply (reads_ident t.scale).bind
  apply (reads_ident t.output).bind
  apply (reads_float3 _).bind
  apply (reads_float3 _).bind
  exact (reads_float3 _).bind_pure

/-- As many inputs are read as the record counts, whatever follows. -/
theorem reads_countedDraw (d : Draw) (ls : List (List Word)) :
    Reads readDraw (((draw d).record values).1.words,
      ((d.bindings.take (d.bindings.length % UInt32.size)).map bindingLine).map Line.words ++ ls)
      ((draw d).counted values) ([], ls) := by
  have hcount : (d.bindings.take (d.bindings.length % UInt32.size)).length =
      (UInt32.ofNat d.bindings.length).toNat := by
    rw [List.length_take, Nat.min_eq_left (Nat.mod_le _ _)]
    rfl
  apply (reads_ident d.id).bind
  apply (reads_ident d.model).bind
  apply (reads_ident d.shader).bind
  apply (reads_ident d.output).bind
  apply (reads_count (.ofNat d.bindings.length)).bind
  apply (reads_float3 d.color).bind
  rw [← hcount]
  exact (reads_readBindings _ _).bind_pure

/-- The lines of a record beyond the first: those that are counted and those that are not. -/
theorem record_draw (d : Draw) : ((draw d).record values).2 =
    (d.bindings.take (d.bindings.length % UInt32.size)).map bindingLine ++
      (draw d).uncounted.map bindingLine := by
  rw [← List.map_append, uncounted, bindings, List.take_append_drop]
  rfl

theorem reads_readDraw (d : Draw) (ls : List (List Word)) :
    Reads readDraw (((draw d).record values).1.words,
      ((draw d).record values).2.map Line.words ++ ls) ((draw d).counted values)
      ([], ((draw d).uncounted.map bindingLine).map Line.words ++ ls) := by
  rw [record_draw, List.map_append, List.append_assoc]
  exact reads_countedDraw d _

/-- The record of a UI node, read as one of its kind, gives it back and takes up the lines that it
counts. -/
theorem reads_read (hn : n.Legible values) (ls : List (List Word)) :
    Reads (read n.kind) ((n.record values).1.words, (n.record values).2.map Line.words ++ ls)
      (n.counted values) ([], (n.uncounted.map bindingLine).map Line.words ++ ls) := by
  cases n with
  | binary op id left right output =>
      cases op <;> exact reads_readBinary _ id left right output ls
  | sine id input output =>
      apply (reads_ident id).bind
      apply (reads_ident input).bind
      exact (reads_ident output).bind_pure
  | time id output =>
      apply (reads_ident id).bind
      exact (reads_ident output).bind_pure
  | constant kind id output loaded =>
      cases kind <;> exact reads_readConstant id output hn ls
  | asset kind id output path =>
      cases kind <;> exact reads_readAsset _ id output path ls
  | primitive id output shape =>
      have htag : shape.tag < UInt32.size := by cases shape <;> decide
      apply (reads_ident id).bind
      apply (reads_ident output).bind
      exact (reads_tagged htag (PrimitiveShape.ofTag?_tag shape)).bind_pure
  | camera c => exact reads_readCamera c ls
  | transform t => exact reads_readTransform t ls
  | draw d => exact reads_readDraw d ls
  | renderTarget id input ready =>
      apply (reads_ident id).bind
      exact (reads_ident input).bind_pure

/-- A record whose inputs can be counted is taken up whole. -/
theorem reads_read_recorded (hn : n.Recordable values) (ls : List (List Word)) :
    Reads (read n.kind) ((n.record values).1.words, (n.record values).2.map Line.words ++ ls)
      (n.recorded values) ([], ls) := by
  obtain ⟨hlegible, hcount⟩ := recordable_iff.1 hn
  have hread := reads_read hlegible ls
  rwa [counted_eq_iff.2 hcount, uncounted_eq_nil hcount] at hread

/-! ## What can be read -/

/-- A record of the UI node, written without boxes, gives it again. -/
structure Fresh (n : UiNode) : Prop where
  legible : n.Legible .empty
  recorded : n.recorded .empty = n

theorem constantValue_empty (output : Id) (loaded : Value) :
    constantValue .empty output loaded = loaded := by
  rw [constantValue, Table.get?_empty, Option.getD_none]

theorem storedVec3_empty (pin : Id) (v : Vec3) : storedVec3 .empty pin v = v := by
  rw [storedVec3, Table.get?_empty]

theorem obtains_readBinding : Obtains readBinding (·.name ≠ "") := by
  apply obtains_nextLine.bind
  intro _ _
  apply (obtains_form _ _).bind
  intro pin _
  apply obtains_string.bind
  intro name hname
  apply obtains_string.bind
  intro typeName _
  split
  · exact obtains_pure hname
  · exact obtains_fail _

theorem obtains_readBindings (k : Nat) :
    Obtains (readBindings k) fun bs => ∀ b ∈ bs, b.name ≠ "" := by
  induction k with
  | zero => exact obtains_pure fun _ hb => nomatch hb
  | succ k ih =>
      apply obtains_readBinding.bind
      intro b hb
      exact ih.bind_pure fun bs hbs => List.forall_mem_cons.2 ⟨hb, hbs⟩

theorem obtains_readBinary (op : BinaryOp) : Obtains (readBinary op) Fresh := by
  iterate 3 refine (obtains_form _ _).bind fun _ _ => ?_
  exact (obtains_form _ _).bind_pure fun _ _ => ⟨trivial, rfl⟩

theorem obtains_readConstant (kind : ConstantKind) : Obtains (readConstant kind) Fresh := by
  iterate 2 refine (obtains_form _ _).bind fun _ _ => ?_
  refine (obtains_value _).bind_pure fun v hv => ⟨?_, ?_⟩
  · rwa [UiNode.Legible, constantValue_empty]
  · rw [UiNode.recorded, constantValue_empty]

theorem obtains_readAsset (kind : AssetKind) : Obtains (readAsset kind) Fresh := by
  iterate 2 refine (obtains_form _ _).bind fun _ _ => ?_
  refine obtains_text.bind_pure fun path hpath => ⟨trivial, ?_⟩
  rw [UiNode.recorded, hpath]

theorem obtains_readCamera : Obtains readCamera Fresh := by
  iterate 8 refine (obtains_form _ _).bind fun _ _ => ?_
  refine (obtains_numbers 3).bind fun _ _ => ?_
  refine (obtains_numbers 3).bind_pure fun _ _ => ⟨trivial, ?_⟩
  simp only [UiNode.recorded, storedVec3_empty]

theorem obtains_readTransform : Obtains readTransform Fresh := by
  iterate 5 refine (obtains_form _ _).bind fun _ _ => ?_
  iterate 2 refine (obtains_numbers 3).bind fun _ _ => ?_
  refine (obtains_numbers 3).bind_pure fun _ _ => ⟨trivial, ?_⟩
  simp only [UiNode.recorded, storedVec3_empty]

theorem obtains_readDraw : Obtains readDraw Fresh := by
  iterate 5 refine (obtains_form _ _).bind fun _ _ => ?_
  refine (obtains_numbers 3).bind fun _ _ => ?_
  exact (obtains_readBindings _).bind_pure fun _ hnames => ⟨hnames, rfl⟩

theorem obtains_read (kind : UiNodeKind) : Obtains (read kind) Fresh := by
  cases kind with
  | add | multiply => exact obtains_readBinary _
  | sine =>
      iterate 2 refine (obtains_form _ _).bind fun _ _ => ?_
      exact (obtains_form _ _).bind_pure fun _ _ => ⟨trivial, rfl⟩
  | time | renderTarget =>
      refine (obtains_form _ _).bind fun _ _ => ?_
      exact (obtains_form _ _).bind_pure fun _ _ => ⟨trivial, rfl⟩
  | scalar | vector2 | vector3 | vector4 | matrix4x4 => exact obtains_readConstant _
  | model | texture | shader => exact obtains_readAsset _
  | camera => exact obtains_readCamera
  | transform => exact obtains_readTransform
  | primitive =>
      iterate 2 refine (obtains_form _ _).bind fun _ _ => ?_
      exact (obtains_tagged _ _).bind_pure fun _ _ => ⟨trivial, rfl⟩
  | draw => exact obtains_readDraw

end UiNode

end DrawGraph
