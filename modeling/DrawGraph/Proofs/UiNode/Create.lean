import DrawGraph.Proofs.UiNode.Pins
import DrawGraph.UiNode.Create

/-!
# New UI nodes in their roles

Making a UI node of any kind fails only for want of ids, and otherwise ends with a UI node that
plays a new identity and the roles of its pins, while the others keep theirs.
-/

namespace DrawGraph

namespace UiNode

open Scene

/-- A UI node has just been made. -/
def Arrives (w : Wiring) (g : Graph) (n : UiNode) (s : Scene) : Prop :=
  w n.id = none ∧ Seated w g n.id n.sockets n.outputs n.offer s

variable {w : Wiring} {s : Scene}

theorem createBinary_ensures (h : Wired w s.graph s.values) (op : BinaryOp) {type : NodeType}
    (ht : type ≠ .value) :
    (createBinary op type).Ensures s OutOfIds (Arrives w s.graph) := by
  refine (addIdentity_ensures h ht .number).bind ?_
  rintro id s₁ ⟨hnew, h₁⟩
  refine (addInput_ensures h₁ _).bind fun left s₂ h₂ => ?_
  refine (addInput_ensures h₂ _).bind fun right s₃ h₃ => ?_
  refine (addOutput_ensures h₃ (.float 0) (Or.inl rfl)).bind fun output s₄ h₄ => ?_
  exact Attempt.ensures_pure ⟨hnew, h₄⟩

theorem createConstant_ensures (h : Wired w s.graph s.values) (kind : ConstantKind) :
    (createConstant kind).Ensures s OutOfIds (Arrives w s.graph) := by
  have ht : kind.nodeType ≠ .value := by cases kind <;> decide
  refine (addIdentity_ensures h ht (.exactly kind.valueKind)).bind ?_
  rintro id s₁ ⟨hnew, h₁⟩
  refine (addOutput_ensures h₁ _ (Value.kind_ofKind _)).bind fun output s₂ h₂ => ?_
  exact Attempt.ensures_pure ⟨hnew, h₂⟩

/-- The services are asked for an index between making the identity and its output. -/
theorem Seated.of_eq {g : Graph} {id : Id} {sockets : List (Id × ValueKind)} {outputs : List Id}
    {offer : Offer} {s s' : Scene} (h : Seated w g id sockets outputs offer s)
    (hs : s'.graph = s.graph ∧ s'.values = s.values) :
    Seated w g id sockets outputs offer s' := by
  unfold Seated at h ⊢
  rw [hs.1, hs.2]
  exact h

theorem createAsset_ensures (h : Wired w s.graph s.values) (kind : AssetKind) :
    (createAsset kind).Ensures s OutOfIds (Arrives w s.graph) := by
  have ht : kind.nodeType ≠ .value := by cases kind <;> decide
  refine (addIdentity_ensures h ht (.exactly .int)).bind ?_
  rintro id s₁ ⟨hnew, h₁⟩
  refine Attempt.ensures_get_bind (Attempt.ensures_set_bind ?_)
  refine (addOutput_ensures (Seated.of_eq h₁ (graph_resolveAsset s₁ kind none))
    (.int (s₁.resolveAsset kind none).1) rfl).bind
    fun output s₂ h₂ => ?_
  exact Attempt.ensures_pure ⟨hnew, h₂⟩

theorem createPrimitive_ensures (h : Wired w s.graph s.values) :
    createPrimitive.Ensures s OutOfIds (Arrives w s.graph) := by
  refine (addIdentity_ensures h (by decide) (.exactly .int)).bind ?_
  rintro id s₁ ⟨hnew, h₁⟩
  refine Attempt.ensures_get_bind (Attempt.ensures_set_bind ?_)
  refine (addOutput_ensures (Seated.of_eq h₁ (graph_resolvePrimitive s₁ .cube))
    (.int (s₁.resolvePrimitive .cube).1) rfl).bind
    fun output s₂ h₂ => ?_
  exact Attempt.ensures_pure ⟨hnew, h₂⟩

theorem create_ensures (h : Wired w s.graph s.values) (kind : UiNodeKind) :
    (create kind).Ensures s OutOfIds (Arrives w s.graph) := by
  cases kind with
  | add => exact createBinary_ensures h .add (by decide)
  | multiply => exact createBinary_ensures h .multiply (by decide)
  | sine =>
      refine (addIdentity_ensures h (by decide) (.exactly .float)).bind ?_
      rintro id s₁ ⟨hnew, h₁⟩
      refine (addInput_ensures h₁ _).bind fun input s₂ h₂ => ?_
      refine (addOutput_ensures h₂ (.float 0) rfl).bind fun output s₃ h₃ => ?_
      exact Attempt.ensures_pure ⟨hnew, h₃⟩
  | time =>
      refine (addIdentity_ensures h (by decide) (.exactly .float)).bind ?_
      rintro id s₁ ⟨hnew, h₁⟩
      refine (addOutput_ensures h₁ (.float 0) rfl).bind fun output s₂ h₂ => ?_
      exact Attempt.ensures_pure ⟨hnew, h₂⟩
  | scalar => exact createConstant_ensures h .scalar
  | vector2 => exact createConstant_ensures h .vector2
  | vector3 => exact createConstant_ensures h .vector3
  | vector4 => exact createConstant_ensures h .vector4
  | matrix4x4 => exact createConstant_ensures h .matrix4x4
  | model => exact createAsset_ensures h .model
  | texture => exact createAsset_ensures h .texture
  | shader => exact createAsset_ensures h .shader
  | primitive => exact createPrimitive_ensures h
  | camera =>
      refine (addIdentity_ensures h (by decide) (.exactly .float4x4)).bind ?_
      rintro id s₁ ⟨hnew, h₁⟩
      refine (addInput_ensures h₁ _).bind fun position s₂ h₂ => ?_
      refine (addInput_ensures h₂ _).bind fun target s₃ h₃ => ?_
      refine (addOutput_ensures h₃ (.ofKind .float4x4) rfl).bind fun output s₄ h₄ => ?_
      exact Attempt.ensures_pure ⟨hnew, h₄⟩
  | transform =>
      refine (addIdentity_ensures h (by decide) (.exactly .float4x4)).bind ?_
      rintro id s₁ ⟨hnew, h₁⟩
      refine (addInput_ensures h₁ _).bind fun translation s₂ h₂ => ?_
      refine (addInput_ensures h₂ _).bind fun rotation s₃ h₃ => ?_
      refine (addInput_ensures h₃ _).bind fun scale s₄ h₄ => ?_
      refine (addOutput_ensures h₄ (.ofKind .float4x4) rfl).bind fun output s₅ h₅ => ?_
      exact Attempt.ensures_pure ⟨hnew, h₅⟩
  | draw =>
      refine (addIdentity_ensures h (by decide) (.exactly .float)).bind ?_
      rintro id s₁ ⟨hnew, h₁⟩
      refine (addInput_ensures h₁ _).bind fun shader s₂ h₂ => ?_
      refine (addInput_ensures h₂ _).bind fun model s₃ h₃ => ?_
      refine (addOutput_ensures h₃ (.float 0) rfl).bind fun output s₄ h₄ => ?_
      exact Attempt.ensures_pure ⟨hnew, h₄⟩
  | renderTarget =>
      refine (addIdentity_ensures h (by decide) (.exactly .float)).bind ?_
      rintro id s₁ ⟨hnew, h₁⟩
      refine (addInput_ensures h₁ _).bind fun input s₂ h₂ => ?_
      exact Attempt.ensures_pure ⟨hnew, h₂⟩

/-! ## No event is made -/

def waiting (s : Scene) : List Event := s.graph.outbox

theorem preserves_onGraph {α : Type} {f : Graph → Except GraphError (α × Graph)}
    (h : ∀ g a g', f g = .ok (a, g') → g'.outbox = g.outbox) :
    (onGraph f).Preserves waiting := by
  intro s
  rw [onGraph, Attempt.on_of]
  cases hf : f s.graph with
  | error e => rfl
  | ok p => exact h _ p.1 p.2 hf

theorem preserves_addNode (n : Node) : (onGraph (·.addNode n)).Preserves waiting := by
  apply preserves_onGraph
  intro g id g' h
  obtain ⟨_, _, rfl⟩ := Graph.eq_of_addNode h
  rfl

theorem preserves_addEdge (source target : Id) :
    (onGraph (·.addEdge source target .internal)).Preserves waiting := by
  apply preserves_onGraph
  intro g id g' h
  obtain ⟨_, _, _, _, rfl, rfl⟩ := Graph.eq_of_addEdge h
  rfl

theorem preserves_addPin {direction : Direction} {source target : Id → Id} {v : Value} :
    (addPin direction source target v).Preserves waiting :=
  (preserves_addNode _).bind fun pin => (preserves_addEdge (source pin) (target pin)).bind fun _ =>
    Attempt.Preserves.bind (.modify fun _ => rfl) fun _ => .pure pin

theorem preserves_addInput (id : Id) (v : Value) : (addInput id v).Preserves waiting :=
  addInput_eq id v ▸ preserves_addPin

theorem preserves_addOutput (id : Id) (v : Value) : (addOutput id v).Preserves waiting :=
  addOutput_eq id v ▸ preserves_addPin

theorem preserves_output (id : Id) (v : Value) (f : Id → UiNode) :
    (addOutput id v >>= fun pin => pure (f pin)).Preserves waiting :=
  (preserves_addOutput id v).bind fun _ => .pure _

theorem preserves_addIdentity (type : NodeType) : (addIdentity type).Preserves waiting :=
  preserves_addNode _

theorem preserves_createBinary (op : BinaryOp) (type : NodeType) :
    (createBinary op type).Preserves waiting :=
  (preserves_addIdentity _).bind fun id => (preserves_addInput id _).bind fun _ =>
    (preserves_addInput id _).bind fun _ => preserves_output id _ _

theorem preserves_createConstant (kind : ConstantKind) :
    (createConstant kind).Preserves waiting :=
  (preserves_addIdentity _).bind fun id => preserves_output id _ _

theorem preserves_createAsset (kind : AssetKind) : (createAsset kind).Preserves waiting := by
  refine (preserves_addIdentity _).bind fun id s => ?_
  have hs : waiting (s.resolveAsset kind none).2 = waiting s := by
    rw [waiting, (graph_resolveAsset s kind none).1, waiting]
  rw [Attempt.on_bind_of_ok (Attempt.on_get s), Attempt.on_bind_of_ok (Attempt.on_set s _), ← hs]
  exact preserves_output id _ _ _

theorem preserves_createPrimitive : createPrimitive.Preserves waiting := by
  refine (preserves_addIdentity _).bind fun id s => ?_
  have hs : waiting (s.resolvePrimitive .cube).2 = waiting s := by
    rw [waiting, (graph_resolvePrimitive s .cube).1, waiting]
  rw [Attempt.on_bind_of_ok (Attempt.on_get s), Attempt.on_bind_of_ok (Attempt.on_set s _), ← hs]
  exact preserves_output id _ _ _

theorem preserves_create (kind : UiNodeKind) : (create kind).Preserves waiting := by
  cases kind with
  | add => exact preserves_createBinary _ _
  | multiply => exact preserves_createBinary _ _
  | sine =>
      exact (preserves_addIdentity _).bind fun id => (preserves_addInput id _).bind fun _ =>
        preserves_output id _ _
  | time => exact (preserves_addIdentity _).bind fun id => preserves_output id _ _
  | scalar => exact preserves_createConstant _
  | vector2 => exact preserves_createConstant _
  | vector3 => exact preserves_createConstant _
  | vector4 => exact preserves_createConstant _
  | matrix4x4 => exact preserves_createConstant _
  | model => exact preserves_createAsset _
  | texture => exact preserves_createAsset _
  | shader => exact preserves_createAsset _
  | primitive => exact preserves_createPrimitive
  | camera =>
      exact (preserves_addIdentity _).bind fun id => (preserves_addInput id _).bind fun _ =>
        (preserves_addInput id _).bind fun _ => preserves_output id _ _
  | transform =>
      exact (preserves_addIdentity _).bind fun id => (preserves_addInput id _).bind fun _ =>
        (preserves_addInput id _).bind fun _ => (preserves_addInput id _).bind fun _ =>
          preserves_output id _ _
  | draw =>
      exact (preserves_addIdentity _).bind fun id => (preserves_addInput id _).bind fun _ =>
        (preserves_addInput id _).bind fun _ => preserves_output id _ _
  | renderTarget =>
      exact (preserves_addIdentity _).bind fun id => (preserves_addInput id _).bind fun _ => .pure _

/-! ## Services -/

theorem services_onGraph {α : Type} (f : Graph → Except GraphError (α × Graph)) :
    (onGraph f).Preserves Scene.services := by
  intro s
  rw [onGraph, Attempt.on_of]
  cases f s.graph <;> rfl

theorem services_addOutput (id : Id) (v : Value) : (addOutput id v).Preserves Scene.services :=
  (services_onGraph _).bind fun pin => (services_onGraph _).bind fun _ =>
    Attempt.Preserves.bind (.modify fun _ => rfl) fun _ => .pure pin

/-- A new asset node has no path yet, so nothing is loaded for it. -/
theorem services_createAsset (kind : AssetKind) : (createAsset kind).Preserves Scene.services := by
  refine (services_onGraph _).bind fun id s => ?_
  have hs : (s.resolveAsset kind none).2 = s := by cases kind <;> rfl
  rw [Attempt.on_bind_of_ok (Attempt.on_get s), Attempt.on_bind_of_ok (Attempt.on_set s _), hs]
  exact (services_addOutput id _).bind (fun _ => .pure _) s

/-- A new primitive gives the index of a cube. -/
theorem box_createPrimitive {s s' : Scene} {n : UiNode}
    (h : createPrimitive.on s = (.ok n, s')) : ∃ id o, n = .primitive id o .cube ∧
      s'.values.get? o = some (.int (s.resolvePrimitive .cube).1) := by
  obtain ⟨id, t, hid, h⟩ := Attempt.on_bind_eq_ok h
  have hservices : t.services = s.services := by
    have hpreserves := services_onGraph (·.addNode { type := .primitive }) s
    rwa [show (onGraph (·.addNode { type := .primitive })).on s = _ from hid] at hpreserves
  have hindex : (t.resolvePrimitive .cube).1 = (s.resolvePrimitive .cube).1 := by
    unfold Scene.resolvePrimitive
    rw [hservices]
    split <;> rfl
  rw [Attempt.on_bind_of_ok (Attempt.on_get t), Attempt.on_bind_of_ok (Attempt.on_set t _)] at h
  obtain ⟨o, u, hout, h⟩ := Attempt.on_bind_eq_ok h
  cases h
  obtain ⟨_, _, _, _, _, rfl⟩ := addOutput_eq_ok hout
  refine ⟨id, o, rfl, ?_⟩
  rw [← hindex]
  exact (Table.get?_put ..).trans (if_pos rfl)

end UiNode

end DrawGraph
