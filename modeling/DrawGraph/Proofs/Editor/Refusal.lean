import DrawGraph.Proofs.Editor.Removal

/-!
# Requests that are refused

Checks come before changes, so a request that is refused leaves the editor as it was. There are two
exceptions. If ids run out while a UI node is made, the nodes made so far stay behind, but nothing
that there was is touched. And a UI node that cannot drop its pins is gone all the same.
-/

namespace DrawGraph

namespace Editor

/-- The error that an outcome answers with, if it does. -/
def refusal? {α : Type} (o : Outcome α) : Option EditorError :=
  match o.1 with
  | .ok _ => none
  | .error err => some err

end Editor

def Operation.refusal? (e : Editor) : Operation → Option EditorError
  | addNode kind => Editor.refusal? (e.addNode kind)
  | removeNode id => Editor.refusal? (e.removeNode id)
  | link a b => Editor.refusal? (e.link a b)
  | unlink edge => Editor.refusal? (e.unlink edge)
  | setRoot root => Editor.refusal? (e.setRoot root)
  | setPin pin v => Editor.refusal? (e.setPin pin v)
  | setAsset id path => Editor.refusal? (e.setAsset id path)
  | setShape id shape => Editor.refusal? (e.setShape id shape)
  | setColor id color => Editor.refusal? (e.setColor id color)
  | setLens id fov aspect near far => Editor.refusal? (e.setLens id fov aspect near far)
  | reloadShader shader => Editor.refusal? (e.reloadShader shader)
  | evaluate => Editor.refusal? e.evaluate
  | frame dt => Editor.refusal? (e.frame dt)
  | update _ | serve _ | clear => none

namespace Request

/-- The error that a request is answered with, if it is refused. -/
def refusal? (e : Editor) : Request → Option EditorError
  | operate op => op.refusal? e
  | load text => Editor.refusal? (e.load text)

/-- The request is to advance the clock or to evaluate. -/
def Runs : Request → Prop
  | operate (.update _) | operate .evaluate | operate (.frame _) => True
  | _ => False

end Request

namespace Editor

variable {e : Editor} {err : EditorError}

/-- If an outcome is a refusal, it leaves the editor as it was. -/
def Unmoved {α : Type} (e : Editor) (o : Outcome α) : Prop := (refusal? o).isSome → o.2 = e

section Unmoved

variable {α : Type}

theorem unmoved_ok (a : α) (e' : Editor) : e.Unmoved (.ok a, e') := nofun

theorem unmoved_error (err : EditorError) : e.Unmoved ((.error err, e) : Outcome α) := fun _ => rfl

theorem unmoved_withNode (hidle : e.graph.outbox = []) (id : Id) (expected : String)
    (f : UiNode → Option (Scene → α × UiNode × Scene)) :
    e.Unmoved (e.withNode id expected f) := by
  unfold withNode
  split
  · exact unmoved_error _
  · split
    · rw [drain_of_outbox hidle]
      exact unmoved_error _
    · exact unmoved_ok _ _

end Unmoved

theorem unmoved_link (e : Editor) (a b : Id) : e.Unmoved (e.link a b) := by
  unfold link
  split
  · exact unmoved_ok _ _
  · exact unmoved_error _

theorem unmoved_unlink (e : Editor) (edge : Id) : e.Unmoved (e.unlink edge) := by
  unfold unlink
  split
  · exact unmoved_error _
  · split
    · exact unmoved_error _
    · split
      · exact unmoved_ok _ _
      · exact unmoved_error _

theorem unmoved_setRoot (e : Editor) (root : Option Id) : e.Unmoved (e.setRoot root) := by
  unfold setRoot
  split
  · exact unmoved_ok _ _
  · split
    · exact unmoved_ok _ _
    · exact unmoved_error _

theorem unmoved_setPin (e : Editor) (pin : Id) (v : Value) : e.Unmoved (e.setPin pin v) := by
  unfold setPin
  split
  · exact unmoved_error _
  · split
    · exact unmoved_ok _ _
    · exact unmoved_error _

theorem unmoved_reloadShader (e : Editor) (shader : Int32) :
    e.Unmoved (e.reloadShader shader) := by
  unfold reloadShader
  split
  · exact unmoved_error _
  · exact unmoved_ok _ _

theorem unmoved_load (e : Editor) (text : String) : e.Unmoved (e.load text) := by
  unfold load
  split
  · exact unmoved_error _
  · exact unmoved_ok _ _

/-- Ids ran out while a UI node was made: new nodes stay behind that no UI node owns. -/
structure Stunts (e e' : Editor) : Prop where
  grows : Scene.Grows e.scene e'.scene
  rest : e' = { e with scene := e'.scene }
  unowned : ∀ id, e.graph.nextId ≤ id → e'.ownerOf id = none

theorem Rooted.ownerOf_eq_none (h : e.Rooted) {id : Id} (hid : e.graph.nextId ≤ id) :
    e.ownerOf id = none := by
  have hlt {i : Id} (hi : i < e.graph.nextId) : i ≠ id := fun heq =>
    UInt32.lt_irrefl _ (UInt32.lt_of_lt_of_le (heq ▸ hi) hid)
  rw [ownerOf_of_ne fun n hn => hlt (h.id_lt hn), Option.map_eq_none_iff, List.find?_eq_none]
  intro n hn hmem
  exact hlt (h.pin n hn id (List.contains_iff_mem.1 hmem)).1 rfl

theorem Rooted.addNode_refused (h : e.Rooted) {kind : UiNodeKind}
    (hr : refusal? (e.addNode kind) = some err) :
    err = .graph .idSpaceExhausted ∧ e.Stunts (e.addNode kind).2 := by
  have hstarts := UiNode.create_starts h.consistent kind
  unfold addNode at hr ⊢
  cases hx : (UiNode.create kind).on e.scene with
  | mk r s =>
      rw [hx] at hr
      cases r with
      | ok n => cases hr
      | error graphErr =>
          cases hr
          obtain ⟨rfl, hgrows, _⟩ := hstarts.of_error hx
          exact ⟨rfl, hgrows, rfl, fun id hid => h.ownerOf_eq_none hid⟩

/-- The UI node lists a pin twice, or one that is gone. -/
def Stuck (e : Editor) (n : UiNode) : Prop :=
  ¬ (n.pins.Nodup ∧ ∀ p ∈ n.pins, e.graph.hasNode p)

theorem Rooted.removeNode_refused (h : e.Rooted) {id : Id}
    (hr : refusal? (e.removeNode id) = some err) :
    (e.removeNode id).2 = e ∨ ∃ n ∈ e.nodes, n.id = id ∧ e.Stuck n := by
  cases hfind : e.node? id with
  | none =>
      left
      rw [removeNode, hfind]
  | some n =>
      obtain ⟨hn, rfl⟩ := node?_eq_some hfind
      refine Or.inr ⟨n, hn, rfl, ?_⟩
      rintro ⟨hnodup, hlive⟩
      rw [refusal?, h.removeNode_ok hn hnodup hlive] at hr
      cases hr

/-- A request that is refused changes nothing, unless ids run out while a UI node is made, or a UI
node is removed that cannot drop its pins. -/
theorem Opened.apply_of_refused (h : Opened e) {r : Request} (hruns : ¬ r.Runs)
    (hr : r.refusal? e = some err) :
    r.apply e = e ∨
      (∃ kind, r = .operate (.addNode kind) ∧ err = .graph .idSpaceExhausted ∧
        e.Stunts (r.apply e)) ∨
      ∃ n ∈ e.nodes, r = .operate (.removeNode n.id) ∧ e.Stuck n := by
  have hof {α : Type} {o : Outcome α} (ho : e.Unmoved o) (hr : refusal? o = some err) :
      o.2 = e := ho (hr ▸ rfl)
  cases r with
  | load text => exact Or.inl (hof (unmoved_load e text) hr)
  | operate op =>
      cases op with
      | addNode kind => exact Or.inr (Or.inl ⟨kind, rfl, h.rooted.addNode_refused hr⟩)
      | removeNode id =>
          rcases h.rooted.removeNode_refused hr with hsame | ⟨n, hn, rfl, hstuck⟩
          · exact Or.inl hsame
          · exact Or.inr (Or.inr ⟨n, hn, rfl, hstuck⟩)
      | link a b => exact Or.inl (hof (unmoved_link e a b) hr)
      | unlink edge => exact Or.inl (hof (unmoved_unlink e edge) hr)
      | setRoot root => exact Or.inl (hof (unmoved_setRoot e root) hr)
      | setPin pin v => exact Or.inl (hof (unmoved_setPin e pin v) hr)
      | setAsset id path => exact Or.inl (hof (unmoved_withNode h.outbox _ _ _) hr)
      | setShape id shape => exact Or.inl (hof (unmoved_withNode h.outbox _ _ _) hr)
      | setColor id color => exact Or.inl (hof (unmoved_withNode h.outbox _ _ _) hr)
      | setLens id fov aspect near far => exact Or.inl (hof (unmoved_withNode h.outbox _ _ _) hr)
      | reloadShader shader => exact Or.inl (hof (unmoved_reloadShader e shader) hr)
      | update | evaluate | frame => exact absurd trivial hruns
      | serve | clear => cases hr

/-- One id is left. -/
def oneIdLeft : String := "#graph\n4294967294\n0\n0\n#ui_nodes\n-1\n0\n"

def exhausted : Editor := (Request.load oneIdLeft).apply (.new {} {})

/-- A number needs an identity and an output. -/
def numberMore : Request := .operate (.addNode .scalar)

/-- The identity was made before ids ran out, and is left in the graph. -/
theorem apply_numberMore : Opened exhausted ∧ ¬ numberMore.Runs ∧
    numberMore.refusal? exhausted = some (.graph .idSpaceExhausted) ∧
      exhausted.graph.hasNode 4294967294 = false ∧
        (numberMore.apply exhausted).graph.hasNode 4294967294 = true :=
  ⟨.step (.new {} {}) (.load oneIdLeft), id, by decide +kernel, by decide +kernel,
    by decide +kernel⟩

theorem stunts_numberMore :
    numberMore.refusal? exhausted = some (.graph .idSpaceExhausted) ∧
      exhausted.Stunts (numberMore.apply exhausted) := by
  have hopened : Opened exhausted := .step (.new {} {}) (.load oneIdLeft)
  have hrefused : numberMore.refusal? exhausted = some (.graph .idSpaceExhausted) := by
    decide +kernel
  have hlive : (numberMore.apply exhausted).graph.hasNode 4294967294 = true := by decide +kernel
  have hnone : exhausted.graph.hasNode 4294967294 = false := by decide +kernel
  refine ⟨hrefused, ?_⟩
  rcases hopened.apply_of_refused id hrefused with hsame | ⟨kind, _, _, hstunts⟩ | ⟨n, _, h, _⟩
  · rw [hsame, hnone] at hlive
    cases hlive
  · exact hstunts
  · cases h

end Editor

end DrawGraph
