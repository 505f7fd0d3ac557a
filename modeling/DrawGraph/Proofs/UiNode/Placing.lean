import DrawGraph.Proofs.Editor.Laying
import DrawGraph.Proofs.UiNode.Conduct
import DrawGraph.Proofs.UiNode.React

/-!
# UI nodes in their places

Whatever a UI node does keeps the graph laid along a wiring, also when ids run out on the way: a pin
that could not be made leaves a node without a role behind, and a UI node that could not be made
gives up all the roles that it had got.
-/

namespace DrawGraph

namespace Scene

variable {tight : Prop} {w w' : Wiring} {g : Graph} {id pin : Id}
  {sockets : List (Id × ValueKind)} {outputs : List Id} {offer : Offer} {s s' : Scene}

/-- An identity has the given pins in a graph laid along a wiring that differs from an earlier one
only there. -/
def Placed (tight : Prop) (w : Wiring) (g : Graph) (id : Id) (sockets : List (Id × ValueKind))
    (outputs : List Id) (offer : Offer) (s : Scene) : Prop :=
  ∃ w', Laid tight w' s.graph ∧ w'.Seats id sockets outputs offer ∧
    Wiring.Recast id w g w' s.graph

/-- The graph is the same but for a node that may have been added. -/
def Strews (s s' : Scene) : Prop :=
  s'.graph = s.graph ∨ ∃ n pin, s.graph.AddsNode n pin s'.graph

theorem Strews.laid (h : Strews s s') (hw : Laid tight w s.graph) : Laid tight w s'.graph := by
  rcases h with hsame | ⟨n, pin, ha⟩
  · rwa [hsame]
  · exact hw.addsNode ha

theorem Strews.nextId_le (h : Strews s s') : s.graph.nextId ≤ s'.graph.nextId := by
  rcases h with hsame | ⟨n, pin, ha⟩
  · exact hsame ▸ UInt32.le_refl _
  · exact ha.nextId_le

theorem Strews.neighbors (h : Strews s s') (j : Id) :
    s'.graph.neighbors j = s.graph.neighbors j := by
  rcases h with hsame | ⟨n, pin, ha⟩
  · rw [hsame]
  · exact ha.neighbors j

/-- A pin that could not be made may have left its node behind. -/
theorem addPin_makes (hc : s.graph.Consistent) {direction : Direction} {source target : Id → Id}
    {v : Value} :
    (addPin direction source target v).Ensures s (fun _ s' => Strews s s') fun pin s' =>
      ∃ g₁ edge, s.graph.AddsNode (pinNode direction v) pin g₁ ∧
        g₁.AddsEdge ⟨edge, source pin, target pin, .internal⟩ s'.graph := by
  have hadd : (addPin direction source target v).Ensures s (fun _ s' => Strews s s') _ :=
    addPin_ensures hc (fun _ _ => Or.inl rfl) fun _ pin _ ha _ => Or.inr ⟨_, pin, ha⟩
  refine hadd.mono_ok ?_
  rintro pin _ ⟨g₁, edge, g₂, ha, he, rfl⟩
  exact ⟨g₁, edge, ha, he⟩

theorem addInput_makes (hc : s.graph.Consistent) (id : Id) (v : Value) :
    (addInput id v).Ensures s (fun _ s' => Strews s s') fun pin s' =>
      ∃ g₁ edge, s.graph.AddsNode (pinNode .input v) pin g₁ ∧
        g₁.AddsEdge ⟨edge, id, pin, .internal⟩ s'.graph :=
  addInput_eq id v ▸ addPin_makes hc

theorem addOutput_makes (hc : s.graph.Consistent) (id : Id) (v : Value) :
    (addOutput id v).Ensures s (fun _ s' => Strews s s') fun pin s' =>
      ∃ g₁ edge, s.graph.AddsNode (pinNode .output v) pin g₁ ∧
        g₁.AddsEdge ⟨edge, pin, id, .internal⟩ s'.graph :=
  addOutput_eq id v ▸ addPin_makes hc

/-! ## Boxes have no part in it -/

end Scene

namespace Laid

open Scene

variable {tight : Prop} {w : Wiring} {s : Scene}

theorem write (h : Laid tight w s.graph) (pin : Id) (v : Value) :
    Laid tight w (s.write pin v).graph := by
  refine h.of_views (ordered_write h.ordered pin v) ?_ (fun j => neighbors_write s pin v j)
    fun i => edge?_write s pin v i
  intro j n hn
  refine ⟨_, by rw [node?_write, hn]; rfl, ?_⟩
  split <;> exact ⟨rfl, rfl⟩

theorem pull (h : Laid tight w s.graph) (pin : Id) : Laid tight w (s.pull pin).graph := by
  unfold Scene.pull
  split
  · exact h
  · split
    · exact h.write _ _
    · exact h

theorem foldl_pull (h : Laid tight w s.graph) (pins : List Id) :
    Laid tight w (pins.foldl Scene.pull s).graph := by
  induction pins generalizing s with
  | nil => exact h
  | cons pin pins ih => exact ih (h.pull pin)

end Laid

namespace Scene

variable {tight : Prop} {w w' : Wiring} {g : Graph} {id pin : Id}
  {sockets : List (Id × ValueKind)} {outputs : List Id} {offer : Offer} {s s' : Scene}

/-! ## Pins are made and dropped -/

namespace Placed

theorem write (h : Placed tight w g id sockets outputs offer s) (pin : Id) (v : Value) :
    Placed tight w g id sockets outputs offer (s.write pin v) := by
  obtain ⟨w', hw, hs, hr⟩ := h
  refine ⟨w', hw.write pin v, hs, hr.trans (.of_le id w' ?_)⟩
  rw [nextId_write]
  exact UInt32.le_refl _

theorem consistent (h : Placed tight w g id sockets outputs offer s) : s.graph.Consistent := by
  obtain ⟨w', hw, _⟩ := h
  exact hw.ordered.consistent

theorem strews (h : Placed tight w g id sockets outputs offer s) (hs : Strews s s') :
    Placed tight w g id sockets outputs offer s' := by
  obtain ⟨w', hw, hseats, hr⟩ := h
  exact ⟨w', hs.laid hw, hseats, hr.trans (.of_le id w' hs.nextId_le)⟩

theorem addInput {v : Value} (h : Placed tight w g id sockets outputs offer s) {g₁ : Graph}
    {edge : Id} (ha : s.graph.AddsNode (pinNode .input v) pin g₁)
    (he : g₁.AddsEdge ⟨edge, id, pin, .internal⟩ s'.graph) :
    Placed tight w g id (sockets ++ [(pin, v.kind)]) outputs offer s' := by
  obtain ⟨w', hw, hs, hr⟩ := h
  have hpin : w' pin = none := hw.eq_none ha.fresh
  have hle := UInt32.le_trans ha.nextId_le he.nextId_le
  exact ⟨_, hw.addInput hs.identity ha rfl he v.kind, hs.addInput hpin v.kind,
    hr.trans (Wiring.recast_withPin hpin hs.identity rfl (ha.id_eq ▸ UInt32.le_refl _) hle)⟩

theorem addOutput {v : Value} (h : Placed tight w g id sockets outputs offer s) {g₁ : Graph}
    {edge : Id} (ha : s.graph.AddsNode (pinNode .output v) pin g₁)
    (he : g₁.AddsEdge ⟨edge, pin, id, .internal⟩ s'.graph) :
    Placed tight w g id sockets (outputs ++ [pin]) offer s' := by
  obtain ⟨w', hw, hs, hr⟩ := h
  have hpin : w' pin = none := hw.eq_none ha.fresh
  have hle := UInt32.le_trans ha.nextId_le he.nextId_le
  exact ⟨_, hw.addOutput hs.identity ha rfl he offer, hs.addOutput hpin,
    hr.trans (Wiring.recast_withPin hpin hs.identity rfl (ha.id_eq ▸ UInt32.le_refl _) hle)⟩

theorem erase (h : Placed tight w g id sockets outputs offer s)
    (hpin : pin ∈ sockets.map Prod.fst ∨ pin ∈ outputs) :
    ∃ n g', s.graph.eraseNode pin = .ok (n, g') ∧
      Placed tight w g id (sockets.filter (·.1 ≠ pin)) (outputs.filter (· ≠ pin)) offer
        { s with graph := g', values := s.values.erase pin } := by
  obtain ⟨w', hw, hs, hr⟩ := h
  obtain ⟨r, hrole, hhome, hbare⟩ := hs.role hpin
  obtain ⟨n, g', he, herase⟩ := hw.ordered.consistent.eraseNode (hw.hasNode hrole)
  refine ⟨n, g', he, _, hw.erase hrole hbare herase, hs.without hrole hbare hpin, ?_⟩
  have hgone := hw.coherent.recast hrole (Nat.le_of_eq (congrArg UInt32.toNat herase.nextId.symm))
  rw [hhome] at hgone
  exact hr.trans hgone

theorem eraseOwned {pins : List Id} (h : Placed tight w g id sockets outputs offer s)
    (hnodup : pins.Nodup) (hmem : ∀ p ∈ pins, p ∈ sockets.map Prod.fst ∨ p ∈ outputs) :
    ∃ s', (Scene.eraseOwned pins).on s = (.ok (), s') ∧
      Placed tight w g id (sockets.filter (·.1 ∉ pins)) (outputs.filter (· ∉ pins)) offer s' :=
  eraseOwned_ok (P := fun sockets outputs => Placed tight w g id sockets outputs offer)
    (fun _ _ _ _ h hpin => h.erase hpin) h hnodup hmem

/-- An identity without pins can be dropped. -/
theorem eraseIdentity (h : Placed tight w g id [] [] offer s) :
    ∃ s' w', (Scene.eraseOwned [id]).on s = (.ok (), s') ∧ Laid tight w' s'.graph ∧
      Wiring.Recast id w g w' s'.graph ∧ w' id = none := by
  obtain ⟨w', hw, hs, hr⟩ := h
  have hbare : (Role.identity [] []).Bare := by
    rintro inputs outputs heq
    cases heq
    exact ⟨rfl, rfl⟩
  obtain ⟨n, g', he, herase⟩ := hw.ordered.consistent.eraseNode (hw.hasNode hs.identity)
  refine ⟨_, w'.without id, eraseOwned_singleton he, hw.erase hs.identity hbare herase,
    hr.trans ?_, if_pos rfl⟩
  exact hw.coherent.recast hs.identity (Nat.le_of_eq (congrArg UInt32.toNat herase.nextId.symm))

end Placed

/-! ## UI nodes in the making -/

/-- An identity that did not exist before has its first inputs, which nothing is linked to. -/
structure Nascent (tight : Prop) (w : Wiring) (g : Graph) (id : Id)
    (sockets : List (Id × ValueKind)) (s : Scene) : Prop where
  new : w id = none
  placed (offer : Offer) : Placed tight w g id sockets [] offer s
  few : sockets.length ≤ 3
  idle : ∀ p ∈ sockets, s.graph.neighbors p.1 = []

theorem addIdentity_nascent (h : Laid tight w s.graph) {type : NodeType} (ht : type ≠ .value) :
    (addIdentity type).Ensures s (fun _ s' => Laid tight w s'.graph) fun id s' =>
      Nascent tight w s.graph id [] s' := by
  refine onGraph_ensures (fun _ _ => h) fun id g' ha => ?_
  have hadd := h.ordered.consistent.addNode ha
  have hw : w id = none := h.eq_none hadd.fresh
  refine ⟨hw, fun offer => ⟨_, h.addIdentity hadd rfl ht, ⟨?_, by simp, by simp⟩,
    Wiring.recast_withIdentity hw hadd.nextId_le⟩, by simp, by simp⟩
  exact Function.update_self ..

namespace Nascent

/-- The roles of a UI node in the making can be given up, as nobody else has to do with them. -/
theorem forget (h : Nascent tight w g id sockets s) (hco : w.Coherent) :
    Laid tight w s.graph := by
  obtain ⟨w', hw', hs, hr⟩ := h.placed .number
  have hpin {j : Id} {kind : ValueKind} (hj : w' j = some (.input id kind)) :
      w j = none ∧ s.graph.neighbors j = [] := by
    constructor
    · cases hw : w j with
      | none => rfl
      | some r =>
          obtain rfl := Option.some.inj (hj.symm.trans (hr.keeps hco h.new hw))
          exact absurd rfl (hco.home_ne h.new hw)
    · obtain ⟨inputs, outputs, ho, hmem⟩ := hw'.coherent.input hj
      rw [hs.identity] at ho
      cases ho
      obtain ⟨p, hp, rfl⟩ := List.mem_map.1 hmem
      exact h.idle p hp
  have hout (j : Id) (offer : Offer) : w' j ≠ some (.output id offer) := by
    intro hj
    obtain ⟨inputs, outputs, ho, hmem⟩ := hw'.coherent.output hj
    rw [hs.identity] at ho
    cases ho
    cases hmem
  refine hw'.forget_recast hco h.new hr hout ?_
  rintro j r hj rfl
  cases r with
  | identity inputs outputs =>
      have hn : s.graph.neighbors j = sockets.map Prod.fst := (hw'.lies j _ hs.identity).heads
      constructor
      · rw [hn, List.length_map]
        exact h.few
      · intro m hm
        rw [hn] at hm
        obtain ⟨p, hp, rfl⟩ := List.mem_map.1 hm
        exact hpin (hs.input p hp)
  | input owner kind =>
      have hnil := (hpin hj).2
      constructor <;> simp [hnil]
  | output owner offer => exact absurd hj (hout j offer)

theorem strews (h : Nascent tight w g id sockets s) (hs : Strews s s') :
    Nascent tight w g id sockets s' where
  new := h.new
  placed offer := (h.placed offer).strews hs
  few := h.few
  idle p hp := (hs.neighbors p.1).trans (h.idle p hp)

theorem addInput (h : Nascent tight w g id sockets s) (hco : w.Coherent)
    (hfew : sockets.length < 3) (v : Value) :
    (Scene.addInput id v).Ensures s (fun _ s' => Laid tight w s'.graph) fun pin s' =>
      Nascent tight w g id (sockets ++ [(pin, v.kind)]) s' := by
  obtain ⟨w', hw', hs, _⟩ := h.placed .number
  refine (addInput_makes hw'.ordered.consistent id v).mono
    (fun _ _ hs => (h.strews hs).forget hco) ?_
  rintro pin s' ⟨g₁, edge, ha, he⟩
  have hold {j : Id} (hj : j ≠ id) (hnil : s.graph.neighbors j = []) :
      s'.graph.neighbors j = [] := by
    rw [he.neighbors, if_neg hj, ha.neighbors, hnil]
  refine ⟨h.new, fun offer => (h.placed offer).addInput ha he, ?_, ?_⟩
  · rw [List.length_append]
    exact hfew
  · intro p hp
    rcases List.mem_append.1 hp with hp | hp
    · refine hold ?_ (h.idle p hp)
      intro heq
      exact absurd ((heq ▸ hs.input p hp).symm.trans hs.identity) nofun
    · obtain rfl := List.mem_singleton.1 hp
      refine hold ?_ (hw'.ordered.consistent.neighbors_eq_nil ha.fresh)
      rintro rfl
      exact absurd ((hw'.eq_none ha.fresh).symm.trans hs.identity) nofun

theorem addOutput (h : Nascent tight w g id sockets s) (hco : w.Coherent) (v : Value) :
    (Scene.addOutput id v).Ensures s (fun _ s' => Laid tight w s'.graph) fun pin s' =>
      ∀ offer, w id = none ∧ Placed tight w g id sockets [pin] offer s' := by
  refine (addOutput_makes (h.placed .number).consistent id v).mono
    (fun _ _ hs => (h.strews hs).forget hco) ?_
  rintro pin s' ⟨g₁, edge, ha, he⟩ offer
  exact ⟨h.new, (h.placed offer).addOutput ha he⟩

theorem of_eq (h : Nascent tight w g id sockets s) (hs : s'.graph = s.graph) :
    Nascent tight w g id sockets s' :=
  h.strews (Or.inl hs)

end Nascent

end Scene

namespace UiNode

open Scene

variable {tight : Prop} {w : Wiring} {s : Scene}

/-- A UI node that has just been made has its place. -/
def Lands (tight : Prop) (w : Wiring) (g : Graph) (n : UiNode) (s : Scene) : Prop :=
  w n.id = none ∧ Placed tight w g n.id n.sockets n.outputs n.offer s

/-- Whether or not a UI node could be made, the graph is laid along a wiring. -/
abbrev Tries (tight : Prop) (w : Wiring) (s : Scene) (x : Attempt GraphError Scene UiNode) : Prop :=
  x.Ensures s (fun _ s' => Laid tight w s'.graph) (Lands tight w s.graph)

theorem createBinary_tries (h : Laid tight w s.graph) (op : BinaryOp) {type : NodeType}
    (ht : type ≠ .value) : Tries tight w s (createBinary op type) := by
  refine (addIdentity_nascent h ht).bind fun id s₁ h₁ => ?_
  refine (h₁.addInput h.coherent (by simp) _).bind fun left s₂ h₂ => ?_
  refine (h₂.addInput h.coherent (by simp) _).bind fun right s₃ h₃ => ?_
  refine (h₃.addOutput h.coherent _).bind fun output s₄ h₄ => ?_
  exact Attempt.ensures_pure (h₄ .number)

theorem createConstant_tries (h : Laid tight w s.graph) (kind : ConstantKind) :
    Tries tight w s (createConstant kind) := by
  have ht : kind.nodeType ≠ .value := by cases kind <;> decide
  refine (addIdentity_nascent h ht).bind fun id s₁ h₁ => ?_
  refine (h₁.addOutput h.coherent _).bind fun output s₂ h₂ => ?_
  exact Attempt.ensures_pure (h₂ (.exactly kind.valueKind))

theorem createAsset_tries (h : Laid tight w s.graph) (kind : AssetKind) :
    Tries tight w s (createAsset kind) := by
  have ht : kind.nodeType ≠ .value := by cases kind <;> decide
  refine (addIdentity_nascent h ht).bind fun id s₁ h₁ => ?_
  refine Attempt.ensures_get_bind (Attempt.ensures_set_bind ?_)
  have h₂ := h₁.of_eq (graph_resolveAsset s₁ kind none).1
  refine (h₂.addOutput h.coherent _).bind fun output s₃ h₃ => ?_
  exact Attempt.ensures_pure (h₃ (.exactly .int))

theorem createPrimitive_tries (h : Laid tight w s.graph) : Tries tight w s createPrimitive := by
  refine (addIdentity_nascent h (by decide)).bind fun id s₁ h₁ => ?_
  refine Attempt.ensures_get_bind (Attempt.ensures_set_bind ?_)
  have h₂ := h₁.of_eq (graph_resolvePrimitive s₁ .cube).1
  refine (h₂.addOutput h.coherent _).bind fun output s₃ h₃ => ?_
  exact Attempt.ensures_pure (h₃ (.exactly .int))

theorem create_tries (h : Laid tight w s.graph) (kind : UiNodeKind) :
    Tries tight w s (create kind) := by
  have hco := h.coherent
  cases kind with
  | add => exact createBinary_tries h .add (by decide)
  | multiply => exact createBinary_tries h .multiply (by decide)
  | sine =>
      refine (addIdentity_nascent h (by decide)).bind fun id s₁ h₁ => ?_
      refine (h₁.addInput hco (by simp) _).bind fun input s₂ h₂ => ?_
      refine (h₂.addOutput hco _).bind fun output s₃ h₃ => ?_
      exact Attempt.ensures_pure (h₃ (.exactly .float))
  | time =>
      refine (addIdentity_nascent h (by decide)).bind fun id s₁ h₁ => ?_
      refine (h₁.addOutput hco _).bind fun output s₂ h₂ => ?_
      exact Attempt.ensures_pure (h₂ (.exactly .float))
  | scalar => exact createConstant_tries h .scalar
  | vector2 => exact createConstant_tries h .vector2
  | vector3 => exact createConstant_tries h .vector3
  | vector4 => exact createConstant_tries h .vector4
  | matrix4x4 => exact createConstant_tries h .matrix4x4
  | model => exact createAsset_tries h .model
  | texture => exact createAsset_tries h .texture
  | shader => exact createAsset_tries h .shader
  | primitive => exact createPrimitive_tries h
  | camera =>
      refine (addIdentity_nascent h (by decide)).bind fun id s₁ h₁ => ?_
      refine (h₁.addInput hco (by simp) _).bind fun position s₂ h₂ => ?_
      refine (h₂.addInput hco (by simp) _).bind fun target s₃ h₃ => ?_
      refine (h₃.addOutput hco _).bind fun output s₄ h₄ => ?_
      exact Attempt.ensures_pure (h₄ (.exactly .float4x4))
  | transform =>
      refine (addIdentity_nascent h (by decide)).bind fun id s₁ h₁ => ?_
      refine (h₁.addInput hco (by simp) _).bind fun translation s₂ h₂ => ?_
      refine (h₂.addInput hco (by simp) _).bind fun rotation s₃ h₃ => ?_
      refine (h₃.addInput hco (by simp) _).bind fun scale s₄ h₄ => ?_
      refine (h₄.addOutput hco _).bind fun output s₅ h₅ => ?_
      exact Attempt.ensures_pure (h₅ (.exactly .float4x4))
  | draw =>
      refine (addIdentity_nascent h (by decide)).bind fun id s₁ h₁ => ?_
      refine (h₁.addInput hco (by simp) _).bind fun shader s₂ h₂ => ?_
      refine (h₂.addInput hco (by simp) _).bind fun model s₃ h₃ => ?_
      refine (h₃.addOutput hco _).bind fun output s₄ h₄ => ?_
      exact Attempt.ensures_pure (h₄ (.exactly .float))
  | renderTarget =>
      refine (addIdentity_nascent h (by decide)).bind fun id s₁ h₁ => ?_
      refine (h₁.addInput hco (by simp) _).bind fun input s₂ h₂ => ?_
      exact Attempt.ensures_pure ⟨h₂.new, h₂.placed (.exactly .float)⟩

end UiNode

namespace Draw

open Scene

variable {tight : Prop} {w : Wiring} {g : Graph} {s : Scene} {d : Draw}

/-! ## Following a shader -/

def Stays (tight : Prop) (w : Wiring) (g : Graph) (d : Draw) (s : Scene) : Prop :=
  Placed tight w g d.id (UiNode.draw d).sockets [d.output] (.exactly .float) s

theorem teardown_stays (h : Stays tight w g d s) :
    Stays tight w g (d.teardown s).1 (d.teardown s).2 := by
  have ⟨w', hw, hs, _⟩ := h
  obtain ⟨s', hs', hplaced⟩ := Placed.eraseOwned h (pins_apart hw.coherent hs).1
    fun p hp => Or.inl (mem_sockets_of_binding hp)
  have hquiet : (d.teardown s).2 = s' := by
    rw [teardown, Attempt.quietly, hs']
  obtain ⟨hsockets, houtputs⟩ := filter_pins hw.coherent hs
  rw [hsockets, houtputs] at hplaced
  rw [Stays, hquiet]
  exact hplaced

theorem build_stays (h : Stays tight w g d s) (vars : List (String × BindingType)) :
    Stays tight w g (d.build s vars).1 (d.build s vars).2 := by
  induction vars generalizing d s with
  | nil => exact h
  | cons var vars ih =>
      obtain ⟨name, type⟩ := var
      have hadd := addInput_makes h.consistent d.id (.ofKind type.kind)
      rw [build]
      split
      · next pin s' hx =>
        obtain ⟨g₁, edge, ha, he⟩ := hadd.of_ok hx
        have hplaced := Placed.addInput h ha he
        apply ih
        simpa [Stays, UiNode.sockets] using hplaced
      · next err s' hx => exact ih (h.strews (hadd.of_error hx))

theorem sync_stays (h : Stays tight w g d s) (shader : Int32) :
    Stays tight w g (d.sync s shader).1 (d.sync s shader).2 := by
  have hbound : Stays tight w g { d with bound := shader } s := h
  unfold sync
  dsimp only
  split
  · exact hbound
  · exact build_stays (teardown_stays hbound) _

theorem write_stays (h : Stays tight w g d s) (pin : Id) (v : Value) :
    Stays tight w g d (s.write pin v) :=
  Placed.write h pin v

theorem onEvent_stays (h : Stays tight w g d s) (e : Event) :
    Stays tight w g (d.onEvent s e).1 (d.onEvent s e).2 := by
  cases e with
  | linkCreated source target =>
      unfold onEvent
      dsimp only
      split
      · exact sync_stays (write_stays h _ _) _
      · exact h
  | linkDeleted source target =>
      unfold onEvent
      dsimp only
      split
      · exact teardown_stays (d := d) (write_stays h d.shader (.int noIndex))
      · exact h
  | shaderUpdated shader =>
      unfold onEvent
      dsimp only
      split
      · exact sync_stays h _
      · exact h

end Draw

namespace UiNode

open Scene

variable {tight : Prop} {w : Wiring} {g : Graph} {s : Scene} {n : UiNode}

/-- What became of a UI node that did something, and of the graph. -/
structure Turned (tight : Prop) (w : Wiring) (g : Graph) (n n' : UiNode) (s : Scene) : Prop where
  id : n'.id = n.id
  observes : n'.observes = n.observes
  placed : Placed tight w g n.id n'.sockets n'.outputs n'.offer s

theorem Plays.placed (hn : n.Plays w) (hw : Laid tight w s.graph)
    (hle : g.nextId ≤ s.graph.nextId) :
    Placed tight w g n.id n.sockets n.outputs n.offer s :=
  ⟨w, hw, hn, .of_le n.id w hle⟩

theorem Turned.of_laid {n' : UiNode} (hw : Laid tight w s.graph) (hn' : n'.Plays w)
    (hid : n'.id = n.id) (hobserves : n'.observes = n.observes)
    (hle : g.nextId ≤ s.graph.nextId) : Turned tight w g n n' s :=
  ⟨hid, hobserves, hid ▸ hn'.placed hw hle⟩

theorem Turned.of_stays {d d' : Draw} (hid : d'.id = d.id) (h : Draw.Stays tight w g d' s) :
    Turned tight w g (draw d) (draw d') s :=
  ⟨hid, rfl, by rw [Draw.Stays, hid] at h; exact h⟩

theorem onEvent_turned (hw : Laid tight w s.graph) (hn : n.Plays w) (e : Event) :
    Turned tight w s.graph n (n.onEvent e s).1 (n.onEvent e s).2 := by
  have hle := UInt32.le_refl s.graph.nextId
  unfold onEvent
  split
  · next d =>
    refine .of_stays (id_onEvent (.draw d) e s) ?_
    exact Draw.onEvent_stays (Plays.placed hn hw hle) e
  · exact .of_laid hw hn rfl rfl hle
  · exact .of_laid hw hn rfl rfl hle

theorem onUpdate_turned (hw : Laid tight w s.graph) (hn : n.Plays w) (clock : Clock) :
    Turned tight w s.graph n (n.onUpdate clock s).1 (n.onUpdate clock s).2 := by
  have hpulled := hw.foldl_pull n.inputs
  have hle : s.graph.nextId ≤ (n.inputs.foldl pull s).graph.nextId := by
    rw [nextId_foldl_pull]
    exact UInt32.le_refl _
  have hid := n.id_onUpdate clock s
  unfold onUpdate at hid ⊢
  split
  · next id output =>
    refine .of_laid (hw.write _ _) hn rfl rfl ?_
    rw [nextId_write]
    exact UInt32.le_refl _
  · next d =>
    dsimp only at hid ⊢
    split
    · exact .of_laid hpulled hn rfl rfl hle
    · split
      · exact .of_laid hpulled hn rfl rfl hle
      · next hlinked hbound =>
        rw [if_neg hlinked, if_neg hbound] at hid
        exact .of_stays hid (Draw.sync_stays (Plays.placed hn hpulled hle) _)
  · exact .of_laid hpulled hn rfl rfl hle

/-- A UI node can be removed, and gives up all its roles. -/
theorem onDelete_laid (hw : Laid tight w s.graph) (hn : n.Plays w) :
    ∃ s' w', n.onDelete.on s = (.ok (), s') ∧ Laid tight w' s'.graph ∧
      Wiring.Recast n.id w s.graph w' s'.graph ∧ w' n.id = none := by
  have hplaced : Placed tight w s.graph n.id n.sockets n.outputs n.offer s :=
    hn.placed hw (UInt32.le_refl _)
  have hnodup : n.pins.Nodup := (hn.nodup hw.coherent).of_cons
  obtain ⟨s₁, hs₁, hpins⟩ := hplaced.eraseOwned hnodup fun p hp => by
    rw [map_fst_sockets]
    exact List.mem_append.1 hp
  obtain ⟨hsockets, houtputs⟩ := n.filter_pins
  rw [hsockets, houtputs] at hpins
  obtain ⟨s', w', hs', hw', hrecast, hgone⟩ := hpins.eraseIdentity
  refine ⟨s', w', ?_, hw', hrecast, hgone⟩
  rw [onDelete, Attempt.on_bind_of_ok hs₁]
  exact hs'

end UiNode

end DrawGraph
