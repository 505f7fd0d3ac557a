import DrawGraph.Proofs.UiNode.Placing

/-!
# What UI nodes do to the nodes of a graph

Whatever the text says that an editor was loaded from, a UI node drops no nodes but its pins, turns
no pin round, and gets new pins under new ids only. A UI node that cannot be made to its end leaves
all that there was as it was.
-/

namespace DrawGraph

open Relation

/-! ## Nodes that stay -/

namespace Graph

/-- The direction of a node, if it is there. -/
def facing (g : Graph) (id : Id) : Option Direction := (g.node? id).map Node.direction

variable {g g' g'' : Graph} {mine mine' : Id → Prop} {id : Id}

theorem isSome_facing (g : Graph) (id : Id) : (g.facing id).isSome = g.hasNode id := by
  rw [facing, Option.isSome_map, hasNode_eq]

theorem hasNode_of_facing {direction : Direction} (h : g.facing id = some direction) :
    g.hasNode id := by
  rw [← isSome_facing, h]
  rfl

/-- Of the nodes that may have been there, only some of those in `mine` are gone, and none has
turned. -/
structure Alters (mine : Id → Prop) (g g' : Graph) : Prop where
  consistent : g'.Consistent
  nextId : g.nextId ≤ g'.nextId
  facing : ∀ j < g.nextId, g'.facing j = g.facing j ∨ mine j ∧ g'.facing j = none

namespace Alters

theorem refl (hc : g.Consistent) (mine : Id → Prop) : g.Alters mine g :=
  ⟨hc, UInt32.le_refl _, fun _ _ => Or.inl rfl⟩

theorem facing_eq (h : g.Alters mine g') (hid : id < g.nextId) (hnot : ¬ mine id) :
    g'.facing id = g.facing id :=
  (h.facing id hid).resolve_right fun hgone => hnot hgone.1

theorem hasNode_eq (h : g.Alters mine g') (hid : id < g.nextId) (hnot : ¬ mine id) :
    g'.hasNode id = g.hasNode id := by
  rw [← isSome_facing, h.facing_eq hid hnot, isSome_facing]

/-- A node that was there is gone or faces as it did. -/
theorem facing_eq_some (h : g.Alters mine g') (hid : id < g.nextId) {direction : Direction}
    (hd : g'.facing id = some direction) : g.facing id = some direction := by
  rcases h.facing id hid with hsame | ⟨_, hnone⟩
  · exact hsame.symm.trans hd
  · rw [hnone] at hd
    cases hd

theorem trans (h : g.Alters mine g') (h' : g'.Alters mine g'') : g.Alters mine g'' where
  consistent := h'.consistent
  nextId := UInt32.le_trans h.nextId h'.nextId
  facing j hj := by
    rcases h'.facing j (UInt32.lt_of_lt_of_le hj h.nextId) with hsame | hgone
    · rw [hsame]
      exact h.facing j hj
    · exact Or.inr hgone

theorem mono (h : g.Alters mine g') (hle : ∀ j, mine j → mine' j) : g.Alters mine' g' where
  consistent := h.consistent
  nextId := h.nextId
  facing j hj := (h.facing j hj).imp_right fun hgone => ⟨hle j hgone.1, hgone.2⟩

theorem addsNode {n : Node} (h : g.AddsNode n id g') (mine : Id → Prop) : g.Alters mine g' where
  consistent := h.consistent
  nextId := h.nextId_le
  facing j hj := by
    have hne : j ≠ id := fun heq => UInt32.lt_irrefl _ (h.id_eq ▸ heq ▸ hj)
    rw [Graph.facing, h.node?, if_neg hne]
    exact Or.inl rfl

theorem addsEdge {e : Edge} (h : g.AddsEdge e g') (mine : Id → Prop) : g.Alters mine g' where
  consistent := h.consistent
  nextId := h.nextId_le
  facing j _ := Or.inl (by rw [Graph.facing, h.node?, Graph.facing])

theorem erasesEdge {e : Edge} (h : g.ErasesEdge e g') (mine : Id → Prop) : g.Alters mine g' where
  consistent := h.consistent
  nextId := h.nextId ▸ UInt32.le_refl _
  facing j _ := Or.inl (by rw [Graph.facing, h.node?, Graph.facing])

theorem withOutbox (hc : g.Consistent) (events : List Event) (mine : Id → Prop) :
    g.Alters mine { g with outbox := events } :=
  ⟨hc.withOutbox events, UInt32.le_refl _, fun _ _ => Or.inl rfl⟩

theorem erasesNode (h : g.ErasesNode id g') (hid : mine id) : g.Alters mine g' where
  consistent := h.consistent
  nextId := h.nextId ▸ UInt32.le_refl _
  facing j _ := by
    rw [Graph.facing, h.node?]
    split
    · next hj => exact Or.inr ⟨hj ▸ hid, rfl⟩
    · exact Or.inl rfl

end Alters

end Graph

namespace Scene

open DrawGraph.Graph

variable {home mine : Id → Prop} {s s' t : Scene} {id pin : Id}

theorem facing_write (s : Scene) (pin : Id) (v : Value) (j : Id) :
    (s.write pin v).graph.facing j = s.graph.facing j := by
  rw [facing, node?_write, Option.map_map, facing]
  congr 1
  funext n
  dsimp only [Function.comp]
  split <;> rfl

theorem alters_write (hc : s.graph.Consistent) (pin : Id) (v : Value)
    (mine : Id → Prop) : s.graph.Alters mine (s.write pin v).graph :=
  ⟨consistent_write hc pin v, nextId_write s pin v ▸ UInt32.le_refl _,
    fun j _ => Or.inl (facing_write s pin v j)⟩

theorem Move.alters (hc : s.graph.Consistent) (h : Move home mine s s') :
    s.graph.Alters mine s'.graph := by
  cases h with
  | addNode h => exact .addsNode (hc.addNode h) mine
  | addInput _ h =>
      obtain ⟨g₁, edge, ha, he⟩ := (addInput_makes hc _ _).of_ok h
      exact (Alters.addsNode ha mine).trans (.addsEdge he mine)
  | addOutput _ h =>
      obtain ⟨g₁, edge, ha, he⟩ := (addOutput_makes hc _ _).of_ok h
      exact (Alters.addsNode ha mine).trans (.addsEdge he mine)
  | unbox => exact .refl hc mine
  | eraseNode hid h => exact .erasesNode (hc.erasesNode h) hid
  | write v => exact alters_write hc _ v mine
  | load => exact .refl hc mine

theorem Moves.alters (hc : s.graph.Consistent) (h : Moves home mine s s') :
    s.graph.Alters mine s'.graph := by
  induction h with
  | refl => exact .refl hc mine
  | tail _ hmove ih => exact ih.trans (hmove.alters ih.consistent)

end Scene

/-! ## Acting -/

/-- A UI node that acted dropped none but its pins, and those that it did not have are new. -/
structure UiNode.Renewed (n : UiNode) (g : Graph) (n' : UiNode) (g' : Graph) : Prop where
  id : n'.id = n.id
  alters : g.Alters (· ∈ n.pins) g'
  pins : ∀ p ∈ n'.pins, p ∈ n.pins ∨ g.nextId ≤ p ∧ p < g'.nextId ∧
    ∀ d, g'.facing p = some d → d.isPin

/-- What comes after a UI node wrote its pins. -/
theorem UiNode.Renewed.after {n n' : UiNode} {home : Id → Prop} {s s' : Scene} {g : Graph}
    (hc : s.graph.Consistent) (hmoves : Scene.Moves home (· ∈ n.pins) s s')
    (h : n.Renewed s'.graph n' g) : n.Renewed s.graph n' g := by
  have halters := hmoves.alters hc
  refine ⟨h.id, halters.trans h.alters, fun p hp => (h.pins p hp).imp_right ?_⟩
  exact fun hnew => ⟨UInt32.le_trans halters.nextId hnew.1, hnew.2⟩

namespace Draw

open Scene DrawGraph.Graph

variable {d : Draw} {s : Scene}

theorem mem_pins {d : Draw} {p : Id} : p ∈ (UiNode.draw d).pins ↔
    p = d.shader ∨ p = d.model ∨ p ∈ d.bindings.map (·.pin) ∨ p = d.output := by
  simp [UiNode.pins, UiNode.inputs, UiNode.outputs]

/-- The inputs made for variables are new. -/
theorem build_alters (hc : s.graph.Consistent) (d : Draw) (vars : List (String × BindingType)) :
    ∃ bs, (d.build s vars).1 = { d with bindings := d.bindings ++ bs } ∧
      s.graph.Alters (fun _ => False) (d.build s vars).2.graph ∧
        ∀ b ∈ bs, s.graph.nextId ≤ b.pin ∧ b.pin < (d.build s vars).2.graph.nextId ∧
          (d.build s vars).2.graph.facing b.pin = some .input := by
  induction vars generalizing d s with
  | nil =>
      exact ⟨[], by rw [build, List.append_nil], .refl hc _, fun _ hb => nomatch hb⟩
  | cons var vars ih =>
      obtain ⟨name, type⟩ := var
      have hadd := addInput_makes hc d.id (.ofKind type.kind)
      rw [build]
      split
      · next pin s' hx =>
        obtain ⟨g₁, edge, ha, he⟩ := hadd.of_ok hx
        have hone : s.graph.Alters (fun _ => False) s'.graph :=
          (Alters.addsNode ha _).trans (.addsEdge he _)
        obtain ⟨bs, hd, hbs, hnew⟩ :=
          ih hone.consistent { d with bindings := d.bindings ++ [⟨pin, name, type⟩] }
        have hpin : s'.graph.facing pin = some .input := by
          rw [facing, he.node?, ha.node?, if_pos rfl]
          rfl
        have hlt : pin < s'.graph.nextId :=
          hone.consistent.node_lt pin (hasNode_of_facing hpin)
        refine ⟨⟨pin, name, type⟩ :: bs, ?_, hone.trans hbs, ?_⟩
        · rw [hd, List.append_assoc]
          rfl
        · refine List.forall_mem_cons.2 ⟨⟨?_, UInt32.lt_of_lt_of_le hlt hbs.nextId, ?_⟩, ?_⟩
          · exact ha.id_eq ▸ UInt32.le_refl _
          · rcases hbs.facing pin hlt with hsame | ⟨hfalse, _⟩
            · exact hsame.trans hpin
            · exact hfalse.elim
          · intro b hb
            obtain ⟨hle, hlt', hfacing⟩ := hnew b hb
            exact ⟨UInt32.le_trans hone.nextId hle, hlt', hfacing⟩
      · next err s' hx =>
        have hnone : s.graph.Alters (fun _ => False) s'.graph := by
          rcases hadd.of_error hx with hsame | ⟨n, pin, ha⟩
          · rw [hsame]
            exact .refl hc _
          · exact .addsNode ha _
        obtain ⟨bs, hd, hbs, hnew⟩ := ih hnone.consistent d
        refine ⟨bs, hd, hnone.trans hbs, fun b hb => ?_⟩
        obtain ⟨hle, hlt, hfacing⟩ := hnew b hb
        exact ⟨UInt32.le_trans hnone.nextId hle, hlt, hfacing⟩

theorem renewed_sync (hc : s.graph.Consistent) (d : Draw) (shader : Int32) :
    (UiNode.draw d).Renewed s.graph (.draw (d.sync s shader).1) (d.sync s shader).2.graph := by
  have hbinding : ∀ b ∈ d.bindings, b.pin ∈ (UiNode.draw d).pins := fun b hb =>
    mem_pins.2 (Or.inr (Or.inr (Or.inl (List.mem_map_of_mem hb))))
  unfold sync
  dsimp only
  split
  · exact ⟨rfl, .refl hc _, fun p hp => Or.inl hp⟩
  · have hdown : s.graph.Alters (· ∈ (UiNode.draw d).pins)
        ({ d with bound := shader }.teardown s).2.graph :=
      Moves.alters hc (moves_teardown { d with bound := shader } s hbinding)
    obtain ⟨bs, hd, hbs, hnew⟩ := build_alters hdown.consistent
      ({ d with bound := shader }.teardown s).1 (reflected s shader)
    rw [hd]
    refine ⟨rfl, hdown.trans (hbs.mono fun _ h => h.elim), fun p hp => ?_⟩
    rcases mem_pins.1 hp with hp | hp | hp | hp
    · exact Or.inl (mem_pins.2 (Or.inl hp))
    · exact Or.inl (mem_pins.2 (Or.inr (Or.inl hp)))
    · obtain ⟨b, hb, rfl⟩ := List.mem_map.1 hp
      obtain ⟨hle, hlt, hfacing⟩ := hnew b hb
      refine Or.inr ⟨UInt32.le_trans hdown.nextId hle, hlt, fun dir hdir => ?_⟩
      rw [hfacing] at hdir
      cases hdir
      rfl
    · exact Or.inl (mem_pins.2 (Or.inr (Or.inr (Or.inr hp))))

theorem renewed_onEvent (hc : s.graph.Consistent) (d : Draw) (event : Event) :
    (UiNode.draw d).Renewed s.graph (.draw (d.onEvent s event).1)
      (d.onEvent s event).2.graph := by
  have hshader : d.shader ∈ (UiNode.draw d).pins := mem_pins.2 (Or.inl rfl)
  have hsame : (UiNode.draw d).Renewed s.graph (.draw d) s.graph :=
    ⟨rfl, .refl hc _, fun p hp => Or.inl hp⟩
  have hwrite (v : Value) : Moves (fun _ => False) (· ∈ (UiNode.draw d).pins) s
      (s.write d.shader v) := .single (.write v hshader)
  unfold onEvent
  cases event with
  | linkCreated source target =>
      dsimp only
      split
      · exact .after hc (hwrite _) (renewed_sync (consistent_write hc _ _) d _)
      · exact hsame
  | linkDeleted source target =>
      dsimp only
      split
      · have hdown : Moves (· = d.id) (· ∈ (UiNode.draw d).pins) (s.write d.shader (.int noIndex))
            (d.teardown (s.write d.shader (.int noIndex))).2 :=
          moves_teardown d _ fun b hb =>
            mem_pins.2 (Or.inr (Or.inr (Or.inl (List.mem_map_of_mem hb))))
        have halters := hdown.alters (consistent_write hc d.shader (.int noIndex))
        refine .after hc (hwrite (.int noIndex)) ⟨rfl, halters, fun p hp => Or.inl ?_⟩
        rcases mem_pins.1 hp with hp | hp | hp | hp
        · exact mem_pins.2 (Or.inl hp)
        · exact mem_pins.2 (Or.inr (Or.inl hp))
        · cases hp
        · exact mem_pins.2 (Or.inr (Or.inr (Or.inr hp)))
      · exact hsame
  | shaderUpdated shader =>
      dsimp only
      split
      · exact renewed_sync hc d _
      · exact hsame

end Draw

namespace UiNode

open Scene

variable {s : Scene}

theorem renewed_of_alters {n : UiNode} {g g' : Graph} (h : g.Alters (· ∈ n.pins) g') :
    n.Renewed g n g' := ⟨rfl, h, fun _ hp => Or.inl hp⟩

theorem renewed_onEvent (hc : s.graph.Consistent) (n : UiNode) (event : Event) :
    n.Renewed s.graph (n.onEvent event s).1 (n.onEvent event s).2.graph := by
  unfold onEvent
  split
  · exact Draw.renewed_onEvent hc _ event
  · exact ⟨rfl, .refl hc _, fun p hp => Or.inl hp⟩
  · exact ⟨rfl, .refl hc _, fun p hp => Or.inl hp⟩

theorem renewed_onUpdate (hc : s.graph.Consistent) (n : UiNode) (clock : Clock) :
    n.Renewed s.graph (n.onUpdate clock s).1 (n.onUpdate clock s).2.graph := by
  have hpulled : Moves (fun _ => False) (· ∈ n.pins) s (n.inputs.foldl pull s) :=
    moves_foldl_pull s fun p hp => List.mem_append_left _ hp
  cases n with
  | time id output =>
      have hwrite : Move (fun _ => False) (· ∈ (time id output).pins) s
          (s.write output (.float clock.elapsed)) := .write _ List.mem_cons_self
      exact renewed_of_alters (hwrite.alters hc)
  | draw d =>
      unfold onUpdate
      dsimp only
      split
      · exact renewed_of_alters (hpulled.alters hc)
      · split
        · exact renewed_of_alters (hpulled.alters hc)
        · exact .after hc hpulled (Draw.renewed_sync (hpulled.alters hc).consistent d _)
  | binary | sine | constant | asset | primitive | camera | transform | renderTarget =>
      exact renewed_of_alters (hpulled.alters hc)

end UiNode

end DrawGraph
