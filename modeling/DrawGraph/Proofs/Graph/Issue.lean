import DrawGraph.Proofs.Graph.Edit

/-!
# Ids that are given out

Nodes and edges have their ids from one counter, and what is put back under an id moves the counter
past it. So an id that is given out is greater than all that were given out or put back before it,
whatever has been erased since. Once the counter has come to the greatest id, no more are given out.
-/

namespace DrawGraph

namespace Graph

variable {g : Graph} {c : Edit} {cs : List Edit} {id : Id}

/-- The id that a call gives out. -/
def gives (g : Graph) : Edit → Option Id
  | .addNode n => (g.addNode n).toOption.map Prod.fst
  | .addEdge source target kind => (g.addEdge source target kind).toOption.map Prod.fst
  | _ => none

/-- The id under which a call puts a node or an edge back. -/
def putsBack (g : Graph) : Edit → Option Id
  | .restoreNode id n => (g.restoreNode id n).toOption.map fun _ => id
  | .restoreEdge e => (g.restoreEdge e).toOption.map fun _ => e.id
  | _ => none

/-- The ids that calls give out or put something back under, in their order. -/
def taken (g : Graph) : List Edit → List Id
  | [] => []
  | c :: cs => (g.gives c).toList ++ (g.putsBack c).toList ++ (g.edit c).taken cs

theorem edits_append (g : Graph) (cs ds : List Edit) :
    g.edits (cs ++ ds) = (g.edits cs).edits ds := List.foldl_append

/-! ## One call -/

theorem exists_of_map_toOption {α β : Type} {x : Except GraphError α} {f : α → β} {b : β}
    (h : x.toOption.map f = some b) : ∃ a, x = .ok a ∧ f a = b := by
  cases x with
  | error e => cases h
  | ok a => exact ⟨a, rfl, Option.some.inj h⟩

/-- The id that is given out is the next one, and the counter moves past it. -/
theorem Consistent.gives_eq_some (hc : g.Consistent) (h : g.gives c = some id) :
    id = g.nextId ∧ id < (g.edit c).nextId := by
  cases c with
  | addNode n =>
      obtain ⟨⟨i, g'⟩, hok, rfl⟩ := exists_of_map_toOption h
      have ha := hc.addNode hok
      have hedit : g.edit (.addNode n) = g' := edit_of_ok (by rw [attempt, hok]; rfl)
      rw [hedit]
      exact ⟨ha.id_eq, ha.lt_nextId⟩
  | addEdge source target kind =>
      obtain ⟨⟨i, g'⟩, hok, rfl⟩ := exists_of_map_toOption h
      obtain ⟨_, _, ha⟩ := hc.addEdge hok
      have hedit : g.edit (.addEdge source target kind) = g' :=
        edit_of_ok (by rw [attempt, hok]; rfl)
      rw [hedit]
      exact ⟨ha.id_eq, ha.lt_nextId⟩
  | eraseNode | eraseEdge | restoreNode | restoreEdge | setValue | reserve | pushEvent
  | takeEvent | clear => cases h

/-- What is put back moves the counter past its id. -/
theorem lt_nextId_of_putsBack (h : g.putsBack c = some id) : id < (g.edit c).nextId := by
  have hpast (g : Graph) (hlast : id ≠ lastId) : id < (g.reserve (id + 1)).nextId :=
    UInt32.lt_of_lt_of_le (lt_add_one_of_le hlast (UInt32.le_refl _)) (le_nextId_reserve _ _).2
  cases c with
  | restoreNode i n =>
      obtain ⟨g', hok, rfl⟩ := exists_of_map_toOption h
      rw [edit_of_ok (show g.attempt (.restoreNode i n) = .ok g' from hok)]
      obtain ⟨hlast, _, rfl⟩ := restoreNode_eq_ok.1 hok
      exact hpast _ hlast
  | restoreEdge e =>
      obtain ⟨g', hok, rfl⟩ := exists_of_map_toOption h
      rw [edit_of_ok (show g.attempt (.restoreEdge e) = .ok g' from hok)]
      obtain ⟨_, hlast, _, rfl⟩ := restoreEdge_eq_ok.1 hok
      exact hpast _ hlast
  | addNode | addEdge | eraseNode | eraseEdge | setValue | reserve | pushEvent | takeEvent
  | clear => cases h

/-- No call but `clear` sets the counter back. -/
theorem Consistent.nextId_le_edit (hc : g.Consistent) (hclear : c ≠ .clear) :
    g.nextId ≤ (g.edit c).nextId := by
  cases h : g.attempt c with
  | error e =>
      rw [edit_of_error h]
      exact UInt32.le_refl _
  | ok g' =>
      rw [edit_of_ok h]
      cases hc.makes h with
      | addNode ha => exact ha.nextId_le
      | addEdge ha => exact ha.nextId_le
      | eraseNode he => exact he.nextId ▸ UInt32.le_refl _
      | eraseEdge _ he => exact he.nextId ▸ UInt32.le_refl _
      | restoreNode hr =>
          obtain ⟨_, _, rfl⟩ := restoreNode_eq_ok.1 hr
          exact (le_nextId_reserve _ _).1
      | restoreEdge hr =>
          obtain ⟨_, _, _, rfl⟩ := restoreEdge_eq_ok.1 hr
          exact (le_nextId_reserve _ _).1
      | setValue | pushEvent | takeEvent => exact UInt32.le_refl _
      | reserve next => exact (le_nextId_reserve _ _).1
      | clear => exact absurd rfl hclear

/-! ## Any calls -/

theorem Consistent.nextId_le_edits (hc : g.Consistent) (hcs : .clear ∉ cs) :
    g.nextId ≤ (g.edits cs).nextId := by
  induction cs generalizing g with
  | nil => exact UInt32.le_refl _
  | cons c cs ih =>
      rw [List.mem_cons, not_or] at hcs
      obtain ⟨hclear, hcs⟩ := hcs
      exact UInt32.le_trans (hc.nextId_le_edit (Ne.symm hclear)) (ih (hc.edit c) hcs)

/-- The counter is past all ids that were ever taken. -/
theorem Consistent.lt_nextId_of_taken (hc : g.Consistent) (hcs : .clear ∉ cs)
    (hid : id ∈ g.taken cs) : id < (g.edits cs).nextId := by
  induction cs generalizing g with
  | nil => cases hid
  | cons c cs ih =>
      rw [List.mem_cons, not_or] at hcs
      obtain ⟨_, hcs⟩ := hcs
      have hlater := (hc.edit c).nextId_le_edits hcs
      rw [taken, List.mem_append, List.mem_append, Option.mem_toList, Option.mem_toList] at hid
      rcases hid with (hgives | hback) | hrest
      · exact UInt32.lt_of_lt_of_le (hc.gives_eq_some hgives).2 hlater
      · exact UInt32.lt_of_lt_of_le (lt_nextId_of_putsBack hback) hlater
      · exact ih (hc.edit c) hcs hrest

theorem addNode_of_exhausted (h : g.nextId = lastId) (n : Node) :
    g.addNode n = .error .idSpaceExhausted := by
  rw [Graph.addNode, allocate, if_pos h]
  rfl

theorem addEdge_of_exhausted (h : g.nextId = lastId) {source target : Id}
    (hsource : g.hasNode source) (htarget : g.hasNode target) (kind : EdgeKind) :
    g.addEdge source target kind = .error .idSpaceExhausted := by
  cases hadd : g.addEdge source target kind with
  | error e => rw [addEdge_error hsource htarget hadd]
  | ok p =>
      simp [Graph.addEdge, hsource, htarget, allocate, h] at hadd

/-- As long as the graph is not cleared, every id that is given out is greater than all that were
given out or put back before, and is not the greatest; the counter does not go back; and when it has
come to the greatest id, every node and every edge between nodes is refused from then on. -/
theorem ids_increase (hcs : .clear ∉ cs) :
    (∀ before c after id, cs = before ++ c :: after → (empty.edits before).gives c = some id →
      id < lastId ∧ ∀ old ∈ empty.taken before, old < id) ∧
    ∀ before after, cs = before ++ after →
      (empty.edits before).nextId ≤ (empty.edits cs).nextId ∧
      ((empty.edits before).nextId = lastId →
        (∀ n, (empty.edits cs).addNode n = .error .idSpaceExhausted) ∧
        ∀ source target kind, (empty.edits cs).hasNode source → (empty.edits cs).hasNode target →
          (empty.edits cs).addEdge source target kind = .error .idSpaceExhausted) := by
  have hmax (i : Id) : i ≤ lastId := by
    have hlt := i.toNat_lt
    have hlast : lastId.toNat = 4294967295 := rfl
    rw [UInt32.le_iff_toNat_le]
    omega
  constructor
  · rintro before c after id rfl hgives
    have hc := Consistent.empty.edits before
    obtain ⟨hnext, hlt⟩ := hc.gives_eq_some hgives
    refine ⟨UInt32.lt_of_lt_of_le hlt (hmax _), fun old hold => ?_⟩
    rw [hnext]
    exact Consistent.empty.lt_nextId_of_taken (fun h => hcs (List.mem_append_left _ h)) hold
  · rintro before after rfl
    have hle : (empty.edits before).nextId ≤ (empty.edits (before ++ after)).nextId := by
      rw [edits_append]
      exact (Consistent.empty.edits before).nextId_le_edits fun h =>
        hcs (List.mem_append_right _ h)
    refine ⟨hle, fun hlast => ?_⟩
    have hstill : (empty.edits (before ++ after)).nextId = lastId :=
      UInt32.le_antisymm (hmax _) (hlast ▸ hle)
    exact ⟨addNode_of_exhausted hstill, fun source target kind hs ht =>
      addEdge_of_exhausted hstill hs ht kind⟩

/-- The last id goes to an edge, and is not given out again when the edge is erased. -/
def spent : List Edit :=
  [.addNode ⟨.add, .none, 0⟩, .restoreNode 0xFFFFFFFD ⟨.float, .none, 0⟩,
    .addEdge 0 0xFFFFFFFD .external, .eraseEdge 0xFFFFFFFE]

theorem ids_increase_spent : .clear ∉ spent ∧
    (empty.edits (spent.take 2)).gives (.addEdge 0 0xFFFFFFFD .external) = some 0xFFFFFFFE ∧
    empty.taken (spent.take 2) = [0, 0xFFFFFFFD] ∧
    (∀ old ∈ empty.taken (spent.take 2), old < 0xFFFFFFFE) ∧
    (empty.edits spent).edgeList = [] ∧
    (empty.edits spent).addEdge 0 0xFFFFFFFD .external = .error .idSpaceExhausted := by
  have hcs : .clear ∉ spent := by simp [spent]
  have hgives : (empty.edits (spent.take 2)).gives (.addEdge 0 0xFFFFFFFD .external) =
      some 0xFFFFFFFE := by decide +kernel
  have hlast : (empty.edits (spent.take 3)).nextId = lastId := by decide +kernel
  obtain ⟨hissued, hlater⟩ := ids_increase hcs
  exact ⟨hcs, hgives, by decide +kernel, (hissued _ _ _ _ rfl hgives).2, by decide +kernel,
    ((hlater (spent.take 3) (spent.drop 3) rfl).2 hlast).2 _ _ _ (by decide +kernel)
      (by decide +kernel)⟩

end Graph

end DrawGraph
