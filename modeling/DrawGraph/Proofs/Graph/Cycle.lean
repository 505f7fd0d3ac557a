import DrawGraph.Proofs.Graph.Path

/-!
# Cycles

A node leads to a cycle when a path goes from it to a node that lies on one. The search in depth
for a cycle ends on every graph, and it meets one of the nodes it comes from exactly when its start
leads to a cycle.
-/

namespace DrawGraph

namespace Graph

variable {g : Graph} {a b n : Id} {path done done' ms ns : List Id}
  {found found' : Option (List Id)}

/-- A path, possibly empty, leads from the node to one that lies on a cycle. -/
def LeadsToCycle (g : Graph) (n : Id) : Prop :=
  ∃ m, g.Leads n m ∧ Relation.TransGen g.Step m m

/-- The edges cannot be followed for ever from this node on. -/
def Ends (g : Graph) : Id → Prop := Acc fun b a => g.Step a b

theorem LeadsToCycle.head (hstep : g.Step a b) : g.LeadsToCycle b → g.LeadsToCycle a
  | ⟨m, hlead, hcycle⟩ => ⟨m, hlead.head hstep, hcycle⟩

theorem Acyclic.ends (h : g.Acyclic) (n : Id) : g.Ends n := h.apply n

theorem Ends.not_leadsToCycle (h : g.Ends n) : ¬ g.LeadsToCycle n := by
  induction h with
  | intro n _ ih =>
      rintro ⟨m, hlead, hcycle⟩
      rcases Relation.ReflTransGen.cases_head hlead with rfl | ⟨b, hstep, hlead⟩
      · obtain ⟨b, hstep, hback⟩ := Relation.TransGen.head'_iff.1 hcycle
        exact ih b hstep ⟨n, hback, hcycle⟩
      · exact ih b hstep ⟨m, hlead, hcycle⟩

/-! ## The search -/

/-- The search as a recursion that nothing bounds. `path` holds the nodes on the way to the nodes of
the list, which are visited one after another, and `done` those whose visit has ended. It stops
with nothing at a node of the path, and else gives the nodes whose visit has ended by then. -/
inductive Visits (g : Graph) : List Id → List Id → List Id → Option (List Id) → Prop
  | nil {path done : List Id} : Visits g path done [] (some done)
  | back {path done ns : List Id} {n : Id} (hn : n ∈ path) : Visits g path done (n :: ns) none
  | known {path done ns : List Id} {n : Id} {found : Option (List Id)} (hpath : n ∉ path)
      (hdone : n ∈ done) (rest : Visits g path done ns found) : Visits g path done (n :: ns) found
  | stop {path done ns : List Id} {n : Id} (hpath : n ∉ path) (hdone : n ∉ done)
      (below : Visits g (n :: path) done (g.neighbors n) none) : Visits g path done (n :: ns) none
  | leave {path done done' ns : List Id} {n : Id} {found : Option (List Id)} (hpath : n ∉ path)
      (hdone : n ∉ done) (below : Visits g (n :: path) done (g.neighbors n) (some done'))
      (rest : Visits g path (n :: done') ns found) : Visits g path done (n :: ns) found

namespace Visits

/-- The recursion goes one way only. -/
theorem unique (h : g.Visits path done ns found) (h' : g.Visits path done ns found') :
    found = found' := by
  induction h generalizing found' with
  | nil =>
      cases h'
      rfl
  | back hn =>
      cases h' with
      | back | stop => rfl
      | known hpath | leave hpath => exact absurd hn hpath
  | known hpath hdone _ ih =>
      cases h' with
      | back hn => exact absurd hn hpath
      | known _ _ rest => exact ih rest
      | stop _ hdone' | leave _ hdone' => exact absurd hdone hdone'
  | stop hpath hdone _ ih =>
      cases h' with
      | back | stop => rfl
      | known _ hdone' => exact absurd hdone' hdone
      | leave _ _ below => cases ih below
  | leave hpath hdone _ _ ih ihrest =>
      cases h' with
      | back hn => exact absurd hn hpath
      | known _ hdone' => exact absurd hdone' hdone
      | stop _ _ below => cases ih below
      | leave _ _ below rest =>
          cases ih below
          exact ihrest rest

theorem append (h : g.Visits path done ms (some done')) (h' : g.Visits path done' ns found) :
    g.Visits path done (ms ++ ns) found := by
  generalize hfound : some done' = found₁ at h
  induction h with
  | nil =>
      cases hfound
      exact h'
  | back | stop => cases hfound
  | known hpath hdone _ ih => exact .known hpath hdone (ih h' hfound)
  | leave hpath hdone below _ _ ih => exact .leave hpath hdone below (ih h' hfound)

theorem append_none (h : g.Visits path done ms none) (ns : List Id) :
    g.Visits path done (ms ++ ns) none := by
  generalize hfound : none = found at h
  induction h with
  | nil => cases hfound
  | back hn => exact .back hn
  | known hpath hdone _ ih => exact .known hpath hdone (ih hfound)
  | stop hpath hdone below => exact .stop hpath hdone below
  | leave hpath hdone below _ _ ih => exact .leave hpath hdone below (ih hfound)

/-- The nodes of the path lead on to the nodes to visit, so where one of these is on the path it
lies on a cycle. -/
theorem leadsToCycle (h : g.Visits path done ns none)
    (hpath : ∀ p ∈ path, ∀ m ∈ ns, Relation.TransGen g.Step p m) :
    ∃ m ∈ ns, g.LeadsToCycle m := by
  generalize hfound : none = found at h
  induction h with
  | nil => cases hfound
  | back hn => exact ⟨_, List.mem_cons_self, _, .refl _, hpath _ hn _ List.mem_cons_self⟩
  | known _ _ _ ih =>
      obtain ⟨m, hm, hcycle⟩ :=
        ih (fun p hp k hk => hpath p hp k (List.mem_cons_of_mem _ hk)) hfound
      exact ⟨m, List.mem_cons_of_mem _ hm, hcycle⟩
  | @stop path _ _ n _ _ _ ih =>
      have hbelow (p : Id) (hp : p ∈ n :: path) (m : Id) (hm : m ∈ g.neighbors n) :
          Relation.TransGen g.Step p m := by
        rcases List.mem_cons.1 hp with rfl | hp
        · exact .single hm
        · exact (hpath p hp n List.mem_cons_self).tail hm
      obtain ⟨m, hm, hcycle⟩ := ih hbelow rfl
      exact ⟨n, List.mem_cons_self, hcycle.head hm⟩
  | leave _ _ _ _ _ ih =>
      obtain ⟨m, hm, hcycle⟩ :=
        ih (fun p hp k hk => hpath p hp k (List.mem_cons_of_mem _ hk)) hfound
      exact ⟨m, List.mem_cons_of_mem _ hm, hcycle⟩

/-- A node is left when the visits of all its targets have ended, so no edges can be followed for
ever from it. -/
theorem ends (h : g.Visits path done ns (some done')) (hends : ∀ m ∈ done, g.Ends m) :
    (∀ m ∈ done', g.Ends m) ∧ ∀ m ∈ ns, g.Ends m := by
  generalize hfound : some done' = found at h
  induction h generalizing done' with
  | nil =>
      cases hfound
      exact ⟨hends, fun m hm => absurd hm List.not_mem_nil⟩
  | back | stop => cases hfound
  | known _ hdone _ ih =>
      obtain ⟨hends', hns⟩ := ih hends hfound
      exact ⟨hends', List.forall_mem_cons.2 ⟨hends _ hdone, hns⟩⟩
  | @leave _ _ _ _ n _ _ _ _ _ ih ihrest =>
      obtain ⟨hbelow, hneighbors⟩ := ih hends rfl
      have hn : g.Ends n := Acc.intro n hneighbors
      obtain ⟨hends', hns⟩ := ihrest (List.forall_mem_cons.2 ⟨hn, hbelow⟩) hfound
      exact ⟨hends', List.forall_mem_cons.2 ⟨hn, hns⟩⟩

end Visits

/-! ## A bound on its depth -/

theorem mem_ids_of_step (h : g.Step a b) : a ∈ g.targets.ids.toList := by
  have hsome : (g.targets.get? a).isSome := by
    cases ha : g.targets.get? a with
    | none => simp [Step, neighbors, ha] at h
    | some => rfl
  obtain ⟨ts, hts⟩ := Option.isSome_iff_exists.1 hsome
  obtain ⟨i, hi, _⟩ := (g.targets.get?_eq_some_iff _ _).1 hts
  rw [← Array.getElem?_toList] at hi
  exact List.mem_of_getElem? hi

theorem visits_foldlM {visit : List Id → Id → Option (List Id)}
    (hvisit : ∀ m ∈ ns, ∀ done, g.Visits path done [m] (visit done m)) (done : List Id) :
    g.Visits path done ns (ns.foldlM visit done) := by
  induction ns generalizing done with
  | nil => exact .nil
  | cons m ns ih =>
      have hfirst := hvisit m List.mem_cons_self done
      rw [List.foldlM_cons]
      cases hm : visit done m with
      | none => exact (hm ▸ hfirst).append_none ns
      | some done' =>
          exact (hm ▸ hfirst).append (ih (fun k hk => hvisit k (List.mem_cons_of_mem _ hk)) done')

/-- The nodes of a path are different and have targets, so it is no longer than the table of targets
and a search that may go one level deeper has room for it. -/
theorem visits_explore {depth : Nat} (hnodup : path.Nodup)
    (hpath : ∀ m ∈ path, m ∈ g.targets.ids.toList) (hdepth : g.targets.size < path.length + depth)
    (done : List Id) (n : Id) : g.Visits path done [n] (g.explore depth path done n) := by
  induction depth generalizing path n done with
  | zero =>
      have hle := (List.subperm_of_subset hnodup hpath).length_le
      rw [Array.length_toList] at hle
      exact absurd hdepth (Nat.not_lt.2 hle)
  | succ depth ih =>
      rw [explore]
      by_cases hn : n ∈ path
      · rw [if_pos hn]
        exact .back hn
      rw [if_neg hn]
      by_cases hdone : n ∈ done
      · rw [if_pos hdone]
        exact .known hn hdone .nil
      rw [if_neg hdone]
      have hbelow : g.Visits (n :: path) done (g.neighbors n)
          ((g.neighbors n).foldlM (g.explore depth (n :: path)) done) := by
        refine visits_foldlM (fun m hm done => ?_) done
        have hpath' := List.forall_mem_cons.2 ⟨mem_ids_of_step hm, hpath⟩
        exact ih (List.nodup_cons.2 ⟨hn, hnodup⟩) hpath' (by rw [List.length_cons]; omega) done m
      cases hvisit : (g.neighbors n).foldlM (g.explore depth (n :: path)) done with
      | none => exact .stop hn hdone (hvisit ▸ hbelow)
      | some done' => exact .leave hn hdone (hvisit ▸ hbelow) .nil

theorem visits_of_hasCycleFrom (g : Graph) (n : Id) :
    ∃ found, g.Visits [] [] [n] found ∧ g.hasCycleFrom n = found.isNone :=
  ⟨_, visits_explore List.nodup_nil (by simp) (by rw [List.length_nil]; omega) [] n, rfl⟩

theorem leadsToCycle_of_hasCycleFrom (h : g.hasCycleFrom n = true) : g.LeadsToCycle n := by
  obtain ⟨found, hvisits, hfound⟩ := g.visits_of_hasCycleFrom n
  obtain rfl := Option.isNone_iff_eq_none.1 (hfound.symm.trans h)
  obtain ⟨m, hm, hcycle⟩ := hvisits.leadsToCycle (by simp)
  exact List.mem_singleton.1 hm ▸ hcycle

theorem ends_of_hasCycleFrom (h : g.hasCycleFrom n = false) : g.Ends n := by
  obtain ⟨found, hvisits, hfound⟩ := g.visits_of_hasCycleFrom n
  have hsome := Option.isNone_eq_false_iff.1 (hfound.symm.trans h)
  obtain ⟨done, rfl⟩ := Option.isSome_iff_exists.1 hsome
  exact (hvisits.ends (by simp)).2 n List.mem_cons_self

theorem hasCycleFrom_iff (g : Graph) (n : Id) : g.hasCycleFrom n = true ↔ g.LeadsToCycle n := by
  refine ⟨leadsToCycle_of_hasCycleFrom, fun hcycle => ?_⟩
  by_contra h
  exact (ends_of_hasCycleFrom (Bool.not_eq_true _ ▸ h)).not_leadsToCycle hcycle

theorem Acyclic.hasCycleFrom_eq_false (h : g.Acyclic) (n : Id) : g.hasCycleFrom n = false := by
  rw [← Bool.not_eq_true, hasCycleFrom_iff]
  exact (h.ends n).not_leadsToCycle

/-- The search for a cycle comes to an end on every graph, self loops and parallel edges or not, and
it has met a node of its path just when the start leads to a cycle. -/
theorem hasCycleFrom_decides (g : Graph) (n : Id) :
    (∃ found, g.Visits [] [] [n] found) ∧
      (∀ found, g.Visits [] [] [n] found → g.hasCycleFrom n = found.isNone) ∧
        (g.hasCycleFrom n = true ↔ g.LeadsToCycle n) := by
  obtain ⟨found, hvisits, hfound⟩ := g.visits_of_hasCycleFrom n
  exact ⟨⟨found, hvisits⟩, fun _ h => hvisits.unique h ▸ hfound, g.hasCycleFrom_iff n⟩

end Graph

end DrawGraph
