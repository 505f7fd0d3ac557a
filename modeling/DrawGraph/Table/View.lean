import DrawGraph.Table

/-!
# What tables hold

`get?` finds exactly the entries, and each operation changes it at one key: an insertion where
there was no entry, an assignment where there was one, a removal to none.
-/

namespace DrawGraph

namespace Table

universe u v

variable {κ : Type u} {α : Type v} [Ord κ]

theorem contains_eq (t : Table κ α) (k : κ) : t.contains k = (t.get? k).isSome := by
  unfold contains get?
  split
  · next h =>
    have hlt := lt_size_of_holds h
    rw [h, Array.getElem?_eq_getElem (t.size_eq ▸ hlt), Option.isSome_some]
  · next h => simpa using h

theorem get?_eq_none_of_not_holds (t : Table κ α) {k : κ} (h : ¬ t.holds (t.rank k) k = true) :
    t.get? k = none := by
  unfold get?
  exact if_neg h

theorem length_entries (t : Table κ α) : t.entries.length = t.size := by
  simp [entries, size, ← t.size_eq]

theorem keys_entries (t : Table κ α) : t.entries.map Prod.fst = t.ids.toList := by
  apply List.map_fst_zip
  rw [Array.length_toList, Array.length_toList]
  exact Nat.le_of_eq t.size_eq

section Lawful

variable [Std.TransOrd κ]

theorem insert_of_holds (t : Table κ α) {k : κ} (h : t.holds (t.rank k) k = true) (a : α) :
    t.insert k a = (t, false) := by
  unfold insert
  exact dif_pos h

theorem insert_snd (t : Table κ α) (k : κ) (a : α) : (t.insert k a).2 = !t.contains k := by
  unfold insert contains
  split
  · next h => simp [h]
  · next h => simp [h]

variable [Std.LawfulEqOrd κ]

theorem rank_of_getElem (t : Table κ α) {i : Nat} (hi : i < t.ids.size) : t.rank t.ids[i] = i := by
  have hle : ¬ i < t.rank t.ids[i] := fun h => by
    have hlt := (t.compare_lt_iff t.ids[i] hi).2 h
    simp at hlt
  have hge : ¬ t.rank t.ids[i] < i := fun h => by
    have hlt := (t.compare_lt_iff t.ids[i] (Nat.lt_trans h hi)).1 (t.increasing _ _ hi h)
    omega
  omega

omit [Std.TransOrd κ] in
theorem holds_iff_getElem? (t : Table κ α) (i : Nat) (k : κ) :
    t.holds i k = true ↔ t.ids[i]? = some k := by
  rw [holds_iff]
  constructor
  · rintro ⟨h, hc⟩
    rw [Array.getElem?_eq_getElem h, Std.LawfulEqCmp.compare_eq_iff_eq.1 hc]
  · intro h
    obtain ⟨hi, rfl⟩ := Array.getElem?_eq_some_iff.1 h
    exact ⟨hi, Std.ReflCmp.compare_self⟩

theorem rank_of_getElem? (t : Table κ α) {i : Nat} {k : κ} (h : t.ids[i]? = some k) :
    t.rank k = i := by
  obtain ⟨hi, rfl⟩ := Array.getElem?_eq_some_iff.1 h
  exact t.rank_of_getElem hi

theorem get?_eq_some_iff (t : Table κ α) (k : κ) (a : α) :
    t.get? k = some a ↔ ∃ i : Nat, t.ids[i]? = some k ∧ t.elems[i]? = some a := by
  unfold get?
  split
  · next h =>
    have hk := (t.holds_iff_getElem? _ _).1 h
    refine ⟨fun ha => ⟨_, hk, ha⟩, fun ⟨i, hi, ha⟩ => ?_⟩
    rwa [t.rank_of_getElem? hi]
  · next h =>
    refine ⟨fun ha => by simp at ha, fun ⟨i, hi, _⟩ => absurd ?_ h⟩
    rw [holds_iff_getElem?, t.rank_of_getElem? hi]
    exact hi

@[simp] theorem get?_empty (k : κ) : (empty : Table κ α).get? k = none := by
  rw [Option.eq_none_iff_forall_ne_some]
  intro a ha
  obtain ⟨i, hi, _⟩ := (get?_eq_some_iff _ _ _).1 ha
  simp [empty, default] at hi

theorem get?_insert_of_not_holds (t : Table κ α) {k : κ} (h : ¬ t.holds (t.rank k) k = true)
    (a : α) (j : κ) (b : α) :
    (t.insert k a).1.get? j = some b ↔ j = k ∧ b = a ∨ t.get? j = some b := by
  have hr := t.rank_le k
  have hr' : t.rank k ≤ t.elems.size := t.size_eq ▸ hr
  simp only [get?_eq_some_iff, insert, dif_neg h, Array.getElem?_insertIdx]
  constructor
  · rintro ⟨i, hi, hb⟩
    rcases Nat.lt_trichotomy i (t.rank k) with hlt | rfl | hgt
    · simp only [if_pos hlt] at hi hb
      exact Or.inr ⟨i, hi, hb⟩
    · simp only [Nat.lt_irrefl, if_false, if_true, if_pos hr, if_pos hr'] at hi hb
      simp_all
    · simp only [if_neg (Nat.lt_asymm hgt), if_neg (Nat.ne_of_gt hgt)] at hi hb
      exact Or.inr ⟨i - 1, hi, hb⟩
  · rintro (⟨rfl, rfl⟩ | ⟨i, hi, hb⟩)
    · refine ⟨t.rank j, ?_⟩
      simp [hr, hr']
    · by_cases hlt : i < t.rank k
      · refine ⟨i, ?_⟩
        simp [hlt, hi, hb]
      · refine ⟨i + 1, ?_⟩
        have h1 : ¬ i + 1 < t.rank k := by omega
        have h2 : i + 1 ≠ t.rank k := by omega
        simp [h1, h2, hi, hb]

theorem get?_insert [DecidableEq κ] (t : Table κ α) (k : κ) (a : α) (j : κ) :
    (t.insert k a).1.get? j = if j = k then some ((t.get? k).getD a) else t.get? j := by
  by_cases h : t.holds (t.rank k) k = true
  · rw [t.insert_of_holds h]
    have hs : (t.get? k).isSome := by
      rw [← contains_eq]
      exact h
    obtain ⟨b, hb⟩ := Option.isSome_iff_exists.1 hs
    split
    · next hj => rw [hj, hb, Option.getD_some]
    · rfl
  · have hn := t.get?_eq_none_of_not_holds h
    ext b
    rw [t.get?_insert_of_not_holds h]
    split
    · next hj =>
      subst hj
      simp [hn, eq_comm]
    · next hj => simp [hj]

theorem get?_modify [DecidableEq κ] (t : Table κ α) (k : κ) (f : α → α) (j : κ) :
    (t.modify k f).get? j = if j = k then (t.get? k).map f else t.get? j := by
  unfold modify
  split
  · next h =>
    have hk := (t.holds_iff_getElem? _ _).1 h
    ext b
    rw [get?_eq_some_iff]
    simp only [Array.getElem?_modify]
    split
    · next hj =>
      subst hj
      rw [Option.map_eq_some_iff]
      constructor
      · rintro ⟨i, hi, hb⟩
        rw [if_pos (t.rank_of_getElem? hi), Option.map_eq_some_iff] at hb
        obtain ⟨a, ha, rfl⟩ := hb
        exact ⟨a, (t.get?_eq_some_iff _ _).2 ⟨i, hi, ha⟩, rfl⟩
      · rintro ⟨a, ha, rfl⟩
        obtain ⟨i, hi, ha⟩ := (t.get?_eq_some_iff _ _).1 ha
        refine ⟨i, hi, ?_⟩
        rw [if_pos (t.rank_of_getElem? hi), ha, Option.map_some]
    · next hj =>
      rw [get?_eq_some_iff]
      refine exists_congr fun i => and_congr_right fun hi => ?_
      rw [if_neg]
      rintro rfl
      rw [hk] at hi
      exact hj (Option.some.inj hi).symm
  · next h =>
    split
    · next hj => rw [hj, t.get?_eq_none_of_not_holds h, Option.map_none]
    · rfl

/-- An assignment needs an entry to assign to. -/
theorem get?_set [DecidableEq κ] (t : Table κ α) (k : κ) (a : α) (j : κ) :
    (t.set k a).get? j = if j = k then (t.get? k).map fun _ => a else t.get? j :=
  t.get?_modify k _ j

/-- Whatever was there, afterwards the table holds `a` under `k`. -/
theorem get?_put [DecidableEq κ] (t : Table κ α) (k : κ) (a : α) (j : κ) :
    (t.put k a).get? j = if j = k then some a else t.get? j := by
  simp only [put, get?_set, get?_insert]
  split
  · simp
  · rfl

theorem get?_erase [DecidableEq κ] (t : Table κ α) (k : κ) (j : κ) :
    (t.erase k).get? j = if j = k then none else t.get? j := by
  unfold erase
  split
  · next h =>
    have hk := (t.holds_iff_getElem? _ _).1 h
    ext b
    rw [get?_eq_some_iff]
    simp only [Array.getElem?_eraseIdx]
    split
    · next hj =>
      subst hj
      refine ⟨fun ⟨i, hi, _⟩ => ?_, fun hb => by simp at hb⟩
      split at hi <;> have := t.rank_of_getElem? hi <;> omega
    · next hj =>
      rw [get?_eq_some_iff]
      constructor
      · rintro ⟨i, hi, hb⟩
        by_cases hlt : i < t.rank k
        · rw [if_pos hlt] at hi hb
          exact ⟨i, hi, hb⟩
        · rw [if_neg hlt] at hi hb
          exact ⟨i + 1, hi, hb⟩
      · rintro ⟨i, hi, hb⟩
        have hne : i ≠ t.rank k := by
          rintro rfl
          rw [hk] at hi
          exact hj (Option.some.inj hi).symm
        by_cases hlt : i < t.rank k
        · refine ⟨i, ?_⟩
          rw [if_pos hlt, if_pos hlt]
          exact ⟨hi, hb⟩
        · refine ⟨i - 1, ?_⟩
          have h1 : ¬ i - 1 < t.rank k := by omega
          have h2 : i - 1 + 1 = i := by omega
          rw [if_neg h1, if_neg h1, h2]
          exact ⟨hi, hb⟩
  · next h =>
    split
    · next hj => rw [hj, t.get?_eq_none_of_not_holds h]
    · rfl

theorem mem_ids (t : Table κ α) {k : κ} : k ∈ t.ids.toList ↔ (t.get? k).isSome := by
  rw [Option.isSome_iff_exists, List.mem_iff_getElem?]
  simp only [get?_eq_some_iff, Array.getElem?_toList]
  constructor
  · rintro ⟨i, hi⟩
    have hlt : i < t.elems.size := t.size_eq ▸ (Array.getElem?_eq_some_iff.1 hi).1
    exact ⟨_, i, hi, Array.getElem?_eq_getElem hlt⟩
  · rintro ⟨_, i, hi, _⟩
    exact ⟨i, hi⟩

/-- The entries are what `get?` finds. -/
theorem mem_entries (t : Table κ α) (k : κ) (a : α) : (k, a) ∈ t.entries ↔ t.get? k = some a := by
  rw [get?_eq_some_iff, List.mem_iff_getElem?]
  refine exists_congr fun i => ?_
  simp [entries, List.getElem?_zip_eq_some]

end Lawful

end Table

end DrawGraph
