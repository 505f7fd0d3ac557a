import DrawGraph.Table.View
import Mathlib.Data.Finmap

/-!
# Tables as finite maps

A table keeps its keys in order and is searched by bisection; all that it answers is what a finite
map answers to the same calls. The keys are those of the map in increasing order, the elements stand
at the positions of their keys, and no position that bisection comes to lies beyond them.
-/

namespace DrawGraph

namespace Table

universe u v

/-- A call that may change a table. -/
inductive Call (κ : Type u) (α : Type v)
  | insert (k : κ) (a : α)
  | remove (k : κ)
  | erase (k : κ)
  /-- Write over the element that is found under a key. -/
  | write (k : κ) (f : α → α)
  | clear

/-- What a call answers: the element that is now stored and whether it is new, the element that was
taken out, the number of those dropped, or whether there was one to write over. -/
inductive Reply (α : Type v)
  | stored (a : Option α) (new : Bool)
  | removed (a : Option α)
  | dropped (n : Nat)
  | found (b : Bool)
  | done
deriving DecidableEq, Repr

variable {κ : Type u} {α : Type v}

/-- A finite map changed by a call. An entry that there is stays as it is when one is inserted. -/
def Call.onMap [DecidableEq κ] (m : Finmap fun _ : κ => α) :
    Call κ α → (Finmap fun _ : κ => α) × Reply α
  | .insert k a =>
      if k ∈ m then (m, .stored (m.lookup k) false) else (m.insert k a, .stored (some a) true)
  | .remove k => (m.erase k, .removed (m.lookup k))
  | .erase k => (m.erase k, .dropped (if k ∈ m then 1 else 0))
  | .write k f =>
      match m.lookup k with
      | some a => (m.insert k (f a), .found true)
      | none => (m, .found false)
  | .clear => (∅, .done)

/-- A finite map after calls, and what these answered. -/
def runOnMap [DecidableEq κ] (m : Finmap fun _ : κ => α) :
    List (Call κ α) → (Finmap fun _ : κ => α) × List (Reply α)
  | [] => (m, [])
  | c :: cs => ((runOnMap (c.onMap m).1 cs).1, (c.onMap m).2 :: (runOnMap (c.onMap m).1 cs).2)

variable [Ord κ]

section Lawful

variable [Std.TransOrd κ]

def call (t : Table κ α) : Call κ α → Table κ α × Reply α
  | .insert k a => ((t.insert k a).1, .stored ((t.insert k a).1.get? k) (t.insert k a).2)
  | .remove k => (t.erase k, .removed (t.get? k))
  | .erase k => (t.erase k, .dropped ((t.get? k).elim 0 fun _ => 1))
  | .write k f => (t.modify k f, .found (t.contains k))
  | .clear => (empty, .done)

def run (t : Table κ α) : List (Call κ α) → Table κ α × List (Reply α)
  | [] => (t, [])
  | c :: cs => (((t.call c).1.run cs).1, (t.call c).2 :: ((t.call c).1.run cs).2)

end Lawful

/-- The table holds what the map holds. -/
structure Represents [DecidableEq κ] (t : Table κ α) (m : Finmap fun _ : κ => α) : Prop where
  increasing : t.ids.toList.Pairwise fun j k => compare j k = .lt
  size_eq : t.ids.size = t.elems.size
  get? : ∀ k, t.get? k = m.lookup k
  contains : ∀ k, t.contains k = true ↔ k ∈ m
  size : t.size = m.keys.card
  isEmpty : t.isEmpty = true ↔ m = ∅
  ids : (t.ids.toList : Multiset κ) = m.keys.val
  values : t.elems.toList.map some = t.ids.toList.map m.lookup
  entries : (t.entries.map fun p => (⟨p.1, p.2⟩ : Sigma fun _ : κ => α) : Multiset _) = m.entries
  /-- What is found is found inside, and what is not belongs inside or right behind. -/
  inside : ∀ k, t.rank k ≤ t.ids.size ∧ t.rank k ≤ t.elems.size ∧
    (k ∈ m → t.rank k < t.ids.size ∧ t.rank k < t.elems.size)

section Lawful

variable [Std.TransOrd κ] [Std.LawfulEqOrd κ] {t : Table κ α}

omit [Std.TransOrd κ] [Std.LawfulEqOrd κ] in
theorem pairwise_compare (t : Table κ α) :
    t.ids.toList.Pairwise fun j k => compare j k = .lt := by
  rw [List.pairwise_iff_getElem]
  intro i j hi hj hij
  exact t.increasing i j (by simpa using hj) hij

omit [Std.TransOrd κ] in
theorem nodup_ids (t : Table κ α) : t.ids.toList.Nodup := by
  refine t.pairwise_compare.imp fun hlt heq => ?_
  subst heq
  simp at hlt

/-- The elements stand in the order of their keys. -/
theorem map_elems (t : Table κ α) : t.elems.toList.map some = t.ids.toList.map t.get? := by
  apply List.ext_getElem
  · simp [t.size_eq]
  · intro i hi _
    have hlt : i < t.elems.size := by simpa using hi
    have hk : i < t.ids.size := t.size_eq ▸ hlt
    have hget : t.get? t.ids[i] = some t.elems[i] := (t.get?_eq_some_iff _ _).2
      ⟨i, Array.getElem?_eq_getElem hk, Array.getElem?_eq_getElem hlt⟩
    simp [hget]

omit [Std.TransOrd κ] in
theorem nodup_entries (t : Table κ α) :
    (t.entries.map fun p => (⟨p.1, p.2⟩ : Sigma fun _ : κ => α)).Nodup := by
  refine List.Nodup.of_map Sigma.fst ?_
  rw [List.map_map]
  exact (t.keys_entries).symm ▸ t.nodup_ids

variable [DecidableEq κ] {m : Finmap fun _ : κ => α}

omit [Ord κ] [Std.TransOrd κ] [Std.LawfulEqOrd κ] in
theorem lookup_erase (m : Finmap fun _ : κ => α) (k j : κ) :
    (m.erase k).lookup j = if j = k then none else m.lookup j := by
  split
  · next hj => rw [hj, Finmap.lookup_erase]
  · next hj => rw [Finmap.lookup_erase_ne hj]

omit [Ord κ] [Std.TransOrd κ] [Std.LawfulEqOrd κ] in
theorem lookup_insert (m : Finmap fun _ : κ => α) (k : κ) (a : α) (j : κ) :
    (m.insert k a).lookup j = if j = k then some a else m.lookup j := by
  split
  · next hj => rw [hj, Finmap.lookup_insert]
  · next hj => rw [Finmap.lookup_insert_of_ne _ hj]

omit [Std.TransOrd κ] [Std.LawfulEqOrd κ] in
theorem contains_iff_mem (h : ∀ k, t.get? k = m.lookup k) (k : κ) :
    t.contains k = true ↔ k ∈ m := by
  rw [contains_eq, h, Finmap.lookup_isSome]

/-- A table that finds what the map finds agrees with it in all else. -/
theorem represents_of_get? (h : ∀ k, t.get? k = m.lookup k) : t.Represents m := by
  have hmem := contains_iff_mem h
  have hids : (t.ids.toList : Multiset κ) = m.keys.val := by
    rw [Multiset.Nodup.ext (Multiset.coe_nodup.2 t.nodup_ids) m.keys.nodup]
    intro k
    rw [Multiset.mem_coe, mem_ids, ← contains_eq, hmem, Finset.mem_val, Finmap.mem_keys]
  have hsize : t.size = m.keys.card := by
    rw [Finset.card, ← hids, Multiset.coe_card, Array.length_toList, Table.size]
  refine { increasing := t.pairwise_compare, size_eq := t.size_eq, get? := h, contains := hmem,
           size := hsize, isEmpty := ?_, ids := hids, values := ?_, entries := ?_,
           inside := fun k => ⟨t.rank_le k, t.size_eq ▸ t.rank_le k, fun hk => ?_⟩ }
  · rw [Table.isEmpty, Array.isEmpty_iff_size_eq_zero, ← Table.size, hsize, Finset.card_eq_zero]
    constructor
    · intro hnone
      refine Finmap.ext_lookup fun k => ?_
      rw [Finmap.lookup_empty, Finmap.lookup_eq_none, ← Finmap.mem_keys, hnone]
      exact Finset.notMem_empty k
    · rintro rfl
      exact Finmap.keys_empty
  · rw [map_elems]
    exact List.map_congr_left fun k _ => h k
  · rw [Multiset.Nodup.ext (Multiset.coe_nodup.2 t.nodup_entries) m.nodup_entries]
    rintro ⟨k, a⟩
    rw [Multiset.mem_coe, ← Finmap.mem_lookup_iff, Option.mem_def, ← h, ← mem_entries,
      List.mem_map]
    constructor
    · rintro ⟨⟨j, b⟩, hp, heq⟩
      cases heq
      exact hp
    · exact fun hp => ⟨(k, a), hp, rfl⟩
  · have hlt := lt_size_of_holds ((hmem k).2 hk)
    exact ⟨hlt, t.size_eq ▸ hlt⟩

/-! ## Calls -/

theorem call_insert (h : ∀ k, t.get? k = m.lookup k) (k : κ) (a : α) :
    (∀ j, (t.call (.insert k a)).1.get? j = (Call.onMap m (.insert k a)).1.lookup j) ∧
      (t.call (.insert k a)).2 = (Call.onMap m (.insert k a)).2 := by
  have hget (j : κ) : (t.insert k a).1.get? j =
      if j = k then some ((m.lookup k).getD a) else m.lookup j := by
    rw [get?_insert, h, h]
  rw [call, Call.onMap, hget, if_pos rfl, insert_snd]
  by_cases hk : k ∈ m
  · obtain ⟨b, hb⟩ := Finmap.mem_iff.1 hk
    rw [if_pos hk, (contains_iff_mem h k).2 hk, hb]
    refine ⟨fun j => ?_, rfl⟩
    rw [hget, hb]
    split
    · next hj => rw [hj, hb, Option.getD_some]
    · rfl
  · have hnew : t.contains k = false :=
      Bool.eq_false_iff.2 fun hc => hk ((contains_iff_mem h k).1 hc)
    have hnone := Finmap.lookup_eq_none.2 hk
    rw [if_neg hk, hnew, hnone]
    refine ⟨fun j => ?_, rfl⟩
    rw [hget, hnone, lookup_insert, Option.getD_none]

theorem call_write (h : ∀ k, t.get? k = m.lookup k) (k : κ) (f : α → α) :
    (∀ j, (t.call (.write k f)).1.get? j = (Call.onMap m (.write k f)).1.lookup j) ∧
      (t.call (.write k f)).2 = (Call.onMap m (.write k f)).2 := by
  have hget (j : κ) : (t.modify k f).get? j =
      if j = k then (m.lookup k).map f else m.lookup j := by
    rw [get?_modify, h, h]
  have hmem := contains_iff_mem h k
  cases hk : m.lookup k with
  | some a =>
      rw [call, Call.onMap, hk, hmem.2 (Finmap.mem_of_lookup_eq_some hk)]
      refine ⟨fun j => ?_, rfl⟩
      rw [hget, hk, lookup_insert, Option.map_some]
  | none =>
      have habsent : t.contains k = false :=
        Bool.eq_false_iff.2 fun hc => Finmap.lookup_eq_none.1 hk (hmem.1 hc)
      rw [call, Call.onMap, hk, habsent]
      refine ⟨fun j => ?_, rfl⟩
      rw [hget, hk, Option.map_none]
      split
      · next hj => rw [hj, hk]
      · rfl

/-- A call does to the table what it does to the map, and answers the same. -/
theorem call_onMap (h : ∀ k, t.get? k = m.lookup k) (c : Call κ α) :
    (∀ k, (t.call c).1.get? k = (c.onMap m).1.lookup k) ∧ (t.call c).2 = (c.onMap m).2 := by
  have herase (k j : κ) : (t.erase k).get? j = (m.erase k).lookup j := by
    rw [get?_erase, lookup_erase, h]
  cases c with
  | insert k a => exact call_insert h k a
  | remove k => exact ⟨herase k, congrArg Reply.removed (h k)⟩
  | erase k =>
      refine ⟨herase k, ?_⟩
      rw [call, Call.onMap, h]
      by_cases hk : k ∈ m
      · obtain ⟨b, hb⟩ := Finmap.mem_iff.1 hk
        rw [if_pos hk, hb, Option.elim_some]
      · rw [if_neg hk, Finmap.lookup_eq_none.2 hk, Option.elim_none]
  | write k f => exact call_write h k f
  | clear => exact ⟨fun k => get?_empty k, rfl⟩

theorem run_onMap (h : ∀ k, t.get? k = m.lookup k) (cs : List (Call κ α)) :
    (∀ k, (t.run cs).1.get? k = (runOnMap m cs).1.lookup k) ∧
      (t.run cs).2 = (runOnMap m cs).2 := by
  induction cs generalizing t m with
  | nil => exact ⟨h, rfl⟩
  | cons c cs ih =>
      obtain ⟨hc, hreply⟩ := call_onMap h c
      obtain ⟨hcs, hreplies⟩ := ih hc
      exact ⟨hcs, congrArg₂ List.cons hreply hreplies⟩

/-- Whatever the calls, they answer as on a finite map, and the table represents the map that comes
of them. -/
theorem run_represents (cs : List (Call κ α)) :
    ((empty : Table κ α).run cs).1.Represents (runOnMap ∅ cs).1 ∧
      ((empty : Table κ α).run cs).2 = (runOnMap ∅ cs).2 := by
  obtain ⟨hget, hreplies⟩ := run_onMap (t := (empty : Table κ α)) (m := ∅) get?_empty cs
  exact ⟨represents_of_get? hget, hreplies⟩

end Lawful

/-- An entry that is there already, one that is written over, and keys that are not there. -/
def shelving : List (Call UInt32 Int) :=
  [.insert 5 50, .insert 1 10, .insert 9 90, .insert 5 7, .write 9 (· + 1), .write 4 (· + 1),
    .erase 1, .erase 1, .remove 7, .insert 3 30]

theorem run_represents_shelving :
    (empty.run shelving).1.Represents (runOnMap ∅ shelving).1 ∧
      (empty.run shelving).1.entries = [(3, 30), (5, 50), (9, 91)] ∧
      (runOnMap ∅ shelving).1.lookup 9 = some 91 ∧
      (runOnMap ∅ shelving).2 =
        [.stored (some 50) true, .stored (some 10) true, .stored (some 90) true,
          .stored (some 50) false, .found true, .found false, .dropped 1, .dropped 0,
          .removed none, .stored (some 30) true] := by
  obtain ⟨hmap, hreplies⟩ := run_represents shelving
  have hentries : (empty.run shelving).1.entries = [(3, 30), (5, 50), (9, 91)] := by
    decide +kernel
  refine ⟨hmap, hentries, ?_, ?_⟩
  · rw [← hmap.get?, ← mem_entries, hentries]
    simp
  · rw [← hreplies]
    decide +kernel

end Table

end DrawGraph
