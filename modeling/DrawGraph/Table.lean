/-!
# Sorted tables

A table keeps its keys in one increasing array and its elements in another, entry by entry.
A key is found by bisection. `get?` is the view: every operation is described by what it does
to `get?`, and a table is determined by it.
-/

namespace DrawGraph

universe u v

/-- Keys and elements at equal positions belong together. -/
structure Table (κ : Type u) (α : Type v) [Ord κ] where
  ids : Array κ
  elems : Array α
  size_eq : ids.size = elems.size
  increasing : ∀ i j (hj : j < ids.size) (hij : i < j), compare ids[i] ids[j] = .lt

namespace Table

variable {κ : Type u} {α : Type v} [Ord κ]

/-- The first position of the window `[lo, hi)` whose key is not below `k`, or `hi`. -/
def bisect (ids : Array κ) (k : κ) (lo hi : Nat) (hhi : hi ≤ ids.size) : Nat :=
  if h : lo < hi then
    let mid := lo + (hi - lo) / 2
    have hmid : mid < ids.size := by omega
    if compare ids[mid] k = .lt then bisect ids k (mid + 1) hi hhi
    else bisect ids k lo mid (by omega)
  else lo
termination_by hi - lo

/-- The number of keys below `k`: the position at which `k` is, or belongs. -/
def rank (t : Table κ α) (k : κ) : Nat :=
  bisect t.ids k 0 t.ids.size (Nat.le_refl _)

def holds (t : Table κ α) (i : Nat) (k : κ) : Bool :=
  if h : i < t.ids.size then compare t.ids[i] k == .eq else false

theorem bisect_spec (ids : Array κ) (k : κ) (lo hi : Nat) (hhi : hi ≤ ids.size) (hle : lo ≤ hi) :
    lo ≤ bisect ids k lo hi hhi ∧ bisect ids k lo hi hhi ≤ hi := by
  fun_induction bisect ids k lo hi hhi with
  | case1 lo hi hhi h mid hmid hlt ih => have := ih (by omega); omega
  | case2 lo hi hhi h mid hmid hlt ih => have := ih (by omega); omega
  | case3 lo hi hhi h => omega

theorem rank_le (t : Table κ α) (k : κ) : t.rank k ≤ t.ids.size :=
  (bisect_spec _ _ _ _ _ (Nat.zero_le _)).2

theorem lt_size_of_holds {t : Table κ α} {i : Nat} {k : κ} (h : t.holds i k = true) :
    i < t.ids.size := by
  unfold holds at h
  split at h <;> simp_all

theorem holds_iff (t : Table κ α) (i : Nat) (k : κ) :
    t.holds i k = true ↔ ∃ h : i < t.ids.size, compare t.ids[i] k = .eq := by
  unfold holds
  split
  · simp_all
  · exact ⟨fun h => by simp at h, fun ⟨h, _⟩ => by omega⟩

instance : Inhabited (Table κ α) :=
  ⟨⟨#[], #[], rfl, by simp⟩⟩

def empty : Table κ α := default

def size (t : Table κ α) : Nat := t.ids.size

def isEmpty (t : Table κ α) : Bool := t.ids.isEmpty

def get? (t : Table κ α) (k : κ) : Option α :=
  if t.holds (t.rank k) k then t.elems[t.rank k]? else none

def contains (t : Table κ α) (k : κ) : Bool := t.holds (t.rank k) k

def entries (t : Table κ α) : List (κ × α) := t.ids.toList.zip t.elems.toList

def modify (t : Table κ α) (k : κ) (f : α → α) : Table κ α :=
  if t.holds (t.rank k) k then
    { t with
      elems := t.elems.modify (t.rank k) f
      size_eq := by simp [t.size_eq] }
  else t

def set (t : Table κ α) (k : κ) (a : α) : Table κ α := t.modify k fun _ => a

def erase (t : Table κ α) (k : κ) : Table κ α :=
  if h : t.holds (t.rank k) k then
    { ids := t.ids.eraseIdx (t.rank k) (lt_size_of_holds h)
      elems := t.elems.eraseIdx (t.rank k) (t.size_eq ▸ lt_size_of_holds h)
      size_eq := by simp [Array.size_eraseIdx, t.size_eq]
      increasing := by
        intro i j hj hij
        have hs := lt_size_of_holds h
        simp only [Array.size_eraseIdx] at hj
        simp only [Array.getElem_eraseIdx]
        split <;> split <;> exact t.increasing _ _ (by omega) (by omega) }
  else t

section Lawful

variable [Std.TransOrd κ]

theorem increasing_le (t : Table κ α) {i j : Nat} (hj : j < t.ids.size) (hij : i ≤ j) (k : κ)
    (h : compare t.ids[j] k = .lt) : compare t.ids[i] k = .lt := by
  rcases Nat.lt_or_eq_of_le hij with hij | rfl
  · exact Std.TransCmp.lt_trans (t.increasing i j hj hij) h
  · exact h

theorem bisect_below (t : Table κ α) (k : κ) (lo hi : Nat) (hhi : hi ≤ t.ids.size) (hle : lo ≤ hi)
    (hlow : ∀ i (hi : i < t.ids.size), i < lo → compare t.ids[i] k = .lt)
    (hhigh : ∀ i (h : i < t.ids.size), hi ≤ i → compare t.ids[i] k ≠ .lt) :
    (∀ i (h : i < t.ids.size), i < bisect t.ids k lo hi hhi → compare t.ids[i] k = .lt) ∧
      ∀ i (h : i < t.ids.size), bisect t.ids k lo hi hhi ≤ i → compare t.ids[i] k ≠ .lt := by
  fun_induction bisect t.ids k lo hi hhi with
  | case1 lo hi hhi h mid hmid hlt ih =>
    exact ih (by omega) (fun i hi hm => t.increasing_le (by omega) (by omega) k hlt) hhigh
  | case2 lo hi hhi h mid hmid hlt ih =>
    exact ih (by omega) hlow fun i hi hm hc => hlt (t.increasing_le hi hm k hc)
  | case3 lo hi hhi h => exact ⟨hlow, fun i hi hle => hhigh i hi (by omega)⟩

/-- Exactly the keys at positions below `rank k` are below `k`. -/
theorem compare_lt_iff (t : Table κ α) (k : κ) {i : Nat} (hi : i < t.ids.size) :
    compare t.ids[i] k = .lt ↔ i < t.rank k := by
  have h := t.bisect_below k 0 t.ids.size (Nat.le_refl _) (Nat.zero_le _) (by omega) (by omega)
  exact ⟨fun hc => Nat.lt_of_not_le fun hle => h.2 i hi hle hc, h.1 i hi⟩

theorem compare_gt_of_rank_le (t : Table κ α) {k : κ} (h : t.holds (t.rank k) k = false)
    {i : Nat} (hi : i < t.ids.size) (hle : t.rank k ≤ i) : compare k t.ids[i] = .lt := by
  have hnot : compare t.ids[i] k ≠ .lt := fun hc => by
    have := (t.compare_lt_iff k hi).1 hc
    omega
  have hne : compare t.ids[i] k ≠ .eq := fun hc => by
    have hr : t.rank k < t.ids.size := by omega
    rcases Nat.lt_or_eq_of_le hle with hlt | heq
    · have h1 := t.increasing _ _ hi hlt
      have h2 : compare t.ids[t.rank k] k = .lt := Std.TransCmp.lt_of_lt_of_eq h1 hc
      have := (t.compare_lt_iff k hr).1 h2
      omega
    · have : t.holds (t.rank k) k = true := (t.holds_iff _ _).2 ⟨hr, by simpa [heq] using hc⟩
      simp [this] at h
  cases hc : compare t.ids[i] k with
  | lt => exact absurd hc hnot
  | eq => exact absurd hc hne
  | gt => exact Std.OrientedCmp.gt_iff_lt.1 hc

/-- Add an entry for `k` unless there is one already; the flag says whether it was added. -/
def insert (t : Table κ α) (k : κ) (a : α) : Table κ α × Bool :=
  if h : t.holds (t.rank k) k then (t, false)
  else
    ({ ids := t.ids.insertIdx (t.rank k) k (t.rank_le k)
       elems := t.elems.insertIdx (t.rank k) a (t.size_eq ▸ t.rank_le k)
       size_eq := by simp [Array.size_insertIdx, t.size_eq]
       increasing := by
        intro i j hj hij
        have hr := t.rank_le k
        simp only [Array.size_insertIdx] at hj
        simp only [Array.getElem_insertIdx]
        split
        · split
          · exact t.increasing _ _ (by omega) (by omega)
          · split
            · exact (t.compare_lt_iff k (by omega)).2 (by omega)
            · exact t.increasing _ _ (by omega) (by omega)
        · split
          · split
            · omega
            · split
              · omega
              · exact t.compare_gt_of_rank_le (by simpa using h) (by omega) (by omega)
          · split
            · omega
            · split
              · omega
              · exact t.increasing _ _ (by omega) (by omega) }, true)

def put (t : Table κ α) (k : κ) (a : α) : Table κ α := ((t.insert k a).1).set k a

end Lawful

end Table

end DrawGraph
