import DrawGraph.Graph.Search
import DrawGraph.Proofs.Graph.Consistency
import Mathlib.Logic.Relation

/-!
# Paths

A path follows the targets of nodes, and the search for a node finds it exactly when a path leads
there.
-/

namespace DrawGraph

namespace Graph

variable {g g' : Graph} {a b c : Id}

def Step (g : Graph) (a b : Id) : Prop := b ∈ g.neighbors a

/-- A path, possibly empty, leads from the first node to the second. -/
def Leads (g : Graph) : Id → Id → Prop := Relation.ReflTransGen g.Step

/-- Nobody can follow edges for ever. -/
def Acyclic (g : Graph) : Prop := WellFounded fun b a => g.Step a b

namespace Leads

theorem refl (a : Id) : g.Leads a a := Relation.ReflTransGen.refl

theorem head (h : g.Step a b) (h' : g.Leads b c) : g.Leads a c := Relation.ReflTransGen.head h h'

theorem tail (h : g.Leads a b) (h' : g.Step b c) : g.Leads a c := Relation.ReflTransGen.tail h h'

/-- A set that holds the targets of its members holds all that they lead to. -/
theorem mem_of_closed {s : List Id} (hs : ∀ m ∈ s, ∀ t ∈ g.neighbors m, t ∈ s) (h : g.Leads a b)
    (ha : a ∈ s) : b ∈ s := by
  induction h with
  | refl => exact ha
  | tail _ hstep ih => exact hs _ ih _ hstep

end Leads

/-! ## The search for a node -/

def linksOutside (seen : List Id) (entries : List (Id × List Id)) : Nat :=
  ((entries.filter (·.1 ∉ seen)).flatMap Prod.snd).length

theorem linksOutside_nil (g : Graph) : linksOutside [] g.targets.entries = g.linkCount := by
  have hsnd : g.targets.entries.map Prod.snd = g.targets.elems.toList := by
    refine List.map_snd_zip ?_
    simp [g.targets.size_eq]
  have hall : g.targets.entries.filter (·.1 ∉ ([] : List Id)) = g.targets.entries := by simp
  rw [linksOutside, hall, List.flatMap_def, hsnd, linkCount]

theorem linksOutside_cons_entry (seen : List Id) (p : Id × List Id)
    (entries : List (Id × List Id)) :
    linksOutside seen (p :: entries) =
      (if p.1 ∈ seen then 0 else p.2.length) + linksOutside seen entries := by
  by_cases h : p.1 ∈ seen <;> simp [linksOutside, h]

theorem links_entry_le (seen : List Id) (n : Id) (p : Id × List Id) :
    (if p.1 ∈ n :: seen then 0 else p.2.length) ≤ if p.1 ∈ seen then 0 else p.2.length := by
  by_cases h : p.1 ∈ seen
  · simp [h]
  · by_cases hn : p.1 = n <;> simp [h, hn]

theorem linksOutside_cons_le (seen : List Id) (n : Id) (entries : List (Id × List Id)) :
    linksOutside (n :: seen) entries ≤ linksOutside seen entries := by
  induction entries with
  | nil => exact Nat.le_refl _
  | cons p entries ih =>
      rw [linksOutside_cons_entry, linksOutside_cons_entry]
      exact Nat.add_le_add (links_entry_le seen n p) ih

theorem linksOutside_cons {seen : List Id} {n : Id} {ts : List Id} {entries : List (Id × List Id)}
    (hmem : (n, ts) ∈ entries) (hn : n ∉ seen) :
    linksOutside (n :: seen) entries + ts.length ≤ linksOutside seen entries := by
  induction entries with
  | nil => cases hmem
  | cons p entries ih =>
      rw [linksOutside_cons_entry, linksOutside_cons_entry]
      rcases List.mem_cons.1 hmem with rfl | hmem
      · have hle := linksOutside_cons_le seen n entries
        simp only [List.mem_cons_self, if_true, hn, if_false]
        omega
      · have hle := links_entry_le seen n p
        have := ih hmem
        omega

theorem linksOutside_expand (g : Graph) {seen : List Id} {n : Id} (hn : n ∉ seen) :
    linksOutside (n :: seen) g.targets.entries + (g.neighbors n).length ≤
      linksOutside seen g.targets.entries := by
  cases h : g.targets.get? n with
  | none =>
      have hnil : g.neighbors n = [] := by rw [neighbors, h, Option.getD_none]
      have := linksOutside_cons_le seen n g.targets.entries
      rw [hnil, List.length_nil]
      omega
  | some ts =>
      have hts : g.neighbors n = ts := by rw [neighbors, h, Option.getD_some]
      rw [hts]
      exact linksOutside_cons ((g.targets.mem_entries n ts).2 h) hn

/-- The search as a loop that nothing bounds. With these nodes expanded before and these pending it
ends after some steps and says whether it has met the goal. -/
inductive Searches (g : Graph) (goal : Id) : List Id → List Id → Nat → Bool → Prop
  | exhausted {seen : List Id} : Searches g goal seen [] 0 false
  | met {seen pending : List Id} : Searches g goal seen (goal :: pending) 1 true
  | skip {seen pending : List Id} {n : Id} {steps : Nat} {found : Bool} (hgoal : n ≠ goal)
      (hn : n ∈ seen) (rest : Searches g goal seen pending steps found) :
      Searches g goal seen (n :: pending) (steps + 1) found
  | expand {seen pending : List Id} {n : Id} {steps : Nat} {found : Bool} (hgoal : n ≠ goal)
      (hn : n ∉ seen)
      (rest : Searches g goal (n :: seen) ((g.neighbors n).reverse ++ pending) steps found) :
      Searches g goal seen (n :: pending) (steps + 1) found

namespace Searches

variable {goal : Id} {seen pending : List Id} {steps steps' : Nat} {found found' : Bool}

/-- The loop goes one way only. -/
theorem unique (h : g.Searches goal seen pending steps found)
    (h' : g.Searches goal seen pending steps' found') : steps = steps' ∧ found = found' := by
  induction h generalizing steps' with
  | exhausted =>
      cases h'
      exact ⟨rfl, rfl⟩
  | met =>
      cases h' with
      | met => exact ⟨rfl, rfl⟩
      | skip hgoal => exact absurd rfl hgoal
      | expand hgoal => exact absurd rfl hgoal
  | skip hgoal hn _ ih =>
      cases h' with
      | met => exact absurd rfl hgoal
      | skip _ _ rest => exact (ih rest).imp_left (congrArg (· + 1))
      | expand _ hn' => exact absurd hn hn'
  | expand hgoal hn _ ih =>
      cases h' with
      | met => exact absurd rfl hgoal
      | skip _ hn' => exact absurd hn' hn
      | expand _ _ rest => exact (ih rest).imp_left (congrArg (· + 1))

theorem leads (h : g.Searches goal seen pending steps true) : ∃ n ∈ pending, g.Leads n goal := by
  generalize hfound : true = found at h
  induction h with
  | exhausted => cases hfound
  | met => exact ⟨_, List.mem_cons_self, .refl _⟩
  | skip _ _ _ ih =>
      obtain ⟨m, hm, hlead⟩ := ih hfound
      exact ⟨m, List.mem_cons_of_mem _ hm, hlead⟩
  | @expand _ _ n _ _ _ _ _ ih =>
      obtain ⟨m, hm, hlead⟩ := ih hfound
      rcases List.mem_append.1 hm with hm | hm
      · exact ⟨n, List.mem_cons_self, .head (List.mem_reverse.1 hm) hlead⟩
      · exact ⟨m, List.mem_cons_of_mem _ hm, hlead⟩

/-- What the loop leaves undone is still pending: the targets of the nodes seen are seen or
pending. So when nothing is pending any more, the nodes seen lead nowhere else. -/
theorem not_leads (h : g.Searches goal seen pending steps false) (hgoal : goal ∉ seen)
    (hclosed : ∀ m ∈ seen, ∀ t ∈ g.neighbors m, t ∈ seen ∨ t ∈ pending) :
    ∀ m, m ∈ seen ∨ m ∈ pending → ¬ g.Leads m goal := by
  generalize hfound : false = found at h
  induction h with
  | exhausted =>
      intro m hm hlead
      have hm := hm.resolve_right List.not_mem_nil
      refine hgoal (hlead.mem_of_closed (fun k hk t ht => ?_) hm)
      exact (hclosed k hk t ht).resolve_right List.not_mem_nil
  | met => cases hfound
  | @skip seen pending n _ _ _ hn _ ih =>
      have hdrop {t : Id} (ht : t ∈ seen ∨ t ∈ n :: pending) : t ∈ seen ∨ t ∈ pending := by
        rcases ht with ht | ht
        · exact Or.inl ht
        · rcases List.mem_cons.1 ht with rfl | ht
          · exact Or.inl hn
          · exact Or.inr ht
      exact fun m hm => ih hgoal (fun k hk t ht => hdrop (hclosed k hk t ht)) hfound m (hdrop hm)
  | @expand seen pending n _ _ hne hn _ ih =>
      have hmove {t : Id} (ht : t ∈ seen ∨ t ∈ n :: pending) :
          t ∈ n :: seen ∨ t ∈ (g.neighbors n).reverse ++ pending := by
        rcases ht with ht | ht
        · exact Or.inl (List.mem_cons_of_mem _ ht)
        · rcases List.mem_cons.1 ht with rfl | ht
          · exact Or.inl List.mem_cons_self
          · exact Or.inr (List.mem_append_right _ ht)
      have hgoal' : goal ∉ n :: seen := by
        rw [List.mem_cons, not_or]
        exact ⟨hne.symm, hgoal⟩
      refine fun m hm => ih hgoal' (fun k hk t ht => ?_) hfound m (hmove hm)
      rcases List.mem_cons.1 hk with rfl | hk
      · exact Or.inr (List.mem_append_left _ (List.mem_reverse.2 ht))
      · exact hmove (hclosed k hk t ht)

end Searches

/-- Each step uses up a pending node, and each node is expanded once, so steps are enough that are
as many as the nodes pending and the links of the nodes to expand. -/
theorem searches_search (g : Graph) (goal : Id) {steps : Nat} {seen pending : List Id}
    (hsteps : pending.length + linksOutside seen g.targets.entries ≤ steps) :
    ∃ k ≤ steps, g.Searches goal seen pending k (g.search goal steps seen pending) := by
  fun_induction g.search goal steps seen pending with
  | case1 seen pending =>
      obtain rfl : pending = [] := List.length_eq_zero_iff.1 (by omega)
      exact ⟨0, Nat.le_refl _, .exhausted⟩
  | case2 steps seen => exact ⟨0, Nat.zero_le _, .exhausted⟩
  | case3 => exact ⟨1, by omega, .met⟩
  | case4 seen steps n pending hne hn ih =>
      rw [List.length_cons] at hsteps
      obtain ⟨k, hk, hrest⟩ := ih (by omega)
      exact ⟨k + 1, by omega, .skip hne hn hrest⟩
  | case5 seen steps n pending hne hn ih =>
      have hexpand := g.linksOutside_expand hn
      rw [List.length_cons] at hsteps
      obtain ⟨k, hk, hrest⟩ := ih (by rw [List.length_append, List.length_reverse]; omega)
      exact ⟨k + 1, by omega, .expand hne hn hrest⟩

theorem searches_of_reaches (g : Graph) (a b : Id) :
    ∃ steps ≤ g.linkCount + 1, g.Searches b [] [a] steps (g.reaches a b) := by
  apply g.searches_search b
  rw [linksOutside_nil, List.length_singleton]
  omega

theorem reaches_iff (g : Graph) (a b : Id) : g.reaches a b = true ↔ g.Leads a b := by
  obtain ⟨steps, _, hsearch⟩ := g.searches_of_reaches a b
  constructor
  · intro h
    obtain ⟨n, hn, hlead⟩ := (h ▸ hsearch).leads
    rwa [List.mem_singleton.1 hn] at hlead
  · intro hlead
    by_contra hne
    rw [Bool.not_eq_true] at hne
    exact (hne ▸ hsearch).not_leads List.not_mem_nil (by simp) a (Or.inr List.mem_cons_self) hlead

/-- The search for a node comes to an end on every graph, after at most one step for each link and
one for the start, and it has met the node just when a path leads there. -/
theorem reaches_decides (g : Graph) (a b : Id) :
    (∃ steps found, steps ≤ g.linkCount + 1 ∧ g.Searches b [] [a] steps found) ∧
      (∀ steps found, g.Searches b [] [a] steps found → g.reaches a b = found) ∧
        (g.reaches a b = true ↔ g.Leads a b) := by
  obtain ⟨steps, hsteps, hsearch⟩ := g.searches_of_reaches a b
  exact ⟨⟨steps, _, hsteps, hsearch⟩, fun _ _ h => (hsearch.unique h).2, g.reaches_iff a b⟩

/-! ## Keeping a graph free of cycles -/

/-- In a graph without cycles no step leads back. -/
theorem Acyclic.not_leads (h : g.Acyclic) (hstep : g.Step a b) : ¬ g.Leads b a := by
  intro hlead
  have hcycle : Relation.TransGen (fun y x => g.Step x y) a a :=
    (Relation.TransGen.head' hstep hlead).swap
  exact h.transGen.induction (C := fun x => ¬ Relation.TransGen (fun y x => g.Step x y) x x) a
    (fun x ih hx => ih x hx hx) hcycle

theorem Acyclic.of_step_imp (h : g.Acyclic) (hsub : ∀ a b, g'.Step a b → g.Step a b) :
    g'.Acyclic :=
  Subrelation.wf (fun {_ _} hs => hsub _ _ hs) h

theorem Acyclic.of_step_imp_or (h : g.Acyclic) {s t : Id} (hst : ¬ g.Leads t s)
    (hsub : ∀ a b, g'.Step a b → g.Step a b ∨ a = s ∧ b = t) : g'.Acyclic := by
  -- the new edge cannot be met from below its source
  have hbelow : ∀ a, ¬ g.Leads a s → Acc (fun b a => g'.Step a b) a := by
    intro a
    induction h.apply a with
    | intro a _ ih =>
        intro ha
        apply Acc.intro a
        intro b hb
        rcases hsub a b hb with hb | ⟨rfl, _⟩
        · exact ih b hb fun hlead => ha (hlead.head hb)
        · exact absurd (.refl a) ha
  refine ⟨fun a => ?_⟩
  induction h.apply a with
  | intro a _ ih =>
      apply Acc.intro a
      intro b hb
      rcases hsub a b hb with hb | ⟨_, rfl⟩
      · exact ih b hb
      · exact hbelow b hst

theorem Acyclic.empty : Graph.empty.Acyclic := by
  refine ⟨fun a => Acc.intro a fun b hb => ?_⟩
  simp [Step, Graph.empty, neighbors] at hb

end Graph

end DrawGraph
