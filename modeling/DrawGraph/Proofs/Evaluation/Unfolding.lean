import DrawGraph.Proofs.Evaluation.Postorder
import DrawGraph.Proofs.Graph.Cycle
import DrawGraph.Proofs.Graph.Edit
import Mathlib.Data.Set.Card

/-!
# Walks and the unfolding of a graph

A walk keeps no record of where it has been, so it meets a node once for each route that leads to it
from the root: it goes through the unfolding of the graph into a tree. It gets by when the search
for a cycle has found none and there are no more routes than the visits it may make.
-/

namespace DrawGraph

namespace Graph

variable {g : Graph} {n root : Id} {ns xs : List Id}

/-- The edges follow one another, the first of them from the node. -/
def IsRoute (g : Graph) : Id → List Edge → Prop
  | _, [] => True
  | n, e :: es => e ∈ g.edgesFrom n ∧ g.IsRoute e.target es

/-- The routes that start at a node. Edges that have both ends in common make different routes. -/
def routes (g : Graph) (n : Id) : Set (List Edge) := {es | g.IsRoute n es}

/-! ## Counting routes -/

/-- The routes that begin with one of the edges. -/
def routesVia (g : Graph) (es : List Edge) : Set (List Edge) :=
  {r | ∃ e ∈ es, ∃ r' ∈ g.routes e.target, e :: r' = r}

theorem routes_eq (g : Graph) (n : Id) : g.routes n = insert [] (g.routesVia (g.edgesFrom n)) := by
  ext r
  cases r <;> simp [routes, routesVia, IsRoute]

theorem routesVia_cons (g : Graph) (e : Edge) (es : List Edge) :
    g.routesVia (e :: es) = (e :: ·) '' g.routes e.target ∪ g.routesVia es := by
  ext r
  exact List.exists_mem_cons_iff ..

theorem encard_routesVia (g : Graph) {es : List Edge} (hnodup : es.Nodup) :
    (g.routesVia es).encard = (es.map fun e => (g.routes e.target).encard).sum := by
  induction es with
  | nil => simp [routesVia]
  | cons e es ih =>
      obtain ⟨he, hnodup⟩ := List.nodup_cons.1 hnodup
      have hapart : Disjoint ((e :: ·) '' g.routes e.target) (g.routesVia es) := by
        rw [Set.disjoint_left]
        rintro _ ⟨r, _, rfl⟩ ⟨f, hf, r', _, heq⟩
        exact he ((List.cons.inj heq).1 ▸ hf)
      rw [routesVia_cons, Set.encard_union_eq hapart, List.cons_injective.encard_image, ih hnodup,
        List.map_cons, List.sum_cons]

/-- The routes from a node are the empty one and, for each of its targets, those that go on from
there. -/
theorem encard_routes (hc : g.Consistent) (n : Id) :
    (g.routes n).encard = ((g.neighbors n).map fun m => (g.routes m).encard).sum + 1 := by
  have hnodup : (g.edgesFrom n).Nodup := (pairwise_edgesFrom hc n).imp ne_of_id_lt
  have hsum : ((g.neighbors n).map fun m => (g.routes m).encard).sum =
      ((g.edgesFrom n).map fun e => (g.routes e.target).encard).sum := by
    rw [((hc.perm n).map _).sum_eq, List.map_map]
    rfl
  rw [routes_eq, Set.encard_insert_of_notMem (by simp [routesVia]), g.encard_routesVia hnodup, hsum]

/-- In post-order a node stands once for each route to it. -/
theorem Postorder.encard_routes (hc : g.Consistent) (h : g.Postorder ns xs) :
    (ns.map fun m => (g.routes m).encard).sum = xs.length := by
  induction h with
  | nil => rfl
  | cons _ _ ihBelow ihBeside =>
      rw [List.map_cons, List.sum_cons, Graph.encard_routes hc, ihBelow, ihBeside,
        List.length_append, List.length_cons]
      push_cast
      rw [add_assoc, add_comm 1]

/-! ## Where a walk ends -/

theorem exists_postorder_of_forall (hns : ∀ m ∈ ns, ∃ xs, g.Postorder (g.neighbors m) xs) :
    ∃ xs, g.Postorder ns xs := by
  induction ns with
  | nil => exact ⟨[], .nil⟩
  | cons n ns ih =>
      obtain ⟨hn, hns⟩ := List.forall_mem_cons.1 hns
      obtain ⟨xs, hxs⟩ := hn
      obtain ⟨ys, hys⟩ := ih hns
      exact ⟨_, .cons hxs hys⟩

theorem Ends.exists_postorder (h : g.Ends n) : ∃ xs, g.Postorder [n] xs := by
  have hbelow : ∃ xs, g.Postorder (g.neighbors n) xs := by
    induction h with
    | intro n _ ih => exact exists_postorder_of_forall ih
  obtain ⟨xs, hxs⟩ := hbelow
  exact ⟨_, hxs.singleton⟩

theorem length_le_of_walk {limit : Nat} {visited pending order : List Id}
    (h : g.walk limit visited pending = some order) : order.length ≤ limit + visited.length := by
  fun_induction g.walk limit visited pending with
  | case1 limit visited =>
      cases h
      exact Nat.le_add_left ..
  | case2 => cases h
  | case3 visited limit n pending ih =>
      have := ih h
      rw [List.length_cons] at this
      omega

/-- A walk that starts with nothing gets by when it may visit as many nodes as stand in post-order,
and gives them. -/
theorem walk_eq (h : g.Postorder [root] xs) (limit : Nat) :
    g.walk limit [] [root] = if xs.length ≤ limit then some xs else none := by
  split
  · next hlimit =>
    have hwalk := walk_of_postorder h hlimit [] []
    rwa [List.reverse_singleton, List.append_nil, List.append_nil, walk] at hwalk
  · next hlimit =>
    rw [Option.eq_none_iff_forall_ne_some]
    intro order hwalk
    obtain ⟨ys, rfl, hys⟩ := postorder_of_walk hwalk
    have hle := length_le_of_walk hwalk
    rw [List.append_nil, ← h.unique hys] at hle
    exact hlimit hle

section Order

variable (settings : EvalSettings)

theorem visitOrder_of_missing (hroot : g.hasNode root = false) :
    g.visitOrder settings root = .error (.graph (.nodeNotFound root)) := by
  simp [visitOrder, reductionOrder, hroot, Except.map]

theorem visitOrder_of_cycle (hroot : g.hasNode root = true) (hcycle : g.LeadsToCycle root) :
    g.visitOrder settings root = .error (.cycle root) := by
  simp [visitOrder, reductionOrder, hroot, (g.hasCycleFrom_iff root).2 hcycle, Except.map]

theorem visitOrder_of_postorder (hroot : g.hasNode root = true) (hcycle : ¬ g.LeadsToCycle root)
    (h : g.Postorder [root] xs) :
    g.visitOrder settings root =
      if xs.length ≤ settings.maxVisits then .ok xs.reverse
      else .error (.visitLimit settings.maxVisits) := by
  have hsearch : g.hasCycleFrom root = false := by
    rwa [← Bool.not_eq_true, hasCycleFrom_iff]
  simp only [visitOrder, reductionOrder, hroot, hsearch, walk_eq h, Bool.not_true,
    Bool.false_eq_true, if_false]
  by_cases hlimit : xs.length ≤ settings.maxVisits
  · simp only [if_pos hlimit, Except.map]
  · simp only [if_neg hlimit, Except.map]

/-- When a walk from the root has an order and which, and what it fails with otherwise. -/
structure WalksFrom (g : Graph) (settings : EvalSettings) (root : Id) : Prop where
  succeeds : (∃ order, g.visitOrder settings root = .ok order) ↔
    g.hasNode root = true ∧ ¬ g.LeadsToCycle root ∧ (g.routes root).encard ≤ settings.maxVisits
  unfolds : ∀ order, g.visitOrder settings root = .ok order →
    order.length = (g.routes root).encard ∧ g.Postorder [root] order.reverse
  missing : g.visitOrder settings root = .error (.graph (.nodeNotFound root)) ↔
    g.hasNode root = false
  cyclic : g.visitOrder settings root = .error (.cycle root) ↔
    g.hasNode root = true ∧ g.LeadsToCycle root
  exceeds : g.visitOrder settings root = .error (.visitLimit settings.maxVisits) ↔
    g.hasNode root = true ∧ ¬ g.LeadsToCycle root ∧ settings.maxVisits < (g.routes root).encard
  untouched : ∀ err, g.visitOrder settings root = .error err →
    ∀ (σ : Type) (time : Float32) (owner : Owner σ) (values : ValueStore) (state : σ),
      Evaluation.run g settings root time owner values state = (.error err, values, state)

variable {settings} in
theorem run_of_visitOrder_error {err : EvalError} (h : g.visitOrder settings root = .error err)
    {σ : Type} (time : Float32) (owner : Owner σ) (values : ValueStore) (state : σ) :
    Evaluation.run g settings root time owner values state = (.error err, values, state) := by
  have hr : g.reductionOrder settings root = .error err := by
    unfold visitOrder at h
    cases hr : g.reductionOrder settings root with
    | error err' => rwa [hr] at h
    | ok order =>
        rw [hr] at h
        cases h
  rw [Evaluation.run, hr]

/-- A walk from a root succeeds just when the root is a node, leads to no cycle and has no more
routes than the walk may make visits; it visits a node for each route, and in reverse these are the
unfolding in post-order. The errors come in this order, and no error leaves a trace. -/
theorem Consistent.walksFrom (hc : g.Consistent) (settings : EvalSettings) (root : Id) :
    g.WalksFrom settings root := by
  have huntouched (err : EvalError) (h : g.visitOrder settings root = .error err) (σ : Type)
      (time : Float32) (owner : Owner σ) (values : ValueStore) (state : σ) :=
    run_of_visitOrder_error h time owner values state
  cases hroot : g.hasNode root with
  | false =>
      have horder := visitOrder_of_missing settings hroot
      refine ⟨?_, ?_, ?_, ?_, ?_, huntouched⟩ <;> simp [horder, hroot]
  | true =>
      by_cases hcycle : g.LeadsToCycle root
      · have horder := visitOrder_of_cycle settings hroot hcycle
        refine ⟨?_, ?_, ?_, ?_, ?_, huntouched⟩ <;> simp [horder, hroot, hcycle]
      have hends : g.Ends root := by
        refine ends_of_hasCycleFrom ?_
        rwa [← Bool.not_eq_true, hasCycleFrom_iff]
      obtain ⟨xs, hxs⟩ := hends.exists_postorder
      have hcount : (g.routes root).encard = xs.length := by
        simpa using hxs.encard_routes hc
      have horder := visitOrder_of_postorder settings hroot hcycle hxs
      by_cases hlimit : xs.length ≤ settings.maxVisits
      · rw [if_pos hlimit] at horder
        refine ⟨?_, ?_, ?_, ?_, ?_, huntouched⟩ <;>
          simp [horder, hroot, hcycle, hcount, hlimit, hxs]
      · rw [if_neg hlimit] at horder
        refine ⟨?_, ?_, ?_, ?_, ?_, huntouched⟩ <;>
          simp [horder, hroot, hcycle, hcount, hlimit, not_le.1 hlimit]

end Order

/-- A sum of a sum with itself, which is a sum of a number with itself. -/
def pyramid : Graph :=
  Graph.empty.edits [.addNode ⟨.value, .none, 1⟩, .addNode ⟨.add, .none, 0⟩,
    .addNode ⟨.add, .none, 0⟩, .addEdge 1 0 .internal, .addEdge 1 0 .internal,
    .addEdge 2 1 .internal, .addEdge 2 1 .internal]

theorem walksFrom_pyramid :
    pyramid.Consistent ∧ pyramid.WalksFrom { maxVisits := 7 } 2 ∧
      pyramid.visitOrder { maxVisits := 7 } 2 = .ok [2, 1, 0, 0, 1, 0, 0] ∧
        pyramid.visitOrder { maxVisits := 6 } 2 = .error (.visitLimit 6) := by
  have hc : pyramid.Consistent := Consistent.empty.edits _
  exact ⟨hc, hc.walksFrom { maxVisits := 7 } 2, by decide +kernel, by decide +kernel⟩

end Graph

end DrawGraph
