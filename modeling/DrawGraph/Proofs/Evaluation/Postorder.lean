import DrawGraph.Evaluation.Run
import Mathlib.Control.Monad.Basic

/-!
# The walk as a recursion

A walk visits the nodes against the order in which they are reduced, and keeps the nodes still to
be visited on a stack. Read backwards it is the recursion that runs the targets of a node from left
to right and then the node itself, with one stack of values, one set of boxes and the first error
of all.
-/

namespace DrawGraph

namespace Graph

/-- The nodes met when each of the given nodes in turn is met after all that its targets lead to. A
node is met once for each path that leads to it. -/
inductive Postorder (g : Graph) : List Id → List Id → Prop
  | nil : Postorder g [] []
  | cons {n : Id} {ns xs ys : List Id} (below : Postorder g (g.neighbors n) xs)
      (beside : Postorder g ns ys) : Postorder g (n :: ns) (xs ++ n :: ys)

namespace Postorder

variable {g : Graph} {as bs xs ys : List Id}

theorem append (ha : g.Postorder as xs) (hb : g.Postorder bs ys) :
    g.Postorder (as ++ bs) (xs ++ ys) := by
  induction ha with
  | nil => exact hb
  | @cons n ns zs ws below _ _ ih =>
      have h := Postorder.cons below ih
      simpa only [List.cons_append, List.append_assoc] using h

theorem split (h : g.Postorder (as ++ bs) xs) :
    ∃ ys zs, xs = ys ++ zs ∧ g.Postorder as ys ∧ g.Postorder bs zs := by
  induction as generalizing xs with
  | nil => exact ⟨[], xs, rfl, .nil, h⟩
  | cons a as ih =>
      rcases h with _ | ⟨below, beside⟩
      obtain ⟨ys, zs, rfl, hy, hz⟩ := ih beside
      exact ⟨_, zs, by simp only [List.append_assoc, List.cons_append], .cons below hy, hz⟩

theorem singleton {n : Id} (h : g.Postorder (g.neighbors n) xs) : g.Postorder [n] (xs ++ [n]) :=
  .cons h .nil

theorem unique (hx : g.Postorder as xs) (hy : g.Postorder as ys) : xs = ys := by
  induction hx generalizing ys with
  | nil =>
      cases hy
      rfl
  | cons _ _ ihBelow ihBeside =>
      rcases hy with _ | ⟨below, beside⟩
      rw [ihBelow below, ihBeside beside]

end Postorder

/-- The nodes that a walk adds are, read backwards, in post-order. -/
theorem postorder_of_walk {g : Graph} {limit : Nat} {visited pending order : List Id}
    (h : g.walk limit visited pending = some order) :
    ∃ xs, order = xs ++ visited ∧ g.Postorder pending.reverse xs := by
  fun_induction g.walk limit visited pending with
  | case1 limit visited =>
      exact ⟨[], (Option.some.inj h).symm, .nil⟩
  | case2 => simp at h
  | case3 visited limit n pending ih =>
      obtain ⟨xs, hxs, hpost⟩ := ih h
      rw [List.reverse_append, List.reverse_reverse] at hpost
      obtain ⟨ys, zs, rfl, hy, hz⟩ := hpost.split
      refine ⟨ys ++ (zs ++ [n]), by simp [hxs], ?_⟩
      rw [List.reverse_cons]
      exact hy.append hz.singleton

/-- A walk that may visit as many nodes as there are in post-order gets by. -/
theorem walk_of_postorder {g : Graph} {ns xs : List Id} (h : g.Postorder ns xs) {limit : Nat}
    (hlimit : xs.length ≤ limit) (visited pending : List Id) :
    g.walk limit visited (ns.reverse ++ pending) =
      g.walk (limit - xs.length) (xs ++ visited) pending := by
  induction h generalizing limit visited pending with
  | nil => rfl
  | @cons n ns xs ys _ _ ihBelow ihBeside =>
      rw [List.length_append, List.length_cons] at hlimit ⊢
      rw [List.reverse_cons, List.append_assoc, ihBeside (by omega)]
      obtain ⟨rest, hrest⟩ : ∃ rest, limit - ys.length = rest + 1 :=
        ⟨limit - ys.length - 1, by omega⟩
      rw [hrest, List.singleton_append, walk, ihBelow (by omega), List.append_assoc,
        List.cons_append, show rest - xs.length = limit - (xs.length + (ys.length + 1)) by omega]

theorem postorder_of_reductionOrder {g : Graph} {settings : EvalSettings} {root : Id}
    {order : List Id} (h : g.reductionOrder settings root = .ok order) :
    g.Postorder [root] order := by
  unfold reductionOrder at h
  split at h
  · cases h
  · split at h
    · cases h
    · split at h
      · next order' hw =>
        cases h
        obtain ⟨xs, rfl, hpost⟩ := postorder_of_walk hw
        simpa using hpost
      · cases h

end Graph

namespace Evaluation

variable {σ : Type}

/-- Run a node by recursion: its targets from left to right, and then the node itself. `depth`
bounds the paths that are followed. -/
def interpret (g : Graph) (time : Float32) (owner : Owner σ) : Nat → Id → Reduction σ Unit
  | 0, id => throw (.cycle id)
  | depth + 1, id => do
    (g.neighbors id).forM (interpret g time owner depth)
    visit g time owner id

theorem replay_append (g : Graph) (time : Float32) (owner : Owner σ) (xs ys : List Id) :
    replay g time owner (xs ++ ys) =
      replay g time owner xs >>= fun _ => replay g time owner ys := by
  induction xs with
  | nil => simp [replay]
  | cons x xs ih => simp only [List.cons_append, replay, ih, bind_assoc]

/-- Replaying a post-order is the recursion on its nodes. -/
theorem interpret_eq_replay {g : Graph} {ns xs : List Id} (h : g.Postorder ns xs)
    (time : Float32) (owner : Owner σ) {depth : Nat} (hd : xs.length ≤ depth) :
    ns.forM (interpret g time owner depth) = replay g time owner xs := by
  induction h generalizing depth with
  | nil => rfl
  | @cons n ns xs ys _ _ ihBelow ihBeside =>
      rw [List.length_append, List.length_cons] at hd
      obtain ⟨depth, rfl⟩ : ∃ d, depth = d + 1 := ⟨depth - 1, by omega⟩
      have hn : interpret g time owner (depth + 1) n =
          replay g time owner xs >>= fun _ => visit g time owner n := by
        rw [interpret, ihBelow (by omega)]
      have hns : ns.forM (interpret g time owner (depth + 1)) = replay g time owner ys :=
        ihBeside (by omega)
      rw [List.forM_eq_forM] at hns ⊢
      rw [List.forM_cons, hn, hns, replay_append, replay, bind_assoc]

/-- An evaluation gives what the recursion from the root gives: the value on top, the ready flag,
the draw calls in order, the boxes, the owner's state and the first error. -/
theorem run_eq_interpret (g : Graph) (settings : EvalSettings) (root : Id) (time : Float32)
    (owner : Owner σ) (values : ValueStore) (state : σ) {order : List Id} {depth : Nat}
    (h : g.visitOrder settings root = .ok order) (hd : order.length ≤ depth) :
    run g settings root time owner values state =
      let (r, m) := (interpret g time owner depth root).on { values := values, owner := state }
      (r.map fun _ => report m order.length, m.values, m.owner) := by
  obtain ⟨reductions, hr, rfl⟩ : ∃ xs, g.reductionOrder settings root = .ok xs ∧
      order = xs.reverse := by
    unfold Graph.visitOrder at h
    cases hr : g.reductionOrder settings root with
    | error e => simp [hr, Except.map] at h
    | ok xs => exact ⟨xs, rfl, by simpa [hr, Except.map, eq_comm] using h⟩
  rw [List.length_reverse] at hd ⊢
  have hroot := interpret_eq_replay (Graph.postorder_of_reductionOrder hr) time owner hd
  rw [List.forM_eq_forM, List.forM_cons, List.forM_nil] at hroot
  have hplain : interpret g time owner depth root = replay g time owner reductions := by
    rw [← hroot]
    exact (bind_pure _).symm
  rw [hplain, run, hr]

/-- A sum of a number and itself. -/
def doubled : Graph :=
  (((Graph.empty.place 0 ⟨.value, .none, 2⟩).place 1 ⟨.add, .none, 0⟩).attach
    ⟨2, 1, 0, .internal⟩).attach ⟨3, 1, 0, .internal⟩

/-- The number is run twice, and the sum leaves twice the number. -/
theorem run_doubled_eq_interpret :
    doubled.visitOrder {} 1 = .ok [1, 0, 0] ∧ [1, 0, 0].length ≤ 3 ∧
      run doubled {} 1 0 Owner.nobody .empty () =
        (let (r, m) := (interpret doubled 0 Owner.nobody 3 1).on { values := .empty, owner := () }
        (r.map fun _ => report m [1, 0, 0].length, m.values, m.owner)) ∧
      (run doubled {} 1 0 Owner.nobody .empty ()).1.toOption = some ⟨some (.float 4), none, [], 3⟩ := by
  have horder : doubled.visitOrder {} 1 = .ok [1, 0, 0] := by decide +kernel
  have hdepth : [1, 0, 0].length ≤ 3 := by decide
  exact ⟨horder, hdepth, run_eq_interpret doubled {} 1 0 Owner.nobody .empty () horder hdepth,
    by decide +kernel⟩

end Evaluation

end DrawGraph
