import DrawGraph.Proofs.Editor.Giving

/-!
# Walks through nodes that belong to no UI node

A node that no UI node owns is reduced by the rule of its type, which leaves one value at most. It
leads to three nodes at most, and these lead nowhere. So in a walk from it the stack never holds
the operands that this rule takes for a draw node, and no draw call is made.
-/

namespace DrawGraph

open Evaluation Machine Wiring

namespace Graph.Postorder

variable {g : Graph} {ns order : List Id}

theorem eq_of_leaves (h : g.Postorder ns order) (hns : ∀ n ∈ ns, g.neighbors n = []) :
    order = ns := by
  induction h with
  | nil => rfl
  | @cons n ns xs ys below _ _ ihBeside =>
      rw [hns n List.mem_cons_self] at below
      cases below
      rw [ihBeside fun k hk => hns k (List.mem_cons_of_mem _ hk), List.nil_append]

end Graph.Postorder

section Rules

variable {σ α : Type} {site : Site} {m m₁ m' : Machine σ}

/-- Values have been taken off the stack, and nothing else was done. -/
def Shrinks (m m' : Machine σ) : Prop :=
  ∃ stack, m' = { m with stack } ∧ stack.length ≤ m.stack.length

/-- One value at most is new on the stack, and besides only the readiness may have changed. -/
def Idles (m m' : Machine σ) : Prop :=
  ∃ stack ready, m' = { m with stack, ready } ∧ stack.length ≤ m.stack.length + 1

theorem Shrinks.refl (m : Machine σ) : Shrinks m m := ⟨m.stack, rfl, Nat.le_refl _⟩

theorem Shrinks.idles (h : Shrinks m m') : Idles m m' := by
  obtain ⟨stack, rfl, hle⟩ := h
  exact ⟨stack, m.ready, rfl, Nat.le_succ_of_le hle⟩

theorem Shrinks.push (h : Shrinks m m') (v : Value) :
    Idles m { m' with stack := v :: m'.stack } := by
  obtain ⟨stack, rfl, hle⟩ := h
  exact ⟨v :: stack, m.ready, rfl, Nat.succ_le_succ hle⟩

theorem Shrinks.setReady (h : Shrinks m m') (b : Bool) : Idles m { m' with ready := some b } := by
  obtain ⟨stack, rfl, hle⟩ := h
  exact ⟨stack, some b, rfl, Nat.le_succ_of_le hle⟩

theorem pop_eq_ok {n : Nat} {vs : List Value} (h : (pop site n).on m = (.ok vs, m')) :
    n ≤ m.stack.length ∧ Shrinks m m' := by
  rw [pop, Attempt.on_bind_of_ok (Attempt.on_get m)] at h
  by_cases hlen : m.stack.length < n
  · simp only [hlen, if_true] at h
    cases h
  · simp only [hlen, if_false] at h
    cases h
    exact ⟨Nat.le_of_not_lt hlen, m.stack.drop n, rfl, by simp⟩

theorem shrinks_pop {n : Nat} {f : List Value → α} {a : α}
    (h : (pop site n >>= fun vs => pure (f vs)).on m = (.ok a, m')) : Shrinks m m' := by
  obtain ⟨vs, m₁, hpop, h⟩ := Attempt.on_bind_eq_ok h
  cases h
  exact (pop_eq_ok hpop).2

theorem idles_binary {op : BinaryOp} {u : Unit} (h : (binary site op).on m = (.ok u, m')) :
    Idles m m' := by
  obtain ⟨⟨a, b⟩, m₁, hpop, h⟩ := Attempt.on_bind_eq_ok h
  rw [(steady_arithmetic site (Value.apply op a b)).on_bind] at h
  split at h
  · next v _ =>
    cases h
    exact (shrinks_pop hpop).push v
  · cases h

/-- The rule of a draw node takes six values. -/
theorem idles_builtin {x : Float32} {u : Unit} (hfew : m.stack.length < 6)
    (h : (builtin site x).on m = (.ok u, m')) : site.type ≠ .draw ∧ Idles m m' := by
  unfold builtin at h
  split at h
  · next htype => exact ⟨by simp [htype], idles_binary h⟩
  · next htype => exact ⟨by simp [htype], idles_binary h⟩
  · next htype =>
    obtain ⟨v, m₁, hpop, h⟩ := Attempt.on_bind_eq_ok h
    cases h
    exact ⟨by simp [htype], (shrinks_pop hpop).push v.absSin⟩
  · next htype =>
    cases h
    exact ⟨by simp [htype], (Shrinks.refl m).push _⟩
  · obtain ⟨vs, m₁, hpop, _⟩ := Attempt.on_bind_eq_ok h
    exact absurd (pop_eq_ok hpop).1 (Nat.not_le_of_lt hfew)
  · next htype =>
    obtain ⟨v, m₁, hpop, h⟩ := Attempt.on_bind_eq_ok h
    cases h
    exact ⟨by simp [htype], (shrinks_pop hpop).setReady v.isNonzero⟩
  · cases h
  · cases h
  · next hdraw _ _ _ =>
    rw [Attempt.on_bind_of_ok (box?_on m site.node)] at h
    cases h
    exact ⟨hdraw, (Shrinks.refl m).push _⟩

end Rules

namespace Editor

variable {w : Wiring} {e : Editor} {root id : Id} {order : List Id}
  {m m' : Machine (List UiNode)} {g : Graph} {time : Float32}

/-- A draw node that draws, and not a pin of its type. -/
def DrawsAt (g : Graph) (id : Id) : Prop :=
  ∃ n, g.node? id = some n ∧ n.type = .draw ∧ ¬ n.direction.isPin

theorem idles_visit (hnobody : m.owner.find? (·.id == id) = none) (hfew : m.stack.length < 6)
    (h : (visit g time owners id).on m = (.ok (), m')) : ¬ DrawsAt g id ∧ Idles m m' := by
  unfold visit at h
  split at h
  · cases h
  · next n hn =>
    have hdraws (hdraw : n.type = .draw → n.direction.isPin) : ¬ DrawsAt g id := by
      rintro ⟨n', hn', htype, hpin⟩
      obtain rfl := Option.some.inj (hn.symm.trans hn')
      exact hpin (hdraw htype)
    split at h
    · next hskip =>
      refine ⟨hdraws fun htype => by simpa [htype] using hskip, ?_⟩
      split at h
      · rw [Attempt.on_bind_of_ok (box?_on m id)] at h
        cases h
        exact (Shrinks.refl m).push _
      · cases h
        exact (Shrinks.refl m).idles
    · have howners : (owners ⟨id, n.type, time⟩).on m = (.ok false, m) := by
        rw [owners, Attempt.on_bind_of_ok (Attempt.on_get m), hnobody]
        rfl
      rw [Attempt.on_bind_of_ok howners] at h
      obtain ⟨htype, hidles⟩ := idles_builtin hfew h
      exact ⟨hdraws fun hdraw => absurd hdraw htype, hidles⟩

/-- With every node the stack grows by one value at most. -/
theorem idles_replay (hnobody : ∀ id ∈ order, m.owner.find? (·.id == id) = none)
    (hfew : m.stack.length + order.length ≤ 6)
    (h : (replay g time owners order).on m = (.ok (), m')) :
    (∀ id ∈ order, ¬ DrawsAt g id) ∧ ∃ stack ready, m' = { m with stack, ready } := by
  induction order generalizing m with
  | nil =>
      cases h
      exact ⟨fun id hid => (nomatch hid), _, _, rfl⟩
  | cons id ids ih =>
      rw [List.length_cons] at hfew
      obtain ⟨_, m₁, hvisit, h⟩ := Attempt.on_bind_eq_ok h
      obtain ⟨hdraws, stack₁, ready₁, rfl, hle⟩ :=
        idles_visit (hnobody id List.mem_cons_self) (by omega) hvisit
      have hrest : ∀ k ∈ ids, m.owner.find? (·.id == k) = none := fun k hk =>
        hnobody k (List.mem_cons_of_mem _ hk)
      have hfew' : stack₁.length + ids.length ≤ 6 := by omega
      obtain ⟨hdraws', stack, ready, rfl⟩ :=
        ih (m := { m with stack := stack₁, ready := ready₁ }) hrest hfew' h
      refine ⟨fun k hk => ?_, stack, ready, rfl⟩
      rcases List.mem_cons.1 hk with rfl | hk
      · exact hdraws
      · exact hdraws' k hk

theorem Held.node?_eq_none {tight : Prop} (h : e.Held tight w) (hid : w id = none) :
    e.node? id = none := by
  refine List.find?_eq_none.2 fun n hn heq => ?_
  have hrole := (h.casts.plays n hn).identity
  rw [show n.id = id by simpa using heq, hid] at hrole
  cases hrole

/-- A walk from a node without a role meets no node with one. -/
theorem Held.leftover (h : e.Held True w)
    (hr : e.graph.reductionOrder e.settings root = .ok order) (hroot : w root = none) :
    order.length ≤ 4 ∧ ∀ id ∈ order, w id = none := by
  rcases Graph.postorder_of_reductionOrder hr with _ | ⟨below, beside⟩
  cases beside
  obtain ⟨hfew, hidle⟩ := h.laid.stray trivial root hroot
  obtain rfl := below.eq_of_leaves fun n hn => (hidle n hn).2
  refine ⟨?_, fun id hid => ?_⟩
  · rw [List.length_append, List.length_singleton]
    exact Nat.succ_le_succ hfew
  rcases List.mem_append.1 hid with hid | hid
  · exact (hidle id hid).1
  · rw [List.mem_singleton.1 hid, hroot]

theorem Held.replayed_leftover (h : e.Held True w)
    (hr : e.graph.reductionOrder e.settings root = .ok order) (hroot : w root = none)
    (hrun : e.replayed order = (.ok (), m)) :
    (∀ id ∈ order, ¬ DrawsAt e.graph id) ∧ m.calls = [] := by
  obtain ⟨hfew, hnone⟩ := h.leftover hr hroot
  have hstack : e.start.stack.length + order.length ≤ 6 := by
    rw [show e.start.stack.length = 0 from rfl]
    omega
  obtain ⟨hdraws, stack, ready, rfl⟩ :=
    idles_replay (m := e.start) (fun id hid => h.node?_eq_none (hnone id hid)) hstack hrun
  exact ⟨hdraws, rfl⟩

end Editor

end DrawGraph
