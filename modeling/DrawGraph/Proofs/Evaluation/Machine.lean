import DrawGraph.Evaluation.Machine
import DrawGraph.Proofs.Attempt
import DrawGraph.Proofs.Value

/-!
# Operands on the stack

When the operands were pushed one after another, popping as many gives them back in that order and
leaves what was below them.
-/

namespace DrawGraph

namespace EvalError

/-- A value could not become the kind that was needed. -/
def IsMismatch (err : EvalError) : Prop :=
  ∃ node expected found, err = .typeMismatch node expected found

end EvalError

namespace Machine

variable {σ : Type} {m : Machine σ} {site : Site} {rest vs : List Value} {a b c : Value}

theorem pop_on {n : Nat} (hn : vs.length = n) (h : m.stack = vs.reverse ++ rest) :
    (pop site n).on m = (.ok vs, { m with stack := rest }) := by
  subst hn
  have hlen : ¬ m.stack.length < vs.length := by
    rw [h, List.length_append, List.length_reverse]
    omega
  rw [pop, Attempt.on_bind_of_ok (Attempt.on_get m)]
  simp only [hlen, if_false]
  rw [Attempt.on_bind_of_ok (Attempt.on_set m _), Attempt.on_pure, h]
  simp

theorem pop₁_on (h : m.stack = a :: rest) :
    (pop₁ site).on m = (.ok a, { m with stack := rest }) := by
  rw [pop₁, Attempt.on_bind_of_ok (pop_on (show [a].length = 1 from rfl) h)]
  rfl

theorem pop₂_on (h : m.stack = b :: a :: rest) :
    (pop₂ site).on m = (.ok (a, b), { m with stack := rest }) := by
  rw [pop₂, Attempt.on_bind_of_ok (pop_on (show [a, b].length = 2 from rfl) h)]
  rfl

theorem pop₃_on (h : m.stack = c :: b :: a :: rest) :
    (pop₃ site).on m = (.ok (a, b, c), { m with stack := rest }) := by
  rw [pop₃, Attempt.on_bind_of_ok (pop_on (show [a, b, c].length = 3 from rfl) h)]
  rfl

theorem push_on (m : Machine σ) (v : Value) :
    (push v).on m = (.ok (), { m with stack := v :: m.stack }) := rfl

theorem emit_on (m : Machine σ) (pin : Id) (v : Value) :
    (emit pin v).on m =
      (.ok (), { m with values := m.values.put pin v, stack := v :: m.stack }) := rfl

theorem box?_on (m : Machine σ) (pin : Id) :
    (box? pin).on m = (.ok (m.values.get? pin), m) := rfl

theorem setReady_on (m : Machine σ) (b : Bool) :
    (setReady b).on m = (.ok (), { m with ready := some b }) := rfl

/-- A draw call changes neither the stack nor the boxes. -/
theorem submit_on (site : Site) (m : Machine σ) (call : DrawCall) :
    ∃ m', (submit site call).on m = (.ok (), m') ∧ m'.stack = m.stack ∧ m'.values = m.values ∧
      m'.owner = m.owner := by
  refine ⟨_, rfl, ?_⟩
  dsimp only
  split <;> exact ⟨rfl, rfl, rfl⟩

theorem expect_of_canFeed (site : Site) (m : Machine σ) {v : Value} {k : ValueKind}
    (h : v.kind.canFeed k) :
    ∃ u, u.kind = k ∧ (expect site v k).on m = (.ok u, m) := by
  obtain ⟨u, hu⟩ := Value.coerce_eq_some h
  refine ⟨u, Value.kind_of_coerce hu, ?_⟩
  rw [expect, hu]
  rfl

theorem expect_of_not_canFeed {v : Value} {k : ValueKind} (h : ¬ v.kind.canFeed k) :
    (expect site v k).on m = (.error (.typeMismatch site.node k v.kind), m) := by
  rw [expect, Value.coerce_eq_none h]
  rfl

end Machine

end DrawGraph
