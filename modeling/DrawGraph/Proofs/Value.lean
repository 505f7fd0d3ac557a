import DrawGraph.Value.Arithmetic

/-!
# Kinds of results

Sums, products and sines of numbers are numbers, and conversion succeeds exactly when the kind of
the value can feed the kind that is asked for.
-/

namespace DrawGraph

namespace Value

/-- Numbers have a sum and a product, which is an integer exactly when both are. -/
theorem apply_number (op : BinaryOp) {a b : Value} (ha : a.kind = .float ∨ a.kind = .int)
    (hb : b.kind = .float ∨ b.kind = .int) : ∃ v, apply op a b = .ok v ∧
      (v.kind = .float ∨ v.kind = .int) ∧ (v.kind = .int ↔ a.kind = .int ∧ b.kind = .int) := by
  cases a <;> cases b <;> simp [kind] at ha hb <;> cases op <;>
    exact ⟨_, rfl, by simp [kind]⟩

theorem kind_absSin_of_number {v : Value} (h : v.kind = .float ∨ v.kind = .int) :
    v.absSin.kind = .float := by
  cases v <;> simp [kind] at h <;> rfl

theorem coerce_eq_some {v : Value} {k : ValueKind} (h : v.kind.canFeed k) :
    ∃ u, v.coerce k = some u := by
  rw [← coerce_isSome] at h
  exact Option.isSome_iff_exists.1 h

theorem coerce_eq_none {v : Value} {k : ValueKind} (h : ¬ v.kind.canFeed k) :
    v.coerce k = none := by
  rw [← coerce_isSome] at h
  simpa using h

end Value

end DrawGraph
