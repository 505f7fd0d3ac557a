/-!
# Attempts

An attempt works on a state and may fail; what it did to the state before failing stays done.
-/

namespace DrawGraph

universe u

/-- Work on `σ` that ends in a value or in an error of type `ε`. -/
abbrev Attempt (ε σ : Type u) (α : Type u) := ExceptT ε (StateM σ) α

namespace Attempt

variable {ε ε' σ τ α : Type u}

def on (x : Attempt ε σ α) (s : σ) : Except ε α × σ := StateT.run (ExceptT.run x) s

def of (f : σ → Except ε α × σ) : Attempt ε σ α := ExceptT.mk (StateT.mk f)

@[simp] theorem on_of (f : σ → Except ε α × σ) (s : σ) : (of f).on s = f s := rfl

@[simp] theorem on_pure (a : α) (s : σ) : (pure a : Attempt ε σ α).on s = (.ok a, s) := rfl

@[simp] theorem on_throw (e : ε) (s : σ) : (throw e : Attempt ε σ α).on s = (.error e, s) := rfl

@[simp] theorem on_get (s : σ) : (get : Attempt ε σ σ).on s = (.ok s, s) := rfl

@[simp] theorem on_set (s t : σ) : (set t : Attempt ε σ PUnit).on s = (.ok ⟨⟩, t) := rfl

@[simp] theorem on_modify (f : σ → σ) (s : σ) :
    (modify f : Attempt ε σ PUnit).on s = (.ok ⟨⟩, f s) := rfl

/-- What follows a failure is not tried. -/
theorem on_bind {β : Type u} (x : Attempt ε σ α) (f : α → Attempt ε σ β) (s : σ) :
    (x >>= f).on s =
      match x.on s with
      | (.ok a, t) => (f a).on t
      | (.error e, t) => (.error e, t) := by
  simp only [on, bind, ExceptT.bind, ExceptT.mk, ExceptT.run, StateT.bind, StateT.run]
  generalize (x : StateM σ (Except ε α)) s = r
  obtain ⟨r | a, t⟩ := r <;> rfl

theorem on_bind_of_ok {β : Type u} {x : Attempt ε σ α} {f : α → Attempt ε σ β} {s t : σ} {a : α}
    (h : x.on s = (.ok a, t)) : (x >>= f).on s = (f a).on t := by
  rw [on_bind, h]

theorem on_bind_of_error {β : Type u} {x : Attempt ε σ α} {f : α → Attempt ε σ β} {s t : σ}
    {e : ε} (h : x.on s = (.error e, t)) : (x >>= f).on s = (.error e, t) := by
  rw [on_bind, h]

/-- An attempt on a part of the state, with its errors renamed. -/
def zoom (get : τ → σ) (put : σ → τ → τ) (err : ε → ε') (x : Attempt ε σ α) : Attempt ε' τ α :=
  of fun t =>
    let (r, s) := x.on (get t)
    (r.mapError err, put s t)

theorem on_zoom (get : τ → σ) (put : σ → τ → τ) (err : ε → ε') (x : Attempt ε σ α) (t : τ) :
    (zoom get put err x).on t =
      ((x.on (get t)).1.mapError err, put (x.on (get t)).2 t) := rfl

/-- An attempt whose failure is passed over in silence. -/
def quietly (x : Attempt ε σ α) (s : σ) : σ := (x.on s).2

end Attempt

end DrawGraph
