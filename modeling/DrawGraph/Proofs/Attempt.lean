import DrawGraph.Attempt
import Mathlib.Logic.Relation

/-!
# What an attempt ensures

An attempt from a state ensures one thing of the error and the state in which it fails, and another
of the value and the state in which it succeeds.
-/

namespace DrawGraph

namespace Attempt

universe u

variable {ε σ α β : Type u} {fails fails' : ε → σ → Prop} {ends ends' : α → σ → Prop}

def Ensures (x : Attempt ε σ α) (s : σ) (fails : ε → σ → Prop) (ends : α → σ → Prop) : Prop :=
  match x.on s with
  | (.ok a, t) => ends a t
  | (.error e, t) => fails e t

theorem ensures_of_ok {x : Attempt ε σ α} {s t : σ} {a : α} (h : x.on s = (.ok a, t))
    (ha : ends a t) : x.Ensures s fails ends := by
  rw [Ensures, h]
  exact ha

theorem ensures_of_error {x : Attempt ε σ α} {s t : σ} {e : ε} (h : x.on s = (.error e, t))
    (he : fails e t) : x.Ensures s fails ends := by
  rw [Ensures, h]
  exact he

theorem Ensures.of_ok {x : Attempt ε σ α} {s t : σ} {a : α} (hx : x.Ensures s fails ends)
    (h : x.on s = (.ok a, t)) : ends a t := by
  rwa [Ensures, h] at hx

theorem Ensures.of_error {x : Attempt ε σ α} {s t : σ} {e : ε} (hx : x.Ensures s fails ends)
    (h : x.on s = (.error e, t)) : fails e t := by
  rwa [Ensures, h] at hx

theorem Ensures.mono {x : Attempt ε σ α} {s : σ} (hx : x.Ensures s fails ends)
    (hf : ∀ e t, fails e t → fails' e t) (he : ∀ a t, ends a t → ends' a t) :
    x.Ensures s fails' ends' := by
  unfold Ensures at hx ⊢
  split at hx
  · exact he _ _ hx
  · exact hf _ _ hx

theorem Ensures.mono_error {x : Attempt ε σ α} {s : σ} (hx : x.Ensures s fails ends)
    (hf : ∀ e t, fails e t → fails' e t) : x.Ensures s fails' ends :=
  hx.mono hf fun _ _ h => h

theorem Ensures.mono_ok {x : Attempt ε σ α} {s : σ} (hx : x.Ensures s fails ends)
    (he : ∀ a t, ends a t → ends' a t) : x.Ensures s fails ends' :=
  hx.mono (fun _ _ h => h) he

theorem ensures_pure {s : σ} {a : α} (h : ends a s) :
    (pure a : Attempt ε σ α).Ensures s fails ends :=
  h

/-- What follows starts from where the first part ends and what it ensures there. -/
theorem Ensures.bind_on {x : Attempt ε σ α} {f : α → Attempt ε σ β} {s : σ} {ends' : β → σ → Prop}
    (hx : x.Ensures s fails ends)
    (hf : ∀ a t, x.on s = (.ok a, t) → ends a t → (f a).Ensures t fails ends') :
    (x >>= f).Ensures s fails ends' := by
  unfold Ensures at hx
  split at hx
  · next a t h =>
    rw [Ensures, on_bind_of_ok h]
    exact hf a t h hx
  · next e t h =>
    rw [Ensures, on_bind_of_error h]
    exact hx

theorem Ensures.bind {x : Attempt ε σ α} {f : α → Attempt ε σ β} {s : σ} {ends' : β → σ → Prop}
    (hx : x.Ensures s fails ends) (hf : ∀ a t, ends a t → (f a).Ensures t fails ends') :
    (x >>= f).Ensures s fails ends' :=
  hx.bind_on fun a t _ => hf a t

theorem on_bind_eq_ok {x : Attempt ε σ α} {f : α → Attempt ε σ β} {s u : σ} {b : β}
    (h : (x >>= f).on s = (.ok b, u)) : ∃ a t, x.on s = (.ok a, t) ∧ (f a).on t = (.ok b, u) := by
  rw [on_bind] at h
  split at h
  · next a t hx => exact ⟨a, t, hx, h⟩
  · cases h

theorem on_bind_eq_error {x : Attempt ε σ α} {f : α → Attempt ε σ β} {s u : σ} {e : ε}
    (h : (x >>= f).on s = (.error e, u)) :
    x.on s = (.error e, u) ∨ ∃ a t, x.on s = (.ok a, t) ∧ (f a).on t = (.error e, u) := by
  rw [on_bind] at h
  split at h
  · next a t hx => exact Or.inr ⟨a, t, hx, h⟩
  · next e' t hx =>
    cases h
    exact Or.inl hx

theorem ensures_bind_of_ok {x : Attempt ε σ α} {f : α → Attempt ε σ β} {s t : σ} {a : α}
    {ends' : β → σ → Prop} (h : x.on s = (.ok a, t)) (hf : (f a).Ensures t fails ends') :
    (x >>= f).Ensures s fails ends' := by
  rw [Ensures, on_bind_of_ok h]
  exact hf

theorem ensures_modify_bind {g : σ → σ} {f : PUnit → Attempt ε σ α} {s : σ}
    (h : (f ⟨⟩).Ensures (g s) fails ends) :
    ((modify g : Attempt ε σ PUnit) >>= f).Ensures s fails ends :=
  ensures_bind_of_ok (on_modify g s) h

theorem ensures_get_bind {f : σ → Attempt ε σ α} {s : σ} (h : (f s).Ensures s fails ends) :
    ((get : Attempt ε σ σ) >>= f).Ensures s fails ends :=
  ensures_bind_of_ok (on_get s) h

theorem ensures_set_bind {t : σ} {f : PUnit → Attempt ε σ α} {s : σ}
    (h : (f ⟨⟩).Ensures t fails ends) :
    ((set t : Attempt ε σ PUnit) >>= f).Ensures s fails ends :=
  ensures_bind_of_ok (on_set s t) h

/-- What is done on a failure starts from the state that the failure left. -/
theorem on_tryCatch (x : Attempt ε σ α) (f : ε → Attempt ε σ α) (s : σ) :
    (tryCatch x f : Attempt ε σ α).on s =
      match x.on s with
      | (.ok a, t) => (.ok a, t)
      | (.error e, t) => (f e).on t := by
  have hcases : (tryCatch x f : Attempt ε σ α).on s =
      (match (x.on s).1 with
        | .ok a => (pure (.ok a) : StateM σ (Except ε α))
        | .error e => f e) (x.on s).2 := rfl
  rw [hcases]
  cases x.on s with
  | mk result t => cases result <;> rfl

theorem Ensures.caught {x : Attempt ε σ α} {f : ε → Attempt ε σ α} {s : σ}
    (hx : x.Ensures s fails ends) (hf : ∀ e t, fails e t → (f e).Ensures t fails' ends) :
    (tryCatch x f : Attempt ε σ α).Ensures s fails' ends := by
  unfold Ensures at hx
  rw [Ensures, on_tryCatch]
  split at hx
  · exact hx
  · next e t _ => exact hf e t hx

/-- An attempt leaves a part of the state alone, however it ends. -/
def Preserves {τ : Type u} (x : Attempt ε σ α) (f : σ → τ) : Prop := ∀ s, f (x.on s).2 = f s

namespace Preserves

variable {τ : Type u} {f : σ → τ}

theorem pure (a : α) : (Pure.pure a : Attempt ε σ α).Preserves f := fun _ => rfl

theorem bind {x : Attempt ε σ α} {g : α → Attempt ε σ β} (hx : x.Preserves f)
    (hg : ∀ a, (g a).Preserves f) : (x >>= g).Preserves f := by
  intro s
  have hs := hx s
  rw [on_bind]
  split
  · next a t h =>
    rw [h] at hs
    exact (hg a t).trans hs
  · next e t h =>
    rw [h] at hs
    exact hs

theorem modify {g : σ → σ} (h : ∀ s, f (g s) = f s) :
    (MonadState.modifyGet fun s => (PUnit.unit, g s) : Attempt ε σ PUnit).Preserves f := h

end Preserves

/-- Every value that an attempt ends in has a property. -/
def Returns (x : Attempt ε σ α) (p : α → Prop) : Prop := ∀ s a t, x.on s = (.ok a, t) → p a

namespace Returns

variable {p : α → Prop}

theorem pure {a : α} (h : p a) : Returns (Pure.pure a : Attempt ε σ α) p := by
  intro s b t hb
  cases hb
  exact h

theorem bind {x : Attempt ε σ β} {g : β → Attempt ε σ α} (hg : ∀ b, Returns (g b) p) :
    Returns (x >>= g) p := by
  intro s a u h
  obtain ⟨b, t, _, h⟩ := on_bind_eq_ok h
  exact hg b t a u h

end Returns

/-- However an attempt ends, it went from state to state by single moves. -/
def Moves (r : σ → σ → Prop) (x : Attempt ε σ α) : Prop :=
  ∀ s, Relation.ReflTransGen r s (x.on s).2

namespace Moves

variable {r : σ → σ → Prop}

theorem pure (a : α) : Moves r (Pure.pure a : Attempt ε σ α) := fun _ => .refl

theorem bind {x : Attempt ε σ α} {g : α → Attempt ε σ β} (hx : Moves r x)
    (hg : ∀ a, Moves r (g a)) : Moves r (x >>= g) := by
  intro s
  have hs := hx s
  rw [on_bind]
  split
  · next a t h =>
    rw [h] at hs
    exact hs.trans (hg a t)
  · next e t h =>
    rw [h] at hs
    exact hs

end Moves

theorem ext_on {x y : Attempt ε σ α} (h : ∀ s, x.on s = y.on s) : x = y := funext h

/-! ## Whole attempts -/

/-- The attempt that ends in a new state, or fails and leaves the state alone. -/
def whole (f : σ → Except ε (α × σ)) : Attempt ε σ α :=
  of fun s =>
    match f s with
    | .ok (a, t) => (.ok a, t)
    | .error e => (.error e, s)

theorem whole_on_of_ok {f : σ → Except ε (α × σ)} {s t : σ} {a : α} (h : f s = .ok (a, t)) :
    (whole f).on s = (.ok a, t) := by
  rw [whole, on_of, h]

theorem whole_on_of_error {f : σ → Except ε (α × σ)} {s : σ} {e : ε} (h : f s = .error e) :
    (whole f).on s = (.error e, s) := by
  rw [whole, on_of, h]

/-- A whole attempt that fails has changed nothing. -/
theorem eq_of_whole_on_error {f : σ → Except ε (α × σ)} {s t : σ} {e : ε}
    (h : (whole f).on s = (.error e, t)) : t = s := by
  rw [whole, on_of] at h
  split at h
  · cases h
  · exact (Prod.mk.inj h).2.symm

end Attempt

end DrawGraph
