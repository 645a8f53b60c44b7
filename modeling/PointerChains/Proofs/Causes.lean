import PointerChains.Error

/-!
# Causes of failure

Which errors a computation can end with is read off its parts: a sequence of computations fails only
with causes of a kind if each of its parts does, and the later ones whatever they are given.

* `exists_of_bind_eq_ok` — a sequence succeeds by the successes of its parts;
* `FailsOnly` — every cause is of a kind;
* `FailsOnly.bind`, `FailsOnly.map`, `FailsOnly.mono` — sequences, results and wider kinds.
-/

namespace PointerChains

variable {α β : Type} {P Q : Error → Prop} {x : Except Error α}

/-- What comes of a step and the rest comes of the rest, with what comes of the step. -/
theorem exists_of_bind_eq_ok {f : α → Except Error β} {b : β} (h : x >>= f = .ok b) :
    ∃ a, x = .ok a ∧ f a = .ok b := by
  cases x with
  | error cause => cases h
  | ok a => exact ⟨a, rfl, h⟩

/-- The computation succeeds, or fails with a cause of the kind. -/
def FailsOnly (P : Error → Prop) (x : Except Error α) : Prop :=
  ∀ cause, x = .error cause → P cause

theorem failsOnly_ok {a : α} : FailsOnly P (.ok a : Except Error α) := by
  intro cause h
  cases h

theorem failsOnly_error {cause : Error} (h : P cause) :
    FailsOnly P (.error cause : Except Error α) := by
  intro other hother
  cases hother
  exact h

/-- The later part matters only for what the first one can give it. -/
theorem FailsOnly.bind {f : α → Except Error β} (hx : FailsOnly P x)
    (hf : ∀ a, x = .ok a → FailsOnly P (f a)) : FailsOnly P (x >>= f) := by
  intro cause h
  cases hresult : x with
  | error first =>
    rw [hresult] at h
    cases h
    exact hx cause hresult
  | ok a =>
    rw [hresult] at h
    exact hf a hresult cause h

theorem FailsOnly.map (hx : FailsOnly P x) (f : α → β) : FailsOnly P (x.map f) := by
  intro cause h
  cases hresult : x with
  | error first =>
    rw [hresult] at h
    cases h
    exact hx cause hresult
  | ok a =>
    rw [hresult] at h
    cases h

theorem FailsOnly.mono (hx : FailsOnly P x) (h : ∀ cause, P cause → Q cause) : FailsOnly Q x :=
  fun cause hcause => h cause (hx cause hcause)

end PointerChains
