import Mathlib.Logic.Function.Basic

/-!
# Shared plumbing

- Inversion of `Except` computations: a `do` block that returned got a value from
  each of its steps. Peeling a computation with `bind_eq_ok` replaces unfolding the
  monad at every use.
- Updates of a family: what is found after `Function.update` was put there or was
  there before (`update_cases`). In a pool of threads, a family `ι → Option α` that
  says where each thread stands if it is inside at all, a step moves one of them:
  `forall_update` carries what holds of every thread over such a step, `exists_update`
  what holds of some thread.
-/

namespace ProcessCpp.Base

universe u v w

/-- A bind that returned: the first part returned, and so did the second. -/
theorem bind_eq_ok {ε : Type u} {α : Type v} {β : Type v} {x : Except ε α}
    {f : α → Except ε β} {b : β} :
    (x >>= f) = .ok b ↔ ∃ a, x = .ok a ∧ f a = .ok b := by
  constructor
  · intro h
    cases x with
    | error e => cases h
    | ok a => exact ⟨a, rfl, h⟩
  · rintro ⟨a, rfl, h⟩
    exact h

/-- A `pure` that returned, returned its argument. -/
theorem pure_eq_ok {ε : Type u} {α : Type v} {a b : α} :
    (pure a : Except ε α) = .ok b ↔ a = b := by
  constructor
  · intro h
    cases h
    rfl
  · rintro rfl
    rfl

/-! ## Updates of a family -/

theorem update_cases {ι : Type u} {β : Type v} [DecidableEq ι] {f : ι → β} {i j : ι} {b c : β}
    (h : Function.update f i b j = c) : (j = i ∧ b = c) ∨ (j ≠ i ∧ f j = c) := by
  by_cases hji : j = i
  · subst hji
    rw [Function.update_self] at h
    exact .inl ⟨rfl, h⟩
  · rw [Function.update_of_ne hji] at h
    exact .inr ⟨hji, h⟩

section Pool

variable {ι : Type u} {α : Type v} [DecidableEq ι] {f : ι → Option α} {i : ι} {v : Option α}

theorem forall_update {P : ι → α → Prop} (h : ∀ j a, j ≠ i → f j = some a → P j a)
    (hv : ∀ a, v = some a → P i a) : ∀ j a, Function.update f i v j = some a → P j a := by
  intro j a hj
  rcases update_cases hj with ⟨rfl, hva⟩ | ⟨hji, hfj⟩
  · exact hv a hva
  · exact h j a hji hfj

theorem exists_update_at {P : α → Prop} {j : ι} (h : ∃ a, f j = some a ∧ P a)
    (hv : ∀ a, f i = some a → P a → ∃ b, v = some b ∧ P b) :
    ∃ a, Function.update f i v j = some a ∧ P a := by
  obtain ⟨a, hj, ha⟩ := h
  by_cases hji : j = i
  · subst hji
    obtain ⟨b, hb, hpb⟩ := hv a hj ha
    exact ⟨b, by rw [Function.update_self, hb], hpb⟩
  · exact ⟨a, by rw [Function.update_of_ne hji, hj], ha⟩

theorem exists_update {P : α → Prop} (h : ∃ j a, f j = some a ∧ P a)
    (hv : ∀ a, f i = some a → P a → ∃ b, v = some b ∧ P b) :
    ∃ j a, Function.update f i v j = some a ∧ P a := by
  obtain ⟨j, hj⟩ := h
  exact ⟨j, exists_update_at hj hv⟩

/-- `exists_update` for a thread that comes in. -/
theorem exists_update_of_none {P : α → Prop} (h : ∃ j a, f j = some a ∧ P a) (hi : f i = none) :
    ∃ j a, Function.update f i v j = some a ∧ P a := by
  refine exists_update h fun a ha => ?_
  rw [hi] at ha
  cases ha

/-- `exists_update` for a thread that is inside. -/
theorem exists_update_of_some {P : α → Prop} (h : ∃ j a, f j = some a ∧ P a) {b : α}
    (hi : f i = some b) (hv : P b → ∃ c, v = some c ∧ P c) :
    ∃ j a, Function.update f i v j = some a ∧ P a := by
  refine exists_update h fun a ha hpa => ?_
  rw [hi] at ha
  cases ha
  exact hv hpa

end Pool

end ProcessCpp.Base
