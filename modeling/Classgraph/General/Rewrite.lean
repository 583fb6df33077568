import Mathlib.Logic.Relation

namespace Rewrite
open Relation

variable {α : Type} {step : α → α → Prop} {normal : α → α}

/-- A function that rewrites every value as far as possible, whichever steps are taken first. -/
structure Normalizes (step : α → α → Prop) (normal : α → α) : Prop where
  reaches : ∀ a, ReflTransGen step a (normal a)
  irreducible : ∀ a b, ¬step (normal a) b
  unchanged : ∀ a b, step a b → normal a = normal b

theorem Normalizes.of_reach (normalizes : Normalizes step normal) {a b : α} (reach : ReflTransGen step a b) :
    normal a = normal b := by
  induction reach with
  | refl => rfl
  | tail _ last ih => exact ih.trans (normalizes.unchanged _ _ last)

theorem Normalizes.eq_self (normalizes : Normalizes step normal) {a : α} (stuck : ∀ b, ¬step a b) : normal a = a := by
  rcases (normalizes.reaches a).cases_head with same | further
  · exact same.symm
  · obtain ⟨b, first, _⟩ := further
    exact absurd first (stuck b)

/-- Every value has one normal form. -/
theorem Normalizes.unique (normalizes : Normalizes step normal) {a b : α} (reach : ReflTransGen step a b)
    (stuck : ∀ c, ¬step b c) : b = normal a := by
  rw [normalizes.of_reach reach, normalizes.eq_self stuck]

end Rewrite
