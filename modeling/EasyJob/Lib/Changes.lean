import Mathlib.Data.List.Destutter
import Mathlib.Tactic.Common

/-!
# The changes of a sequence

What an observer reports who knows the last value only: every value that differs from the one
before it, but not the first.

* `changes_concat`: one more value.
* `isChain_changes`: no two reports in a row are the same.
-/

namespace Changes

variable {α : Type*} [DecidableEq α]

/-- The values that differ from the one before. -/
def changes (l : List α) : List α := (l.destutter (· ≠ ·)).tail

@[simp] theorem changes_nil : changes ([] : List α) = [] := rfl

@[simp] theorem changes_singleton (a : α) : changes [a] = [] := rfl

theorem changes_cons_cons (a b : α) (l : List α) :
    changes (a :: b :: l) = if a = b then changes (b :: l) else b :: changes (b :: l) := by
  have hhead : ∀ (l : List α) (c : α), ∃ t, l.destutter' (· ≠ ·) c = c :: t := by
    intro l
    induction l with
    | nil => exact fun c => ⟨[], rfl⟩
    | cons d l ih =>
      intro c
      rw [List.destutter'_cons]
      split_ifs
      · exact ⟨_, rfl⟩
      · exact ih c
  obtain ⟨t, ht⟩ := hhead l b
  rw [changes, changes, List.destutter_cons_cons, List.destutter_cons', ht]
  by_cases hab : a = b
  · subst hab
    rw [if_neg (not_not.mpr rfl), if_pos rfl, ht]
  · rw [if_pos hab, if_neg hab]
    rfl

/-- One more value. -/
theorem changes_concat (l : List α) (b : α) :
    changes (l ++ [b]) =
      if l = [] ∨ l.getLast? = some b then changes l else changes l ++ [b] := by
  induction l with
  | nil => rfl
  | cons a l ih =>
    cases l with
    | nil =>
      rw [List.singleton_append, changes_cons_cons]
      by_cases hab : a = b <;> simp [hab]
    | cons c l =>
      rw [List.cons_append] at ih
      rw [List.cons_append, List.cons_append, changes_cons_cons, ih, changes_cons_cons,
        List.getLast?_cons_cons]
      by_cases hac : a = c
      · simp [hac]
      · simp only [hac, if_false, List.cons_ne_nil, false_or]
        split_ifs <;> rfl

/-- No two reports in a row are the same. -/
theorem isChain_changes (l : List α) : (changes l).IsChain (· ≠ ·) :=
  (List.isChain_destutter _ l).tail

/-- The first value is not reported. -/
theorem changes_eq_nil {l : List α} (h : l.length ≤ 1) : changes l = [] := by
  cases l with
  | nil => rfl
  | cons a l =>
    cases l with
    | nil => rfl
    | cons b l =>
      simp only [List.length_cons] at h
      omega

end Changes
