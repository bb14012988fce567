import Mathlib.Data.List.Basic
import Mathlib.Tactic.Common

/-!
# A broadcast channel that overwrites

A channel keeps the last `capacity` of the values sent on it. A receiver has a
position, the number of the next value it wants. If that value is overwritten,
the next `recv` says so once and moves to the oldest value kept.
-/

namespace LossyChannel

variable {α : Type*}

/-- The result of `recv`. -/
inductive Received (α : Type*)
  | value (a : α)
  /-- So many values were overwritten. -/
  | lagged (missed : ℕ)
  /-- Nothing to receive yet. -/
  | empty

/-- The value at the position is overwritten. -/
def Lags (capacity : ℕ) (sent : List α) (pos : ℕ) : Prop := pos + capacity < sent.length

instance (capacity : ℕ) (sent : List α) (pos : ℕ) : Decidable (Lags capacity sent pos) :=
  inferInstanceAs (Decidable (_ < _))

/-- `recv` with the receiver's next position. -/
def recv (capacity : ℕ) (sent : List α) (pos : ℕ) : Received α × ℕ :=
  if Lags capacity sent pos then
    (.lagged (sent.length - capacity - pos), sent.length - capacity)
  else
    match sent[pos]? with
    | some a => (.value a, pos + 1)
    | none => (.empty, pos)

variable {capacity : ℕ} {sent : List α} {pos : ℕ}

/-- A value is received in its place. -/
theorem recv_value {a : α} {pos' : ℕ} (h : recv capacity sent pos = (.value a, pos')) :
    ¬Lags capacity sent pos ∧ sent[pos]? = some a ∧ pos' = pos + 1 := by
  unfold recv at h
  split_ifs at h with hlags
  · cases h
  · split at h
    · rename_i b hb
      cases h
      exact ⟨hlags, hb, rfl⟩
    · cases h

theorem recv_lagged {missed pos' : ℕ} (h : recv capacity sent pos = (.lagged missed, pos')) :
    Lags capacity sent pos := by
  unfold recv at h
  split_ifs at h with hlags
  · exact hlags
  · split at h <;> cases h

theorem recv_lagged_lt {missed pos' : ℕ}
    (h : recv capacity sent pos = (.lagged missed, pos')) : pos < pos' := by
  have hlags := recv_lagged h
  rw [recv, if_pos hlags] at h
  cases h
  unfold Lags at hlags
  omega

theorem recv_of_lags (h : Lags capacity sent pos) :
    ∃ missed pos', recv capacity sent pos = (.lagged missed, pos') :=
  ⟨_, _, if_pos h⟩

/-- A receiver that keeps up gets the next value. -/
theorem recv_of_lt (h : ¬Lags capacity sent pos) (hpos : pos < sent.length) :
    recv capacity sent pos = (.value sent[pos], pos + 1) := by
  rw [recv, if_neg h, List.getElem?_eq_getElem hpos]

/-- An overwritten value stays overwritten. -/
theorem Lags.append (h : Lags capacity sent pos) (more : List α) :
    Lags capacity (sent ++ more) pos := by
  unfold Lags at *
  rw [List.length_append]
  omega

end LossyChannel
