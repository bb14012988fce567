import Mathlib.Algebra.Order.Ring.Int
import Mathlib.Order.Bounds.Defs
import Mathlib.Tactic.Linarith

/-!
# Grids on the integers

The points `base + k * step` for `k = 0, 1, …`, and the next of them after a time.

* `isLeast_next`: `next base step t` is the least point after `t`.
* `Walk.eq_add`, `Walk.existsUnique`: a walk that asks for the next point again before that
  point has come visits every point after its start, each once and in order.
-/

namespace Grid

def point (base step : ℤ) (k : ℕ) : ℤ := base + k * step

/-- The next point after `t`. -/
def next (base step t : ℤ) : ℤ :=
  if t < base then base else base + ((t - base) / step + 1) * step

variable {base step t : ℤ}

theorem point_zero (base step : ℤ) : point base step 0 = base := by
  simp [point]

theorem point_lt_point (hstep : 0 < step) {j k : ℕ} :
    point base step j < point base step k ↔ j < k := by
  unfold point
  rw [add_lt_add_iff_left, Int.mul_lt_mul_right hstep, Int.ofNat_lt]

theorem base_le_point (hstep : 0 < step) (k : ℕ) : base ≤ point base step k := by
  have hk : 0 ≤ (k : ℤ) * step := Int.mul_nonneg (Int.natCast_nonneg k) (le_of_lt hstep)
  unfold point
  linarith

/-! ## The next point -/

theorem exists_next_eq_point (base : ℤ) (hstep : 0 < step) (t : ℤ) :
    ∃ k, next base step t = point base step k := by
  unfold next
  split_ifs with ht
  · exact ⟨0, (point_zero base step).symm⟩
  · have hdiv : 0 ≤ (t - base) / step := Int.ediv_nonneg (by linarith) (le_of_lt hstep)
    obtain ⟨k, hk⟩ := Int.eq_ofNat_of_zero_le hdiv
    exact ⟨k + 1, by rw [point, hk, Nat.cast_succ]⟩

theorem lt_next (base : ℤ) (hstep : 0 < step) (t : ℤ) : t < next base step t := by
  unfold next
  split_ifs with ht
  · exact ht
  · have hlt : t - base < ((t - base) / step + 1) * step := Int.lt_ediv_add_one_mul_self _ hstep
    linarith

theorem next_le (hstep : 0 < step) {k : ℕ} (h : t < point base step k) :
    next base step t ≤ point base step k := by
  unfold next
  split_ifs with ht
  · exact base_le_point hstep k
  · unfold point at h ⊢
    have hdiv : (t - base) / step < k := Int.ediv_lt_of_lt_mul hstep (by linarith)
    have hmul := Int.mul_le_mul_of_nonneg_right (Int.add_one_le_of_lt hdiv) (le_of_lt hstep)
    linarith

theorem isLeast_next (hstep : 0 < step) (t : ℤ) :
    IsLeast {x | t < x ∧ ∃ k, x = point base step k} (next base step t) := by
  refine ⟨⟨lt_next base hstep t, exists_next_eq_point base hstep t⟩, ?_⟩
  rintro x ⟨hx, k, rfl⟩
  exact next_le hstep hx

/-! ## Walks -/

/-- Each time, the next point is asked for when the one before has come, and before the
    one after it. -/
structure Walk (base step : ℤ) (asked visited : ℕ → ℤ) (n : ℕ) : Prop where
  isNext : ∀ i ≤ n, visited i = next base step (asked i)
  after : ∀ i < n, visited i ≤ asked (i + 1)
  before : ∀ i < n, ∀ k, visited i < point base step k → asked (i + 1) < point base step k

namespace Walk

variable {asked visited : ℕ → ℤ} {n : ℕ}

/-- The points follow each other. -/
theorem eq_point (hstep : 0 < step) (h : Walk base step asked visited n) {k : ℕ}
    (hk : visited 0 = point base step k) : ∀ i ≤ n, visited i = point base step (k + i) := by
  intro i
  induction i with
  | zero => exact fun _ => hk
  | succ i ih =>
    intro hi
    have hi' := ih (by omega)
    have hnext : visited i < point base step (k + (i + 1)) := by
      rw [hi', point_lt_point hstep]
      omega
    have hlt := h.before i (by omega) _ hnext
    have hle := h.after i (by omega)
    obtain ⟨j, hj⟩ := exists_next_eq_point base hstep (asked (i + 1))
    rw [h.isNext (i + 1) hi]
    refine le_antisymm (next_le hstep hlt) ?_
    -- the next point is later than the one before
    have hgt := lt_next base hstep (asked (i + 1))
    rw [hj] at hgt ⊢
    rw [hi'] at hle
    have hij := (point_lt_point hstep).mp (lt_of_le_of_lt hle hgt)
    rcases Nat.eq_or_lt_of_le (Nat.succ_le_of_lt hij) with heq | hlt'
    · rw [show k + (i + 1) = j by omega]
    · exact le_of_lt ((point_lt_point hstep).mpr hlt')

/-- Without drift: each point is one step after the one before. -/
theorem eq_add (hstep : 0 < step) (h : Walk base step asked visited n) :
    ∀ i ≤ n, visited i = visited 0 + i * step := by
  intro i hi
  obtain ⟨k, hk⟩ := exists_next_eq_point base hstep (asked 0)
  rw [← h.isNext 0 (Nat.zero_le n)] at hk
  rw [h.eq_point hstep hk i hi, hk, point, point]
  push_cast
  linarith [add_mul (k : ℤ) i step]

/-- Every point between the start and the end is visited exactly once. -/
theorem existsUnique (hstep : 0 < step) (h : Walk base step asked visited n) {j : ℕ}
    (hlow : asked 0 < point base step j) (hhigh : point base step j ≤ visited n) :
    ∃! i, i ≤ n ∧ visited i = point base step j := by
  obtain ⟨k, hk⟩ := exists_next_eq_point base hstep (asked 0)
  have hfirst := next_le hstep hlow
  rw [← h.isNext 0 (Nat.zero_le n)] at hk hfirst
  have hpoint := h.eq_point hstep hk
  have hkj : k ≤ j := by
    rw [hk] at hfirst
    exact Nat.le_of_not_lt fun hlt => absurd ((point_lt_point hstep).mpr hlt) (not_lt.mpr hfirst)
  have hjn : j ≤ k + n := by
    rw [hpoint n le_rfl] at hhigh
    exact Nat.le_of_not_lt fun hlt => absurd ((point_lt_point hstep).mpr hlt) (not_lt.mpr hhigh)
  refine ⟨j - k, ⟨by omega, ?_⟩, ?_⟩
  · rw [hpoint (j - k) (by omega), Nat.add_sub_cancel' hkj]
  · rintro i ⟨hi, heq⟩
    rw [hpoint i hi] at heq
    rcases Nat.lt_trichotomy (k + i) j with hlt | heq' | hgt
    · exact absurd heq (ne_of_lt ((point_lt_point hstep).mpr hlt))
    · omega
    · exact absurd heq (ne_of_gt ((point_lt_point hstep).mpr hgt))

end Walk

end Grid
