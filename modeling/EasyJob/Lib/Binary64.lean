import Mathlib.Algebra.Order.Ring.Nat
import Mathlib.Data.Nat.Log
import Mathlib.Tactic.Common

/-!
# Integers as binary64 numbers

A JavaScript number is a binary64 float. An integer becomes the nearest one when it is
read, and is written with as few decimal digits as tell it from the others. Natural
numbers below `10 ^ 21` are written without an exponent.

* `reread_of_lt`: below `2 ^ 53` an integer is read and written as it is.
-/

namespace Binary64

/-- The nearest binary64 number, and the one with the even significand of two. -/
def toDouble (n : ℕ) : ℕ :=
  if n < 2 ^ 53 then n
  else
    let ulp := 2 ^ (n.log2 - 52)
    let below := n / ulp * ulp
    if 2 * (n % ulp) < ulp ∨ 2 * (n % ulp) = ulp ∧ n / ulp % 2 = 0 then below else below + ulp

/-- The multiple of `p` nearest to `x` that is read as `x`, if any is; of two, the one with
    the even number of `p`. -/
def multipleReadAs (x p : ℕ) : Option ℕ :=
  let below := x / p * p
  let above := below + p
  if toDouble below = x then
    if toDouble above = x ∧
        (above - x < x - below ∨ above - x = x - below ∧ x / p % 2 = 1) then some above
    else some below
  else if toDouble above = x then some above
  else none

/-- The digits that `Number.prototype.toString` writes, as a number: the fewest that are
    read as `x`. -/
def written (x : ℕ) : ℕ :=
  (((List.range (Nat.log 10 x + 1)).reverse.findSome? fun i => multipleReadAs x (10 ^ i))).getD x

/-- An integer that is read, and the number written again. -/
def reread (n : ℕ) : ℕ := written (toDouble n)

theorem toDouble_of_lt {n : ℕ} (h : n < 2 ^ 53) : toDouble n = n := by
  rw [toDouble, if_pos h]

/-- From `2 ^ 53` on, no number becomes a smaller one. -/
theorem le_toDouble {n : ℕ} (h : 2 ^ 53 ≤ n) : 2 ^ 53 ≤ toDouble n := by
  have hne : n ≠ 0 := by omega
  have hlog : 53 ≤ n.log2 := (Nat.le_log2 hne).mpr h
  have hbelow : 2 ^ 53 ≤ n / 2 ^ (n.log2 - 52) * 2 ^ (n.log2 - 52) := by
    have hsplit : 2 ^ n.log2 = 2 ^ 52 * 2 ^ (n.log2 - 52) := by
      rw [← pow_add]
      congr 1
      omega
    have hquot : 2 ^ 52 ≤ n / 2 ^ (n.log2 - 52) := by
      rw [Nat.le_div_iff_mul_le (Nat.two_pow_pos _), ← hsplit]
      exact Nat.log2_self_le hne
    calc 2 ^ 53 ≤ 2 ^ n.log2 := Nat.pow_le_pow_right (by decide) hlog
      _ = 2 ^ 52 * 2 ^ (n.log2 - 52) := hsplit
      _ ≤ n / 2 ^ (n.log2 - 52) * 2 ^ (n.log2 - 52) := Nat.mul_le_mul_right _ hquot
  rw [toDouble, if_neg (not_lt.mpr h)]
  dsimp only
  split_ifs
  · exact hbelow
  · exact le_trans hbelow (Nat.le_add_right _ _)

/-- Below `2 ^ 53`, only the number itself is read as it. -/
theorem eq_of_toDouble_eq {n x : ℕ} (hx : x < 2 ^ 53) (h : toDouble n = x) : n = x := by
  rcases lt_or_ge n (2 ^ 53) with hn | hn
  · rw [← h, toDouble_of_lt hn]
  · have := le_toDouble hn
    omega

theorem multipleReadAs_spec {x p y : ℕ} (h : multipleReadAs x p = some y) : toDouble y = x := by
  unfold multipleReadAs at h
  dsimp only at h
  split_ifs at h with hbelow habove habove
  · cases h
    exact habove.1
  · cases h
    exact hbelow
  · cases h
    exact habove

theorem written_of_lt {x : ℕ} (h : x < 2 ^ 53) : written x = x := by
  unfold written
  cases hfind : (List.range (Nat.log 10 x + 1)).reverse.findSome?
      fun i => multipleReadAs x (10 ^ i) with
  | none => rfl
  | some y =>
    obtain ⟨i, -, hi⟩ := List.exists_of_findSome?_eq_some hfind
    exact eq_of_toDouble_eq h (multipleReadAs_spec hi)

/-- Below `2 ^ 53`, integers are read and written exactly. -/
theorem reread_of_lt {n : ℕ} (h : n < 2 ^ 53) : reread n = n := by
  rw [reread, toDouble_of_lt h, written_of_lt h]

/-- The first integer that is not. -/
example : reread (2 ^ 53 + 1) = 2 ^ 53 := by decide +kernel

/-- The largest 64-bit integer becomes one that does not fit. -/
example : reread (2 ^ 64 - 1) = 18446744073709552000 := by decide +kernel

end Binary64
