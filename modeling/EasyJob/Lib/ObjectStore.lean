import Mathlib.Logic.Function.Basic
import Mathlib.Tactic.Common

/-!
# Objects by reference

The objects of one type, by their references. What is below `next` has been
given out.

* `Store.put`: a new content for an object, in place or in a new object.
* `Store.content_put_of_ne`, `Store.ref_put_ne`: every other reference keeps
  its object, and stays different.
-/

/-- The objects of type `α`. -/
structure Store (α : Type*) where
  content : ℕ → α
  next : ℕ

namespace Store

variable {α : Type*} (s : Store α) (fresh : Bool) (r r' : ℕ) (a : α)

/-- A new object. -/
def alloc : Store α × ℕ := (⟨Function.update s.content s.next a, s.next + 1⟩, s.next)

def set : Store α := ⟨Function.update s.content r a, s.next⟩

/-- The content `a` for the object `r`: in a new object, or in place. -/
def put : Store α × ℕ := if fresh then s.alloc a else (s.set r a, r)

@[simp] theorem next_alloc : (s.alloc a).1.next = s.next + 1 := rfl

@[simp] theorem ref_alloc : (s.alloc a).2 = s.next := rfl

@[simp] theorem next_set : (s.set r a).next = s.next := rfl

@[simp] theorem content_alloc_self : (s.alloc a).1.content s.next = a := Function.update_self ..

@[simp] theorem content_set_self : (s.set r a).content r = a := Function.update_self ..

theorem content_alloc_of_lt {r' : ℕ} (h : r' < s.next) :
    (s.alloc a).1.content r' = s.content r' :=
  Function.update_of_ne (Nat.ne_of_lt h) _ _

theorem content_set_of_ne {r r' : ℕ} (h : r' ≠ r) : (s.set r a).content r' = s.content r' :=
  Function.update_of_ne h _ _

@[simp] theorem put_true : s.put true r a = s.alloc a := rfl

@[simp] theorem put_false : s.put false r a = (s.set r a, r) := rfl

@[simp] theorem content_put : (s.put fresh r a).1.content (s.put fresh r a).2 = a := by
  cases fresh <;> simp

theorem next_le_next_put : s.next ≤ (s.put fresh r a).1.next := by
  cases fresh <;> simp

variable {r r'}

theorem ref_put_lt (h : fresh = false → r < s.next) :
    (s.put fresh r a).2 < (s.put fresh r a).1.next := by
  cases fresh with
  | false => exact h rfl
  | true => exact Nat.lt_succ_self _

theorem content_put_of_ne (hlt : r' < s.next) (hne : r' ≠ r) :
    (s.put fresh r a).1.content r' = s.content r' := by
  cases fresh with
  | false => exact s.content_set_of_ne a hne
  | true => exact s.content_alloc_of_lt a hlt

theorem ref_put_ne (hlt : r' < s.next) (hne : r' ≠ r) : r' ≠ (s.put fresh r a).2 := by
  cases fresh with
  | false => exact hne
  | true => exact Nat.ne_of_lt hlt

end Store
