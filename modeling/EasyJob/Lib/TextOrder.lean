import Mathlib.Data.Char
import Mathlib.Data.List.Lex
import Mathlib.Algebra.Order.Ring.Nat
import Mathlib.Tactic.Common

/-!
# The lexicographic order of texts with digits

Texts are lists over a linear order, compared at their first difference; a text
comes before its extensions.

* `append_lt_append`, `lt_append_cases`: texts with parts of equal lengths compare part by
  part.
* `digits_lt_digits`: numbers written with the same number of digits compare as numbers;
  `digits_eq_toDigits`: these digits are the usual ones after zeros.
* `append_lt_append_of_padded`: texts that lost some of their last zeros compare as before,
  if what follows them starts below a zero.
-/

namespace TextOrder

/-! ## Parts of equal lengths -/

section Append

variable {α : Type*} [LinearOrder α] {a b x y : List α}

theorem append_lt_append (hlen : a.length = b.length) (h : a < b) (x y : List α) :
    a ++ x < b ++ y := by
  induction a generalizing b with
  | nil =>
    rw [List.length_nil, eq_comm, List.length_eq_zero_iff] at hlen
    rw [hlen] at h
    exact absurd h (lt_irrefl _)
  | cons c a ih =>
    cases b with
    | nil => cases hlen
    | cons d b =>
      rw [List.cons_append, List.cons_append]
      rcases List.cons_lt_cons_iff.mp h with hlt | ⟨rfl, hrest⟩
      · exact List.cons_lt_cons_iff.mpr (.inl hlt)
      · exact List.cons_lt_cons_iff.mpr (.inr ⟨rfl, ih (Nat.succ.inj hlen) hrest⟩)

theorem append_lt_append_iff (hlen : a.length = b.length) :
    a ++ x < b ++ y ↔ a < b ∨ a = b ∧ x < y := by
  constructor
  · intro h
    rcases lt_trichotomy a b with hlt | rfl | hgt
    · exact .inl hlt
    · refine .inr ⟨rfl, ?_⟩
      by_contra hle
      rcases lt_or_eq_of_le (not_lt.mp hle) with hyx | rfl
      · exact lt_asymm h (List.append_left_lt hyx)
      · exact lt_irrefl _ h
    · exact absurd h (lt_asymm (append_lt_append hlen.symm hgt y x))
  · rintro (hlt | ⟨rfl, hlt⟩)
    · exact append_lt_append hlen hlt x y
    · exact List.append_left_lt hlt

/-- A text between two parts does not change the order. -/
theorem append_append_lt_iff (hlen : a.length = b.length) (sep : List α) :
    a ++ (sep ++ x) < b ++ (sep ++ y) ↔ a ++ x < b ++ y := by
  rw [append_lt_append_iff hlen, append_lt_append_iff hlen, append_lt_append_iff rfl]
  simp

/-- A separator after the first `k` does not change the order, if the rest compares as before. -/
theorem take_append_lt_iff {k : ℕ} (hlen : a.length = b.length) (sep : List α)
    (h : x < y ↔ a.drop k < b.drop k) :
    a.take k ++ (sep ++ x) < b.take k ++ (sep ++ y) ↔ a < b := by
  have htake : (a.take k).length = (b.take k).length := by
    rw [List.length_take, List.length_take, hlen]
  rw [append_append_lt_iff htake, append_lt_append_iff htake, h, ← append_lt_append_iff htake,
    List.take_append_drop, List.take_append_drop]

end Append

/-! ## Digits -/

section Digits

variable {α : Type*} [LinearOrder α] {digit : ℕ → α} {base : ℕ}

/-- The last `width` digits of `n`. -/
def digits (digit : ℕ → α) (base : ℕ) : (width : ℕ) → (n : ℕ) → List α
  | 0, _ => []
  | width + 1, n => digits digit base width (n / base) ++ [digit (n % base)]

omit [LinearOrder α] in
@[simp] theorem length_digits (width n : ℕ) : (digits digit base width n).length = width := by
  induction width generalizing n with
  | zero => rfl
  | succ width ih => rw [digits, List.length_append, ih, List.length_singleton]

omit [LinearOrder α] in
theorem mem_digits {width n : ℕ} {c : α} (hbase : 0 < base) (h : c ∈ digits digit base width n) :
    ∃ d < base, c = digit d := by
  induction width generalizing n with
  | zero => cases h
  | succ width ih =>
    rcases List.mem_append.mp h with h | h
    · exact ih h
    · exact ⟨n % base, Nat.mod_lt n hbase, List.mem_singleton.mp h⟩

/-- Digits that are in order write numbers in order. -/
theorem digits_lt_digits (hbase : 0 < base) (hdigit : ∀ d e, d < e → e < base → digit d < digit e)
    {width m n : ℕ} (hmn : m < n) (hn : n < base ^ width) :
    digits digit base width m < digits digit base width n := by
  induction width generalizing m n with
  | zero =>
    rw [pow_zero] at hn
    omega
  | succ width ih =>
    rw [digits, digits, append_lt_append_iff (by rw [length_digits, length_digits])]
    rcases lt_or_eq_of_le (Nat.div_le_div_right (c := base) hmn.le) with hlt | heq
    · refine .inl (ih hlt ?_)
      rw [pow_succ] at hn
      exact Nat.div_lt_of_lt_mul (by rwa [Nat.mul_comm])
    · refine .inr ⟨by rw [heq], List.cons_lt_cons_iff.mpr (.inl ?_)⟩
      apply hdigit _ _ _ (Nat.mod_lt n hbase)
      have hm := Nat.div_add_mod m base
      have hn := Nat.div_add_mod n base
      rw [heq] at hm
      omega

omit [LinearOrder α] in
/-- Multiplying by the base appends a zero. -/
theorem digits_mul_pow (hbase : 0 < base) (width k n : ℕ) :
    digits digit base (width + k) (n * base ^ k) =
      digits digit base width n ++ List.replicate k (digit 0) := by
  induction k with
  | zero => simp
  | succ k ih =>
    rw [← Nat.add_assoc, digits, pow_succ, ← Nat.mul_assoc, Nat.mul_div_cancel _ hbase,
      Nat.mul_mod_left, ih, List.append_assoc, List.replicate_succ']

theorem digitChar_lt : ∀ d e : ℕ, d < e → e < 16 → Nat.digitChar d < Nat.digitChar e := by
  have h : ∀ e < 16, ∀ d < e, Nat.digitChar d < Nat.digitChar e := by decide
  exact fun d e hde he => h e he d hde

/-- The digits of a number that needs no more than `width + 1` of them. -/
theorem digits_eq_toDigits (hbase : 1 < base) (width : ℕ) {n : ℕ} (hn : n < base ^ (width + 1)) :
    digits Nat.digitChar base (width + 1) n =
      List.replicate (width + 1 - (Nat.toDigits base n).length) '0' ++ Nat.toDigits base n := by
  induction width generalizing n with
  | zero =>
    rw [Nat.zero_add, pow_one] at hn
    rw [Nat.toDigits_of_lt_base hn, digits, Nat.mod_eq_of_lt hn]
    rfl
  | succ width ih =>
    rw [digits, ih (Nat.div_lt_of_lt_mul (by rwa [← pow_succ'])), List.append_assoc]
    rcases Nat.lt_or_ge n base with hlt | hge
    · rw [Nat.div_eq_of_lt hlt, Nat.toDigits_of_lt_base hlt, Nat.mod_eq_of_lt hlt,
        Nat.toDigits_zero, List.length_singleton, List.length_singleton, ← List.append_assoc,
        Nat.add_sub_cancel, Nat.add_sub_cancel, List.replicate_succ']
    · rw [Nat.toDigits_of_base_le hbase hge, List.length_append, List.length_singleton,
        Nat.add_sub_add_right]

end Digits

/-! ## Dropped zeros -/

section Padded

variable {α : Type*} [LinearOrder α] {zero term : α} {a b x y : List α} {k l : ℕ}

/-- Zeros are the least digits. -/
theorem replicate_le (hb : ∀ c ∈ b, zero ≤ c) : List.replicate b.length zero ≤ b := by
  induction b with
  | nil => exact le_rfl
  | cons c b ih =>
    have hrest := ih fun d hd => hb d (List.mem_cons_of_mem c hd)
    rw [List.length_cons, List.replicate_succ]
    rcases lt_or_eq_of_le (hb c List.mem_cons_self) with hlt | rfl
    · exact (List.cons_lt_cons_iff.mpr (.inl hlt)).le
    · exact List.cons_le_cons zero hrest

/-- Texts without some of their last zeros compare as with them, if a text that starts below a
    zero follows. -/
theorem append_lt_append_of_padded (zero : α) (ha : ∀ c ∈ a, zero ≤ c) (hb : ∀ c ∈ b, zero ≤ c)
    (hterm : term < zero) (hlen : a.length + k = b.length + l)
    (h : a ++ List.replicate k zero < b ++ List.replicate l zero) :
    a ++ term :: x < b ++ term :: y := by
  induction a generalizing b with
  | nil =>
    cases b with
    | nil =>
      simp only [List.length_nil, Nat.zero_add] at hlen
      rw [hlen] at h
      exact absurd h (lt_irrefl _)
    | cons d b =>
      -- the shorter text ends where the other has a digit
      exact List.cons_lt_cons_iff.mpr (.inl (lt_of_lt_of_le hterm (hb d List.mem_cons_self)))
  | cons c a ih =>
    cases b with
    | nil =>
      have hle : List.replicate l zero ≤ c :: a ++ List.replicate k zero := by
        have hdigits : ∀ e ∈ c :: a ++ List.replicate k zero, zero ≤ e := by
          intro e he
          rcases List.mem_append.mp he with he | he
          · exact ha e he
          · exact (List.eq_of_mem_replicate he).ge
        have hle := replicate_le hdigits
        rwa [List.length_append, List.length_replicate, hlen, List.length_nil, Nat.zero_add] at hle
      exact absurd h (not_lt.mpr hle)
    | cons d b =>
      rw [List.cons_append, List.cons_append] at h ⊢
      rcases List.cons_lt_cons_iff.mp h with hlt | ⟨rfl, hrest⟩
      · exact List.cons_lt_cons_iff.mpr (.inl hlt)
      · refine List.cons_lt_cons_iff.mpr (.inr ⟨rfl, ih ?_ ?_ ?_ hrest⟩)
        · exact fun e he => ha e (List.mem_cons_of_mem c he)
        · exact fun e he => hb e (List.mem_cons_of_mem c he)
        · rw [List.length_cons, List.length_cons] at hlen
          omega

end Padded

end TextOrder
