import Mathlib.Data.List.Basic
import Mathlib.Tactic.Common

/-!
# A max-heap with lazy deletion

A binary heap is a bag of elements (here a list in no particular order) from
which a maximum is taken out. With lazy deletion, elements that a predicate
`valid` calls stale stay in the heap and are skipped when they come to the
top. The lemmas state every operation on the bag of valid elements, which is
what an eager queue would hold.
-/

namespace LazyHeap

variable {α : Type*} (cmp : α → α → Ordering)

/-- A maximal element with the remaining bag. -/
def extractMax : List α → Option (α × List α)
  | [] => none
  | x :: xs =>
    match extractMax xs with
    | none => some (x, [])
    | some (top, rest) => if cmp x top = .lt then some (top, x :: rest) else some (x, top :: rest)

theorem extractMax_eq_none {heap : List α} (h : extractMax cmp heap = none) : heap = [] := by
  cases heap with
  | nil => rfl
  | cons x xs =>
    rw [extractMax] at h
    split at h
    · cases h
    · split_ifs at h

theorem extractMax_perm : ∀ {heap : List α} {top : α} {rest : List α},
    extractMax cmp heap = some (top, rest) → heap.Perm (top :: rest)
  | [], _, _, h => by cases h
  | x :: xs, top, rest, h => by
    rw [extractMax] at h
    split at h
    · rename_i hxs
      cases h
      rw [extractMax_eq_none cmp hxs]
    · rename_i top' rest' hxs
      have ih := extractMax_perm hxs
      split_ifs at h
      · cases h
        exact (ih.cons x).trans (List.Perm.swap _ _ _)
      · cases h
        exact ih.cons x

/-- No remaining element is above the extracted one. -/
theorem extractMax_max [Std.TransCmp cmp] : ∀ {heap : List α} {top : α} {rest : List α},
    extractMax cmp heap = some (top, rest) → ∀ y ∈ rest, (cmp y top).isLE
  | [], _, _, h => by cases h
  | x :: xs, top, rest, h => by
    rw [extractMax] at h
    split at h
    · cases h; simp
    · rename_i top' rest' hxs
      have ih := extractMax_max hxs
      split_ifs at h with hlt
      · cases h
        intro y hy
        rcases List.mem_cons.mp hy with rfl | hy
        · simp [hlt]
        · exact ih y hy
      · cases h
        have htop : (cmp top' x).isLE := by
          have hswap : cmp top' x = (cmp x top').swap := Std.OrientedCmp.eq_swap
          cases hc : cmp x top' <;> simp_all
        intro y hy
        rcases List.mem_cons.mp hy with rfl | hy
        · exact htop
        · exact Std.TransCmp.isLE_trans (ih y hy) htop

/-- `pop` of a lazily deleted heap: take out tops until one is valid. At most
    `fuel` tops are looked at. -/
def popValid (valid : α → Bool) : (fuel : ℕ) → List α → Option α × List α
  | 0, heap => (none, heap)
  | fuel + 1, heap =>
    match extractMax cmp heap with
    | none => (none, heap)
    | some (top, rest) => if valid top then (some top, rest) else popValid valid fuel rest

/-- `peek` of a lazily deleted heap: drop tops until one is valid, and leave
    that one in place. -/
def peekValid (valid : α → Bool) : (fuel : ℕ) → List α → Option α × List α
  | 0, heap => (none, heap)
  | fuel + 1, heap =>
    match extractMax cmp heap with
    | none => (none, heap)
    | some (top, rest) => if valid top then (some top, heap) else peekValid valid fuel rest

variable {cmp} {valid : α → Bool}

theorem extractMax_length {heap : List α} {top : α} {rest : List α}
    (h : extractMax cmp heap = some (top, rest)) : heap.length = rest.length + 1 := by
  simpa using (extractMax_perm cmp h).length_eq

theorem filter_stale {heap : List α} {top : α} {rest : List α}
    (h : extractMax cmp heap = some (top, rest)) (hv : valid top = false) :
    (heap.filter valid).Perm (rest.filter valid) := by
  have hp := (extractMax_perm cmp h).filter valid
  rwa [List.filter_cons_of_neg (by simp [hv])] at hp

theorem popValid_subset : ∀ (fuel : ℕ) (heap : List α),
    ∀ x ∈ (popValid cmp valid fuel heap).2, x ∈ heap
  | 0, _, _, hx => hx
  | fuel + 1, heap, x, hx => by
    rw [popValid] at hx
    split at hx
    · exact hx
    · rename_i top rest hex
      have hmem : x ∈ rest := by
        split_ifs at hx
        · exact hx
        · exact popValid_subset fuel rest x hx
      exact (extractMax_perm cmp hex).mem_iff.mpr (List.mem_cons_of_mem _ hmem)

theorem peekValid_subset : ∀ (fuel : ℕ) (heap : List α),
    ∀ x ∈ (peekValid cmp valid fuel heap).2, x ∈ heap
  | 0, _, _, hx => hx
  | fuel + 1, heap, x, hx => by
    rw [peekValid] at hx
    split at hx
    · exact hx
    · rename_i top rest hex
      split_ifs at hx
      · exact hx
      · exact (extractMax_perm cmp hex).mem_iff.mpr
          (List.mem_cons_of_mem _ (peekValid_subset fuel rest x hx))

/-- A valid element that is popped leaves the bag of valid elements, and no
    remaining valid element is above it. -/
theorem popValid_some [Std.TransCmp cmp] : ∀ {fuel : ℕ} {heap : List α} {top : α} {rest : List α},
    popValid cmp valid fuel heap = (some top, rest) →
      valid top = true ∧ (heap.filter valid).Perm (top :: rest.filter valid) ∧
        ∀ y ∈ rest, (cmp y top).isLE
  | 0, _, _, _, h => by simp [popValid] at h
  | fuel + 1, heap, top, rest, h => by
    rw [popValid] at h
    split at h
    · cases h
    · rename_i top' rest' hex
      by_cases hv : valid top' = true
      · rw [if_pos hv] at h
        cases h
        refine ⟨hv, ?_, extractMax_max cmp hex⟩
        have hp := (extractMax_perm cmp hex).filter valid
        rwa [List.filter_cons_of_pos hv] at hp
      · rw [if_neg hv] at h
        obtain ⟨h1, h2, h3⟩ := popValid_some h
        exact ⟨h1, (filter_stale hex (by simpa using hv)).trans h2, h3⟩

/-- With enough fuel, nothing is popped only when nothing is valid. -/
theorem popValid_none : ∀ {fuel : ℕ} {heap rest : List α}, heap.length ≤ fuel →
    popValid cmp valid fuel heap = (none, rest) → heap.filter valid = []
  | 0, heap, _, hf, _ => by
    rw [List.length_eq_zero_iff.mp (Nat.le_zero.mp hf)]; rfl
  | fuel + 1, heap, rest, hf, h => by
    rw [popValid] at h
    split at h
    · rename_i hex
      rw [extractMax_eq_none cmp hex]; rfl
    · rename_i top' rest' hex
      have hlen := extractMax_length hex
      by_cases hv : valid top' = true
      · rw [if_pos hv] at h; cases h
      · rw [if_neg hv] at h
        have ih := popValid_none (by omega) h
        have hp := filter_stale hex (by simpa using hv)
        rw [ih] at hp
        exact hp.eq_nil

/-- Peeking keeps the bag of valid elements. -/
theorem peekValid_filter : ∀ (fuel : ℕ) (heap : List α),
    ((peekValid cmp valid fuel heap).2.filter valid).Perm (heap.filter valid)
  | 0, _ => List.Perm.refl _
  | fuel + 1, heap => by
    rw [peekValid]
    split
    · exact List.Perm.refl _
    · rename_i top rest hex
      split_ifs with hv
      · exact List.Perm.refl _
      · exact (peekValid_filter fuel rest).trans (filter_stale hex (by simpa using hv)).symm

/-- What is peeked is a maximal valid element. -/
theorem peekValid_some [Std.TransCmp cmp] : ∀ {fuel : ℕ} {heap : List α} {top : α} {rest : List α},
    peekValid cmp valid fuel heap = (some top, rest) →
      valid top = true ∧ top ∈ heap ∧ ∀ y ∈ heap, valid y = true → (cmp y top).isLE
  | 0, _, _, _, h => by simp [peekValid] at h
  | fuel + 1, heap, top, rest, h => by
    rw [peekValid] at h
    split at h
    · cases h
    · rename_i top' rest' hex
      have hperm := extractMax_perm cmp hex
      by_cases hv : valid top' = true
      · rw [if_pos hv] at h
        cases h
        refine ⟨hv, hperm.mem_iff.mpr List.mem_cons_self, ?_⟩
        intro y hy _
        rcases List.mem_cons.mp (hperm.mem_iff.mp hy) with rfl | hy
        · simp [Std.ReflCmp.compare_self]
        · exact extractMax_max cmp hex y hy
      · rw [if_neg hv] at h
        obtain ⟨h1, h2, h3⟩ := peekValid_some h
        refine ⟨h1, hperm.mem_iff.mpr (List.mem_cons_of_mem _ h2), ?_⟩
        intro y hy hvy
        rcases List.mem_cons.mp (hperm.mem_iff.mp hy) with rfl | hy
        · exact absurd hvy hv
        · exact h3 y hy hvy

/-- `pop` takes out what `peek` shows. -/
theorem popValid_fst (fuel : ℕ) (heap : List α) :
    (popValid cmp valid fuel heap).1 = (peekValid cmp valid fuel heap).1 := by
  induction fuel generalizing heap with
  | zero => rfl
  | succ fuel ih =>
    rw [popValid, peekValid]
    split
    · rfl
    · split_ifs
      · rfl
      · exact ih _

/-- A peeked element is on top of the heap that peeking leaves. -/
theorem extractMax_peekValid {fuel : ℕ} {heap : List α} {top : α}
    (h : (peekValid cmp valid fuel heap).1 = some top) :
    ∃ rest, extractMax cmp (peekValid cmp valid fuel heap).2 = some (top, rest) := by
  induction fuel generalizing heap with
  | zero => cases h
  | succ fuel ih =>
    rw [peekValid] at h ⊢
    split at h
    · cases h
    · rename_i top' rest' hex
      split_ifs at h ⊢ with hv
      · cases h
        exact ⟨rest', hex⟩
      · exact ih h

/-- After a peek, `pop` takes out what the peek has shown. -/
theorem popValid_peekValid [Std.TransCmp cmp] {heap : List α} :
    (popValid cmp valid (peekValid cmp valid heap.length heap).2.length
      (peekValid cmp valid heap.length heap).2).1 = (peekValid cmp valid heap.length heap).1 := by
  cases hpeek : (peekValid cmp valid heap.length heap).1 with
  | some top =>
    obtain ⟨rest, hex⟩ := extractMax_peekValid hpeek
    have hvalid := (peekValid_some (Prod.ext hpeek rfl)).1
    rw [extractMax_length hex, popValid, hex]
    exact congrArg Prod.fst (if_pos hvalid)
  | none =>
    -- nothing is valid, before the peek and after it
    have hnone : heap.filter valid = [] := popValid_none (Nat.le_refl _)
      (Prod.ext ((popValid_fst heap.length heap).trans hpeek) rfl)
    have hperm := @peekValid_filter _ cmp valid heap.length heap
    rw [hnone] at hperm
    cases hpop : popValid cmp valid (peekValid cmp valid heap.length heap).2.length
        (peekValid cmp valid heap.length heap).2 with
    | mk popped rest =>
      cases popped with
      | none => rfl
      | some top =>
        have hbag := (popValid_some hpop).2.1
        rw [hperm.eq_nil] at hbag
        exact absurd hbag (List.not_perm_nil_cons _ _)

end LazyHeap
