import Mathlib.Data.List.Nodup
import Mathlib.Tactic.Common

/-!
# Tables with a primary key

A table is a list of rows in the order of their insertion, in which no key
occurs twice. Statements that would break the key fail.

* `find_upsert`, `find_updateWhere`, `find_deleteKey`, `find_insert`: what a lookup sees
  after a statement.
* `rows_insertAll`: a batch of insertions either fails or appends its rows.
* `References`: a foreign key, which the statements keep; `rows_cascade_deleteWhere`: what
  a cascade deletes.
-/

/-- A list of rows whose keys are pairwise distinct. -/
structure Table {ρ κ : Type*} (key : ρ → κ) where
  rows : List ρ
  nodup : (rows.map key).Nodup

namespace Table

variable {ρ κ : Type*} [DecidableEq κ] {key : ρ → κ}

/-! ## Statements -/

omit [DecidableEq κ] in
private theorem nodup_append_row {rows : List ρ} {row : ρ} (hrows : (rows.map key).Nodup)
    (hrow : key row ∉ rows.map key) : ((rows ++ [row]).map key).Nodup := by
  rw [List.map_append, List.nodup_append]
  refine ⟨hrows, List.nodup_singleton _, ?_⟩
  rintro k hk k' hk' rfl
  rw [List.map_singleton, List.mem_singleton] at hk'
  exact hrow (hk' ▸ hk)

def empty : Table key := ⟨[], List.nodup_nil⟩

/-- `SELECT .. WHERE key = k`. -/
def find (t : Table key) (k : κ) : Option ρ := t.rows.find? (key · = k)

/-- `INSERT`: fails if the key exists. -/
def insert (t : Table key) (row : ρ) : Option (Table key) :=
  if h : key row ∈ t.rows.map key then none
  else
    some ⟨t.rows ++ [row], nodup_append_row t.nodup h⟩

/-- One `INSERT` for each row; the first failure ends it. -/
def insertAll : List ρ → Table key → Option (Table key)
  | [], t => some t
  | row :: rows, t => do
    let t ← t.insert row
    insertAll rows t

/-- `INSERT .. ON CONFLICT(key) DO UPDATE`. -/
def upsert (t : Table key) (row : ρ) (update : ρ → ρ) (hkey : ∀ r, key (update r) = key r) :
    Table key :=
  if h : key row ∈ t.rows.map key then
    ⟨t.rows.map fun r => if key r = key row then update r else r, by
      have hkeys : (t.rows.map fun r => if key r = key row then update r else r).map key =
          t.rows.map key := by
        rw [List.map_map]
        refine List.map_congr_left fun r _ => ?_
        show key (if key r = key row then update r else r) = key r
        split_ifs
        · exact hkey r
        · rfl
      rw [hkeys]
      exact t.nodup⟩
  else
    ⟨t.rows ++ [row], nodup_append_row t.nodup h⟩

/-- `UPDATE .. WHERE p`. -/
def updateWhere (t : Table key) (p : ρ → Bool) (update : ρ → ρ)
    (hkey : ∀ r, key (update r) = key r) : Table key :=
  ⟨t.rows.map fun r => if p r then update r else r, by
    have hkeys : (t.rows.map fun r => if p r then update r else r).map key = t.rows.map key := by
      rw [List.map_map]
      refine List.map_congr_left fun r _ => ?_
      show key (if p r then update r else r) = key r
      split_ifs
      · exact hkey r
      · rfl
    rw [hkeys]
    exact t.nodup⟩

/-- `DELETE .. WHERE p`. -/
def deleteWhere (t : Table key) (p : ρ → Bool) : Table key :=
  ⟨t.rows.filter (fun r => !p r), t.nodup.sublist (List.filter_sublist.map key)⟩

/-- `DELETE .. WHERE key = k`. -/
def deleteKey (t : Table key) (k : κ) : Table key := t.deleteWhere fun r => decide (key r = k)

/-! ## Lookups -/

theorem find_key {t : Table key} {k : κ} {r : ρ} (h : t.find k = some r) : key r = k := by
  simpa using List.find?_some h

theorem find_eq_some {t : Table key} {k : κ} {r : ρ} :
    t.find k = some r ↔ r ∈ t.rows ∧ key r = k := by
  constructor
  · intro h
    exact ⟨List.mem_of_find?_eq_some h, find_key h⟩
  · rintro ⟨hr, hk⟩
    obtain ⟨r', hr'⟩ : ∃ r', t.find k = some r' := by
      apply Option.isSome_iff_exists.mp
      rw [find, List.find?_isSome]
      exact ⟨r, hr, by simpa using hk⟩
    have hmem : r' ∈ t.rows := List.mem_of_find?_eq_some hr'
    rw [hr', List.inj_on_of_nodup_map t.nodup hmem hr ((find_key hr').trans hk.symm)]

theorem find_eq_none {t : Table key} {k : κ} : t.find k = none ↔ ∀ r ∈ t.rows, key r ≠ k := by
  simp [find, List.find?_eq_none]

theorem mem_keys {t : Table key} {k : κ} : k ∈ t.rows.map key ↔ (t.find k).isSome := by
  rw [Option.isSome_iff_exists, List.mem_map]
  simp only [find_eq_some]

/-- Tables with the same rows up to one key agree on the other keys. -/
private theorem find_congr {t t' : Table key} {k : κ}
    (h : ∀ r, key r = k → (r ∈ t'.rows ↔ r ∈ t.rows)) : t'.find k = t.find k := by
  refine Option.ext fun r => ?_
  rw [find_eq_some, find_eq_some]
  constructor
  · rintro ⟨hr, hk⟩
    exact ⟨(h r hk).mp hr, hk⟩
  · rintro ⟨hr, hk⟩
    exact ⟨(h r hk).mpr hr, hk⟩

theorem find_upsert (t : Table key) (row : ρ) (update : ρ → ρ)
    (hkey : ∀ r, key (update r) = key r) (k : κ) :
    (t.upsert row update hkey).find k =
      if k = key row then some (((t.find k).map update).getD row) else t.find k := by
  rw [upsert]
  split_ifs with hmem hk hk
  · -- the row exists
    obtain ⟨old, hold⟩ := Option.isSome_iff_exists.mp (mem_keys.mp hmem)
    obtain ⟨hr, hrk⟩ := find_eq_some.mp hold
    rw [hk, hold, find_eq_some]
    refine ⟨List.mem_map.mpr ⟨old, hr, if_pos hrk⟩, ?_⟩
    show key (update old) = key row
    rw [hkey, hrk]
  · refine find_congr fun r hr => ?_
    show r ∈ t.rows.map _ ↔ r ∈ t.rows
    rw [List.mem_map]
    constructor
    · rintro ⟨r', hr', rfl⟩
      split_ifs at hr ⊢ with hrow
      · rw [hkey, hrow] at hr
        exact absurd hr.symm hk
      · exact hr'
    · intro hmem'
      exact ⟨r, hmem', if_neg (hr ▸ hk)⟩
  · -- the row is new
    have hnone : t.find k = none := by
      rw [hk, ← Option.not_isSome_iff_eq_none]
      exact fun h => hmem (mem_keys.mpr h)
    rw [hnone, find_eq_some]
    exact ⟨List.mem_append_right _ (List.mem_singleton_self row), hk.symm⟩
  · refine find_congr fun r hr => ?_
    show r ∈ t.rows ++ [row] ↔ r ∈ t.rows
    rw [List.mem_append, List.mem_singleton]
    constructor
    · rintro (h | rfl)
      · exact h
      · exact absurd hr.symm hk
    · exact .inl

theorem find_deleteKey (t : Table key) (deleted k : κ) :
    (t.deleteKey deleted).find k = if k = deleted then none else t.find k := by
  split_ifs with hk
  · rw [find_eq_none]
    intro r hr
    have hne : key r ≠ deleted := by simpa using (List.mem_filter.mp hr).2
    rw [hk]
    exact hne
  · refine find_congr fun r hr => ?_
    show r ∈ t.rows.filter _ ↔ r ∈ t.rows
    rw [List.mem_filter]
    simp [hr, hk]

theorem find_updateWhere (t : Table key) (p : ρ → Bool) (update : ρ → ρ)
    (hkey : ∀ r, key (update r) = key r) (k : κ) :
    (t.updateWhere p update hkey).find k =
      (t.find k).map fun r => if p r then update r else r := by
  have hkept : ∀ r, key (if p r then update r else r) = key r := by
    intro r
    split_ifs
    · exact hkey r
    · rfl
  cases hfind : t.find k with
  | none =>
    rw [Option.map_none, find_eq_none]
    intro r hr
    obtain ⟨r', hr', rfl⟩ := List.mem_map.mp hr
    rw [hkept]
    exact find_eq_none.mp hfind r' hr'
  | some r =>
    obtain ⟨hr, hk⟩ := find_eq_some.mp hfind
    rw [Option.map_some, find_eq_some]
    exact ⟨List.mem_map.mpr ⟨r, hr, rfl⟩, (hkept r).trans hk⟩

theorem find_deleteWhere (t : Table key) (p : ρ → Bool) (k : κ) :
    (t.deleteWhere p).find k = (t.find k).filter fun r => !p r := by
  refine Option.ext fun r => ?_
  rw [find_eq_some, Option.filter_eq_some_iff, find_eq_some]
  show r ∈ t.rows.filter _ ∧ _ ↔ _
  rw [List.mem_filter]
  constructor
  · rintro ⟨⟨hr, hp⟩, hk⟩
    exact ⟨⟨hr, hk⟩, hp⟩
  · rintro ⟨⟨hr, hk⟩, hp⟩
    exact ⟨⟨hr, hp⟩, hk⟩

/-! ## Insertions -/

theorem rows_insert {t t' : Table key} {row : ρ} (h : t.insert row = some t') :
    t'.rows = t.rows ++ [row] := by
  rw [insert] at h
  split_ifs at h
  cases h
  rfl

theorem find_insert {t t' : Table key} {row : ρ} (h : t.insert row = some t') (k : κ) :
    t.find (key row) = none ∧ t'.find k = if k = key row then some row else t.find k := by
  have hrows := rows_insert h
  constructor
  · rw [insert] at h
    split_ifs at h with hmem
    rw [← Option.not_isSome_iff_eq_none]
    exact fun hsome => hmem (mem_keys.mpr hsome)
  · split_ifs with hk
    · rw [find_eq_some, hrows]
      exact ⟨List.mem_append_right _ (List.mem_singleton_self row), hk.symm⟩
    · refine find_congr fun r hr => ?_
      rw [hrows, List.mem_append, List.mem_singleton]
      constructor
      · rintro (h | rfl)
        · exact h
        · exact absurd hr.symm hk
      · exact .inl

theorem rows_insertAll {rows : List ρ} {t t' : Table key} (h : insertAll rows t = some t') :
    t'.rows = t.rows ++ rows := by
  induction rows generalizing t with
  | nil =>
    cases h
    exact (List.append_nil _).symm
  | cons row rows ih =>
    obtain ⟨t₁, hrow, hrows⟩ := Option.bind_eq_some_iff.mp h
    rw [ih hrows, rows_insert hrow, List.append_assoc]
    rfl

/-- Rows with new and distinct keys can be inserted. -/
theorem insertAll_of_nodup {rows : List ρ} {t : Table key}
    (h : ((t.rows ++ rows).map key).Nodup) : ∃ t', insertAll rows t = some t' := by
  induction rows generalizing t with
  | nil => exact ⟨t, rfl⟩
  | cons row rows ih =>
    have hnew : key row ∉ t.rows.map key := by
      rw [List.map_append, List.nodup_append] at h
      intro hmem
      exact h.2.2 (key row) hmem (key row) (by simp) rfl
    have hinsert : t.insert row = some ⟨t.rows ++ [row], nodup_append_row t.nodup hnew⟩ :=
      dif_neg hnew
    have hrest : (((t.rows ++ [row]) ++ rows).map key).Nodup := by
      rw [List.append_assoc]
      exact h
    obtain ⟨t', ht'⟩ := ih (t := ⟨t.rows ++ [row], nodup_append_row t.nodup hnew⟩) hrest
    exact ⟨t', Option.bind_eq_some_iff.mpr ⟨_, hinsert, ht'⟩⟩

/-- Rows with other keys are as before, in their order. -/
theorem filter_rows_upsert (t : Table key) (row : ρ) (update : ρ → ρ)
    (hkey : ∀ r, key (update r) = key r) {p : ρ → Bool} (hp : ∀ r, key r = key row → p r = false) :
    (t.upsert row update hkey).rows.filter p = t.rows.filter p := by
  rw [upsert]
  split_ifs with hmem
  · show (t.rows.map fun r => if key r = key row then update r else r).filter p = t.rows.filter p
    induction t.rows with
    | nil => rfl
    | cons r rows ih =>
      rw [List.map_cons]
      by_cases hr : key r = key row
      · rw [if_pos hr, List.filter_cons_of_neg, List.filter_cons_of_neg, ih]
        · rw [hp r hr]
          exact Bool.false_ne_true
        · rw [hp (update r) ((hkey r).trans hr)]
          exact Bool.false_ne_true
      · rw [if_neg hr, List.filter_cons, List.filter_cons, ih]
  · show (t.rows ++ [row]).filter p = t.rows.filter p
    rw [List.filter_append, List.filter_cons_of_neg, List.filter_nil, List.append_nil]
    rw [hp row rfl]
    exact Bool.false_ne_true

/-- The rows with a reference to `k` after those with a reference to `replaced` were
    replaced. -/
theorem filter_replaced (ref : ρ → κ) (rows new : List ρ) (replaced k : κ)
    (hnew : ∀ row ∈ new, ref row = replaced) :
    ((rows.filter fun row => !decide (ref row = replaced)) ++ new).filter (ref · = k) =
      if k = replaced then new else rows.filter (ref · = k) := by
  rw [List.filter_append, List.filter_filter]
  split_ifs with hk
  · subst hk
    have hold : rows.filter (fun row => decide (ref row = k) && !decide (ref row = k)) = [] := by
      simp
    rw [hold, List.nil_append, List.filter_eq_self]
    intro row hrow
    simpa using hnew row hrow
  · have hnone : new.filter (ref · = k) = [] := by
      rw [List.filter_eq_nil_iff]
      intro row hrow
      simpa [hnew row hrow] using fun h : replaced = k => hk h.symm
    rw [hnone, List.append_nil]
    refine List.filter_congr fun row _ => ?_
    by_cases h : ref row = k <;> simp [h, hk]

/-! ## Foreign keys -/

section References

variable {χ κ' : Type*} [DecidableEq κ'] {ckey : χ → κ'} {ref : χ → κ}

/-- The column `ref` of `child` is a foreign key. -/
def References (child : Table ckey) (ref : χ → κ) (parent : Table key) : Prop :=
  ∀ c ∈ child.rows, ref c ∈ parent.rows.map key

/-- `INSERT`: fails if the key exists or the parent does not. -/
def insertChild (child : Table ckey) (ref : χ → κ) (parent : Table key) (row : χ) :
    Option (Table ckey) :=
  if ref row ∈ parent.rows.map key then child.insert row else none

/-- `ON DELETE CASCADE`: the rows whose parent is gone. -/
def cascade (child : Table ckey) (ref : χ → κ) (parent : Table key) : Table ckey :=
  child.deleteWhere fun c => decide (ref c ∉ parent.rows.map key)

variable {child : Table ckey} {parent : Table key}

omit [DecidableEq κ] [DecidableEq κ'] in
theorem References.deleteWhere (h : child.References ref parent) (p : χ → Bool) :
    (child.deleteWhere p).References ref parent :=
  fun c hc => h c (List.mem_of_mem_filter hc)

omit [DecidableEq κ] [DecidableEq κ'] in
theorem References.updateWhere (h : child.References ref parent) (p : χ → Bool) {update : χ → χ}
    (hkey : ∀ c, ckey (update c) = ckey c) (href : ∀ c, ref (update c) = ref c) :
    (child.updateWhere p update hkey).References ref parent := by
  intro c hc
  obtain ⟨c', hc', rfl⟩ := List.mem_map.mp hc
  split_ifs
  · rw [href]
    exact h c' hc'
  · exact h c' hc'

omit [DecidableEq κ'] in
theorem References.cascade (child : Table ckey) (ref : χ → κ) (parent : Table key) :
    (child.cascade ref parent).References ref parent := by
  intro c hc
  simpa using (List.mem_filter.mp hc).2

omit [DecidableEq κ'] in
theorem References.upsert (h : child.References ref parent) (row : ρ) (update : ρ → ρ)
    (hkey : ∀ r, key (update r) = key r) :
    child.References ref (parent.upsert row update hkey) := by
  intro c hc
  rw [mem_keys, find_upsert]
  split_ifs
  · rfl
  · exact mem_keys.mp (h c hc)

omit [DecidableEq κ] [DecidableEq κ'] in
theorem References.updateParent (h : child.References ref parent) (p : ρ → Bool) (update : ρ → ρ)
    (hkey : ∀ r, key (update r) = key r) :
    child.References ref (parent.updateWhere p update hkey) := by
  intro c hc
  obtain ⟨r, hr, hrc⟩ := List.mem_map.mp (h c hc)
  refine List.mem_map.mpr ⟨if p r then update r else r, List.mem_map.mpr ⟨r, hr, rfl⟩, ?_⟩
  rw [← hrc]
  split_ifs
  · exact hkey r
  · rfl

omit [DecidableEq κ'] in
theorem References.insertParent {row : ρ} {parent' : Table key} (h : child.References ref parent)
    (hinsert : parent.insert row = some parent') : child.References ref parent' := by
  intro c hc
  rw [rows_insert hinsert, List.map_append]
  exact List.mem_append_left _ (h c hc)

theorem insertChild_eq_some {row : χ} {child' : Table ckey}
    (h : child.insertChild ref parent row = some child') :
    ref row ∈ parent.rows.map key ∧ child.insert row = some child' := by
  rw [insertChild] at h
  split_ifs at h with hmem
  exact ⟨hmem, h⟩

theorem References.insertChild {row : χ} {child' : Table ckey} (h : child.References ref parent)
    (hinsert : child.insertChild ref parent row = some child') :
    child'.References ref parent := by
  obtain ⟨hmem, hrow⟩ := insertChild_eq_some hinsert
  intro c hc
  rw [rows_insert hrow, List.mem_append, List.mem_singleton] at hc
  rcases hc with hc | rfl
  · exact h c hc
  · exact hmem

theorem mem_keys_deleteKey {k k' : κ} :
    k' ∈ (parent.deleteKey k).rows.map key ↔ k' ∈ parent.rows.map key ∧ k' ≠ k := by
  rw [mem_keys, mem_keys, find_deleteKey]
  split_ifs with h
  · simp [h]
  · simp [h]

omit [DecidableEq κ'] in
/-- When one parent is deleted, its children are. -/
theorem References.rows_cascade (h : child.References ref parent) (k : κ) :
    (child.cascade ref (parent.deleteKey k)).rows =
      child.rows.filter fun c => !decide (ref c = k) := by
  refine List.filter_congr fun c hc => ?_
  have hmem : ref c ∈ (parent.deleteKey k).rows.map key ↔ ref c ≠ k := by
    rw [mem_keys_deleteKey]
    exact and_iff_right (h c hc)
  show (!decide (ref c ∉ (parent.deleteKey k).rows.map key)) = !decide (ref c = k)
  rw [decide_eq_decide.mpr ((not_congr hmem).trans not_ne_iff)]

omit [DecidableEq κ'] in
/-- When parents are deleted, exactly the rows that refer to one of them are. -/
theorem References.rows_cascade_deleteWhere (h : child.References ref parent) (p : ρ → Bool) :
    (child.cascade ref (parent.deleteWhere p)).rows =
      child.rows.filter fun c => !parent.rows.any fun r => p r && decide (key r = ref c) := by
  refine List.filter_congr fun c hc => ?_
  obtain ⟨r, hr⟩ := Option.isSome_iff_exists.mp (mem_keys.mp (h c hc))
  obtain ⟨hmem, hkey⟩ := find_eq_some.mp hr
  have hkept : ref c ∈ (parent.deleteWhere p).rows.map key ↔ p r = false := by
    rw [mem_keys, find_deleteWhere, hr, Option.filter_some]
    cases p r <;> simp
  have hany : (parent.rows.any fun r => p r && decide (key r = ref c)) = p r := by
    rw [Bool.eq_iff_iff, List.any_eq_true]
    constructor
    · rintro ⟨r', hr', hp⟩
      obtain ⟨hp, hkey'⟩ := Bool.and_eq_true_iff.mp hp
      have heq : r' = r := List.inj_on_of_nodup_map parent.nodup hr' hmem
        ((of_decide_eq_true hkey').trans hkey.symm)
      rwa [heq] at hp
    · intro hp
      exact ⟨r, hmem, Bool.and_eq_true_iff.mpr ⟨hp, decide_eq_true hkey⟩⟩
  show (!decide (ref c ∉ (parent.deleteWhere p).rows.map key)) = _
  rw [hany, Bool.eq_iff_iff]
  simp [hkept]

end References

end Table
