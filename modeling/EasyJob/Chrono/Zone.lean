import EasyJob.Chrono.Basic
import Mathlib.Data.List.Sort

/-!
# Time zones

A `chrono_tz::Tz` is a table of transitions (`FixedTimespanSet`): the offset in
force before the first transition and, from each transition on, the next one.
Local times may be skipped (a gap, when the offset grows) or repeated (a fold,
when it shrinks). A local reading is not checked against the range of representable
dates, which it can leave on their first and last day only.
-/

namespace EasyJob.Chrono

/-- A time zone table: `first` is the UTC offset before every transition, and
    `rest` lists the transitions with the offset that starts there. -/
structure Tz where
  first : TimeDelta
  rest : List (DateTime × TimeDelta)
  sorted : rest.Pairwise (fun a b => a.1 < b.1)
  deriving DecidableEq

/-- `chrono_tz::UTC`. -/
def Tz.utc : Tz := ⟨0, [], List.Pairwise.nil⟩

/-- By how much each transition moves the local clocks: a gap if it is positive, and a
    fold if it is negative. -/
def Tz.shifts (tz : Tz) : List TimeDelta :=
  List.zipWith (fun offset former => offset - former) (tz.rest.map Prod.snd)
    (tz.first :: tz.rest.map Prod.snd)

/-- The offset in force at an instant: that of the last transition at or before it. -/
def Tz.offsetAt (tz : Tz) (u : ℤ) : ℤ :=
  tz.rest.foldl (fun offset t => if t.1 ≤ u then t.2 else offset) tz.first

/-- The local reading of an instant (`after.with_timezone(&tz).naive_local()`). -/
def Tz.toLocal (tz : Tz) (u : ℤ) : ℤ := u + tz.offsetAt u

/-- The instants whose local reading is `t`. -/
def Tz.instants (tz : Tz) (t : ℤ) : List ℤ :=
  ((tz.first :: tz.rest.map Prod.snd).map (fun offset => t - offset)).filter
    (fun u => tz.toLocal u = t)

/-- `chrono::LocalResult`. -/
inductive LocalResult
  | none
  | single (u : DateTime)
  | ambiguous (earliest latest : DateTime)
  deriving DecidableEq, Repr

/-- `tz.from_local_datetime(&t)`. -/
def Tz.fromLocal (tz : Tz) (t : ℤ) : LocalResult :=
  match (tz.instants t).min?, (tz.instants t).max? with
  | some e, some l => if e = l then .single e else .ambiguous e l
  | _, _ => .none

theorem foldl_offset_mem (u first : ℤ) (rest : List (ℤ × ℤ)) :
    rest.foldl (fun offset t => if t.1 ≤ u then t.2 else offset) first ∈
      first :: rest.map Prod.snd := by
  induction rest generalizing first with
  | nil => simp
  | cons t ts ih =>
    rw [List.foldl_cons, List.map_cons]
    rcases List.mem_cons.mp (ih (if t.1 ≤ u then t.2 else first)) with h | h
    · rw [h]
      split_ifs <;> simp
    · exact List.mem_cons_of_mem _ (List.mem_cons_of_mem _ h)

/-- The offset at an instant is one of the table's offsets. -/
theorem Tz.offsetAt_mem (tz : Tz) (u : ℤ) : tz.offsetAt u ∈ tz.first :: tz.rest.map Prod.snd :=
  foldl_offset_mem u tz.first tz.rest

theorem Tz.mem_instants {tz : Tz} {t u : ℤ} : u ∈ tz.instants t ↔ tz.toLocal u = t := by
  constructor
  · intro h
    simpa using (List.mem_filter.mp h).2
  · intro h
    refine List.mem_filter.mpr ⟨List.mem_map.mpr ⟨tz.offsetAt u, tz.offsetAt_mem u, ?_⟩, by simpa⟩
    unfold Tz.toLocal at h
    show t - tz.offsetAt u = u
    omega

/-! ## What `fromLocal` gives -/

theorem Tz.fromLocal_single {tz : Tz} {t u : ℤ} (h : tz.fromLocal t = .single u) :
    tz.toLocal u = t := by
  unfold Tz.fromLocal at h
  split at h
  · rename_i hmin _
    split_ifs at h
    cases h
    exact Tz.mem_instants.mp (List.min?_mem hmin)
  · cases h

theorem Tz.fromLocal_ambiguous {tz : Tz} {t earliest latest : ℤ}
    (h : tz.fromLocal t = .ambiguous earliest latest) :
    tz.toLocal earliest = t ∧ tz.toLocal latest = t ∧ earliest < latest := by
  unfold Tz.fromLocal at h
  split at h
  · rename_i e l hmin hmax
    split_ifs at h with hne
    cases h
    have hlatest := List.max?_mem hmax
    refine ⟨Tz.mem_instants.mp (List.min?_mem hmin), Tz.mem_instants.mp hlatest, ?_⟩
    exact lt_of_le_of_ne ((List.min?_eq_some_iff.mp hmin).2 _ hlatest) hne
  · cases h

/-- The one instant that shows a local time. -/
theorem Tz.eq_of_fromLocal_single {tz : Tz} {t u v : ℤ} (h : tz.fromLocal t = .single u)
    (hv : tz.toLocal v = t) : v = u := by
  unfold Tz.fromLocal at h
  split at h
  · rename_i hmin hmax
    split_ifs at h with heq
    cases h
    have hmem := Tz.mem_instants.mpr hv
    have hge := (List.min?_eq_some_iff.mp hmin).2 v hmem
    have hle := (List.max?_eq_some_iff.mp hmax).2 v hmem
    omega
  · cases h

/-- The last instant that shows a repeated local time. -/
theorem Tz.le_of_fromLocal_ambiguous {tz : Tz} {t earliest latest v : ℤ}
    (h : tz.fromLocal t = .ambiguous earliest latest) (hv : tz.toLocal v = t) : v ≤ latest := by
  unfold Tz.fromLocal at h
  split at h
  · rename_i hmin hmax
    split_ifs at h
    cases h
    exact (List.max?_eq_some_iff.mp hmax).2 v (Tz.mem_instants.mpr hv)
  · cases h

theorem Tz.exists_of_fromLocal {tz : Tz} {t : ℤ} (h : tz.fromLocal t ≠ .none) :
    ∃ u, tz.toLocal u = t := by
  cases hlocal : tz.fromLocal t with
  | single u => exact ⟨u, Tz.fromLocal_single hlocal⟩
  | ambiguous earliest latest => exact ⟨earliest, (Tz.fromLocal_ambiguous hlocal).1⟩
  | none => exact absurd hlocal h

/-- Only a local time that no instant shows does not exist. -/
theorem Tz.fromLocal_ne_none {tz : Tz} {t u : ℤ} (h : tz.toLocal u = t) :
    tz.fromLocal t ≠ .none := by
  have hne := List.ne_nil_of_mem (Tz.mem_instants.mpr h)
  rw [Tz.fromLocal, List.min?_eq_some_min hne, List.max?_eq_some_max hne]
  dsimp only
  split_ifs
  · exact LocalResult.noConfusion
  · exact LocalResult.noConfusion

end EasyJob.Chrono
