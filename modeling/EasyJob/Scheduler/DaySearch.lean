import EasyJob.Scheduler.Evaluator

/-!
# The search over calendar dates

The Daily, Weekly and Fuzzy branches look at one local date after the other, and at each
they resolve a time of day. `occurrences` are the instants that a time of day stands for
on a date: the one or the two that show it or, in a gap, the first of eight shifts by 15
minutes that exists.

* `resolveCandidate_some_iff`, `resolveCandidate_none_iff`: `resolve_candidate` gives the
  first occurrence after `after`.
* `Occurs.bounds`: the occurrences of a date read local times within two hours of the time
  of day, hence those of different dates are hours apart (`Occurs.date_eq`).
* `searchDates_some_iff`, `searchDays_some_iff`: the search over the dates gives the first
  time that it meets.
-/

namespace EasyJob.Scheduler

open EasyJob.Chrono EasyJob.Domain

/-! ## The occurrences of a time of day -/

/-- In a gap, the first of the shifts by 15 minutes that exists. -/
def shiftedOccurrence (tz : Tz) : (rounds : ℕ) → NaiveDateTime → Rust (List DateTime)
  | 0, _ => .ok []
  | rounds + 1, shifted => do
    let shifted ← addDelta shifted (15 * nanosPerMinute)
    match tz.fromLocal shifted with
    | .single u => .ok [u]
    | .ambiguous earliest _ => .ok [earliest]
    | .none => shiftedOccurrence tz rounds shifted

/-- The instants that a time of day stands for on a date. -/
def occurrences (tz : Tz) (date : NaiveDate) (time : NaiveTime) : Rust (List DateTime) :=
  match tz.fromLocal (andTime date time) with
  | .single u => .ok [u]
  | .ambiguous earliest latest => .ok [earliest, latest]
  | .none => shiftedOccurrence tz 8 (andTime date time)

/-- `u` is one of the instants that the time of day stands for on the date. -/
def Occurs (tz : Tz) (date : NaiveDate) (time : NaiveTime) (u : DateTime) : Prop :=
  ∃ us, occurrences tz date time = .ok us ∧ u ∈ us

variable {tz : Tz} {date : NaiveDate} {time : NaiveTime} {after u : DateTime}

/-- A shift reads a local time up to 15 minutes times the rounds later, in the range of
    `chrono`. -/
theorem shiftedOccurrence_cases {rounds : ℕ} {shifted : NaiveDateTime} {us : List DateTime}
    (h : shiftedOccurrence tz rounds shifted = .ok us) :
    us = [] ∨ ∃ u, us = [u] ∧ shifted ≤ tz.toLocal u ∧
      tz.toLocal u ≤ shifted + rounds * (15 * nanosPerMinute) ∧ tz.toLocal u ≤ maxUtc := by
  have hpos : 0 < 15 * nanosPerMinute := by decide
  induction rounds generalizing shifted with
  | zero =>
    cases h
    exact .inl rfl
  | succ rounds ih =>
    obtain ⟨shifted', hadd, h⟩ := rust_bind_ok h
    have hshift := addDelta_ok hadd
    have hmax : shifted' ≤ maxUtc := by
      unfold addDelta at hadd
      split_ifs at hadd with hrange
      cases hadd
      exact hrange.2
    have hrounds : (0 : ℤ) ≤ rounds * (15 * nanosPerMinute) :=
      Int.mul_nonneg (Int.natCast_nonneg rounds) (le_of_lt hpos)
    have hsucc : ((rounds + 1 : ℕ) : ℤ) * (15 * nanosPerMinute) =
        rounds * (15 * nanosPerMinute) + 15 * nanosPerMinute := by
      push_cast
      rw [Int.add_mul, one_mul]
    -- the local time of this round exists
    have hhere : ∀ u, tz.toLocal u = shifted' → shifted ≤ tz.toLocal u ∧
        tz.toLocal u ≤ shifted + (rounds + 1 : ℕ) * (15 * nanosPerMinute) ∧
        tz.toLocal u ≤ maxUtc := by
      intro u hu
      refine ⟨?_, ?_, ?_⟩ <;> linarith
    split at h
    · rename_i u hlocal
      cases h
      exact .inr ⟨u, rfl, hhere u (Tz.fromLocal_single hlocal)⟩
    · rename_i u _ hlocal
      cases h
      exact .inr ⟨u, rfl, hhere u (Tz.fromLocal_ambiguous hlocal).1⟩
    · obtain hnil | ⟨u, hu, hlow, hhigh, hrange⟩ := ih h
      · exact .inl hnil
      · exact .inr ⟨u, hu, by linarith, by linarith, hrange⟩

/-- The occurrences are in order. -/
theorem occurrences_sorted {us : List DateTime} (h : occurrences tz date time = .ok us) :
    us.Pairwise (· < ·) := by
  unfold occurrences at h
  split at h
  · cases h
    exact List.pairwise_singleton _ _
  · rename_i hlocal
    cases h
    exact List.pairwise_pair.mpr (Tz.fromLocal_ambiguous hlocal).2.2
  · obtain rfl | ⟨u, rfl, -⟩ := shiftedOccurrence_cases h
    · exact List.Pairwise.nil
    · exact List.pairwise_singleton _ _

/-- An occurrence reads its time of day, or it is a shift out of a gap. -/
theorem Occurs.cases (h : Occurs tz date time u) : tz.toLocal u = andTime date time ∨
    andTime date time ≤ tz.toLocal u ∧ tz.toLocal u ≤ andTime date time + 2 * nanosPerHour ∧
      tz.toLocal u ≤ maxUtc := by
  obtain ⟨us, hus, hu⟩ := h
  unfold occurrences at hus
  split at hus
  · rename_i hlocal
    cases hus
    rw [List.mem_singleton.mp hu]
    exact .inl (Tz.fromLocal_single hlocal)
  · rename_i earliest latest hlocal
    obtain ⟨hearliest, hlatest, -⟩ := Tz.fromLocal_ambiguous hlocal
    cases hus
    rcases List.mem_pair.mp hu with rfl | rfl
    · exact .inl hearliest
    · exact .inl hlatest
  · obtain rfl | ⟨v, rfl, hshift⟩ := shiftedOccurrence_cases hus
    · cases hu
    · have hhours : ((8 : ℕ) : ℤ) * (15 * nanosPerMinute) = 2 * nanosPerHour := by decide
      rw [hhours] at hshift
      rw [List.mem_singleton.mp hu]
      exact .inr hshift

/-- The occurrences of a date read local times within two hours of its time of day. -/
theorem Occurs.bounds (h : Occurs tz date time u) :
    andTime date time ≤ tz.toLocal u ∧
      tz.toLocal u ≤ andTime date time + 2 * nanosPerHour := by
  have hpos : 0 < nanosPerHour := by decide
  rcases h.cases with hread | ⟨hlow, hhigh, -⟩
  · constructor <;> linarith
  · exact ⟨hlow, hhigh⟩

/-- The local date of an occurrence is its date or the next one. -/
theorem Occurs.dateOf_toLocal (h : Occurs tz date time u) (htime : 0 ≤ time)
    (hday : time < nanosPerDay) :
    date ≤ dateOf (tz.toLocal u) ∧ dateOf (tz.toLocal u) ≤ date + 1 := by
  obtain ⟨hlow, hhigh⟩ := h.bounds
  have hhours : 2 * nanosPerHour ≤ nanosPerDay := by decide
  unfold andTime at hlow hhigh
  constructor
  · exact (Int.le_ediv_iff_mul_le (by decide)).mpr (by linarith)
  · refine Int.lt_add_one_iff.mp (Int.ediv_lt_of_lt_mul (by decide) ?_)
    linarith

/-- A time of day on a date is on that date. -/
theorem dateOf_andTime (htime : 0 ≤ time) (hday : time < nanosPerDay) :
    dateOf (andTime date time) = date := by
  have h : (date * nanosPerDay + time) / nanosPerDay = date + time / nanosPerDay := by
    rw [Int.add_comm, Int.add_mul_ediv_right _ _ (by decide), Int.add_comm]
  rw [dateOf, andTime, h, Int.ediv_eq_zero_of_lt htime hday, add_zero]

/-- An occurrence of a representable date is on one. -/
theorem Occurs.dateOf_le (h : Occurs tz date time u) (htime : 0 ≤ time)
    (hday : time < nanosPerDay) (hmax : date ≤ maxDate) : dateOf (tz.toLocal u) ≤ maxDate := by
  rcases h.cases with hread | ⟨-, -, hle⟩
  · rwa [hread, dateOf_andTime htime hday]
  · refine Int.lt_add_one_iff.mp (Int.ediv_lt_of_lt_mul (by decide) ?_)
    have hpos : 0 < nanosPerDay := by decide
    unfold maxUtc at hle
    linarith

/-- If there are two, the local time is repeated, and they are its two passes. -/
theorem Occurs.pair {w : DateTime} (hw : Occurs tz date time w) (hu : Occurs tz date time u)
    (hlt : w < u) : tz.fromLocal (andTime date time) = .ambiguous w u := by
  obtain ⟨us, hus, hw⟩ := hw
  obtain ⟨us', hus', hu⟩ := hu
  rw [hus] at hus'
  cases hus'
  unfold occurrences at hus
  split at hus
  · cases hus
    rw [List.mem_singleton.mp hw, List.mem_singleton.mp hu] at hlt
    exact absurd hlt (lt_irrefl _)
  · rename_i earliest latest hlocal
    have hpasses := (Tz.fromLocal_ambiguous hlocal).2.2
    cases hus
    rcases List.mem_pair.mp hw with rfl | rfl <;> rcases List.mem_pair.mp hu with rfl | rfl
    · exact absurd hlt (lt_irrefl _)
    · exact hlocal
    · exact absurd hlt (not_lt.mpr (le_of_lt hpasses))
    · exact absurd hlt (lt_irrefl _)
  · obtain rfl | ⟨v, rfl, -⟩ := shiftedOccurrence_cases hus
    · cases hw
    · rw [List.mem_singleton.mp hw, List.mem_singleton.mp hu] at hlt
      exact absurd hlt (lt_irrefl _)

/-- An instant that reads a local time within a few hours of an occurrence is no occurrence
    of another date. -/
theorem Occurs.date_eq {date' : NaiveDate} {v : DateTime} (h : Occurs tz date time u)
    (h' : Occurs tz date' time v) (hle : tz.toLocal u < tz.toLocal v + 22 * nanosPerHour)
    (hge : tz.toLocal v < tz.toLocal u + 22 * nanosPerHour) : date = date' := by
  obtain ⟨hlow, hhigh⟩ := h.bounds
  obtain ⟨hlow', hhigh'⟩ := h'.bounds
  unfold andTime at hlow hhigh hlow' hhigh'
  have hday : nanosPerDay = 24 * nanosPerHour := rfl
  have hlt : date * nanosPerDay < (date' + 1) * nanosPerDay := by linarith
  have hgt : date' * nanosPerDay < (date + 1) * nanosPerDay := by linarith
  have hle : date ≤ date' := Int.lt_add_one_iff.mp (lt_of_mul_lt_mul_right hlt (by decide))
  have hge : date' ≤ date := Int.lt_add_one_iff.mp (lt_of_mul_lt_mul_right hgt (by decide))
  exact le_antisymm hle hge

/-! ## `resolve_candidate` gives the first occurrence after `after` -/

theorem shiftForward_eq (tz : Tz) (after : DateTime) (rounds : ℕ) (shifted : NaiveDateTime) :
    shiftForward tz after rounds shifted =
      (shiftedOccurrence tz rounds shifted).map (List.find? (fun u => after < u)) := by
  induction rounds generalizing shifted with
  | zero => rfl
  | succ rounds ih =>
    rw [shiftForward, shiftedOccurrence]
    cases addDelta shifted (15 * nanosPerMinute) with
    | error e => rfl
    | ok shifted' =>
      show (match tz.fromLocal shifted' with
        | .single utc => Except.ok (if utc > after then some utc else none)
        | .ambiguous utc _ => .ok (if utc > after then some utc else none)
        | .none => shiftForward tz after rounds shifted') =
        (match tz.fromLocal shifted' with
        | .single u => Except.ok [u]
        | .ambiguous earliest _ => .ok [earliest]
        | .none => shiftedOccurrence tz rounds shifted').map _
      cases tz.fromLocal shifted' with
      | single u => by_cases hu : after < u <;> simp [Except.map, hu]
      | ambiguous e l => by_cases he : after < e <;> simp [Except.map, he]
      | none => exact ih shifted'

theorem resolveCandidate_eq (tz : Tz) (date : NaiveDate) (time : NaiveTime) (after : DateTime) :
    resolveCandidate tz date time after =
      (occurrences tz date time).map (List.find? (fun u => after < u)) := by
  rw [resolveCandidate, occurrences]
  cases tz.fromLocal (andTime date time) with
  | single u => by_cases hu : after < u <;> simp [Except.map, hu]
  | ambiguous e l =>
    by_cases he : after < e <;> by_cases hl : after < l <;> simp [Except.map, he, hl]
  | none => exact shiftForward_eq tz after 8 _

theorem find?_after_eq_some {us : List DateTime} (hs : us.Pairwise (· < ·)) :
    us.find? (fun u => after < u) = some u ↔ u ∈ us ∧ after < u ∧ ∀ w ∈ us, after < w → u ≤ w := by
  induction us with
  | nil => simp
  | cons v us ih =>
    obtain ⟨hv, hs⟩ := List.pairwise_cons.mp hs
    by_cases hlt : after < v
    · rw [List.find?_cons_of_pos (by simpa using hlt)]
      constructor
      · intro h
        cases h
        refine ⟨List.mem_cons_self, hlt, fun w hw _ => ?_⟩
        rcases List.mem_cons.mp hw with rfl | hw
        · exact le_rfl
        · exact le_of_lt (hv w hw)
      · rintro ⟨hu, -, hleast⟩
        rcases List.mem_cons.mp hu with rfl | hu
        · rfl
        · exact absurd (hleast v List.mem_cons_self hlt) (not_le.mpr (hv u hu))
    · rw [List.find?_cons_of_neg (by simpa using hlt), ih hs]
      constructor
      · rintro ⟨hu, hafter, hleast⟩
        refine ⟨List.mem_cons_of_mem v hu, hafter, fun w hw hw' => ?_⟩
        rcases List.mem_cons.mp hw with rfl | hw
        · exact absurd hw' hlt
        · exact hleast w hw hw'
      · rintro ⟨hu, hafter, hleast⟩
        rcases List.mem_cons.mp hu with rfl | hu
        · exact absurd hafter hlt
        · exact ⟨hu, hafter, fun w hw hw' => hleast w (List.mem_cons_of_mem v hw) hw'⟩

theorem resolveCandidate_some_iff : resolveCandidate tz date time after = .ok (some u) ↔
    Occurs tz date time u ∧ after < u ∧ ∀ w, Occurs tz date time w → after < w → u ≤ w := by
  rw [resolveCandidate_eq]
  cases hus : occurrences tz date time with
  | error e =>
    constructor
    · intro h
      cases h
    · rintro ⟨⟨us, hus', -⟩, -⟩
      rw [hus] at hus'
      cases hus'
  | ok us =>
    have hmem : ∀ w, Occurs tz date time w ↔ w ∈ us := by
      intro w
      rw [Occurs, hus]
      constructor
      · rintro ⟨us', hus', hw⟩
        cases hus'
        exact hw
      · intro hw
        exact ⟨us, rfl, hw⟩
    simp only [hmem]
    rw [← find?_after_eq_some (occurrences_sorted hus), Except.map, Except.ok.injEq]

theorem resolveCandidate_none_iff : resolveCandidate tz date time after = .ok none ↔
    (∃ us, occurrences tz date time = .ok us) ∧ ∀ w, Occurs tz date time w → w ≤ after := by
  rw [resolveCandidate_eq]
  cases hus : occurrences tz date time with
  | error e =>
    constructor
    · intro h
      cases h
    · rintro ⟨⟨us, hus'⟩, -⟩
      cases hus'
  | ok us =>
    rw [Except.map, Except.ok.injEq, List.find?_eq_none]
    constructor
    · intro hnone
      refine ⟨⟨us, rfl⟩, ?_⟩
      rintro w ⟨us', hus', hw⟩
      rw [hus] at hus'
      cases hus'
      simpa using hnone w hw
    · rintro ⟨-, hall⟩ w hw
      simpa using hall w ⟨us, hus, hw⟩

/-- On a representable date before the last, the shifts stay in the range of `chrono`. -/
theorem occurrences_ok (hmin : minDate ≤ date) (hmax : date < maxDate) (htime : 0 ≤ time)
    (hday : time < nanosPerDay) : ∃ us, occurrences tz date time = .ok us := by
  have hshift : ∀ (rounds : ℕ) (shifted : NaiveDateTime), andTime date time ≤ shifted →
      shifted + rounds * (15 * nanosPerMinute) ≤ andTime date time + 8 * (15 * nanosPerMinute) →
      ∃ us, shiftedOccurrence tz rounds shifted = .ok us := by
    intro rounds
    induction rounds with
    | zero => exact fun _ _ _ => ⟨[], rfl⟩
    | succ rounds ih =>
      intro shifted hlow hhigh
      have hpos : 0 < 15 * nanosPerMinute := by decide
      have hrounds : (0 : ℤ) ≤ rounds * (15 * nanosPerMinute) :=
        Int.mul_nonneg (Int.natCast_nonneg rounds) (le_of_lt hpos)
      push_cast at hhigh
      rw [Int.add_mul, one_mul] at hhigh
      have hadd : addDelta shifted (15 * nanosPerMinute) = .ok (shifted + 15 * nanosPerMinute) := by
        have hmin' := Int.mul_le_mul_of_nonneg_right hmin (by decide : 0 ≤ nanosPerDay)
        have hmax' := Int.mul_le_mul_of_nonneg_right (Int.add_one_le_of_lt hmax)
          (by decide : 0 ≤ nanosPerDay)
        have htwo : 8 * (15 * nanosPerMinute) ≤ nanosPerDay - 1 := by decide
        unfold andTime at hlow hhigh
        rw [addDelta, if_pos]
        unfold minUtc maxUtc
        constructor <;> linarith
      rw [shiftedOccurrence, hadd]
      show ∃ us, (match tz.fromLocal (shifted + 15 * nanosPerMinute) with
        | .single u => Except.ok [u]
        | .ambiguous earliest _ => .ok [earliest]
        | .none => shiftedOccurrence tz rounds (shifted + 15 * nanosPerMinute)) = .ok us
      split
      · exact ⟨_, rfl⟩
      · exact ⟨_, rfl⟩
      · exact ih _ (by linarith) (by linarith)
  unfold occurrences
  split
  · exact ⟨_, rfl⟩
  · exact ⟨_, rfl⟩
  · exact hshift 8 _ le_rfl le_rfl

/-! ## The first date that gives a time -/

theorem weekday_sub_seven (date : NaiveDate) : weekday (date - 7) = weekday date := by
  have h : (date - 7 + 3) % 7 = (date + 3) % 7 := by
    rw [sub_add_eq_add_sub, Int.sub_emod_right]
  unfold weekday
  rw [h]

/-- The search, with the date that it stops at. -/
def searchDates (candidate : ℕ → NaiveDate → Rust (Option DateTime)) : (rounds : ℕ) →
    (day : ℕ) → NaiveDate → Rust (Option (NaiveDate × DateTime))
  | 0, _, _ => .ok none
  | rounds + 1, day, date => do
    match ← candidate day date with
    | some utc => .ok (some (date, utc))
    | none =>
      match succOpt date with
      | none => .ok none
      | some date => searchDates candidate rounds (day + 1) date

section Dates

variable {candidate : ℕ → NaiveDate → Rust (Option DateTime)} {x : DateTime} {rounds day : ℕ}

theorem searchDays_eq : searchDays candidate rounds day date =
    (searchDates candidate rounds day date).map (Option.map Prod.snd) := by
  induction rounds generalizing day date with
  | zero => rfl
  | succ rounds ih =>
    rw [searchDays, searchDates]
    cases candidate day date with
    | error e => rfl
    | ok r =>
      cases r with
      | some utc => rfl
      | none =>
        show (match succOpt date with
          | none => Except.ok none
          | some date => searchDays candidate rounds (day + 1) date) =
          (match succOpt date with
          | none => Except.ok none
          | some date => searchDates candidate rounds (day + 1) date).map (Option.map Prod.snd)
        cases succOpt date with
        | none => rfl
        | some date => exact ih

/-- What one round of the search does. -/
theorem searchDates_succ {d : NaiveDate} :
    searchDates candidate (rounds + 1) day date = .ok (some (d, x)) ↔
      (d = date ∧ candidate day date = .ok (some x)) ∨
      candidate day date = .ok none ∧ date < maxDate ∧
        searchDates candidate rounds (day + 1) (date + 1) = .ok (some (d, x)) := by
  rw [searchDates]
  cases hc : candidate day date with
  | error e =>
    constructor
    · intro h
      cases h
    · rintro (⟨-, h⟩ | ⟨h, -⟩) <;> cases h
  | ok r =>
    cases r with
    | some utc =>
      constructor
      · intro h
        cases h
        exact .inl ⟨rfl, rfl⟩
      · rintro (⟨rfl, h⟩ | ⟨h, -⟩)
        · cases h
          rfl
        · cases h
    | none =>
      show (match succOpt date with
        | none => Except.ok none
        | some date => searchDates candidate rounds (day + 1) date) = _ ↔ _
      by_cases hmax : date < maxDate
      · rw [succOpt, if_pos hmax]
        constructor
        · exact fun h => .inr ⟨rfl, hmax, h⟩
        · rintro (⟨-, h⟩ | ⟨-, -, h⟩)
          · cases h
          · exact h
      · rw [succOpt, if_neg hmax]
        constructor
        · intro h
          cases h
        · rintro (⟨-, h⟩ | ⟨-, h, -⟩)
          · cases h
          · exact absurd h hmax

/-- The search stops at a date exactly if it gives a time and the dates before give none. -/
theorem searchDates_some_iff {d : NaiveDate} :
    searchDates candidate rounds day date = .ok (some (d, x)) ↔
      ∃ j < rounds, d = date + j ∧
        (∀ i < j, candidate (day + i) (date + i) = .ok none ∧ date + i < maxDate) ∧
        candidate (day + j) (date + j) = .ok (some x) := by
  induction rounds generalizing day date with
  | zero =>
    constructor
    · intro h
      cases h
    · rintro ⟨j, hj, -⟩
      cases hj
  | succ rounds ih =>
    have hday : ∀ i : ℕ, day + 1 + i = day + (i + 1) := fun i => by omega
    have hdate : ∀ i : ℕ, date + 1 + (i : ℤ) = date + (i + 1 : ℕ) := by
      intro i
      push_cast
      linarith
    have hzero : date + ((0 : ℕ) : ℤ) = date := by simp
    rw [searchDates_succ, ih]
    simp only [hday, hdate]
    constructor
    · rintro (⟨rfl, hfirst⟩ | ⟨hfirst, hmax, j, hj, hd, hnone, hsome⟩)
      · refine ⟨0, Nat.succ_pos rounds, hzero.symm, fun i hi => absurd hi (Nat.not_lt_zero i), ?_⟩
        rwa [hzero]
      · refine ⟨j + 1, by omega, hd, fun i hi => ?_, hsome⟩
        cases i with
        | zero =>
          rw [hzero]
          exact ⟨hfirst, hmax⟩
        | succ i => exact hnone i (by omega)
    · rintro ⟨j, hj, hd, hnone, hsome⟩
      cases j with
      | zero =>
        rw [hzero] at hd hsome
        exact .inl ⟨hd, hsome⟩
      | succ j =>
        have hfirst := hnone 0 (Nat.succ_pos j)
        rw [hzero] at hfirst
        exact .inr ⟨hfirst.1, hfirst.2, j, by omega, hd, fun i hi => hnone (i + 1) (by omega),
          hsome⟩

/-- The search gives the time of a date exactly if the dates before give none. -/
theorem searchDays_some_iff : searchDays candidate rounds day date = .ok (some x) ↔
      ∃ j < rounds, (∀ i < j, candidate (day + i) (date + i) = .ok none ∧ date + i < maxDate) ∧
        candidate (day + j) (date + j) = .ok (some x) := by
  have hdated : searchDays candidate rounds day date = .ok (some x) ↔
      ∃ d, searchDates candidate rounds day date = .ok (some (d, x)) := by
    rw [searchDays_eq]
    cases searchDates candidate rounds day date with
    | error e => simp [Except.map]
    | ok r =>
      cases r with
      | none => simp [Except.map]
      | some p => simp [Except.map, Prod.ext_iff]
  rw [hdated]
  simp only [searchDates_some_iff]
  constructor
  · rintro ⟨d, j, hj, -, h⟩
    exact ⟨j, hj, h⟩
  · rintro ⟨j, hj, h⟩
    exact ⟨_, j, hj, rfl, h⟩

end Dates

end EasyJob.Scheduler
