import EasyJob.Scheduler.CronNext
import EasyJob.Scheduler.DaySearch

/-!
# Daily and Weekly triggers, fire after fire

After each fire, the scheduler evaluates the trigger from the time it has fired at.
`firings` are the times that follow one another in this way. A date is due if it is listed
and after the start, or if it is that of the start and its time of day is still to come.

* `fires_once_iff`: every due date has exactly one firing if and only if its time of day
  stands for exactly one instant after the start: it is not repeated, and where it is
  skipped, it is shifted to a time that exists. Nothing else fires.
* `daily_fires_twice`: in New York, a trigger at 01:30 fires at both passes of 01:30.
-/

namespace EasyJob.Scheduler

open EasyJob.Chrono EasyJob.Domain

/-! ## Calendars -/

/-- What a Daily or Weekly trigger fires by: the dates that it lists, which repeat after
    `period` days, and the number of dates that one evaluation looks at. -/
structure Calendar where
  listed : NaiveDate → Bool
  time : NaiveTime
  timezone : String
  period : ℕ
  rounds : ℕ
  period_pos : 0 < period
  period_lt : period < rounds
  repeats : ∀ date, listed (date - period) = listed date

def Calendar.daily (time : NaiveTime) (timezone : String) : Calendar where
  listed _ := true
  time := time
  timezone := timezone
  period := 1
  rounds := 4
  period_pos := by decide
  period_lt := by decide
  repeats _ := rfl

def Calendar.weekly (daysOfWeek : List Weekday) (time : NaiveTime) (timezone : String) :
    Calendar where
  listed date := daysOfWeek.contains (weekday date)
  time := time
  timezone := timezone
  period := 7
  rounds := 14
  period_pos := by decide
  period_lt := by decide
  repeats date := by rw [Nat.cast_ofNat, weekday_sub_seven]

/-- The calendar of a Daily or Weekly trigger. -/
def calendarOf : TriggerKind → Option Calendar
  | .Daily time timezone => some (.daily time timezone)
  | .Weekly daysOfWeek time timezone => some (.weekly daysOfWeek time timezone)
  | _ => none

variable {env : Env} {kind : TriggerKind} {c : Calendar} {tz : Tz} {draws : ℕ → ℕ}

/-- An evaluation gives the time of the first listed date that has one after `after`. -/
theorem evaluate_calendar_iff (hc : calendarOf kind = some c) (htz : env.zone c.timezone = tz)
    {after u : DateTime} :
    evaluateNextOccurrence env kind after draws = .ok (some u) ↔
      ∃ j < c.rounds,
        (∀ i < j, (c.listed (dateOf (tz.toLocal after) + i) = true →
            resolveCandidate tz (dateOf (tz.toLocal after) + i) c.time after = .ok none) ∧
          dateOf (tz.toLocal after) + i < maxDate) ∧
        c.listed (dateOf (tz.toLocal after) + j) = true ∧
        resolveCandidate tz (dateOf (tz.toLocal after) + j) c.time after = .ok (some u) := by
  subst htz
  cases kind with
  | Daily time timezone =>
    cases hc
    rw [evaluateNextOccurrence, searchDays_some_iff]
    simp [Calendar.daily]
  | Weekly daysOfWeek time timezone =>
    cases hc
    rw [evaluateNextOccurrence]
    have hcandidate : ∀ (p : Prop) [Decidable p] (r : Rust (Option DateTime)),
        ((if p then r else .ok none) = .ok none ↔ (p → r = .ok none)) ∧
        ((if p then r else .ok none) = .ok (some u) ↔ p ∧ r = .ok (some u)) := by
      intro p _ r
      by_cases hp : p <;> simp [hp]
    split_ifs with hempty
    · constructor
      · intro h
        cases h
      · rintro ⟨j, -, -, hlisted, -⟩
        rw [List.isEmpty_iff.mp hempty] at hlisted
        cases hlisted
    · dsimp only
      rw [searchDays_some_iff]
      simp only [(hcandidate _ _).1, (hcandidate _ _).2]
      rfl
  | _ => cases hc

/-- If the listed dates before `date` give nothing, the evaluation gives its time. -/
theorem evaluate_of_date (hc : calendarOf kind = some c) (htz : env.zone c.timezone = tz)
    {after u : DateTime} {date : NaiveDate} (hle : dateOf (tz.toLocal after) ≤ date)
    (hnear : date ≤ dateOf (tz.toLocal after) + c.period) (hmax : date ≤ maxDate)
    (hlisted : c.listed date = true)
    (hnone : ∀ d, dateOf (tz.toLocal after) ≤ d → d < date → c.listed d = true →
      resolveCandidate tz d c.time after = .ok none)
    (hsome : resolveCandidate tz date c.time after = .ok (some u)) :
    evaluateNextOccurrence env kind after draws = .ok (some u) := by
  obtain ⟨j, hj⟩ := Int.eq_ofNat_of_zero_le (sub_nonneg.mpr hle)
  have hdate : date = dateOf (tz.toLocal after) + j := by linarith
  have hperiod := c.period_lt
  have hj' : j ≤ c.period := by
    have h : (j : ℤ) ≤ c.period := by linarith
    exact_mod_cast h
  subst hdate
  refine (evaluate_calendar_iff hc htz).mpr ⟨j, by omega, fun i hi => ?_, hlisted, hsome⟩
  have hi' : (i : ℤ) < j := by exact_mod_cast hi
  have hlow : dateOf (tz.toLocal after) ≤ dateOf (tz.toLocal after) + i := by linarith
  exact ⟨hnone _ hlow (by linarith), by linarith⟩

theorem fitsI64_of_calendar (hc : calendarOf kind = some c) : FitsI64 kind := by
  cases kind with
  | Interval secs startAt => cases hc
  | _ => trivial

/-! ## Firings -/

/-- The times a trigger fires at when each evaluation starts from the time before; the
    first one is where it starts. -/
def firings (env : Env) (kind : TriggerKind) (draws : ℕ → ℕ) (start : DateTime) :
    ℕ → Rust (Option DateTime)
  | 0 => .ok (some start)
  | k + 1 => do
    match ← firings env kind draws start k with
    | none => .ok none
    | some after => evaluateNextOccurrence env kind after draws

/-- The trigger fires at `u` after it has fired `k` times. -/
def FiresAt (env : Env) (kind : TriggerKind) (draws : ℕ → ℕ) (start : DateTime) (k : ℕ)
    (u : DateTime) : Prop :=
  firings env kind draws start (k + 1) = .ok (some u)

/-- The listed dates after the start, and that of the start if its time is still to come. -/
def Due (tz : Tz) (c : Calendar) (start : DateTime) (date : NaiveDate) : Prop :=
  c.listed date = true ∧ date ≤ maxDate ∧
    (dateOf (tz.toLocal start) < date ∨
      date = dateOf (tz.toLocal start) ∧ ∃ u, Occurs tz date c.time u ∧ start < u)

section Firings

variable {start : DateTime}

theorem firings_succ {k : ℕ} {u : DateTime} :
    firings env kind draws start (k + 1) = .ok (some u) ↔
      ∃ after, firings env kind draws start k = .ok (some after) ∧
        evaluateNextOccurrence env kind after draws = .ok (some u) := by
  rw [firings]
  constructor
  · intro h
    obtain ⟨r, hr, h⟩ := rust_bind_ok h
    cases r with
    | none => cases h
    | some after => exact ⟨after, hr, h⟩
  · rintro ⟨after, hafter, h⟩
    rw [hafter]
    exact h

/-- Each firing is later than the ones before and than the start. -/
theorem firings_lt (hc : calendarOf kind = some c) {j k : ℕ} {u v : DateTime}
    (hu : firings env kind draws start j = .ok (some u))
    (hv : firings env kind draws start k = .ok (some v)) (hjk : j < k) : u < v := by
  induction k generalizing v with
  | zero => exact absurd hjk (Nat.not_lt_zero j)
  | succ k ih =>
    obtain ⟨after, hafter, h⟩ := firings_succ.mp hv
    have hlt := evaluateNextOccurrence_gt (fitsI64_of_calendar hc) h
    rcases Nat.lt_or_eq_of_le (Nat.le_of_lt_succ hjk) with hlt' | rfl
    · exact lt_trans (ih hafter hlt') hlt
    · rw [hu] at hafter
      cases hafter
      exact hlt

theorem FiresAt.start_lt (hc : calendarOf kind = some c) {k : ℕ} {u : DateTime}
    (h : FiresAt env kind draws start k u) : start < u :=
  firings_lt hc rfl h (Nat.succ_pos k)

theorem Due.of_lt {date : NaiveDate} (hlisted : c.listed date = true) (hmax : date ≤ maxDate)
    (hlt : dateOf (tz.toLocal start) < date) : Due tz c start date :=
  ⟨hlisted, hmax, .inl hlt⟩

theorem Due.le {date : NaiveDate} (h : Due tz c start date) :
    dateOf (tz.toLocal start) ≤ date := by
  obtain ⟨-, -, hlt | ⟨rfl, -⟩⟩ := h
  · exact le_of_lt hlt
  · exact le_rfl

end Firings

/-! ## One instant for each date -/

section Once

variable {start : DateTime} (hc : calendarOf kind = some c) (htz : env.zone c.timezone = tz)
  (htime : 0 ≤ c.time) (hday : c.time < nanosPerDay) (hmin : minDate ≤ dateOf (tz.toLocal start))
  (honce : ∀ date, Due tz c start date → ∃! u, Occurs tz date c.time u ∧ start < u)
include hc htz htime hday hmin honce

/-- From a time at which every listed date before `date` is over, `date` fires next. -/
theorem fires_next {k : ℕ} {after u : DateTime} {date : NaiveDate}
    (hk : firings env kind draws start k = .ok (some after)) (hafter : start ≤ after)
    (hdue : Due tz c start date) (hu : Occurs tz date c.time u) (hlt : after < u)
    (hle : dateOf (tz.toLocal after) ≤ date)
    (hnear : date ≤ dateOf (tz.toLocal after) + c.period)
    (hpast : ∀ d, dateOf (tz.toLocal after) ≤ d → d < date → c.listed d = true →
      dateOf (tz.toLocal start) ≤ d ∧ ∀ w, Occurs tz d c.time w → w ≤ after) :
    FiresAt env kind draws start k u := by
  refine firings_succ.mpr ⟨after, hk, ?_⟩
  refine evaluate_of_date hc htz hle hnear hdue.2.1 hdue.1 ?_ ?_
  · intro d hd hd' hlisted
    obtain ⟨hge, hall⟩ := hpast d hd hd' hlisted
    refine resolveCandidate_none_iff.mpr ⟨occurrences_ok ?_ ?_ htime hday, hall⟩
    · exact le_trans hmin hge
    · exact lt_of_lt_of_le hd' hdue.2.1
  · refine resolveCandidate_some_iff.mpr ⟨hu, hlt, fun w hw hw' => ?_⟩
    have hsame := (honce date hdue).unique ⟨hu, lt_of_le_of_lt hafter hlt⟩
      ⟨hw, lt_of_le_of_lt hafter hw'⟩
    exact le_of_eq hsame

/-- Every due date has a firing: it follows that of the due date before, or the start. -/
theorem fires_of_due (hback : ∀ u v, u ≤ v → tz.toLocal u < tz.toLocal v + 22 * nanosPerHour)
    {date : NaiveDate} (hdue : Due tz c start date) :
    ∃ k u, FiresAt env kind draws start k u ∧ Occurs tz date c.time u := by
  induction hn : (date - dateOf (tz.toLocal start)).toNat using Nat.strong_induction_on
    generalizing date with
  | _ n ih =>
  obtain ⟨u, ⟨hu, hafter⟩, -⟩ := honce date hdue
  have hmax := hdue.2.1
  by_cases hprev : ∃ d, Due tz c start d ∧ d < date
  · -- the due date before
    obtain ⟨d, ⟨hd, hlt⟩, hgreatest⟩ :=
      Int.exists_greatest_of_bdd ⟨date, fun d' h => le_of_lt h.2⟩ hprev
    have hge := hd.le
    have hmeasure : (d - dateOf (tz.toLocal start)).toNat < n := by
      rw [← hn]
      exact (Int.toNat_lt_toNat (by linarith)).mpr (by linarith)
    obtain ⟨k, v, hfires, hv⟩ := ih _ hmeasure hd rfl
    have hstart := hfires.start_lt hc
    obtain ⟨hlow, hhigh⟩ := hv.dateOf_toLocal htime hday
    have hnotDue : ∀ d', d < d' → d' < date → c.listed d' = true → False := by
      intro d' hd' hd'' hlisted
      have hdue' := Due.of_lt hlisted (by linarith) (lt_of_le_of_lt hge hd')
      exact absurd (hgreatest d' ⟨hdue', hd''⟩) (not_le.mpr hd')
    refine ⟨k + 1, u, fires_next hc htz htime hday hmin honce hfires (le_of_lt hstart) hdue hu
      ?_ (le_trans hhigh (Int.add_one_le_of_lt hlt)) ?_ ?_, hu⟩
    · -- the occurrences of different dates are hours apart
      by_contra hle
      have hreads := hback u v (not_lt.mp hle)
      obtain ⟨hlow', -⟩ := hu.bounds
      obtain ⟨-, hhigh'⟩ := hv.bounds
      have hnext := Int.mul_le_mul_of_nonneg_right (Int.add_one_le_of_lt hlt)
        (by decide : 0 ≤ nanosPerDay)
      have hhours : nanosPerDay = 24 * nanosPerHour := rfl
      unfold andTime at hlow' hhigh'
      linarith
    · by_contra hfar
      refine hnotDue (date - c.period) ?_ ?_ ?_
      · linarith
      · have hpos : (0 : ℤ) < c.period := by exact_mod_cast c.period_pos
        linarith
      · rw [c.repeats]
        exact hdue.1
    · intro d' hd' hd'' hlisted
      rcases lt_or_eq_of_le (le_trans hlow hd') with hlt' | rfl
      · exact (hnotDue d' hlt' hd'' hlisted).elim
      · refine ⟨hge, fun w hw => ?_⟩
        by_contra hw'
        have hsame := (honce d hd).unique ⟨hv, hstart⟩ ⟨hw, lt_trans hstart (not_le.mp hw')⟩
        exact hw' (le_of_eq hsame.symm)
  · have hnotDue : ∀ d', Due tz c start d' → d' < date → False :=
      fun d' hd' hlt => hprev ⟨d', hd', hlt⟩
    refine ⟨0, u, fires_next hc htz htime hday hmin honce rfl le_rfl hdue hu hafter hdue.le
      ?_ ?_, hu⟩
    · by_contra hfar
      have hpos : (0 : ℤ) < c.period := by exact_mod_cast c.period_pos
      have hlisted : c.listed (date - c.period) = true := by
        rw [c.repeats]
        exact hdue.1
      exact hnotDue _ (Due.of_lt hlisted (by linarith) (by linarith)) (by linarith)
    · intro d' hd' hd'' hlisted
      refine ⟨hd', fun w hw => ?_⟩
      by_contra hw'
      refine hnotDue d' ?_ hd''
      rcases lt_or_eq_of_le hd' with hlt | rfl
      · exact Due.of_lt hlisted (by linarith) hlt
      · exact ⟨hlisted, by linarith, .inr ⟨rfl, w, hw, not_le.mp hw'⟩⟩

end Once

/-! ## What fires -/

section Only

variable {start : DateTime} (hc : calendarOf kind = some c) (htz : env.zone c.timezone = tz)
include hc htz

/-- What an evaluation gives is the first occurrence after `after` of a listed date. -/
theorem evaluate_occurs {after u : DateTime}
    (h : evaluateNextOccurrence env kind after draws = .ok (some u)) :
    ∃ date, dateOf (tz.toLocal after) ≤ date ∧
      (dateOf (tz.toLocal after) ≤ maxDate → date ≤ maxDate) ∧ c.listed date = true ∧
      Occurs tz date c.time u ∧ ∀ w, Occurs tz date c.time w → after < w → u ≤ w := by
  obtain ⟨j, -, hbefore, hlisted, hsome⟩ := (evaluate_calendar_iff hc htz).mp h
  obtain ⟨hu, -, hleast⟩ := resolveCandidate_some_iff.mp hsome
  refine ⟨_, Int.le_add_of_nonneg_right (Int.natCast_nonneg j), fun hmax => ?_, hlisted, hu, hleast⟩
  cases j with
  | zero => simpa using hmax
  | succ j =>
    have hlt := (hbefore j (Nat.lt_succ_self j)).2
    rw [Nat.cast_succ, ← add_assoc]
    exact Int.add_one_le_of_lt hlt

/-- Only due dates fire. -/
theorem FiresAt.due (htime : 0 ≤ c.time) (hday : c.time < nanosPerDay)
    (hmax : dateOf (tz.toLocal start) ≤ maxDate) {k : ℕ} {u : DateTime}
    (h : FiresAt env kind draws start k u) :
    ∃ date, Due tz c start date ∧ Occurs tz date c.time u := by
  -- the local date does not go back from one firing to the next
  have hlate : ∀ {k after}, firings env kind draws start k = .ok (some after) →
      dateOf (tz.toLocal start) ≤ dateOf (tz.toLocal after) ∧
        dateOf (tz.toLocal after) ≤ maxDate := by
    intro k
    induction k with
    | zero =>
      intro after hk
      cases hk
      exact ⟨le_rfl, hmax⟩
    | succ k ih =>
      intro u hk
      obtain ⟨after, hafter, hsome⟩ := firings_succ.mp hk
      obtain ⟨hlow, hhigh⟩ := ih hafter
      obtain ⟨date, hge, hle, -, hu, -⟩ := evaluate_occurs hc htz hsome
      exact ⟨le_trans hlow (le_trans hge (hu.dateOf_toLocal htime hday).1),
        hu.dateOf_le htime hday (hle hhigh)⟩
  obtain ⟨after, hafter, hsome⟩ := firings_succ.mp h
  obtain ⟨hlow, hhigh⟩ := hlate hafter
  obtain ⟨date, hge, hle, hlisted, hu, -⟩ := evaluate_occurs hc htz hsome
  refine ⟨date, ⟨hlisted, hle hhigh, ?_⟩, hu⟩
  rcases lt_or_eq_of_le (le_trans hlow hge) with hlt | heq
  · exact .inl hlt
  · exact .inr ⟨heq.symm, u, hu, h.start_lt hc⟩

/-- After the first pass of a repeated local time, the trigger fires at the second. -/
theorem FiresAt.second_pass (htime : 0 ≤ c.time) (hday : c.time < nanosPerDay) {k : ℕ}
    {u w : DateTime} {date : NaiveDate} (h : FiresAt env kind draws start k u)
    (hdue : Due tz c start date)
    (hlocal : tz.fromLocal (andTime date c.time) = .ambiguous u w) :
    FiresAt env kind draws start (k + 1) w := by
  obtain ⟨hread, -, hlt⟩ := Tz.fromLocal_ambiguous hlocal
  have hdate : dateOf (tz.toLocal u) = date := by
    rw [hread, dateOf_andTime htime hday]
  refine firings_succ.mpr ⟨u, h, evaluate_of_date hc htz (le_of_eq hdate) ?_ hdue.2.1 hdue.1 ?_ ?_⟩
  · rw [hdate]
    exact Int.le_add_of_nonneg_right (Int.natCast_nonneg _)
  · intro d hd hd'
    rw [hdate] at hd
    exact absurd hd' (not_lt.mpr hd)
  · rw [resolveCandidate, hlocal]
    dsimp only
    rw [if_neg (lt_irrefl u), if_pos hlt]

/-- If the trigger fires at the second pass of a repeated local time, and the first is after
    the start, it has just fired at an occurrence of the same date. -/
theorem FiresAt.first_pass
    (hback : ∀ u v, u ≤ v → tz.toLocal u < tz.toLocal v + 22 * nanosPerHour) {k : ℕ}
    {u w : DateTime} {date : NaiveDate} (h : FiresAt env kind draws start k u)
    (hu : Occurs tz date c.time u) (hw : Occurs tz date c.time w) (hstart : start < w)
    (hlt : w < u) :
    ∃ j v, k = j + 1 ∧ FiresAt env kind draws start j v ∧ Occurs tz date c.time v := by
  obtain ⟨hfirst, hsecond, -⟩ := Tz.fromLocal_ambiguous (hw.pair hu hlt)
  obtain ⟨v, hv, hsome⟩ := firings_succ.mp h
  obtain ⟨date', -, -, -, hu', hleast⟩ := evaluate_occurs hc htz hsome
  have hhour : 0 < nanosPerHour := by decide
  have hsame : date' = date := hu'.date_eq hu (by linarith) (by linarith)
  subst hsame
  -- the first pass is not after the time before
  have hle : w ≤ v := by
    by_contra hnot
    exact absurd (hleast w hw (not_le.mp hnot)) (not_le.mpr hlt)
  have hvu : v < u := evaluateNextOccurrence_gt (fitsI64_of_calendar hc) hsome
  cases k with
  | zero =>
    cases hv
    exact absurd hle (not_le.mpr hstart)
  | succ j =>
    obtain ⟨after, -, hsome'⟩ := firings_succ.mp hv
    obtain ⟨date, -, -, -, hv', -⟩ := evaluate_occurs hc htz hsome'
    have hlow := hback w v hle
    have hhigh := hback v u (le_of_lt hvu)
    have hdate : date = date' := hv'.date_eq hu (by linarith) (by linarith)
    exact ⟨j, v, rfl, hv, hdate ▸ hv'⟩

end Only

/-- When does a Daily or Weekly trigger fire once a day? It fires on due dates only. And
    each of them has exactly one firing if and only if its time of day stands for exactly
    one instant after the start: the local time is not repeated, or its first pass is over,
    and if it is skipped, one of its shifts exists. -/
theorem fires_once_iff {env : Env} {kind : TriggerKind} {c : Calendar}
    (hc : calendarOf kind = some c) (draws : ℕ → ℕ) {start : DateTime} {tz : Tz}
    (htz : env.zone c.timezone = tz) (htime : 0 ≤ c.time ∧ c.time < nanosPerDay)
    (hstart : minDate ≤ dateOf (tz.toLocal start) ∧ dateOf (tz.toLocal start) ≤ maxDate)
    (hback : ∀ u v, u ≤ v → tz.toLocal u < tz.toLocal v + 22 * nanosPerHour) :
    (∀ k u, FiresAt env kind draws start k u →
      ∃ date, Due tz c start date ∧ Occurs tz date c.time u) ∧
    ((∀ date, Due tz c start date →
        ∃! k, ∃ u, FiresAt env kind draws start k u ∧ Occurs tz date c.time u) ↔
      ∀ date, Due tz c start date → ∃! u, Occurs tz date c.time u ∧ start < u) := by
  obtain ⟨htime, hday⟩ := htime
  refine ⟨fun k u h => h.due hc htz htime hday hstart.2, ?_, ?_⟩
  · intro hfires date hdue
    obtain ⟨k, ⟨u, hk, hu⟩, honly⟩ := hfires date hdue
    refine ⟨u, ⟨hu, hk.start_lt hc⟩, ?_⟩
    rintro w ⟨hw, hafter⟩
    by_contra hne
    rcases lt_or_gt_of_ne hne with hlt | hgt
    · obtain ⟨j, v, hkj, hj, hv⟩ := hk.first_pass hc htz hback hu hw hafter hlt
      have heq := honly j ⟨v, hj, hv⟩
      omega
    · have hnext := hk.second_pass hc htz htime hday hdue (hu.pair hw hgt)
      have heq := honly (k + 1) ⟨w, hnext, hw⟩
      omega
  · intro honce date hdue
    obtain ⟨k, u, hk, hu⟩ := fires_of_due hc htz htime hday hstart.1 honce hback hdue
    refine ⟨k, ⟨u, hk, hu⟩, ?_⟩
    rintro j ⟨v, hj, hv⟩
    have hsame := (honce date hdue).unique ⟨hu, hk.start_lt hc⟩ ⟨hv, hj.start_lt hc⟩
    subst hsame
    rcases Nat.lt_trichotomy j k with hlt | heq | hgt
    · exact absurd (firings_lt hc hj hk (Nat.succ_lt_succ hlt)) (lt_irrefl u)
    · exact heq
    · exact absurd (firings_lt hc hk hj (Nat.succ_lt_succ hgt)) (lt_irrefl u)

/-! ## New York in November 2026 -/

theorem newYork_back (u v : DateTime) (h : u ≤ v) :
    newYork.toLocal u < newYork.toLocal v + 22 * nanosPerHour := by
  have hle := newYork_repeatsTwoHours v u h
  have hhour : 0 < nanosPerHour := by decide
  linarith

/-- Only the local times from 01:00 to 02:00 on 2026-11-01 are repeated. -/
theorem newYork_repeated {u w : DateTime} (hlt : u < w)
    (hsame : newYork.toLocal u = newYork.toLocal w) :
    20758 * nanosPerDay + nanosPerHour ≤ newYork.toLocal u ∧
      newYork.toLocal u < 20758 * nanosPerDay + 2 * nanosPerHour := by
  rcases lt_or_ge w (20758 * nanosPerDay + 6 * nanosPerHour) with hw | hw
  · exact absurd hsame (ne_of_lt (newYork_lt hlt hw))
  · rw [newYork_fall hw] at hsame
    rcases lt_or_ge u (20758 * nanosPerDay + 6 * nanosPerHour) with hu | hu
    · constructor <;> linarith [(newYork_bounds u).2]
    · rw [newYork_fall hu] at hsame
      linarith

/-- A local time that is shown once stands for that instant. -/
theorem occurs_iff_of_readsOnce {tz : Tz} {date : NaiveDate} {time : NaiveTime} {v w : DateTime}
    (hv : tz.toLocal v = andTime date time) (honce : ReadsOnce tz v) :
    Occurs tz date time w ↔ w = v := by
  have hsame : ∀ {u}, tz.toLocal u = andTime date time → u = v :=
    fun hu => honce _ (hu.trans hv.symm)
  rw [Occurs, occurrences]
  cases hlocal : tz.fromLocal (andTime date time) with
  | single u =>
    rw [hsame (Tz.fromLocal_single hlocal)]
    simp
  | ambiguous e l =>
    obtain ⟨he, hl, hlt⟩ := Tz.fromLocal_ambiguous hlocal
    rw [hsame he, hsame hl] at hlt
    exact absurd hlt (lt_irrefl v)
  | none => exact absurd hlocal (Tz.fromLocal_ne_none hv)

/-- Every noon is shown once. -/
theorem newYork_noon (date : NaiveDate) :
    ∃ u, newYork.toLocal u = andTime date (12 * nanosPerHour) ∧ ReadsOnce newYork u := by
  have hday : nanosPerDay = 24 * nanosPerHour := rfl
  have hpos : 0 < nanosPerHour := by decide
  have hpos' : 0 ≤ nanosPerDay := by decide
  have hshown : ∃ u, newYork.toLocal u = andTime date (12 * nanosPerHour) := by
    unfold andTime
    rcases lt_or_ge date 20520 with hwinter | hspring
    · have hle := Int.mul_le_mul_of_nonneg_right (Int.add_one_le_of_lt hwinter) hpos'
      refine ⟨date * nanosPerDay + 17 * nanosPerHour, ?_⟩
      rw [newYork_winter (by linarith)]
      linarith
    · have hge := Int.mul_le_mul_of_nonneg_right hspring hpos'
      rcases lt_or_ge date 20758 with hsummer | hfall
      · have hle := Int.mul_le_mul_of_nonneg_right (Int.add_one_le_of_lt hsummer) hpos'
        refine ⟨date * nanosPerDay + 16 * nanosPerHour, ?_⟩
        rw [newYork_summer (by linarith) (by linarith)]
        linarith
      · have hge' := Int.mul_le_mul_of_nonneg_right hfall hpos'
        refine ⟨date * nanosPerDay + 17 * nanosPerHour, ?_⟩
        rw [newYork_fall (by linarith)]
        linarith
  obtain ⟨u, hu⟩ := hshown
  refine ⟨u, hu, fun w hw => ?_⟩
  -- no noon is between 01:00 and 02:00
  have hnoon : ¬(20758 * nanosPerDay + nanosPerHour ≤ newYork.toLocal u ∧
      newYork.toLocal u < 20758 * nanosPerDay + 2 * nanosPerHour) := by
    rintro ⟨hlow, hhigh⟩
    rw [hu, andTime] at hlow hhigh
    have hlt : date * nanosPerDay < 20758 * nanosPerDay := by linarith
    have hgt : 20757 * nanosPerDay < date * nanosPerDay := by linarith
    have hlt' : date < 20758 := lt_of_mul_lt_mul_right hlt hpos'
    have hgt' : 20757 < date := lt_of_mul_lt_mul_right hgt hpos'
    exact absurd (Int.add_one_le_of_lt hgt') (not_le.mpr hlt')
  rcases lt_trichotomy w u with hlt | heq | hgt
  · exact absurd (hw ▸ newYork_repeated hlt hw) hnoon
  · exact heq
  · exact absurd (newYork_repeated hgt hw.symm) hnoon

/-- After the start, the noon of every due date is still to come. -/
theorem newYork_noon_due {date : NaiveDate}
    (hdue : Due newYork (.daily (12 * nanosPerHour) "America/New_York")
      (20757 * nanosPerDay) date) :
    ∃! u, Occurs newYork date (12 * nanosPerHour) u ∧ 20757 * nanosPerDay < u := by
  obtain ⟨u, hu, honce⟩ := newYork_noon date
  have hiff : ∀ w, Occurs newYork date (12 * nanosPerHour) w ↔ w = u :=
    fun w => occurs_iff_of_readsOnce hu honce
  refine ⟨u, ⟨(hiff u).mpr rfl, ?_⟩, fun w hw => (hiff w).mp hw.1⟩
  obtain ⟨-, -, hlt | ⟨-, w, hw, hafter⟩⟩ := hdue
  · have hdate : dateOf (newYork.toLocal (20757 * nanosPerDay)) = 20756 := by decide
    rw [hdate] at hlt
    have hle := Int.mul_le_mul_of_nonneg_right (Int.add_one_le_of_lt hlt)
      (by decide : 0 ≤ nanosPerDay)
    have hlocal := (newYork_bounds u).2
    have hpos : 0 < nanosPerHour := by decide
    rw [hu, andTime] at hlocal
    linarith
  · rwa [(hiff w).mp hw] at hafter

/-- On the day with two passes of 01:30, noon comes once. -/
theorem daily_noon_once :
    ∃! k, ∃ u, FiresAt newYorkEnv (.Daily (12 * nanosPerHour) "America/New_York") (fun _ => 0)
      (20757 * nanosPerDay) k u ∧ Occurs newYork 20758 (12 * nanosPerHour) u := by
  have hc : calendarOf (.Daily (12 * nanosPerHour) "America/New_York") =
      some (.daily (12 * nanosPerHour) "America/New_York") := rfl
  have hdate : dateOf (newYork.toLocal (20757 * nanosPerDay)) = 20756 := by decide
  have hstart : minDate ≤ dateOf (newYork.toLocal (20757 * nanosPerDay)) ∧
      dateOf (newYork.toLocal (20757 * nanosPerDay)) ≤ maxDate := by
    rw [hdate]
    decide
  have hdue : Due newYork (.daily (12 * nanosPerHour) "America/New_York") (20757 * nanosPerDay)
      20758 := ⟨rfl, by decide, .inl (by rw [hdate]; decide)⟩
  obtain ⟨-, hiff⟩ := fires_once_iff hc (fun _ => 0) newYorkEnv_zone (by decide) hstart newYork_back
  exact hiff.mpr (fun date hdue => newYork_noon_due hdue) 20758 hdue

/-- 01:30 comes twice on 2026-11-01. From noon of the day before, a daily trigger fires at
    both passes. -/
theorem daily_fires_twice :
    (∀ shift ∈ newYork.shifts, -2 * nanosPerHour ≤ shift ∧ shift ≤ 2 * nanosPerHour) ∧
      calendarOf (.Daily (90 * nanosPerMinute) "America/New_York") =
        some (.daily (90 * nanosPerMinute) "America/New_York") ∧
      newYorkEnv.zone "America/New_York" = newYork ∧
      ¬∀ date, Due newYork (.daily (90 * nanosPerMinute) "America/New_York")
          (20757 * nanosPerDay + 16 * nanosPerHour) date →
        ∃! k, ∃ u, FiresAt newYorkEnv (.Daily (90 * nanosPerMinute) "America/New_York")
          (fun _ => 0) (20757 * nanosPerDay + 16 * nanosPerHour) k u ∧
            Occurs newYork date (90 * nanosPerMinute) u := by
  refine ⟨by decide, rfl, newYorkEnv_zone, fun hfires => ?_⟩
  have hdue : Due newYork (.daily (90 * nanosPerMinute) "America/New_York")
      (20757 * nanosPerDay + 16 * nanosPerHour) 20758 := ⟨rfl, by decide, .inl (by decide)⟩
  have hpasses : newYork.fromLocal (andTime 20758 (90 * nanosPerMinute)) =
      .ambiguous (20758 * nanosPerDay + 330 * nanosPerMinute)
        (20758 * nanosPerDay + 390 * nanosPerMinute) := by decide
  have hoccurs : occurrences newYork 20758 (90 * nanosPerMinute) =
      .ok [20758 * nanosPerDay + 330 * nanosPerMinute,
        20758 * nanosPerDay + 390 * nanosPerMinute] := by
    rw [occurrences, hpasses]
  have hfirst : FiresAt newYorkEnv (.Daily (90 * nanosPerMinute) "America/New_York") (fun _ => 0)
      (20757 * nanosPerDay + 16 * nanosPerHour) 0
      (20758 * nanosPerDay + 330 * nanosPerMinute) := by
    have hresolve : resolveCandidate newYork 20758 (90 * nanosPerMinute)
        (20757 * nanosPerDay + 16 * nanosPerHour) =
          .ok (some (20758 * nanosPerDay + 330 * nanosPerMinute)) := by
      rw [resolveCandidate, hpasses]
      decide
    have hover : ∀ d, 20757 ≤ d → d < 20758 → (Calendar.daily (90 * nanosPerMinute)
        "America/New_York").listed d = true → resolveCandidate newYork d (90 * nanosPerMinute)
          (20757 * nanosPerDay + 16 * nanosPerHour) = .ok none := by
      intro d hlow hhigh _
      have hd : d = 20757 := le_antisymm (Int.le_of_lt_add_one hhigh) hlow
      subst hd
      decide
    exact firings_succ.mpr ⟨_, rfl, @evaluate_of_date newYorkEnv _
      (.daily (90 * nanosPerMinute) "America/New_York") newYork (fun _ => 0) rfl newYorkEnv_zone
      _ _ 20758 (by decide) (by decide) (by decide) rfl hover hresolve⟩
  have hsecond := hfirst.second_pass rfl newYorkEnv_zone (by decide) (by decide) hdue hpasses
  have honly := (hfires 20758 hdue).unique
    ⟨_, hfirst, _, hoccurs, List.mem_cons_self⟩
    ⟨_, hsecond, _, hoccurs, List.mem_cons_of_mem _ List.mem_cons_self⟩
  cases honly

end EasyJob.Scheduler
