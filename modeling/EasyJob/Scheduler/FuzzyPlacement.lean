import EasyJob.Scheduler.FuzzyWindow
import EasyJob.Scheduler.OncePerDay

/-!
# Where a fuzzy evaluation places its time

* `fuzzy_placement`: where the offset changes are more than a day apart and set the clocks
  back by a day at most, and the times picked exist, the evaluation gives a time in the
  first matching window that has not begun.
* `fuzzy_misplaced`: on the last representable date there is none, and where the clocks are
  set back by 40 hours, the first such window can be passed over.
-/

namespace EasyJob.Scheduler

open EasyJob.Chrono EasyJob.Domain

/-! ## Local times that are still to come -/

/-- The offset at an instant, in a table that starts with the offset `first`. -/
def offsetFrom (first : TimeDelta) (rest : List (DateTime × TimeDelta)) (u : ℤ) : ℤ :=
  rest.foldl (fun offset t => if t.1 ≤ u then t.2 else offset) first

/-- By how much each of its transitions moves the local clocks. -/
def shiftsFrom (first : TimeDelta) (rest : List (DateTime × TimeDelta)) : List TimeDelta :=
  List.zipWith (fun offset former => offset - former) (rest.map Prod.snd)
    (first :: rest.map Prod.snd)

theorem offsetFrom_before {first : TimeDelta} {rest : List (DateTime × TimeDelta)} {u : ℤ}
    (h : ∀ t ∈ rest, u < t.1) : offsetFrom first rest u = first := by
  induction rest generalizing first with
  | nil => rfl
  | cons t ts ih =>
    rw [offsetFrom, List.foldl_cons, if_neg (not_le.mpr (h t List.mem_cons_self))]
    exact ih fun t' ht' => h t' (List.mem_cons_of_mem t ht')

/-- Where the transitions are more than a day apart and set the clocks back by a day at
    most, a local time that exists and is later than that of `after` comes after it. -/
theorem exists_later_pass {first : TimeDelta} {rest : List (DateTime × TimeDelta)}
    (hapart : rest.Pairwise (fun a b => a.1 + nanosPerDay < b.1))
    (hshifts : ∀ shift ∈ shiftsFrom first rest, -nanosPerDay ≤ shift) {after u t : ℤ}
    (hu : u + offsetFrom first rest u = t) (hafter : after + offsetFrom first rest after < t) :
    ∃ v, after < v ∧ v + offsetFrom first rest v = t := by
  induction rest generalizing first u with
  | nil =>
    have hconst : ∀ v, offsetFrom first [] v = first := fun _ => rfl
    rw [hconst] at hafter
    refine ⟨t - first, by linarith, ?_⟩
    rw [hconst]
    linarith
  | cons transition rest ih =>
    obtain ⟨time, offset⟩ := transition
    obtain ⟨hnext, hapart⟩ := List.pairwise_cons.mp hapart
    have hback : -nanosPerDay ≤ offset - first := hshifts _ List.mem_cons_self
    have hshifts' : ∀ shift ∈ shiftsFrom offset rest, -nanosPerDay ≤ shift :=
      fun shift h => hshifts shift (List.mem_cons_of_mem _ h)
    have hday : 0 < nanosPerDay := by decide
    have hbefore : ∀ v < time, offsetFrom first ((time, offset) :: rest) v = first := by
      intro v hv
      refine offsetFrom_before fun t' ht' => ?_
      rcases List.mem_cons.mp ht' with rfl | ht'
      · exact hv
      · have hlt := hnext t' ht'
        dsimp only at hlt
        linarith
    have hsince : ∀ v, time ≤ v →
        offsetFrom first ((time, offset) :: rest) v = offsetFrom offset rest v := by
      intro v hv
      rw [offsetFrom, List.foldl_cons, if_pos hv]
      rfl
    rcases lt_or_ge after time with hlt | hge
    · -- the clocks show it before the transition, or it exists after
      rw [hbefore after hlt] at hafter
      rcases lt_or_ge (t - first) time with hv | hv
      · exact ⟨t - first, by linarith, by rw [hbefore _ hv]; linarith⟩
      · refine ⟨u, ?_, hu⟩
        by_contra hle
        rw [hbefore u (by linarith)] at hu
        linarith
    · rw [hsince after hge] at hafter
      have hexists : ∃ u', u' + offsetFrom offset rest u' = t := by
        rcases lt_or_ge u time with hlt | hle
        · -- after the transition, the clocks show it again before the next one
          rw [hbefore u hlt] at hu
          refine ⟨t - offset, ?_⟩
          have hconst : offsetFrom offset rest (t - offset) = offset := by
            refine offsetFrom_before fun t' ht' => ?_
            have hlt' := hnext t' ht'
            dsimp only at hlt'
            linarith
          rw [hconst]
          linarith
        · exact ⟨u, hsince u hle ▸ hu⟩
      obtain ⟨u', hu'⟩ := hexists
      obtain ⟨v, hv, hread⟩ := ih hapart hshifts' hu' hafter
      exact ⟨v, hv, by rw [hsince v (by linarith)]; exact hread⟩

/-- Then resolving the local time gives an instant after `after` that shows it. -/
theorem resolveCandidate_shown {tz : Tz} {date : NaiveDate} {time : NaiveTime}
    {after v : DateTime} (hv : tz.toLocal v = andTime date time) (hafter : after < v) :
    ∃ x, resolveCandidate tz date time after = .ok (some x) ∧ after < x ∧
      tz.toLocal x = andTime date time := by
  rw [resolveCandidate]
  cases hlocal : tz.fromLocal (andTime date time) with
  | single u =>
    have hu := Tz.eq_of_fromLocal_single hlocal hv
    subst hu
    refine ⟨v, ?_, hafter, hv⟩
    dsimp only
    rw [if_pos hafter]
  | ambiguous earliest latest =>
    obtain ⟨hearliest, hlatest, -⟩ := Tz.fromLocal_ambiguous hlocal
    dsimp only
    split_ifs with h h'
    · exact ⟨earliest, rfl, h, hearliest⟩
    · exact ⟨latest, rfl, h', hlatest⟩
    · exact absurd (lt_of_lt_of_le hafter (Tz.le_of_fromLocal_ambiguous hlocal hv)) h'
  | none => exact absurd hlocal (Tz.fromLocal_ne_none hv)

theorem timeOf_andTime {date : NaiveDate} {time : NaiveTime} (htime : 0 ≤ time)
    (hday : time < nanosPerDay) : timeOf (andTime date time) = time := by
  rw [timeOf, andTime, Int.add_comm, Int.add_mul_emod_self_right]
  exact Int.emod_eq_of_lt htime hday

/-! ## Placement -/

/-- The right place for the time of an evaluation at `after`: in the first window that is
    still ahead, at most 13 days on. -/
structure FuzzyWindow.Placed (w : FuzzyWindow) (tz : Tz) (after x : DateTime) : Prop where
  later : after < x
  near : dateOf (tz.toLocal x) ≤ dateOf (tz.toLocal after) + 13
  ahead : w.Ahead (tz.toLocal after) (dateOf (tz.toLocal x))
  within : w.windowStart ≤ timeOf (tz.toLocal x) ∧ timeOf (tz.toLocal x) < w.windowEnd
  first : ∀ date, w.Ahead (tz.toLocal after) date → dateOf (tz.toLocal x) ≤ date

section Placement

variable {w : FuzzyWindow} {tz : Tz} {after : DateTime} {draws : ℕ → ℕ}

/-- A window that is ahead is not on an earlier date. -/
theorem FuzzyWindow.Ahead.le {t : NaiveDateTime} {date : NaiveDate} (h : w.Ahead t date) :
    dateOf t ≤ date := by
  refine Int.lt_add_one_iff.mp (Int.ediv_lt_of_lt_mul (by decide) ?_)
  have hstart := w.start_lt_day
  have hahead := h.2
  unfold andTime at hahead
  linarith

/-- If a window is ahead, a first one is, in the next seven days. -/
theorem FuzzyWindow.exists_first {t : NaiveDateTime} {date : NaiveDate} (h : w.Ahead t date) :
    ∃ d, w.Ahead t d ∧ d ≤ date ∧ d ≤ dateOf t + 7 ∧ ∀ d', w.Ahead t d' → d ≤ d' := by
  obtain ⟨d, hd, hleast⟩ := Int.exists_least_of_bdd ⟨dateOf t, fun d' hd' => hd'.le⟩ ⟨date, h⟩
  refine ⟨d, hd, hleast date h, ?_, hleast⟩
  by_contra hfar
  -- a week before, the window is ahead as well
  have hlate : dateOf t < d - 7 := by linarith
  have hweek : w.Ahead t (d - 7) := by
    refine ⟨?_, (w.guard_iff (le_of_lt hlate)).mp (.inl hlate)⟩
    rw [weekday_sub_seven]
    exact hd.1
  have hle := hleast (d - 7) hweek
  linarith

/-- Every weekday comes in the next seven days. -/
theorem exists_weekday (date : ℤ) (day : Weekday) :
    ∃ d, date < d ∧ d ≤ date + 7 ∧ weekday d = day := by
  obtain ⟨r, hlow, hhigh, hr⟩ : ∃ r : ℤ, 0 ≤ r ∧ r < 7 ∧
      ∀ d, (d + 3) % 7 = r → weekday d = day := by
    cases day with
    | Mon => exact ⟨0, by decide, by decide, fun d h => by simp [weekday, h]⟩
    | Tue => exact ⟨1, by decide, by decide, fun d h => by simp [weekday, h]⟩
    | Wed => exact ⟨2, by decide, by decide, fun d h => by simp [weekday, h]⟩
    | Thu => exact ⟨3, by decide, by decide, fun d h => by simp [weekday, h]⟩
    | Fri => exact ⟨4, by decide, by decide, fun d h => by simp [weekday, h]⟩
    | Sat => exact ⟨5, by decide, by decide, fun d h => by simp [weekday, h]⟩
    | Sun => exact ⟨6, by decide, by decide, fun d h => by simp [weekday, h]⟩
  obtain ⟨d, hafter, hweek, hd⟩ : ∃ d : ℤ, date < d ∧ d ≤ date + 7 ∧ (d + 3) % 7 = r :=
    ⟨date + 1 + (r - date - 4) % 7, by omega, by omega, by omega⟩
  exact ⟨d, hafter, hweek, hr d hd⟩

/-- If the period matches a weekday, the window of a date of the next week is ahead. -/
theorem FuzzyWindow.exists_ahead {t : NaiveDateTime}
    (hperiod : ∃ day, w.period.matchesWeekday day = true) (hmax : dateOf t + 7 ≤ maxDate) :
    ∃ date ≤ maxDate, w.Ahead t date := by
  obtain ⟨day, hday⟩ := hperiod
  obtain ⟨d, hafter, hweek, hd⟩ := exists_weekday (dateOf t) day
  refine ⟨d, le_trans hweek hmax, ?_, (w.guard_iff (le_of_lt hafter)).mp (.inl hafter)⟩
  rwa [hd]

/-- A date whose window has begun, or that does not match, gives no time. -/
theorem FuzzyWindow.candidate_none {day : ℕ} {date : NaiveDate}
    (hle : dateOf (tz.toLocal after) ≤ date) (h : ¬w.Ahead (tz.toLocal after) date) :
    w.candidate tz after draws day date = .ok none := by
  rw [candidate, if_neg]
  rintro ⟨hmatch, hguard⟩
  exact h ⟨hmatch, (w.guard_iff hle).mp hguard⟩

/-- The evaluation resolves a time in the first window ahead. -/
theorem FuzzyWindow.next_of_first {d : NaiveDate} {j : ℕ} {x : DateTime}
    (hj : d = dateOf (tz.toLocal after) + j) (hrounds : j < 14)
    (hd : w.Ahead (tz.toLocal after) d) (hmax : d ≤ maxDate)
    (hleast : ∀ d', w.Ahead (tz.toLocal after) d' → d ≤ d')
    (hx : resolveCandidate tz d (pickRandomTimeInWindow w.windowStart w.windowEnd (draws j))
      after = .ok (some x)) :
    w.next tz after draws = .ok (some (d, x)) := by
  refine searchDates_some_iff.mpr ⟨j, hrounds, hj, fun i hi => ?_, ?_⟩
  · have hi' : (i : ℤ) < j := by exact_mod_cast hi
    have hlow : dateOf (tz.toLocal after) ≤ dateOf (tz.toLocal after) + (i : ℤ) :=
      Int.le_add_of_nonneg_right (Int.natCast_nonneg i)
    have hlt : dateOf (tz.toLocal after) + (i : ℤ) < d := by linarith
    refine ⟨candidate_none hlow fun hahead => ?_, lt_of_lt_of_le hlt hmax⟩
    exact absurd (hleast _ hahead) (not_le.mpr hlt)
  · rw [← hj, Nat.zero_add]
    exact (candidate_some_iff hd.le).mpr ⟨hd, hx⟩

end Placement

/-- Where the offset changes are more than a day apart and set the clocks back by a day at
    most, and the times picked exist, the evaluation gives a time in the first window that
    is ahead, as long as the window of a representable date is. -/
theorem fuzzy_placement {env : Env} {timezone : String} {tz : Tz}
    (htz : env.zone timezone = tz) (w : FuzzyWindow)
    (hapart : tz.rest.Pairwise (fun a b => a.1 + nanosPerDay < b.1))
    (hshifts : ∀ shift ∈ tz.shifts, -nanosPerDay ≤ shift) {after : DateTime} {draws : ℕ → ℕ}
    (hdate : ∃ date ≤ maxDate, w.Ahead (tz.toLocal after) date)
    (hpicks : ∀ j : ℕ, j < 14 → w.Ahead (tz.toLocal after) (dateOf (tz.toLocal after) + j) →
      tz.fromLocal (andTime (dateOf (tz.toLocal after) + j)
        (pickRandomTimeInWindow w.windowStart w.windowEnd (draws j))) ≠ .none) :
    ∃ x, evaluateNextOccurrence env (w.kind timezone) after draws = .ok (some x) ∧
      w.Placed tz after x := by
  obtain ⟨date, hmax, hdate⟩ := hdate
  obtain ⟨d, hd, hle, hnear, hleast⟩ := w.exists_first hdate
  obtain ⟨j, hj⟩ := Int.eq_ofNat_of_zero_le (sub_nonneg.mpr hd.le)
  have hdj : d = dateOf (tz.toLocal after) + j := by linarith
  have hrounds : j < 14 := by
    have h : (j : ℤ) ≤ 7 := by linarith
    omega
  obtain ⟨hlow, hhigh⟩ := w.pick_bounds (draws j)
  generalize htime : pickRandomTimeInWindow w.windowStart w.windowEnd (draws j) = time at *
  have hnonneg : 0 ≤ time := le_trans w.start_nonneg hlow
  have hday : time < nanosPerDay := lt_trans hhigh w.end_lt
  -- the time picked is later than that of `after`, hence still to come
  have hlater : tz.toLocal after < andTime d time := by
    have hahead := hd.2
    unfold andTime at hahead ⊢
    linarith
  obtain ⟨u, hu⟩ := Tz.exists_of_fromLocal (htime ▸ hdj ▸ hpicks j hrounds (hdj ▸ hd))
  obtain ⟨v, hv, hread⟩ := exists_later_pass hapart hshifts hu hlater
  obtain ⟨x, hx, hafter, hlocal⟩ := resolveCandidate_shown hread hv
  have hnext := FuzzyWindow.next_of_first hdj hrounds hd (le_trans hle hmax) hleast
    (htime.symm ▸ hx)
  have hxdate : dateOf (tz.toLocal x) = d := by
    rw [hlocal, dateOf_andTime hnonneg hday]
  have hxtime : timeOf (tz.toLocal x) = time := by
    rw [hlocal, timeOf_andTime hnonneg hday]
  refine ⟨x, ?_, hafter, ?_, ?_, ?_, ?_⟩
  · rw [w.evaluate_fuzzy htz, hnext]
    rfl
  · rw [hxdate]
    linarith
  · rwa [hxdate]
  · rw [hxtime]
    exact ⟨hlow, hhigh⟩
  · rwa [hxdate]

/-- In a night in June, in New York. -/
theorem fuzzy_placement_june :
    ∃ x, evaluateNextOccurrence newYorkEnv (nightWindow.kind "America/New_York")
        (20620 * nanosPerDay + 300 * nanosPerMinute) (fun _ => 300) = .ok (some x) ∧
      nightWindow.Placed newYork (20620 * nanosPerDay + 300 * nanosPerMinute) x := by
  have hpicks : ∀ j : ℕ, j < 14 → newYork.fromLocal (andTime
      (dateOf (newYork.toLocal (20620 * nanosPerDay + 300 * nanosPerMinute)) + j)
      (pickRandomTimeInWindow nightWindow.windowStart nightWindow.windowEnd 300)) ≠ .none := by
    decide
  exact fuzzy_placement newYorkEnv_zone nightWindow (by decide) (by decide)
    (FuzzyWindow.exists_ahead ⟨.Mon, rfl⟩ (by decide)) (fun j hj _ => hpicks j hj)

/-! ## Misplaced -/

/-- At 00:00 UTC, the clocks are set back by 40 hours, and 25 hours later they are set
    forward by 20. -/
def farBack : Tz where
  first := 20 * nanosPerHour
  rest := [(0, -20 * nanosPerHour), (25 * nanosPerHour, 0)]
  sorted := by decide

/-- Every day from 06:00 to 07:00. -/
def morningWindow : FuzzyWindow where
  period := .Daily
  windowStart := 6 * nanosPerHour
  windowEnd := 7 * nanosPerHour
  start_nonneg := by decide
  nonempty := by decide
  end_lt := by decide

noncomputable def farBackEnv : Env :=
  documentedEnv cronerReach "Far/Back" farBack "*/15 * * * *" everyQuarter

/-- At noon of the last representable date, no window is ahead. And at 04:30 on a day whose
    06:00 has been shown only before the clocks were set back, the search goes on to the
    day after, although the window is ahead. -/
theorem fuzzy_misplaced :
    (newYorkEnv.zone "UTC" = Tz.utc ∧ (∀ t, Tz.utc.fromLocal t ≠ .none) ∧
      ¬∃ x, evaluateNextOccurrence newYorkEnv (morningWindow.kind "UTC")
          (maxDate * nanosPerDay + 12 * nanosPerHour) (fun _ => 0) = .ok (some x) ∧
        morningWindow.Placed Tz.utc (maxDate * nanosPerDay + 12 * nanosPerHour) x) ∧
    farBackEnv.zone "Far/Back" = farBack ∧
    farBack.rest.Pairwise (fun a b => a.1 + nanosPerDay < b.1) ∧
    (∀ j : ℕ, j < 14 → farBack.fromLocal (andTime (0 + j)
      (pickRandomTimeInWindow morningWindow.windowStart morningWindow.windowEnd 0)) ≠ .none) ∧
    dateOf (farBack.toLocal (1470 * nanosPerMinute)) = 0 ∧
    ¬∃ x, evaluateNextOccurrence farBackEnv (morningWindow.kind "Far/Back")
        (1470 * nanosPerMinute) (fun _ => 0) = .ok (some x) ∧
      morningWindow.Placed farBack (1470 * nanosPerMinute) x := by
  have hutc : newYorkEnv.zone "UTC" = Tz.utc := by simp [Env.zone, newYorkEnv, documentedEnv]
  have hfar : farBackEnv.zone "Far/Back" = farBack := documentedEnv_zone _ _ _ _ _
  refine ⟨⟨hutc, fun t => ?_, ?_⟩, hfar, by decide, by decide, by decide, ?_⟩
  · have hread : Tz.utc.toLocal t = t := by simp [Tz.toLocal, Tz.offsetAt, Tz.utc]
    exact Tz.fromLocal_ne_none hread
  · rintro ⟨x, hx, -⟩
    have hnone : morningWindow.next Tz.utc (maxDate * nanosPerDay + 12 * nanosPerHour)
        (fun _ => 0) = .ok none := by decide
    rw [morningWindow.evaluate_fuzzy hutc, hnone] at hx
    cases hx
  · rintro ⟨x, hx, hplaced⟩
    have hnext : morningWindow.next farBack (1470 * nanosPerMinute) (fun _ => 0) =
        .ok (some (1, 30 * nanosPerHour)) := by decide
    rw [morningWindow.evaluate_fuzzy hfar, hnext] at hx
    cases hx
    -- the window of the same day is ahead
    have hle := hplaced.first 0 ⟨rfl, by decide⟩
    exact absurd hle (by decide)

end EasyJob.Scheduler
