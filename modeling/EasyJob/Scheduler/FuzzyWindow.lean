import EasyJob.Lib.Transition
import EasyJob.Scheduler.CronNext
import EasyJob.Scheduler.DaySearch

/-!
# A fuzzy window fires at most once

A Fuzzy trigger fires at a random time in a window of each matching date. Its
evaluation skips a date whose window has begun, by the local time of day. The machine
follows one trigger: evaluations replace the pending time, at any later instant (after a
fire, after the task is saved again, after a clock jump), and the pending time fires
when the clock has reached it.

* `fuzzy_once`: no date fires twice in a run in which, at every evaluation, the local clock
  has reached the start of each window that has fired.
* `fuzzy_once_of_forward`: so it is where the clocks are never set back.
* `fuzzy_fires_twice`: in New York, a window from 01:05 to 01:50 fires in both passes.
-/

namespace EasyJob.Scheduler

open EasyJob.Chrono EasyJob.Domain Transition

/-! ## Windows -/

/-- A valid Fuzzy trigger: the window is not empty and within the day. -/
structure FuzzyWindow where
  period : FuzzyPeriod
  windowStart : NaiveTime
  windowEnd : NaiveTime
  start_nonneg : 0 ≤ windowStart
  nonempty : windowStart < windowEnd
  end_lt : windowEnd < nanosPerDay

namespace FuzzyWindow

variable (w : FuzzyWindow)

def kind (timezone : String) : TriggerKind :=
  .Fuzzy w.period w.windowStart w.windowEnd timezone

/-- The date matches, and by the local time `t` its window has not begun. -/
def Ahead (t : NaiveDateTime) (date : NaiveDate) : Prop :=
  w.period.matchesWeekday (weekday date) = true ∧ t < andTime date w.windowStart

/-- What the Fuzzy branch does at its `day`-th date. -/
def candidate (tz : Tz) (after : DateTime) (draws : ℕ → ℕ) (day : ℕ) (date : NaiveDate) :
    Rust (Option DateTime) :=
  if w.period.matchesWeekday (weekday date) ∧
      (date > dateOf (tz.toLocal after) ∨ w.windowStart > timeOf (tz.toLocal after)) then
    resolveCandidate tz date
      (pickRandomTimeInWindow w.windowStart w.windowEnd (draws day)) after
  else .ok none

/-- The evaluation, with the date whose window the time is picked for. -/
def next (tz : Tz) (after : DateTime) (draws : ℕ → ℕ) : Rust (Option (NaiveDate × DateTime)) :=
  searchDates (w.candidate tz after draws) 14 0 (dateOf (tz.toLocal after))

theorem evaluate_fuzzy {env : Env} {timezone : String} {tz : Tz} (htz : env.zone timezone = tz)
    (after : DateTime) (draws : ℕ → ℕ) :
    evaluateNextOccurrence env (w.kind timezone) after draws =
      (w.next tz after draws).map (Option.map Prod.snd) := by
  subst htz
  rw [kind, evaluateNextOccurrence, if_neg (not_le.mpr w.nonempty)]
  exact searchDays_eq

theorem start_lt_day : w.windowStart < nanosPerDay := lt_trans w.nonempty w.end_lt

variable {w} {tz : Tz} {after x : DateTime} {draws : ℕ → ℕ} {date : NaiveDate}

/-- The guard of the code compares local times. -/
theorem guard_iff {t : NaiveDateTime} (hle : dateOf t ≤ date) :
    (date > dateOf t ∨ w.windowStart > timeOf t) ↔ t < andTime date w.windowStart := by
  have hsplit : dateOf t * nanosPerDay + timeOf t = t := Int.ediv_mul_add_emod t nanosPerDay
  have hnonneg : 0 ≤ timeOf t := Int.emod_nonneg t (by decide)
  have hlt : timeOf t < nanosPerDay := Int.emod_lt_of_pos t (by decide)
  have hstart := w.start_nonneg
  unfold andTime
  constructor
  · rintro (hdate | htime)
    · have hnext := Int.mul_le_mul_of_nonneg_right (Int.add_one_le_of_lt hdate)
        (by decide : 0 ≤ nanosPerDay)
      linarith
    · have hmono := Int.mul_le_mul_of_nonneg_right hle (by decide : 0 ≤ nanosPerDay)
      linarith
  · intro h
    rcases lt_or_eq_of_le hle with hdate | rfl
    · exact .inl hdate
    · exact .inr (by linarith)

/-- A date gives a time if its window is ahead and the time picked in it can be resolved. -/
theorem candidate_some_iff {day : ℕ} (hle : dateOf (tz.toLocal after) ≤ date) :
    w.candidate tz after draws day date = .ok (some x) ↔
      w.Ahead (tz.toLocal after) date ∧ resolveCandidate tz date
        (pickRandomTimeInWindow w.windowStart w.windowEnd (draws day)) after = .ok (some x) := by
  have hguard : _ ↔ w.Ahead (tz.toLocal after) date := and_congr_right' (w.guard_iff hle)
  rw [candidate]
  split_ifs with h
  · exact ⟨fun hsome => ⟨hguard.mp h, hsome⟩, fun hsome => hsome.2⟩
  · constructor
    · intro hsome
      cases hsome
    · exact fun hsome => absurd (hguard.mpr hsome.1) h

/-- The time picked is in the window, also if the window is shorter than a second. -/
theorem pick_bounds (w : FuzzyWindow) (draw : ℕ) :
    w.windowStart ≤ pickRandomTimeInWindow w.windowStart w.windowEnd draw ∧
      pickRandomTimeInWindow w.windowStart w.windowEnd draw < w.windowEnd := by
  have hpos : 0 < nanosPerSec := by decide
  have hwindow : 0 < w.windowEnd - w.windowStart := sub_pos.mpr w.nonempty
  have hseconds : numSeconds (w.windowEnd - w.windowStart) =
      (w.windowEnd - w.windowStart) / nanosPerSec := Int.tdiv_eq_ediv_of_nonneg (le_of_lt hwindow)
  -- the offset in whole seconds stays below the length of the window
  have hoffset : ∀ offset : ℕ,
      offset < (max (numSeconds (w.windowEnd - w.windowStart)) 1).toNat →
        offset * nanosPerSec < w.windowEnd - w.windowStart := by
    intro offset hlt
    rcases Nat.eq_zero_or_pos offset with rfl | hoff
    · simpa using hwindow
    · have hle : (offset : ℤ) + 1 ≤ (w.windowEnd - w.windowStart) / nanosPerSec := by
        rw [hseconds] at hlt
        omega
      have hmul := (Int.le_ediv_iff_mul_le hpos).mp hle
      linarith
  have hspan : 0 < (max (numSeconds (w.windowEnd - w.windowStart)) 1).toNat := by omega
  have hlt := hoffset _ (Nat.mod_lt draw hspan)
  have hnonneg : 0 ≤ ((draw % (max (numSeconds (w.windowEnd - w.windowStart)) 1).toNat : ℕ) : ℤ) *
      nanosPerSec := Int.mul_nonneg (Int.natCast_nonneg _) (le_of_lt hpos)
  have hstart := w.start_nonneg
  have hend := w.end_lt
  unfold pickRandomTimeInWindow timeAdd
  rw [Int.emod_eq_of_lt (by linarith) (by linarith)]
  constructor <;> linarith

/-- The window that an evaluation picks a time for has not begun. -/
theorem ahead_of_next (h : w.next tz after draws = .ok (some (date, x))) :
    w.Ahead (tz.toLocal after) date ∧ ∃ time, w.windowStart ≤ time ∧ Occurs tz date time x := by
  obtain ⟨j, -, rfl, -, hsome⟩ := searchDates_some_iff.mp h
  have hle : dateOf (tz.toLocal after) ≤ dateOf (tz.toLocal after) + (j : ℤ) :=
    Int.le_add_of_nonneg_right (Int.natCast_nonneg j)
  obtain ⟨hahead, hresolve⟩ := (candidate_some_iff hle).mp hsome
  exact ⟨hahead, _, (w.pick_bounds _).1, (resolveCandidate_some_iff.mp hresolve).1⟩

end FuzzyWindow

/-! ## The machine -/

/-- One Fuzzy trigger in the scheduler: the time of the last step, the pending time with
    the date of its window, and the dates that have fired. -/
structure FuzzyState where
  clock : DateTime
  pending : Option (NaiveDate × DateTime)
  fired : List NaiveDate

/-- An evaluation replaces the pending time; a fire takes it. -/
inductive FuzzyAction
  | evaluate (now : DateTime) (draws : ℕ → ℕ)
  | fire (now : DateTime)

/-- One step; the output is the date that fires. -/
def fuzzyStep (w : FuzzyWindow) (tz : Tz) : FuzzyState → FuzzyAction →
    Option (FuzzyState × List NaiveDate)
  | s, .evaluate now draws =>
    if s.clock ≤ now then
      match w.next tz now draws with
      | .ok pending => some ({ s with clock := now, pending := pending }, [])
      | .error _ => none
    else none
  | s, .fire now =>
    match s.pending with
    | some (date, due) =>
      if s.clock ≤ now ∧ due ≤ now then
        some ({ clock := now, pending := none, fired := date :: s.fired }, [date])
      else none
    | none => none

/-- A trigger that is loaded at `start`. -/
def fuzzyMachine (w : FuzzyWindow) (tz : Tz) (start : DateTime) :
    Machine FuzzyState FuzzyAction NaiveDate where
  init := { clock := start, pending := none, fired := [] }
  step := fuzzyStep w tz

/-- At an evaluation, the local clock has reached the start of each window that has fired. -/
def WindowsBegun (w : FuzzyWindow) (tz : Tz) (s : FuzzyState) : FuzzyAction → Prop
  | .evaluate now _ => ∀ date ∈ s.fired, andTime date w.windowStart ≤ tz.toLocal now
  | .fire _ => True

instance (w : FuzzyWindow) (tz : Tz) (s : FuzzyState) : ∀ a, Decidable (WindowsBegun w tz s a)
  | .evaluate now _ =>
    inferInstanceAs (Decidable (∀ date ∈ s.fired, andTime date w.windowStart ≤ tz.toLocal now))
  | .fire _ => isTrue trivial

variable {w : FuzzyWindow} {tz : Tz} {start : DateTime}

/-- What a step does. -/
theorem fuzzyStep_cases {s t : FuzzyState} {a : FuzzyAction} {o : List NaiveDate}
    (h : fuzzyStep w tz s a = some (t, o)) :
    (∃ now draws pending, a = .evaluate now draws ∧ s.clock ≤ now ∧
      w.next tz now draws = .ok pending ∧ t = { s with clock := now, pending := pending }) ∨
    ∃ now date due, a = .fire now ∧ s.pending = some (date, due) ∧ s.clock ≤ now ∧ due ≤ now ∧
      t = { clock := now, pending := none, fired := date :: s.fired } := by
  cases a with
  | evaluate now draws =>
    rw [fuzzyStep] at h
    split_ifs at h with hclock
    split at h
    · rename_i pending hnext
      cases h
      exact .inl ⟨now, draws, pending, rfl, hclock, hnext, rfl⟩
    · cases h
  | fire now =>
    rw [fuzzyStep] at h
    split at h
    · rename_i date due hpending
      split_ifs at h with hdue
      cases h
      exact .inr ⟨now, date, due, rfl, hpending, hdue.1, hdue.2, rfl⟩
    · cases h

/-- No date has fired twice, and the pending one has not fired. -/
structure FuzzyState.Once (s : FuzzyState) : Prop where
  nodup : s.fired.Nodup
  pending : ∀ date due, s.pending = some (date, due) → date ∉ s.fired

theorem FuzzyState.Once.init : (fuzzyMachine w tz start).init.Once := by
  refine ⟨List.nodup_nil, ?_⟩
  intro date due h
  cases h

theorem FuzzyState.Once.step {s t : FuzzyState} {a : FuzzyAction} {o : List NaiveDate}
    (hs : s.Once) (hok : WindowsBegun w tz s a) (h : fuzzyStep w tz s a = some (t, o)) :
    t.Once := by
  obtain ⟨now, draws, pending, rfl, -, hnext, rfl⟩ | ⟨now, date, due, rfl, hpending, -, -, rfl⟩ :=
    fuzzyStep_cases h
  · refine ⟨hs.nodup, ?_⟩
    rintro date due rfl hfired
    -- an evaluation picks a window that has not begun
    obtain ⟨⟨-, hahead⟩, -⟩ := FuzzyWindow.ahead_of_next hnext
    exact absurd hahead (not_lt.mpr (hok date hfired))
  · refine ⟨List.nodup_cons.mpr ⟨hs.pending date due hpending, hs.nodup⟩, ?_⟩
    intro date due h
    cases h

/-- In every run in which, at each evaluation, the local clock has reached the start of the
    windows that have fired, no date fires twice. -/
theorem fuzzy_once {w : FuzzyWindow} {tz : Tz} {start : DateTime}
    {tr : List (FuzzyAction × List NaiveDate)} {s : FuzzyState}
    (h : (fuzzyMachine w tz start).Run (WindowsBegun w tz) (fuzzyMachine w tz start).init tr s) :
    s.fired.Nodup := by
  have honce : s.Once := by
    refine h.invariant FuzzyState.Once.init ?_
    intro s a t o hs hok hst
    exact hs.step hok hst
  exact honce.nodup

/-! ## Clocks that are never set back -/

/-- The windows that have fired, and the one that is pending at its time, have begun. -/
structure FuzzyState.Begun (s : FuzzyState) (w : FuzzyWindow) (tz : Tz) : Prop where
  fired : ∀ date ∈ s.fired, andTime date w.windowStart ≤ tz.toLocal s.clock
  pending : ∀ date due, s.pending = some (date, due) →
    andTime date w.windowStart ≤ tz.toLocal due

theorem FuzzyState.Begun.init : (fuzzyMachine w tz start).init.Begun w tz := by
  refine ⟨?_, ?_⟩
  · intro date h
    cases h
  · intro date due h
    cases h

theorem FuzzyState.Begun.step (hforward : ∀ u v, u ≤ v → tz.toLocal u ≤ tz.toLocal v)
    {s t : FuzzyState} {a : FuzzyAction} {o : List NaiveDate} (hs : s.Begun w tz)
    (h : fuzzyStep w tz s a = some (t, o)) : t.Begun w tz := by
  obtain ⟨now, draws, pending, rfl, hclock, hnext, rfl⟩ |
    ⟨now, date, due, rfl, hpending, hclock, hdue, rfl⟩ := fuzzyStep_cases h
  · refine ⟨fun date hfired => le_trans (hs.fired date hfired) (hforward _ _ hclock), ?_⟩
    rintro date due rfl
    obtain ⟨-, time, htime, hoccurs⟩ := FuzzyWindow.ahead_of_next hnext
    have hbounds := hoccurs.bounds.1
    unfold andTime at hbounds ⊢
    linarith
  · refine ⟨fun d hfired => ?_, fun d due' h => ?_⟩
    · rcases List.mem_cons.mp hfired with rfl | hfired
      · exact le_trans (hs.pending d due hpending) (hforward _ _ hdue)
      · exact le_trans (hs.fired d hfired) (hforward _ _ hclock)
    · cases h

/-- Where the clocks are never set back, no date fires twice in any run. -/
theorem fuzzy_once_of_forward (hforward : ∀ u v, u ≤ v → tz.toLocal u ≤ tz.toLocal v)
    {tr : List (FuzzyAction × List NaiveDate)} {s : FuzzyState}
    (h : (fuzzyMachine w tz start).Run Machine.anyStep (fuzzyMachine w tz start).init tr s) :
    s.fired.Nodup := by
  have hinv : s.Once ∧ s.Begun w tz := by
    refine h.invariant (I := fun s => s.Once ∧ s.Begun w tz)
      ⟨FuzzyState.Once.init, FuzzyState.Begun.init⟩ ?_
    rintro s a t o ⟨honce, hbegun⟩ - hst
    refine ⟨honce.step ?_ hst, hbegun.step hforward hst⟩
    obtain ⟨now, draws, pending, rfl, hclock, -, -⟩ | ⟨now, date, due, rfl, -⟩ :=
      fuzzyStep_cases hst
    · exact fun date hfired => le_trans (hbegun.fired date hfired) (hforward _ _ hclock)
    · exact trivial
  exact hinv.1.nodup

/-! ## New York in November 2026 -/

/-- Every day from 01:05 to 01:50. -/
def nightWindow : FuzzyWindow where
  period := .Daily
  windowStart := 65 * nanosPerMinute
  windowEnd := 110 * nanosPerMinute
  start_nonneg := by decide
  nonempty := by decide
  end_lt := by decide

/-- Two nights of a week in June. -/
def juneNights : List FuzzyAction :=
  [.evaluate (20620 * nanosPerDay + 300 * nanosPerMinute) (fun _ => 300),
    .fire (20620 * nanosPerDay + 310 * nanosPerMinute),
    .evaluate (20620 * nanosPerDay + 311 * nanosPerMinute) (fun _ => 300),
    .fire (20621 * nanosPerDay + 310 * nanosPerMinute)]

theorem juneNights_possible : ((fuzzyMachine nightWindow newYork (20620 * nanosPerDay)).exec
    (WindowsBegun nightWindow newYork) (fuzzyMachine nightWindow newYork (20620 * nanosPerDay)).init
    juneNights).isSome = true := by
  decide +kernel

theorem fuzzy_once_june : (((fuzzyMachine nightWindow newYork (20620 * nanosPerDay)).exec
    (WindowsBegun nightWindow newYork) (fuzzyMachine nightWindow newYork (20620 * nanosPerDay)).init
    juneNights).get juneNights_possible).2.fired.Nodup :=
  fuzzy_once (Machine.exec_get_run juneNights_possible)

/-- At 01:00 on 2026-11-01, 01:10 is picked, and the trigger fires then. At 01:02 in the
    second pass the task is saved: 01:10 is picked again, and the trigger fires again. -/
def fallNight : List FuzzyAction :=
  [.evaluate (20758 * nanosPerDay + 300 * nanosPerMinute) (fun _ => 300),
    .fire (20758 * nanosPerDay + 310 * nanosPerMinute),
    .evaluate (20758 * nanosPerDay + 310 * nanosPerMinute) (fun _ => 300),
    .evaluate (20758 * nanosPerDay + 362 * nanosPerMinute) (fun _ => 300),
    .fire (20758 * nanosPerDay + 370 * nanosPerMinute)]

theorem fallNight_possible : ((fuzzyMachine nightWindow newYork (20758 * nanosPerDay)).exec
    Machine.anyStep (fuzzyMachine nightWindow newYork (20758 * nanosPerDay)).init
    fallNight).isSome = true := by
  decide +kernel

theorem fuzzy_fires_twice :
    ¬∀ tr s, (fuzzyMachine nightWindow newYork (20758 * nanosPerDay)).Run Machine.anyStep
      (fuzzyMachine nightWindow newYork (20758 * nanosPerDay)).init tr s → s.fired.Nodup := by
  intro h
  have hnodup := h _ _ (Machine.exec_get_run fallNight_possible)
  have hfired : (((fuzzyMachine nightWindow newYork (20758 * nanosPerDay)).exec
      Machine.anyStep (fuzzyMachine nightWindow newYork (20758 * nanosPerDay)).init
      fallNight).get fallNight_possible).2.fired = [20758, 20758] := by
    decide +kernel
  rw [hfired] at hnodup
  exact absurd hnodup (by decide)

end EasyJob.Scheduler
