import EasyJob.Lib.Grid
import EasyJob.Scheduler.Safety

/-!
# Interval triggers

An Interval trigger fires at the points `base + k * interval`, where the base is
`start_at` or, without it, the instant evaluated from. The agent accepts any `u64` as
the interval. The evaluation casts it to an `i64`, multiplies it, and builds a
`Duration` and a `DateTime` from the product, each with a range of its own.

* `evaluateInterval_eq`: if a point after `after` can be represented, the evaluation
  gives the next one.
* `interval_safe_iff`: otherwise, and only then, it panics or gives an instant that is
  not after `after`.
* `interval_grid`: repeated evaluations visit every point once, without drift.
-/

namespace EasyJob.Scheduler

open EasyJob.Chrono EasyJob.Domain

/-! ## The grid -/

/-- The instants that `chrono` can represent. -/
def Representable (t : DateTime) : Prop := minUtc ≤ t ∧ t ≤ maxUtc

instance : DecidablePred Representable := fun _ => inferInstanceAs (Decidable (_ ∧ _))

/-- The length of the interval. -/
def intervalStep (intervalSecs : ℕ) : TimeDelta := intervalSecs * nanosPerSec

/-- The `k`-th time of an Interval trigger that is evaluated at `after`. -/
def gridPoint (intervalSecs : ℕ) (startAt : Option DateTime) (after : DateTime) (k : ℕ) :
    DateTime :=
  Grid.point (startAt.getD after) (intervalStep intervalSecs) k

/-- Some point of the grid after `after` can be represented. -/
def HasNext (intervalSecs : ℕ) (startAt : Option DateTime) (after : DateTime) : Prop :=
  ∃ k, after < gridPoint intervalSecs startAt after k ∧
    gridPoint intervalSecs startAt after k ≤ maxUtc

theorem intervalStep_pos {secs : ℕ} (h : secs ≠ 0) : 0 < intervalStep secs := by
  have hsecs : (0 : ℤ) < secs := by omega
  have hpos : 0 < nanosPerSec := by decide
  exact mul_pos hsecs hpos

variable {secs : ℕ} {startAt : Option DateTime} {after : DateTime}

/-- Dividing the whole seconds gives the same count as dividing the nanoseconds. -/
theorem count_eq {elapsed : TimeDelta} (h : 0 ≤ elapsed) (secs : ℕ) :
    (numSeconds elapsed).tdiv secs = elapsed / intervalStep secs := by
  have hsec : numSeconds elapsed = elapsed / nanosPerSec := Int.tdiv_eq_ediv_of_nonneg h
  have hnonneg : 0 ≤ elapsed / nanosPerSec := Int.ediv_nonneg h (by decide)
  rw [hsec, Int.tdiv_eq_ediv_of_nonneg hnonneg, Int.ediv_ediv_of_nonneg (by decide), intervalStep,
    mul_comm]

theorem HasNext.next_le (h : HasNext secs startAt after) (hsecs : secs ≠ 0) :
    Grid.next (startAt.getD after) (intervalStep secs) after ≤ maxUtc := by
  obtain ⟨k, hafter, hmax⟩ := h
  exact le_trans (Grid.next_le (intervalStep_pos hsecs) hafter) hmax

/-- If the start is not in the future, an interval with a point in the range of `chrono`
    is far from the limits of `i64` and of `Duration`. -/
theorem HasNext.total_le (h : HasNext secs startAt after) (hsecs : secs ≠ 0)
    (hbase : minUtc ≤ startAt.getD after) (hle : startAt.getD after ≤ after) :
    ((after - startAt.getD after) / intervalStep secs + 1) * secs ≤ 9223372036854775 := by
  have hnext := h.next_le hsecs
  rw [Grid.next, if_neg (not_lt.mpr hle)] at hnext
  by_contra hlarge
  have hmul := Int.mul_le_mul_of_nonneg_right (Int.add_one_le_of_lt (not_le.mp hlarge))
    (by decide : 0 ≤ nanosPerSec)
  have hrange : maxUtc - minUtc < (9223372036854775 + 1) * nanosPerSec := by decide
  rw [intervalStep, ← mul_assoc] at hnext
  rw [intervalStep] at hmul
  linarith

/-! ## The evaluation -/

/-- What the evaluation does once `start_at` is past. -/
theorem evaluateInterval_of_le (hsecs : secs ≠ 0) (hle : startAt.getD after ≤ after) :
    evaluateInterval secs startAt after = (do
      let total ←
        i64Mul ((numSeconds (after - startAt.getD after)).tdiv (asI64 secs) + 1) (asI64 secs)
      let delta ← deltaSeconds total
      let next ← addDelta (startAt.getD after) delta
      .ok (some next)) := by
  rw [evaluateInterval, if_neg hsecs]
  show (if after < startAt.getD after then _ else _) = _
  rw [if_neg (not_lt.mpr hle)]

/-- If the next point of the grid can be represented, it is the result. -/
theorem evaluateInterval_eq (hsecs : secs ≠ 0) (hbase : Representable (startAt.getD after))
    (h : HasNext secs startAt after) :
    evaluateInterval secs startAt after =
      .ok (some (Grid.next (startAt.getD after) (intervalStep secs) after)) := by
  rcases lt_or_ge after (startAt.getD after) with hlt | hle
  · rw [Grid.next, if_pos hlt, evaluateInterval, if_neg hsecs]
    exact if_pos hlt
  · have helapsed : 0 ≤ after - startAt.getD after := by linarith
    have hstep := intervalStep_pos hsecs
    have htotal := h.total_le hsecs hbase.1 hle
    have hnext := h.next_le hsecs
    rw [Grid.next, if_neg (not_lt.mpr hle)] at hnext ⊢
    rw [evaluateInterval_of_le hsecs hle]
    have hcount : 0 ≤ (after - startAt.getD after) / intervalStep secs :=
      Int.ediv_nonneg helapsed (le_of_lt hstep)
    rw [← count_eq helapsed] at hcount htotal hnext ⊢
    have hcast : asI64 secs = secs := by
      have hone := Int.mul_le_mul_of_nonneg_right (Int.add_le_add_right hcount 1)
        (Int.natCast_nonneg secs)
      rw [zero_add, one_mul] at hone
      have hsmall := le_trans hone htotal
      exact asI64_of_lt (by omega)
    rw [hcast]
    set count := (numSeconds (after - startAt.getD after)).tdiv (secs : ℤ) + 1 with hdef
    have hpos : 0 ≤ count * (secs : ℤ) :=
      Int.mul_nonneg (by linarith) (Int.natCast_nonneg secs)
    have hi64 : inI64 (count * secs) := by
      constructor <;> linarith
    have hduration :
        -9223372036854775 ≤ count * (secs : ℤ) ∧ count * secs ≤ 9223372036854775 := by
      constructor <;> linarith
    have hassoc : count * (secs : ℤ) * nanosPerSec = count * intervalStep secs :=
      mul_assoc _ _ _
    have hnonneg : 0 ≤ count * intervalStep secs := Int.mul_nonneg (by linarith) (le_of_lt hstep)
    have hrange : minUtc ≤ startAt.getD after + count * intervalStep secs ∧
        startAt.getD after + count * intervalStep secs ≤ maxUtc :=
      ⟨by linarith [hbase.1], hnext⟩
    rw [i64Mul_eq hi64, rust_ok_bind, deltaSeconds_eq hduration, rust_ok_bind, hassoc,
      addDelta_eq hrange, rust_ok_bind]

/-- A cast that wraps makes the time between two firings negative. -/
theorem total_le_of_neg {seconds interval : ℤ} (hseconds : 0 ≤ seconds) (h : interval < 0) :
    (seconds.tdiv interval + 1) * interval ≤ seconds := by
  have hneg : seconds.tdiv interval = -(seconds / -interval) := by
    rw [← Int.neg_neg interval, Int.tdiv_neg, Int.tdiv_eq_ediv_of_nonneg hseconds, Int.neg_neg]
  have hle : seconds / -interval * -interval ≤ seconds := Int.ediv_mul_le seconds (by omega)
  rw [hneg, Int.add_mul, one_mul, Int.neg_mul]
  rw [Int.mul_neg] at hle
  linarith

/-- Where no point after `after` can be represented, no result is after `after`. -/
theorem evaluateInterval_le (hsecs : secs ≠ 0) (hu64 : secs < 2 ^ 64)
    (hbase : startAt.getD after ≤ maxUtc) (h : ¬HasNext secs startAt after) {x : DateTime}
    (hx : evaluateInterval secs startAt after = .ok (some x)) : x ≤ after := by
  have hle : startAt.getD after ≤ after := by
    by_contra hlt
    have hfirst : gridPoint secs startAt after 0 = startAt.getD after := Grid.point_zero _ _
    exact h ⟨0, by rw [hfirst]; exact not_le.mp hlt, by rw [hfirst]; exact hbase⟩
  have helapsed : 0 ≤ after - startAt.getD after := by linarith
  rw [evaluateInterval_of_le hsecs hle] at hx
  obtain ⟨total, htotal, hx⟩ := rust_bind_ok hx
  obtain ⟨delta, hdelta, hx⟩ := rust_bind_ok hx
  obtain ⟨next, hnext, hx⟩ := rust_bind_ok hx
  cases hx
  have htotal := i64Mul_ok htotal
  have hdelta := deltaSeconds_ok hdelta
  have heq := addDelta_ok hnext
  rcases Nat.lt_or_ge secs (2 ^ 63) with hfits | hwraps
  · -- the result is the next point, which would be in the range
    rw [asI64_of_lt hfits, count_eq helapsed] at htotal
    have hpoint : x = Grid.next (startAt.getD after) (intervalStep secs) after := by
      rw [Grid.next, if_neg (not_lt.mpr hle), heq, hdelta, htotal, mul_assoc, intervalStep]
    obtain ⟨k, hk⟩ := Grid.exists_next_eq_point (startAt.getD after)
      (intervalStep_pos hsecs) after
    have hlt := Grid.lt_next (startAt.getD after) (intervalStep_pos hsecs) after
    have hmax : x ≤ maxUtc := by
      unfold addDelta at hnext
      split_ifs at hnext with hrange
      rw [heq]
      exact hrange.2
    rw [← hpoint] at hk hlt
    exact absurd ⟨k, by rwa [gridPoint, ← hk], by rwa [gridPoint, ← hk]⟩ h
  · have hneg : asI64 secs < 0 := by
      have hcast : (secs : ℤ) % 2 ^ 64 = secs := by omega
      have hnot : ¬(secs : ℤ) < 2 ^ 63 := by omega
      unfold asI64
      rw [hcast, if_neg hnot]
      omega
    have hseconds : numSeconds (after - startAt.getD after) =
        (after - startAt.getD after) / nanosPerSec := Int.tdiv_eq_ediv_of_nonneg helapsed
    have hnonneg : 0 ≤ numSeconds (after - startAt.getD after) := by
      rw [hseconds]
      exact Int.ediv_nonneg helapsed (by decide)
    have hbound := total_le_of_neg hnonneg hneg
    rw [← htotal, hseconds] at hbound
    have hnanos := Int.ediv_mul_le (after - startAt.getD after) (by decide : nanosPerSec ≠ 0)
    have hmul := Int.mul_le_mul_of_nonneg_right hbound (by decide : 0 ≤ nanosPerSec)
    rw [heq, hdelta]
    linarith

theorem HasNext.getD (hstart : ∀ t, startAt = some t → Representable t)
    (hafter : Representable after) : Representable (startAt.getD after) := by
  cases startAt with
  | none => exact hafter
  | some t => exact hstart t rfl

/-- When is the evaluation of an Interval trigger safe? It returns nothing or a later
    instant if and only if the interval is 0 or some point of the grid after `after` is
    in the range of `chrono`. In all other cases it panics, or the cast has wrapped and the
    result is not after `after`. -/
theorem interval_safe_iff (env : Env) (draws : ℕ → ℕ) {secs : ℕ} (hu64 : secs < 2 ^ 64)
    {startAt : Option DateTime} {after : DateTime}
    (hstart : ∀ t, startAt = some t → Representable t) (hafter : Representable after) :
    (∃ r, evaluateNextOccurrence env (.Interval secs startAt) after draws = .ok r ∧
      ∀ x, r = some x → after < x) ↔ secs = 0 ∨ HasNext secs startAt after := by
  have hbase := HasNext.getD hstart hafter
  show (∃ r, evaluateInterval secs startAt after = .ok r ∧ _) ↔ _
  constructor
  · rintro ⟨r, hr, hlater⟩
    by_contra hnot
    obtain ⟨hsecs, hnext⟩ := not_or.mp hnot
    cases r with
    | none => exact evaluateInterval_ne_none hsecs startAt after hr
    | some x =>
      exact absurd (hlater x rfl) (not_lt.mpr (evaluateInterval_le hsecs hu64 hbase.2 hnext hr))
  · rintro (rfl | hnext)
    · refine ⟨none, rfl, ?_⟩
      intro x hx
      cases hx
    · rcases Nat.eq_zero_or_pos secs with rfl | hpos
      · refine ⟨none, rfl, ?_⟩
        intro x hx
        cases hx
      · refine ⟨_, evaluateInterval_eq (by omega) hbase hnext, ?_⟩
        intro x hx
        cases hx
        exact Grid.lt_next _ (intervalStep_pos (by omega)) after

/-- Every minute, evaluated half a minute after the start. -/
theorem interval_safe_minutely :
    ∃ r, evaluateNextOccurrence utcOnly (.Interval 60 (some 0)) (30 * nanosPerSec) (fun _ => 0) =
      .ok r ∧ ∀ x, r = some x → 30 * nanosPerSec < x := by
  refine (interval_safe_iff utcOnly (fun _ => 0) (by decide) ?_ (by decide)).mpr
    (.inr ⟨1, by decide, by decide⟩)
  rintro t ⟨⟩
  decide

/-! ## Intervals that are too long -/

/-- The hourly task with another interval. -/
def intervalTask (intervalSecs : ℕ) : Task :=
  { hourlyTask with triggers := [⟨⟨7⟩, ⟨1⟩, true, .Interval intervalSecs none, 0, 0⟩] }

/-- Add the task and fire it three times, all while the clock shows 0. -/
def busyActions (intervalSecs : ℕ) : List Action :=
  [.command (.AddTask (intervalTask intervalSecs)) fun _ => ⟨0, fun _ => 0⟩,
    .fire 0 ⟨0, fun _ => 0⟩, .fire 0 ⟨0, fun _ => 0⟩, .fire 0 ⟨0, fun _ => 0⟩]

/-- An interval of 9223372036854776 seconds is too long for a `Duration`, one of 10¹³
    seconds for a `DateTime`: saving such a task ends the scheduler loop with a panic.
    2⁶⁴ - 1 seconds are cast to -1: the task fires again and again at the same instant. -/
theorem interval_unsafe :
    evaluateNextOccurrence utcOnly (.Interval 9223372036854776 none) 0 (fun _ => 0) =
      .error .timeDeltaOutOfBounds ∧
    evaluateNextOccurrence utcOnly (.Interval 10000000000000 none) 0 (fun _ => 0) =
      .error .dateTimeOverflow ∧
    schedulerStep utcOnly (scheduler utcOnly 0 0).init
      (.command (.AddTask (intervalTask 10000000000000)) fun _ => ⟨0, fun _ => 0⟩) = none ∧
    evaluateNextOccurrence utcOnly (.Interval (2 ^ 64 - 1) none) 0 (fun _ => 0) =
      .ok (some (-nanosPerSec)) ∧
    ((scheduler utcOnly 0 0).exec (fun s a => a.AddsDistinct ∧ FiresWhenDue s a)
      (scheduler utcOnly 0 0).init (busyActions (2 ^ 64 - 1))).isSome = true := by
  refine ⟨by decide, by decide, by decide, by decide, by decide⟩

/-! ## The times of a schedule -/

/-- Evaluations that follow each other, each from an instant at or after the last result
    and before the next point of the grid. -/
structure IntervalRun (env : Env) (secs : ℕ) (base : DateTime) (draws : ℕ → ℕ)
    (afters times : ℕ → DateTime) (n : ℕ) : Prop where
  evaluated : ∀ i ≤ n, evaluateNextOccurrence env (.Interval secs (some base)) (afters i) draws =
    .ok (some (times i))
  hasNext : ∀ i ≤ n, HasNext secs (some base) (afters i)
  after : ∀ i < n, times i ≤ afters (i + 1)
  before : ∀ i < n, ∀ k, times i < Grid.point base (intervalStep secs) k →
    afters (i + 1) < Grid.point base (intervalStep secs) k

theorem IntervalRun.walk {env : Env} {secs : ℕ} {base : DateTime} {draws : ℕ → ℕ}
    {afters times : ℕ → DateTime} {n : ℕ} (h : IntervalRun env secs base draws afters times n)
    (hsecs : secs ≠ 0) (hbase : Representable base) :
    Grid.Walk base (intervalStep secs) afters times n := by
  refine ⟨fun i hi => ?_, h.after, h.before⟩
  have heval : evaluateInterval secs (some base) (afters i) = .ok (some (times i)) :=
    h.evaluated i hi
  have heq : evaluateInterval secs (some base) (afters i) =
      .ok (some (Grid.next base (intervalStep secs) (afters i))) :=
    evaluateInterval_eq hsecs hbase (h.hasNext i hi)
  rw [heval] at heq
  exact Option.some.inj (Except.ok.inj heq)

/-- The evaluation gives the least point of the grid after `after`, as long as one can be
    represented. And if `start_at` is given, repeated evaluations visit every point after
    the start exactly once, in order and without drift. -/
theorem interval_grid (env : Env) (draws : ℕ → ℕ) {secs : ℕ} (hsecs : 1 ≤ secs) :
    (∀ startAt after, (∀ t, startAt = some t → Representable t) → Representable after →
      HasNext secs startAt after →
        ∃ x, evaluateNextOccurrence env (.Interval secs startAt) after draws = .ok (some x) ∧
          IsLeast {y | after < y ∧ ∃ k, y = gridPoint secs startAt after k} x) ∧
    ∀ base afters times n, Representable base → IntervalRun env secs base draws afters times n →
      (∀ i ≤ n, times i = times 0 + i * intervalStep secs) ∧
      ∀ k, afters 0 < Grid.point base (intervalStep secs) k →
        Grid.point base (intervalStep secs) k ≤ times n →
          ∃! i, i ≤ n ∧ times i = Grid.point base (intervalStep secs) k := by
  have hsecs' : secs ≠ 0 := by omega
  have hstep := intervalStep_pos hsecs'
  constructor
  · intro startAt after hstart hafter hnext
    have hbase := HasNext.getD hstart hafter
    exact ⟨_, evaluateInterval_eq hsecs' hbase hnext, Grid.isLeast_next hstep after⟩
  · intro base afters times n hbase hrun
    have hwalk := hrun.walk hsecs' hbase
    exact ⟨hwalk.eq_add hstep, fun k hlow hhigh => hwalk.existsUnique hstep hlow hhigh⟩

/-- Every minute, evaluated half a second after each fire. -/
theorem minutely_run : IntervalRun utcOnly 60 0 (fun _ => 0)
    (fun i => i * (60 * nanosPerSec) + 500000000) (fun i => (i + 1) * (60 * nanosPerSec)) 3 := by
  refine ⟨by decide, ?_, by decide, ?_⟩
  · have hnext : ∀ i : ℕ, i ≤ 3 →
        i * (60 * nanosPerSec) + 500000000 < gridPoint 60 (some 0) 0 (i + 1) ∧
          gridPoint 60 (some 0) 0 (i + 1) ≤ maxUtc := by decide
    exact fun i hi => ⟨i + 1, hnext i hi⟩
  · intro i _ k hlt
    have hpoint : Grid.point 0 (intervalStep 60) k = (k : ℤ) * 60000000000 := by
      rw [Grid.point, zero_add]
      rfl
    rw [hpoint] at hlt ⊢
    change ((i : ℤ) + 1) * 60000000000 < (k : ℤ) * 60000000000 at hlt
    show ((i + 1 : ℕ) : ℤ) * 60000000000 + 500000000 < (k : ℤ) * 60000000000
    omega

/-- The first evaluation gives the first minute, and each of the first four minutes is visited
    once. -/
theorem interval_grid_minutely :
    (∃ x, evaluateNextOccurrence utcOnly (.Interval 60 (some 0)) 500000000 (fun _ => 0) =
        .ok (some x) ∧
      IsLeast {y | 500000000 < y ∧ ∃ k, y = gridPoint 60 (some 0) 500000000 k} x) ∧
    ∃! i : ℕ, i ≤ 3 ∧ ((i : ℤ) + 1) * (60 * nanosPerSec) = Grid.point 0 (intervalStep 60) 3 := by
  obtain ⟨hleast, hvisits⟩ := interval_grid utcOnly (fun _ => 0) (by decide : 1 ≤ 60)
  constructor
  · refine hleast (some 0) 500000000 ?_ (by decide) ⟨1, by decide, by decide⟩
    rintro t ⟨⟩
    decide
  · exact (hvisits 0 _ _ 3 (by decide) minutely_run).2 3 (by decide) (by decide)

end EasyJob.Scheduler
