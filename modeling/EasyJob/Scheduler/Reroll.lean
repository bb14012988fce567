import EasyJob.Scheduler.Entries
import Mathlib.Order.Bounds.Basic

/-!
# A reroll touches only its target

`next_fire_by_trigger` shows the earliest pending time of each trigger. A reroll
takes all items of a task out of the heap, makes a new generation of the task
and pushes them back; still the map differs afterwards at the target only.

* `Schedule.NextFire`: the earliest pending time of a trigger, if it has one.
  `nextFireByTrigger` computes it, so the map depends on the schedule alone.
* `Schedule.Step.reroll_nextFire`: what a reroll does to it.
* `reroll_only_target`: the same of every reachable state of the loop.
-/

namespace EasyJob.Scheduler

open EasyJob.Chrono EasyJob.Domain Transition

/-! ## The next time of a trigger -/

/-- The times that are pending for a key. -/
def Schedule.timesOf (sch : Schedule) (key : TaskId × TriggerId) : Set DateTime :=
  {t | ⟨key.1, key.2, t⟩ ∈ sch.pending}

/-- `next` is the earliest time pending for the key, or nothing if there is none. -/
def Schedule.NextFire (sch : Schedule) (key : TaskId × TriggerId) (next : Option DateTime) : Prop :=
  match next with
  | none => sch.timesOf key = ∅
  | some t => IsLeast (sch.timesOf key) t

theorem Schedule.NextFire.unique {sch : Schedule} {key : TaskId × TriggerId}
    {a b : Option DateTime} (ha : sch.NextFire key a) (hb : sch.NextFire key b) : a = b := by
  cases a with
  | none =>
    cases b with
    | none => rfl
    | some t =>
      have hmem : t ∈ sch.timesOf key := hb.1
      rw [show sch.timesOf key = ∅ from ha] at hmem
      exact hmem.elim
  | some t =>
    cases b with
    | none =>
      have hmem : t ∈ sch.timesOf key := ha.1
      rw [show sch.timesOf key = ∅ from hb] at hmem
      exact hmem.elim
    | some t' => exact congrArg some (IsLeast.unique ha hb)

theorem Schedule.NextFire.congr {sch sch' : Schedule} {key : TaskId × TriggerId}
    {next : Option DateTime} (heq : sch'.timesOf key = sch.timesOf key)
    (h : sch.NextFire key next) : sch'.NextFire key next := by
  unfold NextFire at *
  rwa [heq]

/-- The map shows the next time of every trigger. -/
theorem nextFireByTrigger_nextFire (s : SchedulerState) (key : TaskId × TriggerId) :
    s.schedule.NextFire key (s.queue.nextFireByTrigger.lookup key) := by
  cases hlook : s.queue.nextFireByTrigger.lookup key with
  | none =>
    refine Set.eq_empty_of_forall_notMem fun t ht => ?_
    obtain ⟨t', -, hsome⟩ := ScheduleQueue.nextFireByTrigger_le ht
    rw [show (⟨key.1, key.2, t⟩ : Entry).key = key from rfl, hlook] at hsome
    cases hsome
  | some t =>
    refine ⟨?_, fun t' ht' => ?_⟩
    · obtain ⟨e, he, rfl, rfl⟩ := ScheduleQueue.nextFireByTrigger_mem hlook
      exact he
    · obtain ⟨t'', hle, hsome⟩ := ScheduleQueue.nextFireByTrigger_le ht'
      rw [show (⟨key.1, key.2, t'⟩ : Entry).key = key from rfl, hlook] at hsome
      cases hsome
      exact hle

/-- Schedules with the same times for a key show the same next time. -/
theorem lookup_nextFireByTrigger_congr {s s' : SchedulerState} {key : TaskId × TriggerId}
    (h : s'.schedule.timesOf key = s.schedule.timesOf key) :
    s'.queue.nextFireByTrigger.lookup key = s.queue.nextFireByTrigger.lookup key :=
  (nextFireByTrigger_nextFire s' key).unique ((nextFireByTrigger_nextFire s key).congr h)

/-! ## What a reroll does to it -/

/-- A single evaluation leaves its result as the only time of its key. -/
theorem nextFire_entriesOf {registered : TaskId → Option Task} {kept : Multiset Entry}
    {ev : Evaluation} (hkept : ∀ e ∈ kept, e.key ≠ ev.key) :
    (⟨registered, kept + entriesOf [ev]⟩ : Schedule).NextFire ev.key ev.result := by
  have htimes : ∀ t, (⟨ev.key.1, ev.key.2, t⟩ : Entry) ∈ kept + entriesOf [ev] ↔
      ev.result = some t := by
    intro t
    rw [Multiset.mem_add, mem_entriesOf]
    constructor
    · rintro (hmem | ⟨ev', hev', -, hres⟩)
      · exact absurd rfl (hkept _ hmem)
      · rwa [List.mem_singleton.mp hev'] at hres
    · intro hres
      exact .inr ⟨ev, List.mem_singleton_self ev, rfl, hres⟩
  cases hres : ev.result with
  | none =>
    refine Set.eq_empty_of_forall_notMem fun t ht => ?_
    have hsome := (htimes t).mp ht
    rw [hres] at hsome
    cases hsome
  | some next =>
    refine ⟨(htimes next).mpr hres, fun t ht => ?_⟩
    have hsome := (htimes t).mp ht
    rw [hres] at hsome
    exact le_of_eq (Option.some.inj hsome)

/-- With unique keys, a reroll that succeeds gives its target the time it replies
    with, and no other trigger another time. -/
theorem Schedule.Step.reroll_nextFire {env : Env} {sch sch' : Schedule} {taskId : TaskId}
    {triggerId : TriggerId} {readings : ℕ → Reading} {o : List Output} {next : Option DateTime}
    (h : sch.Step env (.command (.RerollTrigger taskId triggerId) readings) sch' o)
    (hu : sch.UniqueKeys) (hreply : .reply (.ok next) ∈ o) :
    sch'.NextFire (taskId, triggerId) next ∧
      ∀ key, key ≠ (taskId, triggerId) → sch'.timesOf key = sch.timesOf key := by
  cases h with
  | rerollRejected taskId triggerId readings msg => simp at hreply
  | reroll taskId triggerId readings es next' hlen hkey hes hnext =>
    have hcard := hu.card_key_le (taskId, triggerId)
    obtain ⟨ev, rfl⟩ := List.length_eq_one_iff.mp (show es.length = 1 by omega)
    have hevkey : ev.key = (taskId, triggerId) := hkey ev (List.mem_singleton_self ev)
    have hnext' : next = ev.result := by
      rw [← hnext ev rfl]
      simpa using hreply
    refine ⟨?_, fun key hne => Set.ext fun t => ?_⟩
    · rw [hnext', ← hevkey]
      refine nextFire_entriesOf fun e he => ?_
      exact (Multiset.mem_filter.mp he).2
    · -- the evaluation is for the target, so it gives no entry for another key
      simp only [Schedule.timesOf, Set.mem_ofPred_eq]
      rw [Multiset.mem_add, Multiset.mem_filter, mem_entriesOf]
      constructor
      · rintro (⟨hmem, -⟩ | ⟨ev', hev', hkey', -⟩)
        · exact hmem
        · rw [hkey ev' hev'] at hkey'
          exact absurd hkey'.symm hne
      · intro hmem
        exact .inl ⟨hmem, hne⟩

/-- A rejected reroll leaves the queue as peeking left it. -/
theorem reroll_rejected {env : Env} {s s' : SchedulerState} {taskId : TaskId}
    {triggerId : TriggerId} {readings : ℕ → Reading} {o : List Output} {msg : String}
    (h : schedulerStep env s (.command (.RerollTrigger taskId triggerId) readings) = some (s', o))
    (hreply : .reply (.error msg) ∈ o) : s' = { s with queue := s.queue.peekValid.2 } := by
  simp only [schedulerStep, stepCommand] at h
  split at h
  · cases h
    rfl
  · split at h
    · cases h
    · cases h
      simp at hreply

/-- The reply of a reroll is its last output, and its only one besides its evaluations. -/
theorem reroll_outputs {env : Env} {s s' : SchedulerState} {taskId : TaskId}
    {triggerId : TriggerId} {readings : ℕ → Reading} {o : List Output}
    (h : schedulerStep env s (.command (.RerollTrigger taskId triggerId) readings) =
      some (s', o)) :
    ∃ (es : List Evaluation) (result : Except String (Option DateTime)),
      o = es.map .evaluated ++ [.reply result] := by
  have hstep := schedulerStep_refines h
  generalize s.schedule = sch, s'.schedule = sch' at hstep
  cases hstep with
  | rerollRejected taskId triggerId readings msg => exact ⟨[], .error msg, rfl⟩
  | reroll taskId triggerId readings es next hlen hkey hes hnext => exact ⟨es, .ok next, rfl⟩

/-- A reroll touches only its target, in every reachable state of the loop. If it
    replies with a time, or with none, `next_fire_by_trigger` shows that for the
    target afterwards and what it showed before for every other trigger; if it
    replies with an error, the map and all generations are as they were. -/
theorem reroll_only_target {env : Env} {wall : DateTime} {mono : ℤ}
    {trace : List (Action × List Output)} {s s' : SchedulerState} {taskId : TaskId}
    {triggerId : TriggerId} {readings : ℕ → Reading} {o : List Output}
    (h : DistinctRun env wall mono trace s)
    (hst : schedulerStep env s (.command (.RerollTrigger taskId triggerId) readings) =
      some (s', o)) :
    (∃ (es : List Evaluation) (result : Except String (Option DateTime)),
      o = es.map .evaluated ++ [.reply result]) ∧
    (∀ next, .reply (.ok next) ∈ o → ∀ key, s'.queue.nextFireByTrigger.lookup key =
      if key = (taskId, triggerId) then next else s.queue.nextFireByTrigger.lookup key) ∧
    (∀ msg, .reply (.error msg) ∈ o →
      (∀ key, s'.queue.nextFireByTrigger.lookup key = s.queue.nextFireByTrigger.lookup key) ∧
      ∀ id, s'.queue.currentGeneration id = s.queue.currentGeneration id) := by
  refine ⟨reroll_outputs hst, fun next hreply key => ?_, fun msg hreply => ?_⟩
  · obtain ⟨htarget, hother⟩ :=
      (schedulerStep_refines hst).reroll_nextFire (run_uniqueKeys h) hreply
    split_ifs with hkey
    · rw [hkey]
      exact (nextFireByTrigger_nextFire s' _).unique htarget
    · exact lookup_nextFireByTrigger_congr (hother key hkey)
  · rw [reroll_rejected hst hreply]
    refine ⟨fun key => lookup_nextFireByTrigger_congr ?_, fun id => rfl⟩
    simp [Schedule.timesOf, SchedulerState.schedule, SchedulerState.pending]

/-- The reroll of the hourly trigger after its second run, half an hour later. -/
def hourlyReroll : Option (SchedulerState × List Output) :=
  schedulerStep utcOnly hourlyState
    (.command (.RerollTrigger ⟨1⟩ ⟨7⟩) fun _ => ⟨9000 * nanosPerSec, fun _ => 0⟩)

theorem hourlyReroll_isSome : hourlyReroll.isSome = true := by decide

/-- The next run is then one hour after the reroll, and another trigger has what it had. -/
theorem reroll_only_target_hourly :
    (hourlyReroll.get hourlyReroll_isSome).1.queue.nextFireByTrigger.lookup (⟨1⟩, ⟨7⟩) =
      some (12600 * nanosPerSec) ∧
    (hourlyReroll.get hourlyReroll_isSome).1.queue.nextFireByTrigger.lookup (⟨1⟩, ⟨8⟩) =
      hourlyState.queue.nextFireByTrigger.lookup (⟨1⟩, ⟨8⟩) := by
  have hreply := (reroll_only_target (hourlyRun.mono fun _ _ h => h.1)
    (Option.some_get hourlyReroll_isSome).symm).2.1 (some (12600 * nanosPerSec))
    (.tail _ (.head _))
  exact ⟨(hreply (⟨1⟩, ⟨7⟩)).trans (if_pos rfl), (hreply (⟨1⟩, ⟨8⟩)).trans (if_neg (by decide))⟩

end EasyJob.Scheduler
