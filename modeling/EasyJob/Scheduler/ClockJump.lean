import EasyJob.Scheduler.Occurrences

/-!
# Clock jumps and due runs

When the loop sees that the wall clock jumped, it clears the queue and evaluates
every trigger again, strictly after the present instant. An entry that was
already due is dropped without an event, also under `MissedRunPolicy::RunOnce`,
which the loop does not read.

* `clockJump_lossless_iff`: a rebuild loses no due run of a `RunOnce` task
  exactly when it finds none due.
* `run_due_kept`: in runs whose rebuilds find none due, a due entry stays in the
  queue until its event is sent.
-/

namespace EasyJob.Scheduler

open EasyJob.Chrono EasyJob.Domain Transition

/-! ## Rebuilds and due runs -/

/-- The action is a jump check that rebuilds the queue when the clock shows `now`. -/
def Action.Rebuilds (s : SchedulerState) (now : DateTime) : Action → Prop
  | .tick wall mono now' _ _ _ => drift s.lastWall wall s.lastInstant mono > 30 ∧ now' = now
  | _ => False

/-- The entry is valid and due at `now`, and its task has the missed-run policy
    `RunOnce`. -/
def DueRunOnce (s : SchedulerState) (now : DateTime) (e : Entry) : Prop :=
  e ∈ s.pending ∧ e.nextFireAt ≤ now ∧
    ∃ task, s.registeredTasks.get e.taskId = some task ∧
      task.executionPolicy.missedRunPolicy = .RunOnce

/-- The event that is sent when the entry fires. -/
def Entry.event (e : Entry) : TriggerEvent := ⟨e.taskId, some e.triggerId, e.nextFireAt⟩

/-- No rebuild drops a due run of a `RunOnce` task. -/
def FindsNoneDue (s : SchedulerState) (a : Action) : Prop :=
  ∀ now, a.Rebuilds s now → ∀ e, ¬DueRunOnce s now e

/-- The Interval seconds of all triggers of an added task fit in an `i64`. -/
def Action.AddsFit : Action → Prop
  | .command (.AddTask task) _ => ∀ tr ∈ task.triggers, FitsI64 tr.kind
  | _ => True

instance : DecidablePred Action.AddsFit
  | .command (.AddTask task) _ =>
    inferInstanceAs (Decidable (∀ tr ∈ task.triggers, FitsI64 tr.kind))
  | .command (.RemoveTask _) _ | .command (.TriggerNow _) _ | .command (.RerollTrigger _ _) _
  | .command .Shutdown _ | .fire _ _ | .tick _ _ _ _ _ _ => isTrue trivial

/-- The event of the entry is among the outputs `o` of the rebuild at `now`, or it
    is sent in some run after it, during which the clock does not go back. -/
def LeadsToEvent (env : Env) (wall : DateTime) (mono : ℤ) (o : List Output) (s' : SchedulerState)
    (now : DateTime) (e : Entry) : Prop :=
  ∃ later s'', (scheduler env wall mono).Run (fun _ a => a.AddsFit) s' later s'' ∧
    (∀ r ∈ later.flatMap clockReadings, now ≤ r) ∧
    .event e.event ∈ o ++ Machine.outputs later

/-! ## After a rebuild everything is in the future -/

/-- The Interval seconds of all registered triggers fit in an `i64`. -/
def Schedule.Fits (sch : Schedule) : Prop :=
  ∀ id task, sch.registered id = some task → ∀ tr ∈ task.triggers, FitsI64 tr.kind

/-- Every pending entry is after `now`. -/
def Schedule.After (sch : Schedule) (now : DateTime) : Prop := ∀ e ∈ sch.pending, now < e.nextFireAt

section Steps

variable {env : Env} {sch sch' : Schedule} {a : Action} {o : List Output} {now : DateTime}

theorem Schedule.Step.fits (h : sch.Step env a sch' o) (ha : a.AddsFit) (hf : sch.Fits) :
    sch'.Fits := by
  intro id task hreg
  rw [h.registered] at hreg
  unfold Action.register at hreg
  split at hreg
  · split_ifs at hreg
    · cases hreg
      exact ha
    · exact hf id task hreg
  · split_ifs at hreg
    exact hf id task hreg
  · exact hf id task hreg

/-- An evaluation of a registered trigger gives a time strictly after its instant. -/
theorem Schedule.Fits.lt (hf : sch.Fits) {ev : Evaluation} (hev : ev.IsOf env sch.registered)
    {x : DateTime} (hx : ev.result = some x) : ev.after < x := by
  obtain ⟨task, hreg, -, trigger, htr, -, -, draws, heval⟩ := hev
  rw [hx] at heval
  exact evaluateNextOccurrence_gt (hf _ _ hreg trigger htr) heval

theorem Schedule.Step.entriesOf_after (h : sch.Step env a sch' o) (hf : sch'.Fits)
    (hclock : ∀ ev ∈ evaluations o, now ≤ ev.after) :
    ∀ e ∈ entriesOf (evaluations o), now < e.nextFireAt := by
  intro e he
  obtain ⟨ev, hev, -, hresult⟩ := mem_entriesOf.mp he
  exact (hclock ev hev).trans_lt (hf.lt (h.isOf ev hev) hresult)

theorem Schedule.Step.after (h : sch.Step env a sch' o) (hf : sch'.Fits) (hs : sch.After now)
    (hclock : ∀ r ∈ clockReadings (a, o), now ≤ r) : sch'.After now := by
  obtain ⟨kept, hle, hpend, -⟩ := h.pending
  intro e he
  rcases Multiset.mem_add.mp (hpend ▸ he) with he | he
  · exact hs e (Multiset.mem_of_le hle he)
  · exact h.entriesOf_after hf (fun ev hev => hclock _ (after_mem_clockReadings h hev)) e he

/-- A scheduled event sent by a step was pending before it. -/
theorem Schedule.Step.event_mem (h : sch.Step env a sch' o) {e : Entry}
    (he : .event e.event ∈ o) : e ∈ sch.pending := by
  obtain ⟨rest, hpend, -⟩ := h.event he
  rw [hpend]
  exact Multiset.mem_cons_self _ _

end Steps

section Runs

variable {env : Env} {wall : DateTime} {mono : ℤ} {s s' : SchedulerState} {now : DateTime}
  {o : List Output} {a : Action}

theorem reachable_fits (h : (scheduler env wall mono).Reachable (fun _ a => a.AddsFit) s) :
    s.schedule.Fits := by
  obtain ⟨tr, hr⟩ := h
  apply (scheduler_refines env wall mono).invariant (I := Schedule.Fits) hr
  · intro _ _ hreg
    cases hreg
  · intro _ _ _ _ hf ha hstep
    exact hstep.fits ha hf

/-- A rebuild makes no event and leaves nothing that is due. -/
theorem rebuild_after (hst : schedulerStep env s a = some (s', o)) (ha : a.Rebuilds s now)
    (hf : s.schedule.Fits) :
    (∀ event, Output.event event ∉ o) ∧ s'.schedule.Fits ∧ s'.schedule.After now := by
  have hstep := schedulerStep_refines hst
  unfold Action.Rebuilds at ha
  split at ha
  · obtain ⟨hdrift, rfl⟩ := ha
    have hf' : s'.schedule.Fits := hstep.fits trivial hf
    simp only [schedulerStep, stepTick, if_pos hdrift] at hst
    split at hst
    · cases hst
    · rename_i q es hrebuild
      cases hst
      obtain ⟨h1, -, h3⟩ := rebuildTasks_spec hrebuild
      rw [ScheduleQueue.pending_clear, zero_add] at h1
      refine ⟨by simp, hf', ?_⟩
      intro e he
      have he' : e ∈ entriesOf es := h1 ▸ he
      refine hstep.entriesOf_after hf' ?_ e (by rwa [evaluations_map])
      intro ev hev
      rw [evaluations_map] at hev
      exact (h3 ev hev).1.ge
  · cases ha

/-- While the clock does not go back before `now`, no event at or before `now` is
    sent from a schedule that is after `now`. -/
theorem run_events_after {later : List (Action × List Output)} {s'' : SchedulerState}
    (h : (scheduler env wall mono).Run (fun _ a => a.AddsFit) s' later s'')
    (hf : s'.schedule.Fits) (hs : s'.schedule.After now)
    (hclock : ∀ r ∈ later.flatMap clockReadings, now ≤ r) :
    ∀ e : Entry, .event e.event ∈ Machine.outputs later → now < e.nextFireAt := by
  have hinv : s''.schedule.Fits ∧ s''.schedule.After now ∧
      ∀ e : Entry, .event e.event ∈ Machine.outputs later → now < e.nextFireAt := by
    refine h.history (I := fun later s'' => (∀ r ∈ later.flatMap clockReadings, now ≤ r) →
      s''.schedule.Fits ∧ s''.schedule.After now ∧
        ∀ e : Entry, .event e.event ∈ Machine.outputs later → now < e.nextFireAt)
      (fun _ => ⟨hf, hs, by simp⟩) ?_ hclock
    intro later t a u o _ ih ha hst hclock
    rw [List.flatMap_append] at hclock
    obtain ⟨hf, hs, hev⟩ := ih fun r hr => hclock r (List.mem_append_left _ hr)
    have hstep := schedulerStep_refines hst
    have hf' := hstep.fits ha hf
    refine ⟨hf', hstep.after hf' hs fun r hr => hclock r (by simp [hr]), ?_⟩
    intro e he
    rcases List.mem_append.mp (Machine.outputs_append later [(a, o)] ▸ he) with he | he
    · exact hev e he
    · exact hs e (hstep.event_mem (by simpa using he))
  exact hinv.2.2

/-- A rebuild never leads to the event of an entry that was due. -/
theorem rebuild_loses_due (hst : schedulerStep env s a = some (s', o)) (ha : a.Rebuilds s now)
    (hf : s.schedule.Fits) {e : Entry} (hdue : e.nextFireAt ≤ now) :
    ¬LeadsToEvent env wall mono o s' now e := by
  rintro ⟨later, s'', hrun, hclock, hev⟩
  obtain ⟨hno, hf', hafter⟩ := rebuild_after hst ha hf
  rcases List.mem_append.mp hev with hev | hev
  · exact hno _ hev
  · exact absurd (run_events_after hrun hf' hafter hclock e hev) (not_lt.mpr hdue)

end Runs

/-! ## Between rebuilds nothing that is due is lost -/

/-- The action does not replace the entry on a command: it neither registers nor
    removes the task, and it does not reroll the trigger. -/
def Action.Spares (e : Entry) : Action → Prop
  | .command (.AddTask task) _ => task.id ≠ e.taskId
  | .command (.RemoveTask id) _ => id ≠ e.taskId
  | .command (.RerollTrigger id tr) _ => (id, tr) ≠ e.key
  | _ => True

section Kept

variable {env : Env} {wall : DateTime} {mono : ℤ} {s s' : SchedulerState} {now : DateTime}
  {o : List Output} {a : Action} {e : Entry}

theorem Schedule.Step.registered_of_spares {sch sch' : Schedule} (h : sch.Step env a sch' o)
    (ha : a.Spares e) : sch'.registered e.taskId = sch.registered e.taskId := by
  rw [h.registered]
  unfold Action.register
  split
  · exact if_neg (Ne.symm ha)
  · exact if_neg (Ne.symm ha)
  · rfl

/-- Apart from rebuilds and commands on it, an entry only leaves by firing. -/
theorem step_keeps_entry (hst : schedulerStep env s a = some (s', o)) (ha : a.Spares e)
    (hno : ∀ now, ¬a.Rebuilds s now) (he : e ∈ s.pending) :
    e ∈ s'.pending ∨ .event e.event ∈ o := by
  have hstep := schedulerStep_refines hst
  have he' : e ∈ s.schedule.pending := he
  suffices h : e ∈ s'.schedule.pending ∨ .event e.event ∈ o from h
  cases a with
  | command cmd readings =>
    generalize s'.schedule = sch' at hstep
    cases hstep with
    | addTask task readings es registered hreg hkeys hes =>
      exact .inl (Multiset.mem_add.mpr (.inl (Multiset.mem_filter.mpr ⟨he', Ne.symm ha⟩)))
    | removeTask removed readings registered hreg =>
      exact .inl (Multiset.mem_filter.mpr ⟨he', fun h => ha h.symm⟩)
    | triggerNow | rerollRejected => exact .inl he'
    | reroll taskId triggerId readings es next hlen hkey hes hnext =>
      exact .inl (Multiset.mem_add.mpr (.inl (Multiset.mem_filter.mpr ⟨he', Ne.symm ha⟩)))
  | fire wake reading =>
    generalize s'.schedule = sch' at hstep
    cases hstep with
    | fire wake reading fired rest es hpending hearliest hkeys hes =>
      rcases Multiset.mem_cons.mp (hpending ▸ he') with rfl | he'
      · exact .inr (by simp [Entry.event])
      · exact .inl (Multiset.mem_add.mpr (.inl he'))
  | tick wall mono now draws newWall newMono =>
    have hdrift : ¬drift s.lastWall wall s.lastInstant mono > 30 := fun h => hno now ⟨h, rfl⟩
    simp only [schedulerStep, stepTick, if_neg hdrift] at hst
    cases hst
    left
    simpa [SchedulerState.schedule, SchedulerState.pending] using he

/-- A due entry of a `RunOnce` task stays in the queue until its event is sent, as
    long as the clock does not go back, every rebuild finds none due, and no
    command replaces the entry. -/
theorem run_due_kept {later : List (Action × List Output)} (hdue : DueRunOnce s now e)
    (h : (scheduler env wall mono).Run (fun s a => FindsNoneDue s a ∧ a.Spares e ∧
      ∀ now', a.Rebuilds s now' → now ≤ now') s later s') :
    e ∈ s'.pending ∨ .event e.event ∈ Machine.outputs later := by
  have hinv : DueRunOnce s' now e ∨ .event e.event ∈ Machine.outputs later := by
    refine h.history (I := fun later s' =>
      DueRunOnce s' now e ∨ .event e.event ∈ Machine.outputs later) (.inl hdue) ?_
    rintro later t a u o - ih ⟨hnone, hspares, hclock⟩ hst
    rw [Machine.outputs_append, Machine.outputs_singleton]
    rcases ih with ⟨he, hle, task, hreg, hpolicy⟩ | hev
    · have hno : ∀ now', ¬a.Rebuilds t now' := fun now' ha =>
        hnone now' ha e ⟨he, hle.trans (hclock now' ha), task, hreg, hpolicy⟩
      rcases step_keeps_entry hst hspares hno he with he' | hev
      · have hreg' := (schedulerStep_refines hst).registered_of_spares hspares
        exact .inl ⟨he', hle, task, hreg'.trans hreg, hpolicy⟩
      · exact .inr (List.mem_append_right _ hev)
    · exact .inr (List.mem_append_left _ hev)
  exact hinv.imp_left fun h => h.1

end Kept

/-! ## When clock jumps lose no due run -/

/-- A rebuild leads to the events of all due runs of `RunOnce` tasks if and only if
    it finds none due; and in runs whose rebuilds find none due, a due run stays in
    the queue until its event is sent. -/
theorem clockJump_lossless_iff (env : Env) (wall : DateTime) (mono : ℤ) :
    (∀ s a s' o now, (scheduler env wall mono).Reachable (fun _ a => a.AddsFit) s →
      a.Rebuilds s now → schedulerStep env s a = some (s', o) →
      ((∀ e, DueRunOnce s now e → LeadsToEvent env wall mono o s' now e) ↔ FindsNoneDue s a)) ∧
    (∀ s now e later s', DueRunOnce s now e →
      (scheduler env wall mono).Run (fun s a => FindsNoneDue s a ∧ a.Spares e ∧
        ∀ now', a.Rebuilds s now' → now ≤ now') s later s' →
      e ∈ s'.pending ∨ .event e.event ∈ Machine.outputs later) := by
  refine ⟨?_, fun s now e later s' hdue hrun => run_due_kept hdue hrun⟩
  intro s a s' o now hreach ha hst
  constructor
  · intro hall now' ha' e hdue
    have heq : now' = now := by
      unfold Action.Rebuilds at ha ha'
      split at ha
      · exact ha'.2.symm.trans ha.2
      · cases ha
    subst heq
    exact rebuild_loses_due hst ha (reachable_fits hreach) hdue.2.1 (hall e hdue)
  · intro hnone e hdue
    exact absurd hdue (hnone now ha e)

/-! ## A one-time task that is slept through -/

/-- A task that runs once, at second 10, under the default policies. -/
def onceTask : Task :=
  { hourlyTask with
    id := ⟨2⟩
    name := "once"
    triggers := [⟨⟨8⟩, ⟨2⟩, true, .Once (10 * nanosPerSec), 0, 0⟩] }

/-- The machine sleeps for an hour: the wall clock has moved on by 3600 s and the
    monotonic clock by 5 s. -/
def wakeUp : Action :=
  .tick (3600 * nanosPerSec) (5 * nanosPerSec) (3600 * nanosPerSec) (fun _ _ _ => 0)
    (3600 * nanosPerSec) (5 * nanosPerSec)

def onceExec : Option (List (Action × List Output) × SchedulerState) :=
  (scheduler utcOnly 0 0).exec (fun _ a => a.AddsFit) (scheduler utcOnly 0 0).init
    [.command (.AddTask onceTask) fun _ => ⟨0, fun _ => 0⟩]

theorem onceExec_isSome : onceExec.isSome = true := by decide

/-- The state after the task was added. -/
def onceState : SchedulerState := (onceExec.get onceExec_isSome).2

theorem onceState_reachable :
    (scheduler utcOnly 0 0).Reachable (fun _ a => a.AddsFit) onceState :=
  ⟨_, Machine.exec_get_run onceExec_isSome⟩

def onceEntry : Entry := ⟨⟨2⟩, ⟨8⟩, 10 * nanosPerSec⟩

theorem onceEntry_due : DueRunOnce onceState (3600 * nanosPerSec) onceEntry :=
  ⟨by decide, by decide, onceTask, rfl, rfl⟩

/-- A task that runs once, after the machine has slept. -/
def laterTask : Task :=
  { onceTask with triggers := [⟨⟨8⟩, ⟨2⟩, true, .Once (7200 * nanosPerSec), 0, 0⟩] }

def laterEntry : Entry := ⟨⟨2⟩, ⟨8⟩, 7200 * nanosPerSec⟩

def laterExec : Option (List (Action × List Output) × SchedulerState) :=
  (scheduler utcOnly 0 0).exec (fun _ a => a.AddsFit) (scheduler utcOnly 0 0).init
    [.command (.AddTask laterTask) fun _ => ⟨0, fun _ => 0⟩]

theorem laterExec_isSome : laterExec.isSome = true := by decide

def laterState : SchedulerState := (laterExec.get laterExec_isSome).2

theorem wakeUp_later_isSome : (schedulerStep utcOnly laterState wakeUp).isSome = true := by decide

/-- The state after the rebuild, with its outputs. -/
def woken : SchedulerState × List Output :=
  (schedulerStep utcOnly laterState wakeUp).get wakeUp_later_isSome

/-- Another task is added, the jump check finds no jump, and the timer fires. -/
def laterActions : List Action :=
  [.command (.AddTask hourlyTask) fun _ => ⟨3600 * nanosPerSec, fun _ => 0⟩,
    .tick (3605 * nanosPerSec) (10 * nanosPerSec) (3605 * nanosPerSec) (fun _ _ _ => 0)
      (3605 * nanosPerSec) (10 * nanosPerSec),
    .fire (7200 * nanosPerSec) ⟨7200 * nanosPerSec, fun _ => 0⟩]

instance (e : Entry) : DecidablePred (Action.Spares e)
  | .command (.AddTask task) _ => inferInstanceAs (Decidable (task.id ≠ e.taskId))
  | .command (.RemoveTask id) _ => inferInstanceAs (Decidable (id ≠ e.taskId))
  | .command (.RerollTrigger id tr) _ => inferInstanceAs (Decidable ((id, tr) ≠ e.key))
  | .command (.TriggerNow _) _ | .command .Shutdown _ | .fire _ _ | .tick _ _ _ _ _ _ =>
    isTrue trivial

/-- The step finds no jump of the clock. -/
def Calm (s : SchedulerState) : Action → Prop
  | .tick wall mono _ _ _ _ => drift s.lastWall wall s.lastInstant mono ≤ 30
  | _ => True

instance (s : SchedulerState) : DecidablePred (Calm s)
  | .tick wall mono _ _ _ _ =>
    inferInstanceAs (Decidable (drift s.lastWall wall s.lastInstant mono ≤ 30))
  | .command _ _ | .fire _ _ => isTrue trivial

theorem Calm.not_rebuilds {s : SchedulerState} {a : Action} (h : Calm s a) (now : DateTime) :
    ¬a.Rebuilds s now := by
  cases a with
  | tick wall mono now' draws newWall newMono => exact fun hr => absurd hr.1 (not_lt.mpr h)
  | command | fire => exact not_false

def calmExec : Option (List (Action × List Output) × SchedulerState) :=
  (scheduler utcOnly 0 0).exec (fun s a => Calm s a ∧ a.Spares laterEntry) woken.1 laterActions

theorem calmExec_isSome : calmExec.isSome = true := by decide +kernel

/-- The rebuild after the sleep finds no run due. The run that comes later stays in the queue
    until its event is sent. -/
theorem clockJump_lossless_later :
    (∀ e, DueRunOnce laterState (3600 * nanosPerSec) e →
      LeadsToEvent utcOnly 0 0 woken.2 woken.1 (3600 * nanosPerSec) e) ∧
    (laterEntry ∈ (calmExec.get calmExec_isSome).2.pending ∨
      .event laterEntry.event ∈ Machine.outputs (calmExec.get calmExec_isSome).1) := by
  obtain ⟨hrebuild, hkept⟩ := clockJump_lossless_iff utcOnly 0 0
  constructor
  · have hstep : schedulerStep utcOnly laterState wakeUp = some (woken.1, woken.2) :=
      (Option.some_get wakeUp_later_isSome).symm
    have hreach : (scheduler utcOnly 0 0).Reachable (fun _ a => a.AddsFit) laterState :=
      ⟨_, Machine.exec_get_run laterExec_isSome⟩
    refine (hrebuild laterState wakeUp _ _ _ hreach ⟨by decide, rfl⟩ hstep).mpr ?_
    rintro now ⟨-, rfl⟩ e ⟨he, hdue, -⟩
    have hlater : ∀ e ∈ laterState.pending, 3600 * nanosPerSec < e.nextFireAt := by decide +kernel
    exact absurd hdue (not_le.mpr (hlater e he))
  · have hdue : DueRunOnce woken.1 (7200 * nanosPerSec) laterEntry :=
      ⟨by decide +kernel, by decide, laterTask, rfl, rfl⟩
    refine hkept woken.1 (7200 * nanosPerSec) laterEntry _ _ hdue ?_
    refine (Machine.exec_get_run calmExec_isSome).mono ?_
    rintro s a ⟨hcalm, hspares⟩
    exact ⟨fun now hr => absurd hr (hcalm.not_rebuilds now), hspares,
      fun now hr => absurd hr (hcalm.not_rebuilds now)⟩

/-- After the jump the due run is gone: the queue is empty, no event was sent, and
    none will be. -/
theorem clockJump_loses_once :
    ∃ s' o, schedulerStep utcOnly onceState wakeUp = some (s', o) ∧
      wakeUp.Rebuilds onceState (3600 * nanosPerSec) ∧
      DueRunOnce onceState (3600 * nanosPerSec) onceEntry ∧ s'.pending = 0 ∧
      ¬LeadsToEvent utcOnly 0 0 o s' (3600 * nanosPerSec) onceEntry := by
  have hsome : (schedulerStep utcOnly onceState wakeUp).isSome = true := by decide
  have hrebuilds : wakeUp.Rebuilds onceState (3600 * nanosPerSec) := ⟨by decide, rfl⟩
  refine ⟨_, _, Option.eq_some_of_isSome hsome, hrebuilds, onceEntry_due, by decide, ?_⟩
  exact rebuild_loses_due (Option.eq_some_of_isSome hsome) hrebuilds
    (reachable_fits onceState_reachable) onceEntry_due.2.1

end EasyJob.Scheduler
