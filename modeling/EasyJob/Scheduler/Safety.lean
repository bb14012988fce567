import EasyJob.Scheduler.Refinement

/-!
# Only what is wanted fires

A valid item of the queue belongs to a registered enabled task and an enabled
trigger of it, in every reachable state of the scheduler loop. So a task that
was removed or disabled, or a trigger that was, sends no event until a later
`AddTask` asks for it again.
-/

namespace EasyJob.Scheduler

open EasyJob.Chrono EasyJob.Domain Transition

/-! ## The invariant -/

/-- The registered version of the task asks for runs from the trigger. -/
def Schedule.Wants (sch : Schedule) (id : TaskId) (tr : TriggerId) : Prop :=
  ∃ task, sch.registered id = some task ∧ task.Schedules tr

/-- Every pending entry is wanted. -/
def Schedule.Safe (sch : Schedule) : Prop := ∀ e ∈ sch.pending, sch.Wants e.taskId e.triggerId

theorem Schedule.Wants.congr {sch sch' : Schedule} {id : TaskId} {tr : TriggerId}
    (h : sch.Wants id tr) (heq : sch'.registered id = sch.registered id) : sch'.Wants id tr := by
  obtain ⟨task, hreg, hsch⟩ := h
  exact ⟨task, heq.trans hreg, hsch⟩

theorem Schedule.Step.safe {env : Env} {sch sch' : Schedule} {a : Action} {o : List Output}
    (h : sch.Step env a sch' o) (hs : sch.Safe) : sch'.Safe := by
  obtain ⟨kept, hle, hpend, hkept⟩ := h.pending
  intro e he
  rw [hpend] at he
  rcases Multiset.mem_add.mp he with he | he
  · exact (hs e (Multiset.mem_of_le hle he)).congr (hkept e he)
  · obtain ⟨ev, hev, hkey, -⟩ := mem_entriesOf.mp he
    obtain ⟨task, hreg, hsch⟩ := (h.isOf ev hev).schedules
    obtain ⟨h1, h2⟩ := Prod.mk.inj hkey
    exact ⟨task, h1 ▸ hreg, h2 ▸ hsch⟩

/-- A scheduled event is wanted when it is sent. -/
theorem Schedule.Step.event_wanted {env : Env} {sch sch' : Schedule} {a : Action} {o : List Output}
    (h : sch.Step env a sch' o) (hs : sch.Safe) {id : TaskId} {tr : TriggerId} {time : DateTime}
    (hev : .event ⟨id, some tr, time⟩ ∈ o) : sch'.Wants id tr := by
  obtain ⟨rest, hpend, hreg, -⟩ := h.event hev
  exact (hs ⟨id, tr, time⟩ (hpend ▸ Multiset.mem_cons_self _ _)).congr (by rw [hreg])

/-- The action does not register a version of the task that wants the trigger. -/
def Action.DoesNotEnable (id : TaskId) (tr : TriggerId) : Action → Prop
  | .command (.AddTask task) _ => task.id = id → ¬task.Schedules tr
  | _ => True

/-- Without an `AddTask` that asks for the trigger, it stays unwanted. -/
theorem Schedule.Step.not_wants {env : Env} {sch sch' : Schedule} {a : Action} {o : List Output}
    (h : sch.Step env a sch' o) {id : TaskId} {tr : TriggerId} (ha : a.DoesNotEnable id tr)
    (hs : ¬sch.Wants id tr) : ¬sch'.Wants id tr := by
  rintro ⟨task, hreg, hsch⟩
  rw [h.registered] at hreg
  unfold Action.register at hreg
  split at hreg
  · split_ifs at hreg with hid
    · cases hreg
      exact ha hid.symm hsch
    · exact hs ⟨task, hreg, hsch⟩
  · split_ifs at hreg
    exact hs ⟨task, hreg, hsch⟩
  · exact hs ⟨task, hreg, hsch⟩

/-! ## Runs of the loop -/

section Runs

variable {env : Env} {wall : DateTime} {mono : ℤ} {ok : SchedulerState → Action → Prop}
  {s s' : SchedulerState} {tr : List (Action × List Output)}

theorem run_safe (h : (scheduler env wall mono).Run ok s tr s') (hs : s.schedule.Safe) :
    s'.schedule.Safe := by
  apply (scheduler_refines env wall mono).invariant h hs
  intro _ _ _ _ hs _ hstep
  exact hstep.safe hs

theorem reachable_safe (h : (scheduler env wall mono).Reachable ok s) : s.schedule.Safe := by
  obtain ⟨tr, hr⟩ := h
  apply run_safe hr
  intro e he
  cases he

/-- While no `AddTask` asks for it, an unwanted trigger sends no event. -/
theorem run_no_event {id : TaskId} {trigger : TriggerId}
    (h : (scheduler env wall mono).Run (fun _ a => a.DoesNotEnable id trigger) s tr s')
    (hs : s.schedule.Safe) (hw : ¬s.schedule.Wants id trigger) :
    ∀ time, Output.event ⟨id, some trigger, time⟩ ∉ Machine.outputs tr := by
  have hinv : ¬s'.schedule.Wants id trigger ∧
      ∀ time, Output.event ⟨id, some trigger, time⟩ ∉ Machine.outputs tr := by
    refine h.history (I := fun tr s' => ¬s'.schedule.Wants id trigger ∧
      ∀ time, Output.event ⟨id, some trigger, time⟩ ∉ Machine.outputs tr) ⟨hw, by simp⟩ ?_
    intro tr t a u o hrun ⟨hw', hno⟩ hok hst
    have hstep := schedulerStep_refines hst
    have hu := hstep.not_wants hok hw'
    refine ⟨hu, fun time hmem => ?_⟩
    rcases List.mem_append.mp (Machine.outputs_append tr [(a, o)] ▸ hmem) with hmem | hmem
    · exact hno time hmem
    · exact hu (hstep.event_wanted (run_safe hrun hs) (by simpa using hmem))
  exact hinv.2

end Runs

/-- The action removes the task, or registers a version of it that does not ask
    for runs from the trigger: disabled, without the trigger, or with the trigger
    disabled. -/
def Action.Withdraws (id : TaskId) (tr : TriggerId) : Action → Prop
  | .command (.RemoveTask removed) _ => removed = id
  | .command (.AddTask task) _ => task.id = id ∧ ¬task.Schedules tr
  | _ => False

theorem Schedule.Step.withdrawn {env : Env} {sch sch' : Schedule} {a : Action} {o : List Output}
    (h : sch.Step env a sch' o) {id : TaskId} {tr : TriggerId} (ha : a.Withdraws id tr) :
    ¬sch'.Wants id tr := by
  rintro ⟨task', hreg, hsch⟩
  rw [h.registered] at hreg
  unfold Action.register at hreg
  split at hreg
  · obtain ⟨hid, hno⟩ := ha
    rw [if_pos hid.symm] at hreg
    cases hreg
    exact hno hsch
  · rw [if_pos (Eq.symm ha)] at hreg
    cases hreg
  · rename_i hadd hremove
    unfold Action.Withdraws at ha
    split at ha
    · exact hremove _ _ rfl
    · exact hadd _ _ rfl
    · exact ha

/-- Safety of the scheduler, over every run: valid items and scheduled events
    belong to enabled triggers of registered enabled tasks, and after a task or a
    trigger is withdrawn no event is sent for it until an `AddTask` asks for it. -/
theorem scheduler_safe {env : Env} {wall : DateTime} {mono : ℤ} {s : SchedulerState}
    (h : (scheduler env wall mono).Reachable Machine.anyStep s) :
    (∀ item ∈ s.queue.heap, s.queue.isValid item = true →
      ∃ task, s.registeredTasks.get item.taskId = some task ∧ task.Schedules item.triggerId) ∧
    (∀ a s' o id tr time, schedulerStep env s a = some (s', o) →
      Output.event ⟨id, some tr, time⟩ ∈ o →
      ∃ task, s'.registeredTasks.get id = some task ∧ task.Schedules tr) ∧
    (∀ a s' o id tr, schedulerStep env s a = some (s', o) → a.Withdraws id tr →
      ∀ later s'', (scheduler env wall mono).Run (fun _ a => a.DoesNotEnable id tr) s' later s'' →
        ∀ time, Output.event ⟨id, some tr, time⟩ ∉ Machine.outputs later) := by
  have hsafe := reachable_safe h
  refine ⟨?_, ?_, ?_⟩
  · intro item hitem hvalid
    exact hsafe item.entry (ScheduleQueue.mem_pending.mpr ⟨item, hitem, hvalid, rfl⟩)
  · intro a s' o id tr time hst hev
    exact (schedulerStep_refines hst).event_wanted hsafe hev
  · intro a s' o id tr hst ha later s'' hrun
    have hstep := schedulerStep_refines hst
    exact run_no_event hrun (hstep.safe hsafe) (hstep.withdrawn ha)

/-! ## A task that runs every hour -/

/-- Without a time zone database and without cron. -/
def utcOnly : Env := ⟨fun _ => none, fun _ => none, fun _ _ _ => .error .Other⟩

def hourlyTask : Task where
  id := ⟨1⟩
  name := "hourly"
  description := none
  enabled := true
  triggers := [⟨⟨7⟩, ⟨1⟩, true, .Interval 3600 none, 0, 0⟩]
  actions := []
  executionPolicy := {}
  workingDirectory := none
  environment := ∅
  version := 1
  createdAt := 0
  updatedAt := 0

/-- Add the task when the clock shows 0, and fire it twice, one hour apart. -/
def hourlyActions : List Action :=
  [.command (.AddTask hourlyTask) fun _ => ⟨0, fun _ => 0⟩,
    .fire (3600 * nanosPerSec) ⟨3600 * nanosPerSec, fun _ => 0⟩,
    .fire (7200 * nanosPerSec) ⟨7200 * nanosPerSec, fun _ => 0⟩]

def hourlyExec : Option (List (Action × List Output) × SchedulerState) :=
  (scheduler utcOnly 0 0).exec (fun s a => a.AddsDistinct ∧ FiresWhenDue s a)
    (scheduler utcOnly 0 0).init hourlyActions

theorem hourlyExec_isSome : hourlyExec.isSome = true := by decide

/-- The trace of the run, and the state it ends in. -/
def hourlyTrace : List (Action × List Output) := (hourlyExec.get hourlyExec_isSome).1

def hourlyState : SchedulerState := (hourlyExec.get hourlyExec_isSome).2

theorem hourlyRun :
    (scheduler utcOnly 0 0).Run (fun s a => a.AddsDistinct ∧ FiresWhenDue s a)
      (scheduler utcOnly 0 0).init hourlyTrace hourlyState :=
  Machine.exec_get_run hourlyExec_isSome

/-- After two runs of the hourly task, its next one is in the queue. -/
theorem scheduler_safe_hourly :
    ∃ task, hourlyState.registeredTasks.get ⟨1⟩ = some task ∧ task.Schedules ⟨7⟩ :=
  (scheduler_safe ⟨_, hourlyRun.mono fun _ _ _ => trivial⟩).1
    ⟨⟨1⟩, ⟨7⟩, 10800 * nanosPerSec, 2⟩ (by decide) (by decide)

end EasyJob.Scheduler
