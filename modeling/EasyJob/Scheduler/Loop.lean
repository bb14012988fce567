import EasyJob.Lib.Transition
import EasyJob.Scheduler.Evaluator
import EasyJob.Scheduler.Queue

/-!
# The scheduler loop

Model of `crates/scheduler/src/scheduler.rs`. One step of the machine
`scheduler env` is one turn of the loop in `Scheduler::run`: the head of the
queue is peeked, then one branch of the `select!` is taken. Every clock reading
and every random draw of the turn is part of the action.

A step does not exist when the turn panics, when it would fire while nothing is
pending, or when it ends the loop (`Shutdown`).

The outputs of a step are the events it sends, the reply to a reroll, and every
evaluation it makes. The last are there to state properties of runs.
-/

namespace EasyJob.Scheduler

open EasyJob.Chrono EasyJob.Domain Transition

/-! ## Messages -/

/-- `SchedulerCommand`. The reply channel of `RerollTrigger` is left out: the
    reply is an output of the step. -/
inductive SchedulerCommand
  | AddTask (task : Task)
  | RemoveTask (id : TaskId)
  | TriggerNow (id : TaskId)
  | RerollTrigger (taskId : TaskId) (triggerId : TriggerId)
  | Shutdown

structure TriggerEvent where
  taskId : TaskId
  triggerId : Option TriggerId
  scheduledAt : DateTime
  deriving DecidableEq, Repr

/-- One call of `evaluate_next_occurrence` for a trigger, at `after`. -/
structure Evaluation where
  taskId : TaskId
  triggerId : TriggerId
  after : DateTime
  result : Option DateTime
  deriving DecidableEq, Repr

inductive Output
  | event (event : TriggerEvent)
  | reply (result : Except String (Option DateTime))
  | evaluated (evaluation : Evaluation)

/-- A reading of the clock with the random numbers drawn after it. -/
structure Reading where
  now : DateTime
  draws : ℕ → ℕ

/-- The branch that a turn of the loop takes, with what it reads. The k-th
    evaluation of a command reads `readings k`. -/
inductive Action
  | command (cmd : SchedulerCommand) (readings : ℕ → Reading)
  /-- The sleep until the head of the queue ends when the clock shows `wake`. -/
  | fire (wake : DateTime) (reading : Reading)
  /-- The jump check: it reads the wall clock as `wall` and the monotonic clock
      as `mono`, rebuilds at `now`, and stores `newWall` and `newMono`. -/
  | tick (wall : DateTime) (mono : ℤ) (now : DateTime) (draws : TaskId → ℕ → ℕ → ℕ)
      (newWall : DateTime) (newMono : ℤ)

/-! ## The registered tasks -/

/-- `registered_tasks`: every task is stored under its own id. -/
structure Registry where
  tasks : HashMap TaskId Task
  id_eq : ∀ id task, tasks.lookup id = some task → task.id = id

namespace Registry

def empty : Registry := ⟨∅, by simp⟩

def get (reg : Registry) (id : TaskId) : Option Task := reg.tasks.lookup id

/-- `registered_tasks.insert(task.id, task)`. -/
def insert (reg : Registry) (task : Task) : Registry where
  tasks := reg.tasks.insert task.id task
  id_eq := by
    intro id t h
    by_cases hid : id = task.id
    · rw [hid, AList.lookup_insert] at h
      rw [← Option.some.inj h, hid]
    · rw [AList.lookup_insert_ne hid] at h
      exact reg.id_eq id t h

def remove (reg : Registry) (id : TaskId) : Registry where
  tasks := reg.tasks.erase id
  id_eq := by
    intro id' t h
    by_cases hid : id' = id
    · rw [hid, AList.lookup_erase] at h
      cases h
    · rw [AList.lookup_erase_ne hid] at h
      exact reg.id_eq id' t h

/-- `registered_tasks.values()`. -/
def values (reg : Registry) : List Task := reg.tasks.entries.map (·.2)

theorem get_id {reg : Registry} {id : TaskId} {task : Task} (h : reg.get id = some task) :
    task.id = id := reg.id_eq id task h

theorem get_insert (reg : Registry) (task : Task) (id : TaskId) :
    (reg.insert task).get id = if id = task.id then some task else reg.get id := by
  rw [get, insert]
  split_ifs with hid
  · rw [hid, AList.lookup_insert]
  · rw [AList.lookup_insert_ne hid]
    rfl

theorem get_remove (reg : Registry) (removed id : TaskId) :
    (reg.remove removed).get id = if id = removed then none else reg.get id := by
  rw [get, remove]
  split_ifs with hid
  · rw [hid, AList.lookup_erase]
  · rw [AList.lookup_erase_ne hid]
    rfl

theorem mem_values {reg : Registry} {task : Task} :
    task ∈ reg.values ↔ reg.get task.id = some task := by
  constructor
  · intro h
    obtain ⟨⟨id, t⟩, hmem, rfl⟩ := List.mem_map.mp h
    have hget : reg.get id = some t := AList.mem_lookup_iff.mpr hmem
    rw [get_id hget, hget]
  · intro h
    exact List.mem_map.mpr ⟨⟨task.id, task⟩, AList.mem_lookup_iff.mp h, rfl⟩

theorem nodup_values_id (reg : Registry) : (reg.values.map Task.id).Nodup := by
  have hkeys : reg.values.map Task.id = reg.tasks.keys := by
    rw [values, List.map_map, AList.keys, List.keys]
    refine List.map_congr_left fun x hx => ?_
    exact reg.id_eq x.1 x.2 (AList.mem_lookup_iff.mpr hx)
  rw [hkeys]
  exact reg.tasks.keys_nodup

end Registry

/-! ## The branches of the loop -/

/-- `if let Some(next) = evaluate_next_occurrence(..)` with the `push` in its body. -/
def pushNext (q : ScheduleQueue) (taskId : TaskId) (triggerId : TriggerId)
    (next : Option DateTime) (gen : ℕ) : ScheduleQueue :=
  match next with
  | some next => q.push ⟨taskId, triggerId, next, gen⟩
  | none => q

/-- The loop over the triggers of a task that evaluates and pushes each enabled
    one (lines 114–128 and 188–202), with the evaluations made. -/
def enqueueTriggers (env : Env) (taskId : TaskId) (gen : ℕ) : (triggers : List Trigger) →
    (readings : ℕ → Reading) → ScheduleQueue → Rust (ScheduleQueue × List Evaluation)
  | [], _, q => .ok (q, [])
  | tr :: triggers, readings, q =>
    if tr.enabled then do
      let next ← evaluateNextOccurrence env tr.kind (readings 0).now (readings 0).draws
      let q := pushNext q taskId tr.id next gen
      let (q, es) ← enqueueTriggers env taskId gen triggers (fun k => readings (k + 1)) q
      .ok (q, ⟨taskId, tr.id, (readings 0).now, next⟩ :: es)
    else enqueueTriggers env taskId gen triggers readings q

/-- The `AddTask` branch (lines 110–130) on the queue. -/
def addTask (env : Env) (task : Task) (readings : ℕ → Reading) (q : ScheduleQueue) :
    Rust (ScheduleQueue × List Evaluation) :=
  let q := q.bumpGeneration task.id
  let gen := q.currentGeneration task.id
  if task.enabled then enqueueTriggers env task.id gen task.triggers readings q
  else .ok (q, [])

/-- The trigger that the timer branch evaluates for an item (lines 152–157). -/
def triggerToRenew (q : ScheduleQueue) (reg : Registry) (item : ScheduledItem) :
    Option Trigger := do
  let task ← reg.get item.taskId
  if task.enabled ∧ item.generation = q.currentGeneration task.id then
    let trigger ← task.triggers.find? (·.id = item.triggerId)
    if trigger.enabled then some trigger else none
  else none

/-- What the timer branch does to the queue after `pop` (lines 152–168). -/
def renew (env : Env) (q : ScheduleQueue) (reg : Registry) (item : ScheduledItem)
    (reading : Reading) : Rust (ScheduleQueue × List Evaluation) :=
  match triggerToRenew q reg item with
  | none => .ok (q, [])
  | some trigger => do
    let next ← evaluateNextOccurrence env trigger.kind reading.now reading.draws
    let q := pushNext q item.taskId trigger.id next (q.currentGeneration item.taskId)
    .ok (q, [⟨item.taskId, trigger.id, reading.now, next⟩])

/-- The loop over the registered tasks of the jump branch (lines 187–204). -/
def rebuildTasks (env : Env) (now : DateTime) (draws : TaskId → ℕ → ℕ → ℕ) : (tasks : List Task) →
    ScheduleQueue → Rust (ScheduleQueue × List Evaluation)
  | [], q => .ok (q, [])
  | task :: tasks, q =>
    if task.enabled then do
      let gen := q.currentGeneration task.id
      let (q, es) ←
        enqueueTriggers env task.id gen task.triggers (fun k => ⟨now, draws task.id k⟩) q
      let (q, es') ← rebuildTasks env now draws tasks q
      .ok (q, es ++ es')
    else rebuildTasks env now draws tasks q

/-- The drift between the clocks since the last check (lines 178–180), in seconds. -/
def drift (lastWall wall : DateTime) (lastInstant mono : ℤ) : ℤ :=
  let wallElapsed := numSeconds (wall - lastWall)
  let monoElapsed := max (mono - lastInstant) 0 / nanosPerSec
  |wallElapsed - monoElapsed|

/-! ## `reroll_trigger` -/

/-- The variables of the loop in `reroll_trigger`, with the evaluations made. -/
structure RerollLoop where
  queue : ScheduleQueue
  targetRerolled : Bool
  newNext : Option DateTime
  evaluations : List Evaluation

/-- The loop over the valid items of the task (lines 257–271). -/
def rerollItems (env : Env) (trigger : Trigger) (newGeneration : ℕ) : List ScheduledItem →
    (readings : ℕ → Reading) → RerollLoop → Rust RerollLoop
  | [], _, st => .ok st
  | item :: items, readings, st =>
    if item.triggerId = trigger.id then do
      let now := (readings 0).now
      let next ← evaluateNextOccurrence env trigger.kind now (readings 0).draws
      rerollItems env trigger newGeneration items (fun k => readings (k + 1))
        { queue := pushNext st.queue item.taskId item.triggerId next newGeneration
          targetRerolled := true
          newNext := next.or st.newNext
          evaluations := st.evaluations ++ [⟨item.taskId, item.triggerId, now, next⟩] }
    else
      rerollItems env trigger newGeneration items readings
        { st with queue := st.queue.push { item with generation := newGeneration } }

/-- The checks of `reroll_trigger` (lines 227–244): the trigger to reroll. -/
def rerollTarget (reg : Registry) (taskId : TaskId) (triggerId : TriggerId) :
    Except String Trigger :=
  match reg.get taskId with
  | none => .error ("Task '" ++ displayUuid taskId.uuid ++ "' is not registered to the scheduler")
  | some task =>
    if task.enabled = false then .error ("Task '" ++ displayUuid taskId.uuid ++ "' is disabled")
    else
      match task.triggers.find? (·.id = triggerId) with
      | none => .error ("Trigger '" ++ displayUuid triggerId.uuid ++ "' not found in task '" ++
          displayUuid taskId.uuid ++ "'")
      | some trigger =>
        if trigger.enabled = false then
          .error ("Trigger '" ++ displayUuid triggerId.uuid ++ "' is disabled")
        else .ok trigger

/-- What `reroll_trigger` does to the queue once the checks have passed (lines 246–285). -/
def rerollQueue (env : Env) (q : ScheduleQueue) (taskId : TaskId) (trigger : Trigger)
    (readings : ℕ → Reading) : Rust RerollLoop := do
  let oldGeneration := q.currentGeneration taskId
  let (taken, q) := q.takeTaskItems taskId
  let validItems := taken.filter (·.generation = oldGeneration)
  let q := q.bumpGeneration taskId
  let newGeneration := q.currentGeneration taskId
  let st ← rerollItems env trigger newGeneration validItems readings ⟨q, false, none, []⟩
  if st.targetRerolled then .ok st
  else
    -- the target was not in the queue, for example a Once trigger in the past
    let now := (readings 0).now
    let next ← evaluateNextOccurrence env trigger.kind now (readings 0).draws
    .ok { st with
      queue := pushNext st.queue taskId trigger.id next newGeneration
      newNext := next.or st.newNext
      evaluations := st.evaluations ++ [⟨taskId, trigger.id, now, next⟩] }

/-! ## The machine -/

/-- The state of `Scheduler::run` between two turns of its loop. -/
structure SchedulerState where
  queue : ScheduleQueue
  registeredTasks : Registry
  lastWall : DateTime
  lastInstant : ℤ

/-- The valid entries of the queue. -/
abbrev SchedulerState.pending (s : SchedulerState) : Multiset Entry := s.queue.pending

/-- The `cmd_rx.recv()` branch (lines 104–147). -/
def stepCommand (env : Env) (s : SchedulerState) (cmd : SchedulerCommand)
    (readings : ℕ → Reading) : Option (SchedulerState × List Output) :=
  match cmd with
  | .AddTask task =>
    match addTask env task readings s.queue with
    | .error _ => none
    | .ok (q, es) =>
      some ({ s with queue := q, registeredTasks := s.registeredTasks.insert task },
        es.map .evaluated)
  | .RemoveTask id =>
    some ({ s with queue := s.queue.bumpGeneration id,
                   registeredTasks := s.registeredTasks.remove id }, [])
  | .TriggerNow id => some (s, [.event ⟨id, none, (readings 0).now⟩])
  | .RerollTrigger taskId triggerId =>
    match rerollTarget s.registeredTasks taskId triggerId with
    | .error msg => some (s, [.reply (.error msg)])
    | .ok trigger =>
      match rerollQueue env s.queue taskId trigger readings with
      | .error _ => none
      | .ok st =>
        some ({ s with queue := st.queue },
          st.evaluations.map .evaluated ++ [.reply (.ok st.newNext)])
  | .Shutdown => none

/-- The timer branch (lines 149–175). -/
def stepFire (env : Env) (s : SchedulerState) (reading : Reading) :
    Option (SchedulerState × List Output) :=
  match s.queue.pop with
  | (none, _) => none
  | (some item, q) =>
    match renew env q s.registeredTasks item reading with
    | .error _ => none
    | .ok (q, es) =>
      some ({ s with queue := q },
        es.map .evaluated ++ [.event ⟨item.taskId, some item.triggerId, item.nextFireAt⟩])

/-- The `jump_interval.tick()` branch (lines 177–209). -/
def stepTick (env : Env) (s : SchedulerState) (wall : DateTime) (mono : ℤ) (now : DateTime)
    (draws : TaskId → ℕ → ℕ → ℕ) (newWall : DateTime) (newMono : ℤ) :
    Option (SchedulerState × List Output) :=
  if drift s.lastWall wall s.lastInstant mono > 30 then
    match rebuildTasks env now draws s.registeredTasks.values s.queue.clear with
    | .error _ => none
    | .ok (q, es) =>
      some (⟨q, s.registeredTasks, newWall, newMono⟩, es.map .evaluated)
  else some ({ s with lastWall := newWall, lastInstant := newMono }, [])

/-- One turn of the loop in `Scheduler::run` (lines 85–212). The timer branch is
    enabled if something is pending. -/
def schedulerStep (env : Env) (s : SchedulerState) (a : Action) :
    Option (SchedulerState × List Output) :=
  let (nextDeadline, q) := s.queue.peekValid
  let s := { s with queue := q }
  match a with
  | .command cmd readings => stepCommand env s cmd readings
  | .fire _ reading => if nextDeadline.isSome then stepFire env s reading else none
  | .tick wall mono now draws newWall newMono => stepTick env s wall mono now draws newWall newMono

/-- The scheduler loop, started when the clocks show `wall` and `mono`. -/
def scheduler (env : Env) (wall : DateTime) (mono : ℤ) : Machine SchedulerState Action Output where
  init := ⟨.new, .empty, wall, mono⟩
  step := schedulerStep env

/-! ## Assumptions about runs -/

/-- A task that is added has triggers with distinct ids. -/
def Action.AddsDistinct : Action → Prop
  | .command (.AddTask task) _ => task.DistinctTriggerIds
  | _ => True

/-- The timer branch is taken when the clock is at or past the head of the queue. -/
def FiresWhenDue (s : SchedulerState) : Action → Prop
  | .fire wake _ => ∀ item ∈ s.queue.peekValid.1, item.nextFireAt ≤ wake
  | _ => True

instance : DecidablePred Action.AddsDistinct
  | .command (.AddTask task) _ => inferInstanceAs (Decidable task.DistinctTriggerIds)
  | .command (.RemoveTask _) _ | .command (.TriggerNow _) _ | .command (.RerollTrigger _ _) _
  | .command .Shutdown _ | .fire _ _ | .tick _ _ _ _ _ _ => isTrue trivial

instance (s : SchedulerState) : DecidablePred (FiresWhenDue s)
  | .fire wake _ =>
    inferInstanceAs (Decidable (∀ item ∈ s.queue.peekValid.1, item.nextFireAt ≤ wake))
  | .command _ _ | .tick _ _ _ _ _ _ => isTrue trivial

end EasyJob.Scheduler
