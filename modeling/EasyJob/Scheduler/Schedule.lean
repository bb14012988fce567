import EasyJob.Scheduler.Loop
import Mathlib.Algebra.Order.Group.Multiset

/-!
# The schedule that the loop maintains

`Schedule` is what the scheduler is for: the registered tasks and a bag of
entries, one for each occurrence that is due to fire. There are no generations
and no stale items; an entry leaves the bag at once when it is replaced.

* `Schedule.Step`: what a turn of the loop may do, one constructor for each
  outcome of a branch. The properties of runs are proved from it alone.
* `Step.registered`, `Step.pending`, `Step.isOf`, `Step.event`: what all steps
  have in common.
-/

namespace EasyJob.Scheduler

open EasyJob.Chrono EasyJob.Domain Transition

/-! ## Evaluations and their entries -/

/-- The key that an evaluation is for. -/
def Evaluation.key (ev : Evaluation) : TaskId × TriggerId := (ev.taskId, ev.triggerId)

/-- The entry that is enqueued for an evaluation. -/
def Evaluation.entry (ev : Evaluation) : Option Entry :=
  ev.result.map fun next => ⟨ev.taskId, ev.triggerId, next⟩

def entriesOf (es : List Evaluation) : Multiset Entry := (es.filterMap Evaluation.entry : List _)

@[simp] theorem entriesOf_nil : entriesOf [] = 0 := rfl

theorem entriesOf_append (es es' : List Evaluation) :
    entriesOf (es ++ es') = entriesOf es + entriesOf es' := by
  simp [entriesOf]

theorem entriesOf_cons_some {ev : Evaluation} {e : Entry} (es : List Evaluation)
    (h : ev.entry = some e) : entriesOf (ev :: es) = e ::ₘ entriesOf es := by
  simp [entriesOf, List.filterMap_cons_some h]

theorem entriesOf_cons_none {ev : Evaluation} (es : List Evaluation) (h : ev.entry = none) :
    entriesOf (ev :: es) = entriesOf es := by
  simp [entriesOf, List.filterMap_cons_none h]

theorem mem_entriesOf {es : List Evaluation} {e : Entry} :
    e ∈ entriesOf es ↔ ∃ ev ∈ es, ev.key = e.key ∧ ev.result = some e.nextFireAt := by
  simp only [entriesOf, Multiset.mem_coe, List.mem_filterMap]
  refine exists_congr fun ev => and_congr_right fun _ => ?_
  cases e
  simp only [Evaluation.entry, Option.map_eq_some_iff, Entry.mk.injEq, Evaluation.key, Entry.key,
    Prod.mk.injEq]
  constructor
  · rintro ⟨next, hr, rfl, rfl, rfl⟩
    exact ⟨⟨rfl, rfl⟩, hr⟩
  · rintro ⟨⟨h1, h2⟩, hr⟩
    exact ⟨_, hr, h1, h2, rfl⟩

/-- The triggers for which a task asks for automatic runs. -/
def scheduledTriggers (task : Task) : List TriggerId :=
  if task.enabled then (task.triggers.filter (·.enabled)).map Trigger.id else []

/-- The keys of the entries that a task asks for. -/
def taskKeys (task : Task) : List (TaskId × TriggerId) :=
  (scheduledTriggers task).map fun tr => (task.id, tr)

theorem mem_scheduledTriggers {task : Task} {tr : TriggerId} :
    tr ∈ scheduledTriggers task ↔ task.Schedules tr := by
  unfold scheduledTriggers Task.Schedules
  split_ifs with hen
  · simp only [List.mem_map, List.mem_filter, hen, true_and]
    exact exists_congr fun _ => by tauto
  · simp [hen]

theorem nodup_taskKeys {task : Task} (h : task.DistinctTriggerIds) : (taskKeys task).Nodup := by
  unfold taskKeys scheduledTriggers
  refine List.Nodup.map (fun a b hab => by simpa using hab) ?_
  split_ifs
  · exact h.sublist (List.filter_sublist.map _)
  · exact List.nodup_nil

/-- `ev` is the evaluation of an enabled trigger of an enabled task that is
    registered as `registered` says. -/
def Evaluation.IsOf (env : Env) (registered : TaskId → Option Task) (ev : Evaluation) : Prop :=
  ∃ task, registered ev.taskId = some task ∧ task.enabled = true ∧
    ∃ trigger ∈ task.triggers, trigger.id = ev.triggerId ∧ trigger.enabled = true ∧
      ∃ draws, evaluateNextOccurrence env trigger.kind ev.after draws = .ok ev.result

theorem Evaluation.IsOf.schedules {env : Env} {registered : TaskId → Option Task} {ev : Evaluation}
    (h : ev.IsOf env registered) :
    ∃ task, registered ev.taskId = some task ∧ task.Schedules ev.triggerId := by
  obtain ⟨task, hreg, hen, trigger, hmem, hid, hten, -⟩ := h
  exact ⟨task, hreg, hen, trigger, hmem, hid, hten⟩

/-! ## The schedule and its steps -/

structure Schedule where
  registered : TaskId → Option Task
  pending : Multiset Entry

/-- The trigger to evaluate again when the entry `e` fires. -/
def Schedule.triggerToRenew (sch : Schedule) (e : Entry) : Option Trigger := do
  let task ← sch.registered e.taskId
  if task.enabled then
    let trigger ← task.triggers.find? (·.id = e.triggerId)
    if trigger.enabled then some trigger else none
  else none

/-- The keys of all entries that the registered tasks ask for, each task once. -/
def Schedule.AllKeys (sch : Schedule) (keys : List (TaskId × TriggerId)) : Prop :=
  ∃ tasks : List Task, (tasks.map Task.id).Nodup ∧
    (∀ task, task ∈ tasks ↔ sch.registered task.id = some task) ∧ keys = tasks.flatMap taskKeys

/-- What a turn of the loop may do to the schedule, with its outputs. -/
inductive Schedule.Step (env : Env) : Schedule → Action → Schedule → List Output → Prop
  /-- The task replaces its former version, and all its triggers are evaluated. -/
  | addTask {sch : Schedule} (task : Task) (readings : ℕ → Reading) (es : List Evaluation)
      (registered : TaskId → Option Task)
      (hreg : ∀ id, registered id = if id = task.id then some task else sch.registered id)
      (hkeys : es.map Evaluation.key = taskKeys task)
      (hes : ∀ ev ∈ es, ev.IsOf env registered) :
      Step env sch (.command (.AddTask task) readings)
        ⟨registered, sch.pending.filter (·.taskId ≠ task.id) + entriesOf es⟩ (es.map .evaluated)
  | removeTask {sch : Schedule} (id : TaskId) (readings : ℕ → Reading)
      (registered : TaskId → Option Task)
      (hreg : ∀ id', registered id' = if id' = id then none else sch.registered id') :
      Step env sch (.command (.RemoveTask id) readings)
        ⟨registered, sch.pending.filter (·.taskId ≠ id)⟩ []
  | triggerNow {sch : Schedule} (id : TaskId) (readings : ℕ → Reading) :
      Step env sch (.command (.TriggerNow id) readings) sch
        [.event ⟨id, none, (readings 0).now⟩]
  | rerollRejected {sch : Schedule} (taskId : TaskId) (triggerId : TriggerId)
      (readings : ℕ → Reading) (msg : String) :
      Step env sch (.command (.RerollTrigger taskId triggerId) readings) sch [.reply (.error msg)]
  /-- Only the entries of the target are replaced. It is evaluated once for each
      of them, and once if there is none. -/
  | reroll {sch : Schedule} (taskId : TaskId) (triggerId : TriggerId) (readings : ℕ → Reading)
      (es : List Evaluation) (next : Option DateTime)
      (hlen : es.length =
        max 1 (Multiset.card (sch.pending.filter (·.key = (taskId, triggerId)))))
      (hkey : ∀ ev ∈ es, ev.key = (taskId, triggerId))
      (hes : ∀ ev ∈ es, ev.IsOf env sch.registered)
      (hnext : ∀ ev, es = [ev] → next = ev.result) :
      Step env sch (.command (.RerollTrigger taskId triggerId) readings)
        ⟨sch.registered, sch.pending.filter (·.key ≠ (taskId, triggerId)) + entriesOf es⟩
        (es.map .evaluated ++ [.reply (.ok next)])
  /-- An earliest entry fires; its trigger is evaluated again if it is still wanted. -/
  | fire {sch : Schedule} (wake : DateTime) (reading : Reading) (e : Entry) (rest : Multiset Entry)
      (es : List Evaluation) (hpending : sch.pending = e ::ₘ rest)
      (hearliest : ∀ e' ∈ sch.pending, e.nextFireAt ≤ e'.nextFireAt)
      (hkeys : es.map Evaluation.key =
        if (sch.triggerToRenew e).isSome then [e.key] else [])
      (hes : ∀ ev ∈ es, ev.after = reading.now ∧ ev.IsOf env sch.registered) :
      Step env sch (.fire wake reading) ⟨sch.registered, rest + entriesOf es⟩
        (es.map .evaluated ++ [.event ⟨e.taskId, some e.triggerId, e.nextFireAt⟩])
  | tick {sch : Schedule} (wall : DateTime) (mono : ℤ) (now : DateTime)
      (draws : TaskId → ℕ → ℕ → ℕ) (newWall : DateTime) (newMono : ℤ) :
      Step env sch (.tick wall mono now draws newWall newMono) sch []
  /-- A clock jump: everything pending is dropped and all triggers are evaluated. -/
  | rebuild {sch : Schedule} (wall : DateTime) (mono : ℤ) (now : DateTime)
      (draws : TaskId → ℕ → ℕ → ℕ) (newWall : DateTime) (newMono : ℤ) (es : List Evaluation)
      (hkeys : sch.AllKeys (es.map Evaluation.key))
      (hes : ∀ ev ∈ es, ev.after = now ∧ ev.IsOf env sch.registered) :
      Step env sch (.tick wall mono now draws newWall newMono)
        ⟨sch.registered, entriesOf es⟩ (es.map .evaluated)

/-! ## What all steps have in common -/

/-- The evaluations among the outputs of a step. -/
def evaluations (o : List Output) : List Evaluation :=
  o.filterMap fun
    | .evaluated ev => some ev
    | _ => none

@[simp] theorem evaluations_nil : evaluations [] = [] := rfl

@[simp] theorem evaluations_append (o o' : List Output) :
    evaluations (o ++ o') = evaluations o ++ evaluations o' := by
  simp [evaluations]

@[simp] theorem evaluations_map (es : List Evaluation) : evaluations (es.map .evaluated) = es := by
  rw [evaluations, List.filterMap_map]
  exact List.filterMap_some

@[simp] theorem evaluations_event (event : TriggerEvent) : evaluations [.event event] = [] := rfl

@[simp] theorem evaluations_reply (result : Except String (Option DateTime)) :
    evaluations [.reply result] = [] := rfl

/-- How an action changes the registered tasks. -/
def Action.register (a : Action) (registered : TaskId → Option Task) (id : TaskId) : Option Task :=
  match a with
  | .command (.AddTask task) _ => if id = task.id then some task else registered id
  | .command (.RemoveTask removed) _ => if id = removed then none else registered id
  | _ => registered id

namespace Schedule.Step

variable {env : Env} {sch sch' : Schedule} {a : Action} {o : List Output}

theorem registered (h : sch.Step env a sch' o) (id : TaskId) :
    sch'.registered id = a.register sch.registered id := by
  cases h with
  | addTask task readings es registered hreg hkeys hes => exact hreg id
  | removeTask removed readings registered hreg => exact hreg id
  | _ => rfl

/-- A step keeps some of the pending entries, of tasks whose registration it does
    not change, and adds those of its evaluations. -/
theorem pending (h : sch.Step env a sch' o) :
    ∃ kept ≤ sch.pending, sch'.pending = kept + entriesOf (evaluations o) ∧
      ∀ e ∈ kept, sch'.registered e.taskId = sch.registered e.taskId := by
  cases h with
  | addTask task readings es registered hreg hkeys hes =>
    refine ⟨_, Multiset.filter_le _ _, by rw [evaluations_map], ?_⟩
    intro e he
    have hne : e.taskId ≠ task.id := (Multiset.mem_filter.mp he).2
    exact (hreg e.taskId).trans (if_neg hne)
  | removeTask removed readings registered hreg =>
    refine ⟨_, Multiset.filter_le (·.taskId ≠ removed) _, by simp, ?_⟩
    intro e he
    have hne : e.taskId ≠ removed := (Multiset.mem_filter.mp he).2
    exact (hreg e.taskId).trans (if_neg hne)
  | triggerNow | rerollRejected | tick => exact ⟨sch.pending, le_rfl, by simp, fun _ _ => rfl⟩
  | reroll taskId triggerId readings es next hlen hkey hes hnext =>
    exact ⟨_, Multiset.filter_le (·.key ≠ (taskId, triggerId)) _, by simp, fun _ _ => rfl⟩
  | fire wake reading e rest es hpending hearliest hkeys hes =>
    exact ⟨rest, hpending ▸ Multiset.le_cons_self rest e, by simp, fun _ _ => rfl⟩
  | rebuild wall mono now draws newWall newMono es hkeys hes =>
    exact ⟨0, Multiset.zero_le _, by simp, fun _ _ => rfl⟩

/-- Only enabled triggers of registered enabled tasks are evaluated. -/
theorem isOf (h : sch.Step env a sch' o) : ∀ ev ∈ evaluations o, ev.IsOf env sch'.registered := by
  cases h with
  | addTask task readings es registered hreg hkeys hes => simpa using hes
  | reroll taskId triggerId readings es next hlen hkey hes hnext => simpa using hes
  | fire wake reading e rest es hpending hearliest hkeys hes =>
    intro ev hev
    exact (hes ev (by simpa using hev)).2
  | rebuild wall mono now draws newWall newMono es hkeys hes =>
    intro ev hev
    exact (hes ev (by simpa using hev)).2
  | _ => simp

/-- A scheduled event is the pending entry that fires. -/
theorem event (h : sch.Step env a sch' o) {id : TaskId} {tr : TriggerId} {time : DateTime}
    (hev : .event ⟨id, some tr, time⟩ ∈ o) :
    ∃ rest, sch.pending = ⟨id, tr, time⟩ ::ₘ rest ∧ sch'.registered = sch.registered ∧
      sch'.pending = rest + entriesOf (evaluations o) := by
  cases h with
  | fire wake reading e rest es hpending hearliest hkeys hes =>
    obtain ⟨id', tr', time'⟩ := e
    have heq : id = id' ∧ tr = tr' ∧ time = time' := by simpa using hev
    obtain ⟨rfl, rfl, rfl⟩ := heq
    exact ⟨rest, hpending, rfl, by simp⟩
  | _ => simp at hev

end Schedule.Step

end EasyJob.Scheduler
