import EasyJob.Domain.Task
import EasyJob.Lib.Binary64

/-!
# Exporting and importing tasks

Model of `handleExport` (`TaskExportModal.vue` lines 69–99) and of `handleFileChange` and
`handleConfirmImport` (`TaskImportModal.vue` lines 50–192), with the agent's `task.save`.
The import pairs the tasks of the file with the existing ones by name, and the agent
identifies them by id.

The page holds numbers as binary64 floats, and JSON writes them in decimal; everything
else goes through JSON as it is.

* `import_export`: what importing an exported selection changes, and when it changes
  nothing.
* `import_overwrites`: of two tasks with one name, exporting the first and importing it
  overwrites the second.
-/

namespace EasyJob.Frontend

open EasyJob.Chrono EasyJob.Domain

/-! ## Tasks as the page has them -/

/-- The `execution_policy` of a task in a file; the fields can be missing. -/
structure PolicyJson where
  concurrencyPolicy : Option ConcurrencyPolicy := none
  missedRunPolicy : Option MissedRunPolicy := none
  retryPolicy : Option RetryPolicy := none
  timeoutSecs : Option ℕ := none
  notification : Option TaskNotificationPolicy := none
  logRetention : Option LogRetentionPolicy := none

/-- A task in a file or in the page. -/
structure TaskJson where
  id : TaskId
  name : String
  description : Option String
  enabled : Bool
  triggers : List Trigger
  actions : List Action
  executionPolicy : Option PolicyJson
  workingDirectory : Option String
  environment : HashMap String String
  version : ℤ
  createdAt : DateTime
  updatedAt : DateTime

/-! ### Numbers -/

section MapNumbers

variable (f : ℕ → ℕ)

def RetryPolicy.mapNumbers (p : RetryPolicy) : RetryPolicy :=
  ⟨f p.maxRetries, f p.delaySecs⟩

def LogRetentionPolicy.mapNumbers : LogRetentionPolicy → LogRetentionPolicy
  | .KeepDays days => .KeepDays (f days)
  | .SystemDefault => .SystemDefault
  | .Permanent => .Permanent

def ExecutionPolicy.mapNumbers (p : ExecutionPolicy) : ExecutionPolicy :=
  { p with
    retryPolicy := RetryPolicy.mapNumbers f p.retryPolicy
    timeoutSecs := p.timeoutSecs.map f
    logRetention := LogRetentionPolicy.mapNumbers f p.logRetention }

def PolicyJson.mapNumbers (p : PolicyJson) : PolicyJson :=
  { p with
    retryPolicy := p.retryPolicy.map (RetryPolicy.mapNumbers f)
    timeoutSecs := p.timeoutSecs.map f
    logRetention := p.logRetention.map (LogRetentionPolicy.mapNumbers f) }

def TriggerKind.mapNumbers : TriggerKind → TriggerKind
  | .Interval intervalSecs startAt => .Interval (f intervalSecs) startAt
  | kind => kind

def Trigger.mapNumbers (t : Trigger) : Trigger :=
  { t with kind := TriggerKind.mapNumbers f t.kind }

def Action.mapNumbers (a : Action) : Action := { a with sequence := f a.sequence }

/-- `f` on the numbers of a task, and on the size of its version. -/
def TaskJson.mapNumbers (t : TaskJson) : TaskJson :=
  { t with
    triggers := t.triggers.map (Trigger.mapNumbers f)
    actions := t.actions.map (Action.mapNumbers f)
    executionPolicy := t.executionPolicy.map (PolicyJson.mapNumbers f)
    version := t.version.sign * f t.version.natAbs }

end MapNumbers

/-- What `serde` writes for a policy. -/
def PolicyJson.ofPolicy (p : ExecutionPolicy) : PolicyJson where
  concurrencyPolicy := some p.concurrencyPolicy
  missedRunPolicy := some p.missedRunPolicy
  retryPolicy := some p.retryPolicy
  timeoutSecs := p.timeoutSecs
  notification := some p.notification
  logRetention := some p.logRetention

/-- What `serde` writes for a task. -/
def TaskJson.ofTask (t : Task) : TaskJson where
  id := t.id
  name := t.name
  description := t.description
  enabled := t.enabled
  triggers := t.triggers
  actions := t.actions
  executionPolicy := some (PolicyJson.ofPolicy t.executionPolicy)
  workingDirectory := t.workingDirectory
  environment := t.environment
  version := t.version
  createdAt := t.createdAt
  updatedAt := t.updatedAt

/-- `JSON.parse`, `JSON.stringify`, and one after the other, on values. -/
def TaskJson.parse (t : TaskJson) : TaskJson := t.mapNumbers Binary64.toDouble

def TaskJson.stringify (t : TaskJson) : TaskJson := t.mapNumbers Binary64.written

def TaskJson.clone (t : TaskJson) : TaskJson := t.stringify.parse

/-! ## `handleExport` -/

/-- `payload`. -/
structure ExportFile where
  easyjobVersion : String
  exportedAt : String
  tasks : List TaskJson

/-- Model of `handleExport` (lines 69–99): the file, unless nothing is selected. -/
def handleExport (tasks : List TaskJson) (selectedTaskIds : List TaskId) (exportedAt : String) :
    Option ExportFile :=
  if selectedTaskIds.isEmpty then none
  else
    let selectedTasks := tasks.filter fun t => selectedTaskIds.contains t.id
    some ⟨"0.1.0", exportedAt, selectedTasks.map TaskJson.stringify⟩

/-! ## `handleFileChange` -/

/-- What the file can hold: an array, or an object whose `tasks` may be missing. -/
inductive ImportFile
  | array (tasks : List TaskJson)
  | object (tasks : Option (List TaskJson))

inductive ImportAction
  | create | overwrite | skip | merged
  deriving DecidableEq, Repr

structure ImportItem where
  task : TaskJson
  isConflict : Bool
  existingMatch : Option TaskJson
  action : ImportAction
  mergedTask : Option TaskJson

/-- `rawTasks` (lines 61–65). -/
def ImportFile.rawTasks : ImportFile → List TaskJson
  | .array tasks => tasks.map TaskJson.parse
  | .object (some tasks) => tasks.map TaskJson.parse
  | .object none => []

/-- The defaults of lines 73–81. -/
def fillDefaults (t : TaskJson) : TaskJson :=
  let policy := t.executionPolicy.getD {}
  { t with executionPolicy := some { policy with
      logRetention := some (policy.logRetention.getD .SystemDefault)
      notification := some (policy.notification.getD .None) } }

/-- `existingMap` (lines 84–85). -/
def existingMap (existingTasks : List TaskJson) : HashMap String TaskJson :=
  existingTasks.foldl (fun map t => map.insert t.name t) ∅

/-- One item of lines 87–102, with its default action. -/
def importItem (existingTasks : List TaskJson) (t : TaskJson) : ImportItem :=
  match (existingMap existingTasks).lookup t.name with
  | some existing => ⟨t, true, some existing, .overwrite, none⟩
  | none => ⟨t, false, none, .create, none⟩

/-- Model of `handleFileChange` (lines 50–107): the items, if there are any. -/
def handleFileChange (existingTasks : List TaskJson) (file : ImportFile) :
    Option (List ImportItem) :=
  let rawTasks := file.rawTasks
  if rawTasks.isEmpty then none
  else some ((rawTasks.map fillDefaults).map (importItem existingTasks))

/-! ## `handleConfirmImport` -/

/-- The ids that `crypto.randomUUID` gives for the `i`-th item. -/
structure FreshIds where
  task : ℕ → TaskId
  trigger : ℕ → ℕ → TriggerId
  action : ℕ → ℕ → ActionId

/-- The clone of `t` with the id `taskId` and new ids for its triggers and actions. -/
def withIds (fresh : FreshIds) (i : ℕ) (t : TaskJson) (taskId : TaskId) (version : ℤ) :
    TaskJson :=
  { t.clone with
    id := taskId
    version := version
    triggers := t.clone.triggers.mapIdx fun j tr =>
      { tr with id := fresh.trigger i j, taskId := taskId }
    actions := t.clone.actions.mapIdx fun j act =>
      { act with id := fresh.action i j, taskId := taskId } }

/-- `(existing.version || 1) + 1`. -/
def nextVersion (existing : TaskJson) : ℤ :=
  let v := (if existing.version = 0 then 1 else existing.version) + 1
  v.sign * Binary64.toDouble v.natAbs

/-- What is saved for the `i`-th item (lines 128–171). -/
def savedFor (fresh : FreshIds) (i : ℕ) (item : ImportItem) : Option TaskJson :=
  match item.action, item.existingMatch, item.mergedTask with
  | .skip, _, _ => none
  | .create, _, _ => some (withIds fresh i item.task (fresh.task i) 1)
  | .overwrite, some existing, _ =>
    some (withIds fresh i item.task existing.id (nextVersion existing))
  | .merged, some existing, some merged =>
    some (withIds fresh i merged existing.id (nextVersion existing))
  | .overwrite, none, _ | .merged, none, _ | .merged, some _, none => none

/-- `toSave`. -/
def toSave (fresh : FreshIds) (items : List ImportItem) : List TaskJson :=
  (items.mapIdx fun i item => savedFor fresh i item).filterMap id

/-! ## `task.save` -/

def TriggerKind.fits : TriggerKind → Bool
  | .Interval intervalSecs _ => intervalSecs < 2 ^ 64
  | _ => true

def LogRetentionPolicy.fits : LogRetentionPolicy → Bool
  | .KeepDays days => days < 2 ^ 32
  | _ => true

def versionFits (version : ℤ) : Bool := -2 ^ 63 ≤ version && version < 2 ^ 63

def PolicyJson.fits (p : PolicyJson) : Bool :=
  (p.retryPolicy.all fun r => r.maxRetries < 2 ^ 32 && r.delaySecs < 2 ^ 64) &&
  (p.timeoutSecs.all fun secs => secs < 2 ^ 64) &&
  p.logRetention.all LogRetentionPolicy.fits

/-- The numbers fit in the integers of the agent's types. -/
def TaskJson.fits (t : TaskJson) : Bool :=
  (t.triggers.all fun tr => TriggerKind.fits tr.kind) &&
  (t.actions.all fun act => act.sequence < 2 ^ 32) && versionFits t.version

/-- What `serde` reads of an `ExecutionPolicy`. -/
def PolicyJson.toPolicy (p : PolicyJson) : Option ExecutionPolicy :=
  match p.concurrencyPolicy, p.missedRunPolicy, p.retryPolicy with
  | some concurrency, some missedRun, some retry =>
    if p.fits then
      some
        { concurrencyPolicy := concurrency
          missedRunPolicy := missedRun
          retryPolicy := retry
          timeoutSecs := p.timeoutSecs
          notification := p.notification.getD .None
          logRetention := p.logRetention.getD .SystemDefault }
    else none
  | _, _, _ => none

/-- What `serde` reads of a `Task`, if it accepts it. -/
def TaskJson.toTask (t : TaskJson) : Option Task :=
  if t.fits then
    (t.executionPolicy.bind PolicyJson.toPolicy).map fun policy =>
      { id := t.id
        name := t.name
        description := t.description
        enabled := t.enabled
        triggers := t.triggers
        actions := t.actions
        executionPolicy := policy
        workingDirectory := t.workingDirectory
        environment := t.environment
        version := t.version
        createdAt := t.createdAt
        updatedAt := t.updatedAt }
  else none

/-- `task.save` (`service.rs` lines 640–666) in the repository: the task with this id is
    replaced, or a new one is added. -/
def save (tasks : List Task) (t : Task) : List Task :=
  if tasks.any fun u => u.id = t.id then tasks.map fun u => if u.id = t.id then t else u
  else tasks ++ [t]

/-- The loop of lines 181–183, which the first rejected task ends. -/
def saveAll (tasks : List Task) : List TaskJson → List Task
  | [] => tasks
  | t :: ts =>
    match t.stringify.toTask with
    | some task => saveAll (save tasks task) ts
    | none => tasks

/-! ## Export and import -/

/-- A task of `list_tasks` in the page. -/
def pageTask (t : Task) : TaskJson := (TaskJson.ofTask t).parse

/-- The agent's tasks after a selection has been exported and the file imported with the
    default action of every item. -/
def exportImport (tasks : List Task) (selectedTaskIds : List TaskId) (exportedAt : String)
    (fresh : FreshIds) : List Task :=
  let page := tasks.map pageTask
  match handleExport page selectedTaskIds exportedAt with
  | none => tasks
  | some file =>
    match handleFileChange page (.object (some file.tasks)) with
    | none => tasks
    | some items => saveAll tasks (toSave fresh items)

/-! ## Configurations -/

/-- What a task is configured to do: everything but its ids, its version and its times. -/
@[ext] structure Config where
  name : String
  description : Option String
  enabled : Bool
  triggers : List (Bool × TriggerKind)
  actions : List (ℕ × Bool × ActionKind)
  executionPolicy : ExecutionPolicy
  workingDirectory : Option String
  environment : HashMap String String
  deriving DecidableEq

def Task.config (t : Task) : Config where
  name := t.name
  description := t.description
  enabled := t.enabled
  triggers := t.triggers.map fun tr => (tr.enabled, tr.kind)
  actions := t.actions.map fun act => (act.sequence, act.enabled, act.kind)
  executionPolicy := t.executionPolicy
  workingDirectory := t.workingDirectory
  environment := t.environment

def Config.mapNumbers (f : ℕ → ℕ) (c : Config) : Config :=
  { c with
    triggers := c.triggers.map fun tr => (tr.1, TriggerKind.mapNumbers f tr.2)
    actions := c.actions.map fun act => (f act.1, act.2)
    executionPolicy := ExecutionPolicy.mapNumbers f c.executionPolicy }

def TriggerKind.numbers : TriggerKind → List ℕ
  | .Interval intervalSecs _ => [intervalSecs]
  | _ => []

def LogRetentionPolicy.numbers : LogRetentionPolicy → List ℕ
  | .KeepDays days => [days]
  | _ => []

/-- The numbers of a configuration. -/
def Config.numbers (c : Config) : List ℕ :=
  c.triggers.flatMap (fun tr => TriggerKind.numbers tr.2) ++ c.actions.map Prod.fst ++
    [c.executionPolicy.retryPolicy.maxRetries, c.executionPolicy.retryPolicy.delaySecs] ++
    c.executionPolicy.timeoutSecs.toList ++
    LogRetentionPolicy.numbers c.executionPolicy.logRetention

/-- What becomes of a number that is listed, exported, imported and saved. -/
def throughPage (n : ℕ) : ℕ := Binary64.reread (Binary64.reread (Binary64.reread n))

/-- The configuration that a task brings through the page. -/
def carried (t : Task) : Config := (Task.config t).mapNumbers throughPage

/-- The last task with this name. -/
def lastNamed (tasks : List Task) (name : String) : Option Task :=
  tasks.reverse.find? fun t => t.name = name

/-- The version with which `u` is overwritten, as it is sent. -/
def versionSent (u : Task) : ℤ :=
  let v := nextVersion (pageTask u)
  v.sign * Binary64.written v.natAbs

def Config.fits (c : Config) : Bool :=
  (c.triggers.all fun tr => TriggerKind.fits tr.2) &&
  (c.actions.all fun act => act.1 < 2 ^ 32) && (PolicyJson.ofPolicy c.executionPolicy).fits

/-- The agent accepts `t` in the place of the task with its name: its numbers fit. -/
def accepted (tasks : List Task) (t : Task) : Bool :=
  (carried t).fits && (lastNamed tasks t.name).all fun u => versionFits (versionSent u)

/-- The tasks that are imported: the selected ones, before the first that is rejected. -/
def imported (tasks : List Task) (selectedTaskIds : List TaskId) : List Task :=
  (tasks.filter fun t => selectedTaskIds.contains t.id).takeWhile (accepted tasks)

/-- The configuration of `u` after the import. -/
def configAfter (tasks imports : List Task) (u : Task) : Config :=
  if lastNamed tasks u.name = some u then
    ((lastNamed imports u.name).map carried).getD (Task.config u)
  else Task.config u

/-! ## Matching by name -/

theorem lookup_existingMap (existingTasks : List TaskJson) (name : String) :
    (existingMap existingTasks).lookup name =
      existingTasks.reverse.find? fun t => t.name = name := by
  rw [existingMap, lookup_foldl_insert TaskJson.name fun t => t]
  simp

theorem lastNamed_name {tasks : List Task} {name : String} {u : Task}
    (h : lastNamed tasks name = some u) : u.name = name := by
  simpa using List.find?_some h

theorem lastNamed_mem {tasks : List Task} {name : String} {u : Task}
    (h : lastNamed tasks name = some u) : u ∈ tasks :=
  List.mem_reverse.mp (List.mem_of_find?_eq_some h)

theorem exists_lastNamed {tasks : List Task} {t : Task} (ht : t ∈ tasks) :
    ∃ u, lastNamed tasks t.name = some u := by
  apply Option.isSome_iff_exists.mp
  rw [lastNamed, List.find?_isSome]
  exact ⟨t, List.mem_reverse.mpr ht, by simp⟩

theorem lookup_pageTasks (tasks : List Task) (name : String) :
    (existingMap (tasks.map pageTask)).lookup name = (lastNamed tasks name).map pageTask := by
  rw [lookup_existingMap, ← List.map_reverse, List.find?_map]
  rfl

/-! ## One task on its way through the page -/

section MapNumbers

variable (f g : ℕ → ℕ)

theorem RetryPolicy.mapNumbers_mapNumbers (p : RetryPolicy) :
    RetryPolicy.mapNumbers f (RetryPolicy.mapNumbers g p) = RetryPolicy.mapNumbers (f ∘ g) p := rfl

theorem LogRetentionPolicy.mapNumbers_mapNumbers (p : LogRetentionPolicy) :
    LogRetentionPolicy.mapNumbers f (LogRetentionPolicy.mapNumbers g p) =
      LogRetentionPolicy.mapNumbers (f ∘ g) p := by
  cases p <;> rfl

theorem TriggerKind.mapNumbers_mapNumbers (kind : TriggerKind) :
    TriggerKind.mapNumbers f (TriggerKind.mapNumbers g kind) =
      TriggerKind.mapNumbers (f ∘ g) kind := by
  cases kind <;> rfl

theorem ExecutionPolicy.mapNumbers_mapNumbers (p : ExecutionPolicy) :
    ExecutionPolicy.mapNumbers f (ExecutionPolicy.mapNumbers g p) =
      ExecutionPolicy.mapNumbers (f ∘ g) p := by
  simp [ExecutionPolicy.mapNumbers, RetryPolicy.mapNumbers_mapNumbers,
    LogRetentionPolicy.mapNumbers_mapNumbers]

theorem Config.mapNumbers_mapNumbers (c : Config) :
    (c.mapNumbers g).mapNumbers f = c.mapNumbers (f ∘ g) := by
  simp [Config.mapNumbers, ExecutionPolicy.mapNumbers_mapNumbers,
    TriggerKind.mapNumbers_mapNumbers, Function.comp_def]

theorem TriggerKind.mapNumbers_eq_self {kind : TriggerKind}
    (h : ∀ n ∈ TriggerKind.numbers kind, f n = n) : TriggerKind.mapNumbers f kind = kind := by
  cases kind with
  | Interval intervalSecs startAt =>
    rw [TriggerKind.mapNumbers, h intervalSecs (List.mem_singleton.mpr rfl)]
  | _ => rfl

theorem LogRetentionPolicy.mapNumbers_eq_self {p : LogRetentionPolicy}
    (h : ∀ n ∈ LogRetentionPolicy.numbers p, f n = n) : LogRetentionPolicy.mapNumbers f p = p := by
  cases p with
  | KeepDays days =>
    rw [LogRetentionPolicy.mapNumbers, h days (List.mem_singleton.mpr rfl)]
  | _ => rfl

theorem Config.mapNumbers_eq_self {c : Config} (h : ∀ n ∈ c.numbers, f n = n) :
    c.mapNumbers f = c := by
  simp only [Config.numbers, List.mem_append, List.mem_flatMap, List.mem_map, List.mem_cons,
    Option.mem_toList, or_imp, forall_and, List.not_mem_nil, or_false] at h
  obtain ⟨⟨⟨⟨htriggers, hactions⟩, hretries, hdelay⟩, htimeout⟩, hretention⟩ := h
  have hpolicy : ExecutionPolicy.mapNumbers f c.executionPolicy = c.executionPolicy := by
    have htimeout' : c.executionPolicy.timeoutSecs.map f = c.executionPolicy.timeoutSecs := by
      cases hsecs : c.executionPolicy.timeoutSecs with
      | none => rfl
      | some secs => rw [Option.map_some, htimeout secs hsecs]
    rw [ExecutionPolicy.mapNumbers, RetryPolicy.mapNumbers, hretries _ rfl, hdelay _ rfl,
      htimeout', LogRetentionPolicy.mapNumbers_eq_self f hretention]
  refine Config.ext rfl rfl rfl ?_ ?_ hpolicy rfl rfl
  · refine (List.map_congr_left fun tr htr => ?_).trans (List.map_id _)
    rw [TriggerKind.mapNumbers_eq_self f fun n hn => htriggers n ⟨tr, htr, hn⟩]
    rfl
  · refine (List.map_congr_left fun act hact => ?_).trans (List.map_id _)
    rw [hactions act.1 ⟨act, hact, rfl⟩]
    rfl

theorem PolicyJson.mapNumbers_ofPolicy (p : ExecutionPolicy) :
    (PolicyJson.ofPolicy p).mapNumbers f = PolicyJson.ofPolicy (ExecutionPolicy.mapNumbers f p) :=
  rfl

theorem PolicyJson.toPolicy_ofPolicy (p : ExecutionPolicy) :
    (PolicyJson.ofPolicy p).toPolicy =
      if (PolicyJson.ofPolicy p).fits then some p else none := rfl

end MapNumbers

/-- Below `2 ^ 53`, the page keeps numbers as they are. -/
theorem throughPage_of_lt {n : ℕ} (h : n < 2 ^ 53) : throughPage n = n := by
  rw [throughPage, Binary64.reread_of_lt h, Binary64.reread_of_lt h, Binary64.reread_of_lt h]

/-- The page's task has this configuration. -/
structure TaskJson.Has (t : TaskJson) (c : Config) : Prop where
  name : t.name = c.name
  description : t.description = c.description
  enabled : t.enabled = c.enabled
  triggers : (t.triggers.map fun tr => (tr.enabled, tr.kind)) = c.triggers
  actions : (t.actions.map fun act => (act.sequence, act.enabled, act.kind)) = c.actions
  executionPolicy : t.executionPolicy = some (PolicyJson.ofPolicy c.executionPolicy)
  workingDirectory : t.workingDirectory = c.workingDirectory
  environment : t.environment = c.environment

namespace TaskJson.Has

variable {t : TaskJson} {c : Config}

theorem ofTask (u : Task) : (TaskJson.ofTask u).Has (Task.config u) :=
  ⟨rfl, rfl, rfl, rfl, rfl, rfl, rfl, rfl⟩

theorem mapNumbers (h : t.Has c) (f : ℕ → ℕ) : (t.mapNumbers f).Has (c.mapNumbers f) where
  name := h.name
  description := h.description
  enabled := h.enabled
  triggers := by
    simp only [Config.mapNumbers, ← h.triggers, TaskJson.mapNumbers, List.map_map]
    rfl
  actions := by
    simp only [Config.mapNumbers, ← h.actions, TaskJson.mapNumbers, List.map_map]
    rfl
  executionPolicy := by
    simp only [TaskJson.mapNumbers, h.executionPolicy, Option.map_some,
      PolicyJson.mapNumbers_ofPolicy, Config.mapNumbers]
  workingDirectory := h.workingDirectory
  environment := h.environment

/-- A task of the agent has its policy, and the defaults change nothing. -/
theorem fillDefaults (h : t.Has c) : fillDefaults t = t := by
  unfold EasyJob.Frontend.fillDefaults
  rw [h.executionPolicy]
  cases t
  cases h.executionPolicy
  rfl

theorem clone (h : t.Has c) :
    t.clone.Has (c.mapNumbers (Binary64.toDouble ∘ Binary64.written)) := by
  have h := (h.mapNumbers Binary64.written).mapNumbers Binary64.toDouble
  rwa [Config.mapNumbers_mapNumbers] at h

theorem withIds (h : t.Has c) (fresh : FreshIds) (i : ℕ) (taskId : TaskId) (version : ℤ) :
    (withIds fresh i t taskId version).Has
      (c.mapNumbers (Binary64.toDouble ∘ Binary64.written)) := by
  have hclone := h.clone
  exact
    { hclone with
      triggers := by
        rw [← hclone.triggers]
        apply List.ext_getElem?
        intro j
        simp only [EasyJob.Frontend.withIds, List.getElem?_map, List.getElem?_mapIdx,
          Option.map_map]
        rfl
      actions := by
        rw [← hclone.actions]
        apply List.ext_getElem?
        intro j
        simp only [EasyJob.Frontend.withIds, List.getElem?_map, List.getElem?_mapIdx,
          Option.map_map]
        rfl }

theorem fits_eq (h : t.Has c) :
    (t.fits && (t.executionPolicy.all PolicyJson.fits)) = (c.fits && versionFits t.version) := by
  have htriggers : (t.triggers.all fun tr => TriggerKind.fits tr.kind) =
      c.triggers.all fun tr => TriggerKind.fits tr.2 := by
    rw [← h.triggers, List.all_map]
    rfl
  have hactions : (t.actions.all fun act => decide (act.sequence < 2 ^ 32)) =
      c.actions.all fun act => decide (act.1 < 2 ^ 32) := by
    rw [← h.actions, List.all_map]
    rfl
  rw [TaskJson.fits, Config.fits, htriggers, hactions, h.executionPolicy, Option.all_some]
  simp only [Bool.and_assoc, Bool.and_comm (versionFits _)]

/-- What the agent reads of it: the configuration, if its numbers fit. -/
theorem toTask (h : t.Has c) :
    if c.fits && versionFits t.version then
      ∃ task, t.toTask = some task ∧ task.id = t.id ∧ Task.config task = c
    else t.toTask = none := by
  rw [← h.fits_eq, h.executionPolicy, Option.all_some]
  unfold TaskJson.toTask
  rw [h.executionPolicy, Option.bind_some, PolicyJson.toPolicy_ofPolicy]
  cases t.fits with
  | false => simp
  | true =>
    cases (PolicyJson.ofPolicy c.executionPolicy).fits with
    | false => simp
    | true =>
      exact ⟨_, rfl, rfl, Config.ext h.name h.description h.enabled h.triggers h.actions rfl
        h.workingDirectory h.environment⟩

end TaskJson.Has

/-- What is saved for the selected task `t`, the `i`-th in the file, in the place of `u`. -/
def sent (fresh : FreshIds) (i : ℕ) (t u : Task) : TaskJson :=
  withIds fresh i (pageTask t).clone u.id (nextVersion (pageTask u))

/-- The default action of a selected task overwrites the last task with its name. -/
theorem savedFor_importItem {tasks : List Task} {t : Task} (ht : t ∈ tasks) (fresh : FreshIds)
    (i : ℕ) : ∃ u, lastNamed tasks t.name = some u ∧
      savedFor fresh i (importItem (tasks.map pageTask) (fillDefaults (pageTask t).clone)) =
        some (sent fresh i t u) := by
  obtain ⟨u, hu⟩ := exists_lastNamed ht
  have hclone := ((TaskJson.Has.ofTask t).mapNumbers Binary64.toDouble).clone
  have hname : (pageTask t).clone.name = t.name := rfl
  have hfill : fillDefaults (pageTask t).clone = (pageTask t).clone := hclone.fillDefaults
  refine ⟨u, hu, ?_⟩
  rw [hfill, importItem, hname, lookup_pageTasks, hu]
  rfl

/-- The agent reads it as a task with the id of `u` and the configuration that `t` brings
    through the page, or rejects it. -/
theorem toTask_sent {tasks : List Task} {t u : Task} (hu : lastNamed tasks t.name = some u)
    (fresh : FreshIds) (i : ℕ) :
    if accepted tasks t then
      ∃ task, (sent fresh i t u).stringify.toTask = some task ∧ task.id = u.id ∧
        Task.config task = carried t
    else (sent fresh i t u).stringify.toTask = none := by
  have hhas : (sent fresh i t u).stringify.Has (carried t) := by
    have hpage := (TaskJson.Has.ofTask t).mapNumbers Binary64.toDouble
    have hsent := (hpage.clone.withIds fresh i u.id (nextVersion (pageTask u))).mapNumbers
      Binary64.written
    simp only [Config.mapNumbers_mapNumbers] at hsent
    have hthrough : (Binary64.written ∘ (Binary64.toDouble ∘ Binary64.written) ∘
        (Binary64.toDouble ∘ Binary64.written) ∘ Binary64.toDouble) = throughPage := by
      funext n
      simp only [throughPage, Binary64.reread, Function.comp]
    rw [hthrough] at hsent
    rw [carried]
    exact hsent
  have hversion : (sent fresh i t u).stringify.version = versionSent u := rfl
  have htask := hhas.toTask
  rw [hversion] at htask
  rw [accepted, hu, Option.all_some]
  exact htask

/-! ## Saving by id -/

/-- A task saved for `t`: the last task with its name, with the configuration of `t`. -/
structure SavedAs (tasks : List Task) (t s : Task) : Prop where
  id : (lastNamed tasks t.name).map Task.id = some s.id
  config : Task.config s = carried t

/-- Saves of tasks that exist change these and add none. -/
theorem foldl_save {saved tasks : List Task}
    (hids : ∀ s ∈ saved, ∃ u ∈ tasks, u.id = s.id) :
    saved.foldl save tasks =
      tasks.map fun u => ((saved.reverse.find? fun s => s.id = u.id).getD u) := by
  induction saved generalizing tasks with
  | nil => simp
  | cons s saved ih =>
    obtain ⟨u, hu, hus⟩ := hids s List.mem_cons_self
    have hsave : save tasks s = tasks.map fun u => if u.id = s.id then s else u := by
      rw [save, if_pos]
      exact List.any_eq_true.mpr ⟨u, hu, by simpa using hus⟩
    have hids' : ∀ s' ∈ saved, ∃ u ∈ save tasks s, u.id = s'.id := by
      intro s' hs'
      obtain ⟨u', hu', hid⟩ := hids s' (List.mem_cons_of_mem _ hs')
      rw [hsave]
      refine ⟨_, List.mem_map.mpr ⟨u', hu', rfl⟩, ?_⟩
      split
      · rename_i heq
        rw [← heq, hid]
      · exact hid
    rw [List.foldl_cons, ih hids', hsave, List.map_map]
    apply List.map_congr_left
    intro u _
    rw [List.reverse_cons, List.find?_append]
    by_cases hid : u.id = s.id
    · simp [hid]
    · have hsid : ¬s.id = u.id := Ne.symm hid
      simp [hid, hsid]

/-! ## The whole import -/

/-- A list mapped, with its indices, to values that are there. -/
theorem forall₂_filterMap_mapIdx {α β γ : Type} {R : α → γ → Prop} {g : α → β}
    {f : ℕ → β → Option γ} {l : List α} (h : ∀ i, ∀ a ∈ l, ∃ c, f i (g a) = some c ∧ R a c) :
    List.Forall₂ R l (((l.map g).mapIdx f).filterMap id) := by
  induction l generalizing f with
  | nil => exact .nil
  | cons a l ih =>
    obtain ⟨c, hc, hr⟩ := h 0 a List.mem_cons_self
    rw [List.map_cons, List.mapIdx_cons, hc]
    exact .cons hr (ih fun i a' ha' => h (i + 1) a' (List.mem_cons_of_mem _ ha'))

/-- The page sends one task for each selected one, in the place of the last with its name. -/
def SentFor (tasks : List Task) (fresh : FreshIds) (t : Task) (s : TaskJson) : Prop :=
  ∃ i u, lastNamed tasks t.name = some u ∧ s = sent fresh i t u

/-- The loop of saves stops before the first task that is rejected. -/
theorem saveAll_sent {tasks₀ tasks : List Task} {fresh : FreshIds} {ts : List Task}
    {ss : List TaskJson} (h : List.Forall₂ (SentFor tasks₀ fresh) ts ss) :
    ∃ saved, saveAll tasks ss = saved.foldl save tasks ∧
      List.Forall₂ (SavedAs tasks₀) (ts.takeWhile (accepted tasks₀)) saved := by
  induction h generalizing tasks with
  | nil => exact ⟨[], rfl, .nil⟩
  | @cons t s ts ss hsent _ ih =>
    obtain ⟨i, u, hu, rfl⟩ := hsent
    have htask := toTask_sent hu fresh i
    rw [saveAll]
    split_ifs at htask with haccepted
    · obtain ⟨task, htask, hid, hconfig⟩ := htask
      obtain ⟨saved, hsaved, hall⟩ := @ih (save tasks task)
      rw [htask, List.takeWhile_cons, if_pos haccepted]
      refine ⟨task :: saved, hsaved, .cons ⟨?_, hconfig⟩ hall⟩
      rw [hu, hid]
      rfl
    · rw [htask, List.takeWhile_cons, if_neg haccepted]
      exact ⟨[], rfl, .nil⟩

/-- Exporting a selection and importing the file saves the imported tasks one by one. -/
theorem exportImport_eq (tasks : List Task) (selectedTaskIds : List TaskId) (exportedAt : String)
    (fresh : FreshIds) :
    ∃ saved, exportImport tasks selectedTaskIds exportedAt fresh = saved.foldl save tasks ∧
      List.Forall₂ (SavedAs tasks) (imported tasks selectedTaskIds) saved := by
  have hselected : (tasks.map pageTask).filter (fun t => selectedTaskIds.contains t.id) =
      (tasks.filter fun t => selectedTaskIds.contains t.id).map pageTask := by
    rw [List.filter_map]
    rfl
  unfold exportImport imported handleExport
  dsimp only
  rw [hselected]
  generalize hsel : (tasks.filter fun t => selectedTaskIds.contains t.id) = selected
  have hmem : ∀ t ∈ selected, t ∈ tasks := fun t ht => (List.mem_filter.mp (hsel ▸ ht)).1
  cases hempty : selectedTaskIds.isEmpty with
  | true =>
    have hnil : selected = [] := by
      rw [← hsel, List.isEmpty_iff.mp hempty]
      simp
    rw [hnil]
    exact ⟨[], rfl, .nil⟩
  | false =>
    have hraw :
        (ImportFile.object (some ((selected.map pageTask).map TaskJson.stringify))).rawTasks =
          selected.map fun t => (pageTask t).clone := by
      simp [ImportFile.rawTasks, TaskJson.clone, Function.comp_def]
    simp only [Bool.false_eq_true, if_false, handleFileChange, hraw]
    by_cases hnil : selected = []
    · rw [hnil]
      exact ⟨[], rfl, .nil⟩
    · rw [List.isEmpty_eq_false_iff.mpr (by simpa using hnil)]
      simp only [Bool.false_eq_true, if_false, List.map_map]
      have hsent : List.Forall₂ (SentFor tasks fresh) selected (toSave fresh
          (selected.map (importItem (tasks.map pageTask) ∘ fillDefaults ∘
            fun t => (pageTask t).clone))) := by
        apply forall₂_filterMap_mapIdx
        intro i t ht
        obtain ⟨u, hu, hsaved⟩ := savedFor_importItem (hmem t ht) fresh i
        exact ⟨_, hsaved, i, u, hu, rfl⟩
      exact saveAll_sent hsent

/-- Searching two related lists from the end. -/
theorem find?_reverse_of_forall₂ {α β : Type} {R : α → β → Prop} {p : α → Bool} {q : β → Bool}
    (hpq : ∀ a b, R a b → p a = q b) {l : List α} {l' : List β} (h : List.Forall₂ R l l') :
    (l.reverse.find? p = none ∧ l'.reverse.find? q = none) ∨
      ∃ a b, l.reverse.find? p = some a ∧ l'.reverse.find? q = some b ∧ R a b := by
  induction h with
  | nil => exact .inl ⟨rfl, rfl⟩
  | @cons a b l l' hr _ ih =>
    rw [List.reverse_cons, List.reverse_cons, List.find?_append, List.find?_append]
    rcases ih with ⟨ha, hb⟩ | ⟨a', b', ha, hb, hr'⟩
    · rw [ha, hb, Option.none_or, Option.none_or, List.find?_cons, List.find?_cons, hpq a b hr]
      cases q b with
      | false => exact .inl ⟨rfl, rfl⟩
      | true => exact .inr ⟨a, b, rfl, rfl, hr⟩
    · rw [ha, hb]
      exact .inr ⟨a', b', rfl, rfl, hr'⟩

theorem exists_of_forall₂ {α β : Type} {R : α → β → Prop} {l : List α} {l' : List β}
    (h : List.Forall₂ R l l') {b : β} (hb : b ∈ l') : ∃ a, R a b := by
  induction h with
  | nil => cases hb
  | cons hr _ ih =>
    rcases List.mem_cons.mp hb with rfl | hb
    · exact ⟨_, hr⟩
    · exact ih hb

/-- With distinct ids, the saves replace the last task of each name among the imported ones
    by the last imported task with its name. -/
theorem config_after {tasks imports saved : List Task} (hids : (tasks.map Task.id).Nodup)
    (h : List.Forall₂ (SavedAs tasks) imports saved) {u : Task} (hu : u ∈ tasks) :
    Task.config ((saved.reverse.find? fun s => s.id = u.id).getD u) =
      configAfter tasks imports u := by
  -- which imported tasks are saved in the place of `u`
  have hplace (t : Task) : (lastNamed tasks t.name).map Task.id = some u.id ↔
      lastNamed tasks u.name = some u ∧ t.name = u.name := by
    constructor
    · intro hid
      obtain ⟨u', hu', heq⟩ := Option.map_eq_some_iff.mp hid
      obtain rfl : u' = u := List.inj_on_of_nodup_map hids (lastNamed_mem hu') hu heq
      have hname := lastNamed_name hu'
      exact ⟨hname ▸ hu', hname.symm⟩
    · rintro ⟨hlast, hname⟩
      rw [hname, hlast]
      rfl
  have hfind := find?_reverse_of_forall₂
    (p := fun t => (lastNamed tasks t.name).map Task.id = some u.id) (q := fun s => s.id = u.id)
    (fun t s hts => by rw [hts.id]; simp) h
  simp only [hplace] at hfind
  unfold configAfter
  split_ifs with hlast
  · simp only [hlast, true_and] at hfind
    rw [lastNamed]
    rcases hfind with ⟨ht, hs⟩ | ⟨t, s, ht, hs, hts⟩
    · rw [ht, hs]
      rfl
    · rw [ht, hs]
      exact hts.config
  · simp only [hlast, false_and] at hfind
    rcases hfind with ⟨-, hs⟩ | ⟨t, -, ht, -, -⟩
    · rw [hs]
      rfl
    · have := List.find?_some ht
      simp at this

/-- What does importing an exported selection change? It adds no task. The last task of
    each name gets the configuration of the last imported task with this name, whose numbers
    have gone through the page; all others keep theirs. So nothing changes if and only if
    these configurations are the same, and in particular if the names are unique and the
    numbers below `2 ^ 53`. -/
theorem import_export {tasks : List Task} (hids : (tasks.map Task.id).Nodup)
    (selectedTaskIds : List TaskId) (exportedAt : String) (fresh : FreshIds) :
    (exportImport tasks selectedTaskIds exportedAt fresh).map Task.id = tasks.map Task.id ∧
      (exportImport tasks selectedTaskIds exportedAt fresh).map Task.config =
        tasks.map (configAfter tasks (imported tasks selectedTaskIds)) ∧
      ((exportImport tasks selectedTaskIds exportedAt fresh).map Task.config =
          tasks.map Task.config ↔
        ∀ u t, lastNamed tasks u.name = some u →
          lastNamed (imported tasks selectedTaskIds) u.name = some t →
            carried t = Task.config u) ∧
      ((tasks.map Task.name).Nodup → (∀ t ∈ tasks, ∀ n ∈ (Task.config t).numbers, n < 2 ^ 53) →
        (exportImport tasks selectedTaskIds exportedAt fresh).map Task.config =
          tasks.map Task.config) := by
  obtain ⟨saved, hsaved, hall⟩ := exportImport_eq tasks selectedTaskIds exportedAt fresh
  have hexist : ∀ s ∈ saved, ∃ u ∈ tasks, u.id = s.id := by
    intro s hs
    obtain ⟨t, hsaved⟩ := exists_of_forall₂ hall hs
    obtain ⟨u, hu, hid⟩ := Option.map_eq_some_iff.mp hsaved.id
    exact ⟨u, lastNamed_mem hu, hid⟩
  rw [hsaved, foldl_save hexist]
  have hconfig : (tasks.map fun u => ((saved.reverse.find? fun s => s.id = u.id).getD u)).map
      Task.config = tasks.map (configAfter tasks (imported tasks selectedTaskIds)) := by
    rw [List.map_map]
    exact List.map_congr_left fun u hu => config_after hids hall hu
  have hiff : tasks.map (configAfter tasks (imported tasks selectedTaskIds)) =
      tasks.map Task.config ↔ ∀ u t, lastNamed tasks u.name = some u →
        lastNamed (imported tasks selectedTaskIds) u.name = some t →
          carried t = Task.config u := by
    constructor
    · intro heq u t hu ht
      have hafter := List.map_inj_left.mp heq u (lastNamed_mem hu)
      rw [configAfter, if_pos hu, ht] at hafter
      exact hafter
    · intro hsame
      apply List.map_congr_left
      intro u _
      unfold configAfter
      split_ifs with hu
      · cases ht : lastNamed (imported tasks selectedTaskIds) u.name with
        | none => rfl
        | some t => exact hsame u t hu ht
      · rfl
  rw [hconfig]
  refine ⟨?_, rfl, hiff, ?_⟩
  · rw [List.map_map]
    apply List.map_congr_left
    intro u _
    cases hfind : saved.reverse.find? fun s => s.id = u.id with
    | none => simp [hfind]
    | some s => simpa [hfind] using List.find?_some hfind
  · intro hnames hsafe
    refine hiff.mpr fun u t hu ht => ?_
    have htmem : t ∈ tasks :=
      (List.mem_filter.mp ((List.takeWhile_sublist _).subset (lastNamed_mem ht))).1
    obtain rfl : t = u :=
      List.inj_on_of_nodup_map hnames htmem (lastNamed_mem hu) (lastNamed_name ht)
    exact Config.mapNumbers_eq_self _ fun n hn => throughPage_of_lt (hsafe t htmem n hn)

/-! ## Two tasks with one name -/

/-- A task without triggers and actions. -/
def plainTask (id : ℕ) (name : String) (enabled : Bool) : Task where
  id := ⟨id⟩
  name := name
  description := none
  enabled := enabled
  triggers := []
  actions := []
  executionPolicy := {}
  workingDirectory := none
  environment := ∅
  version := 1
  createdAt := 0
  updatedAt := 0

def freshIds : FreshIds := ⟨fun i => ⟨100 + i⟩, fun i j => ⟨1000 + 100 * i + j⟩,
  fun i j => ⟨2000 + 100 * i + j⟩⟩

/-- A task with two triggers and two actions. -/
def backupTask : Task :=
  { plainTask 1 "backup" true with
    triggers := [⟨⟨10⟩, ⟨1⟩, true, .Interval 5400 (some 0), 0, 0⟩,
      ⟨⟨11⟩, ⟨1⟩, false, .Cron "0 3 * * *" "Europe/Berlin", 0, 0⟩]
    actions := [⟨⟨20⟩, ⟨1⟩, 0, true, .ExecuteShell "backup --all"⟩,
      ⟨⟨21⟩, ⟨1⟩, 1, false, .ExecuteProgram "notify" ["done"]⟩]
    executionPolicy :=
      { retryPolicy := ⟨3, 60⟩, timeoutSecs := some 3600, logRetention := .KeepDays 30 }
    environment := (∅ : HashMap String String).insert "LANG" "C" }

def differentNames : List Task := [backupTask, plainTask 2 "cleanup" false]

def sameNames : List Task := [plainTask 1 "backup" true, plainTask 2 "backup" false]

/-- With different names, what is exported comes back as it was. -/
theorem import_export_differentNames :
    (exportImport differentNames [⟨1⟩] "2026-09-16T00:00:00.000Z" freshIds).map Task.id =
        differentNames.map Task.id ∧
      differentNames.map (configAfter differentNames (imported differentNames [⟨1⟩])) =
        differentNames.map Task.config ∧
      (∀ u t, lastNamed differentNames u.name = some u →
        lastNamed (imported differentNames [⟨1⟩]) u.name = some t → carried t = Task.config u) ∧
      (exportImport differentNames [⟨1⟩] "2026-09-16T00:00:00.000Z" freshIds).map Task.config =
        differentNames.map Task.config := by
  have hids : (differentNames.map Task.id).Nodup := by decide
  have hnames : (differentNames.map Task.name).Nodup := by decide
  have hsafe : ∀ t ∈ differentNames, ∀ n ∈ (Task.config t).numbers, n < 2 ^ 53 := by
    decide +kernel
  obtain ⟨hsameIds, hafter, hiff, hkept⟩ :=
    import_export hids [⟨1⟩] "2026-09-16T00:00:00.000Z" freshIds
  have hsame := hkept hnames hsafe
  exact ⟨hsameIds, hafter.symm.trans hsame, hiff.mp hsame, hsame⟩

/-- The first of two tasks with one name, exported and imported, enables the second. -/
theorem import_overwrites :
    (sameNames.map Task.id).Nodup ∧
      (exportImport sameNames [⟨1⟩] "2026-09-16T00:00:00.000Z" freshIds).map Task.enabled =
        [true, true] ∧
      (exportImport sameNames [⟨1⟩] "2026-09-16T00:00:00.000Z" freshIds).map Task.config ≠
        sameNames.map Task.config := by
  have henabled :
      (exportImport sameNames [⟨1⟩] "2026-09-16T00:00:00.000Z" freshIds).map Task.enabled =
        [true, true] := by decide +kernel
  refine ⟨by decide, henabled, fun heq => ?_⟩
  have h := congrArg (List.map Config.enabled) heq
  rw [List.map_map, List.map_map] at h
  exact absurd (henabled.symm.trans h) (by decide)

end EasyJob.Frontend
