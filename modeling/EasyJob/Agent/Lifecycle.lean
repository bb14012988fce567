import EasyJob.Agent.Stages

/-!
# The life of an execution

The machine `lifecycle` runs one agent process after the other on one database.
In a process, dispatched and manually triggered executions take their operations
in any order, between cancellations, retention purges and changes of the tasks;
a crash can come between any two steps.

* `LifecycleState.Step`: all that a step can do to the runs and their rows.
* `find_purgeRun`: a purge spares rows with the status `Running`.
-/

namespace EasyJob.Agent

open EasyJob.Chrono EasyJob.Domain EasyJob.Executor EasyJob.Persistence.Sqlite Transition

/-! ## Retention -/

/-- The `retention_days` of `trigger_log_retention_purge` (lines 443–456); `settings` is what
    `get_system_settings` returns, if it does. -/
def retentionDays (policy : LogRetentionPolicy) (settings : Option SystemSettings) : Option ℕ :=
  match policy with
  | .SystemDefault =>
    match (settings.getD {}).defaultLogRetention with
    | .KeepDays days => some days
    | .Permanent => none
  | .KeepDays days => some days
  | .Permanent => none

/-- Lines 458–471. Where the subtraction of days panics, only this task ends. -/
def Purge.run (texts : Texts) (purge : Purge) (settings : Option SystemSettings) (now : DateTime)
    (sqlOk : Bool) (db : Database) : Database :=
  match retentionDays purge.policy settings with
  | none => db
  | some days =>
    match addDelta now (-(days * nanosPerDay)) with
    | .error _ => db
    | .ok cutoff => if sqlOk then purgeExpiredRuns texts purge.taskId cutoff db else db

/-! ## The machine -/

/-- The last two fields only record what happened. -/
structure LifecycleState where
  db : Database
  process : Option AgentProcess
  /-- The texts of all execution ids so far. -/
  issued : List String
  /-- The executions that a crash ended. -/
  lost : List ExecutionId

inductive LifecycleAction
  /-- A process starts; `recovered` says whether `recover_dangling_executions` succeeds. -/
  | start (recovered : Bool)
  | crash
  /-- The dispatcher acquired a slot for an event. -/
  | dispatch (task : Task) (id : ExecutionId) (triggerId : Option TriggerId)
      (scheduledAt newAt startedAt : DateTime)
  /-- `task.trigger_now` acquired a slot. -/
  | triggerNow (task : Task) (id : ExecutionId) (scheduledAt newAt startedAt : DateTime)
  /-- An execution takes its next operation. -/
  | advance (id : ExecutionId) (inputs : RunInputs)
  /-- `execution.cancel`. -/
  | cancel (id : ExecutionId)
  /-- The executions are cancelled because the agent shuts down. -/
  | shutdown
  /-- A spawned purge runs. -/
  | purge (purge : Purge) (settings : Option SystemSettings) (now : DateTime) (sqlOk : Bool)
  | saveTask (fails : ℕ → Bool) (task : Task)
  | deleteTask (id : TaskId) (sqlOk : Bool)

/-- The id that an action draws. -/
def LifecycleAction.newId : LifecycleAction → Option ExecutionId
  | .dispatch _ id _ _ _ _ | .triggerNow _ id _ _ _ => some id
  | .start _ | .crash | .advance _ _ | .cancel _ | .shutdown | .purge _ _ _ _ | .saveTask _ _
  | .deleteTask _ _ => none

def AgentProcess.putRun (p : AgentProcess) (id : ExecutionId) (next : Option TaskRun) :
    AgentProcess :=
  match next with
  | some run => { p with runs := p.runs.insert id run }
  | none => { p with runs := p.runs.erase id }

/-- Model of `execution.cancel` (lines 1018–1028). -/
def AgentProcess.cancel (p : AgentProcess) (id : ExecutionId) : AgentProcess :=
  match p.activeExecutions.lookup id with
  | some _ => { p with activeExecutions := p.activeExecutions.insert id true }
  | none => p

def LifecycleState.beginRun (s : LifecycleState) (p : AgentProcess) (run : TaskRun) :
    LifecycleState :=
  { s with
    process := some (p.putRun run.exec.id (some run))
    issued := ExecutionId.text run.exec.id :: s.issued }

variable (texts : Texts) (platform : Platform)

/-- A step while the process `p` runs. -/
def processStep (s : LifecycleState) (p : AgentProcess) :
    LifecycleAction → Option (LifecycleState × List RunEvent)
  | .start _ => none
  | .crash => some ({ s with process := none, lost := p.runs.keys ++ s.lost }, [])
  | .dispatch task id triggerId scheduledAt newAt startedAt =>
    some (s.beginRun p (.dispatched task id triggerId scheduledAt newAt startedAt), [])
  | .triggerNow task id scheduledAt newAt startedAt =>
    some (s.beginRun p (.triggeredNow task id scheduledAt newAt startedAt), [])
  | .advance id inputs =>
    match p.runs.lookup id with
    | none => none
    | some run =>
      match run.operate texts platform s.db p inputs with
      | none => none
      | some (db, p, next, o) => some ({ s with db := db, process := some (p.putRun id next) }, o)
  | .cancel id => some ({ s with process := some (p.cancel id) }, [])
  | .shutdown => some ({ s with process := some { p with execCancelToken := true } }, [])
  | .purge purge settings now sqlOk =>
    if purge ∈ p.purges then
      some ({ s with
        db := purge.run texts settings now sqlOk s.db
        process := some { p with purges := p.purges.erase purge } }, [])
    else none
  | .saveTask fails task => some ({ s with db := (save texts fails s.db task).2 }, [])
  | .deleteTask id sqlOk =>
    some ({ s with db := if sqlOk then s.db.deleteTask (TaskId.text id) else s.db }, [])

def lifecycleStep (s : LifecycleState) (a : LifecycleAction) :
    Option (LifecycleState × List RunEvent) :=
  match s.process with
  | some p => processStep texts platform s p a
  | none =>
    match a with
    | .start true =>
      some ({ s with db := recoverDanglingExecutions s.db, process := some .new }, [])
    | .start false => some (s, [])
    | _ => none

/-- Agent processes on the database `db`. -/
def lifecycle (db : Database) : Machine LifecycleState LifecycleAction RunEvent where
  init := ⟨db, none, db.taskRuns.rows.map TaskRunRow.id, []⟩
  step := lifecycleStep texts platform

/-- `ExecutionId::new` draws ids that no execution had before. -/
def FreshIds (s : LifecycleState) (a : LifecycleAction) : Prop :=
  ∀ id, a.newId = some id → ExecutionId.text id ∉ s.issued

instance (s : LifecycleState) (a : LifecycleAction) : Decidable (FreshIds s a) :=
  match h : a.newId with
  | none => isTrue fun id hid => by rw [h] at hid; cases hid
  | some id =>
    decidable_of_iff (ExecutionId.text id ∉ s.issued) (by simp [FreshIds, h])

/-! ## What a step can do -/

def LifecycleState.run (s : LifecycleState) (id : ExecutionId) : Option TaskRun :=
  s.process.bind fun p => p.runs.lookup id

def LifecycleState.isActive (s : LifecycleState) (id : ExecutionId) : Bool :=
  (s.process.bind fun p => p.activeExecutions.lookup id).isSome

/-- The steps, by what they do to runs and their rows. -/
inductive LifecycleState.Step (s : LifecycleState) :
    LifecycleAction → LifecycleState → List RunEvent → Prop
  | start (hdown : s.process = none) :
      Step s (.start true) { s with db := recoverDanglingExecutions s.db, process := some .new } []
  | startFailed (hdown : s.process = none) : Step s (.start false) s []
  | crash (p : AgentProcess) (hup : s.process = some p) :
      Step s .crash { s with process := none, lost := p.runs.keys ++ s.lost } []
  | begin_ (a : LifecycleAction) (p : AgentProcess) (run : TaskRun) (hup : s.process = some p)
      (hid : a.newId = some run.exec.id) (hstage : run.stage = .creating)
      (hstatus : run.exec.status = .Running) :
      Step s a (s.beginRun p run) []
  | advance (id : ExecutionId) (inputs : RunInputs) (p p' : AgentProcess) (run : TaskRun)
      (db' : Database) (next : Option TaskRun) (o : List RunEvent) (hup : s.process = some p)
      (hrun : p.runs.lookup id = some run) (hop : run.Operation texts s.db p db' p' next o) :
      Step s (.advance id inputs) { s with db := db', process := some (p'.putRun id next) } o
  | quiet (a : LifecycleAction) (p p' : AgentProcess) (db' : Database) (hup : s.process = some p)
      (hruns : p'.runs = p.runs)
      (hactive : ∀ id, (p'.activeExecutions.lookup id).isSome =
        (p.activeExecutions.lookup id).isSome)
      (hdb : ∀ k, db'.runStatus k = s.db.runStatus k ∨ db'.runStatus k = none) :
      Step s a { s with db := db', process := some p' } []

variable {texts platform}

theorem lookup_putRun (p : AgentProcess) (id id' : ExecutionId) (next : Option TaskRun) :
    (p.putRun id next).runs.lookup id' = if id' = id then next else p.runs.lookup id' := by
  cases next with
  | some run =>
    show (p.runs.insert id run).lookup id' = _
    split_ifs with hid
    · rw [hid, AList.lookup_insert]
    · exact AList.lookup_insert_ne hid
  | none =>
    show (p.runs.erase id).lookup id' = _
    split_ifs with hid
    · rw [hid, AList.lookup_erase]
    · exact AList.lookup_erase_ne hid

theorem activeExecutions_putRun (p : AgentProcess) (id : ExecutionId) (next : Option TaskRun) :
    (p.putRun id next).activeExecutions = p.activeExecutions := by
  cases next <;> rfl

theorem isSome_lookup_cancel (p : AgentProcess) (id id' : ExecutionId) :
    ((p.cancel id).activeExecutions.lookup id').isSome =
      (p.activeExecutions.lookup id').isSome := by
  unfold AgentProcess.cancel
  cases hlookup : p.activeExecutions.lookup id with
  | none => rfl
  | some token =>
    by_cases hid : id' = id
    · rw [hid, hlookup]
      dsimp only
      rw [AList.lookup_insert]
      rfl
    · dsimp only
      rw [AList.lookup_insert_ne hid]

theorem runs_cancel (p : AgentProcess) (id : ExecutionId) : (p.cancel id).runs = p.runs := by
  unfold AgentProcess.cancel
  split <;> rfl

/-- A purge deletes rows, and none with the status `Running`. -/
theorem find_purgeRun (purge : Purge) (settings : Option SystemSettings) (now : DateTime)
    (sqlOk : Bool) (db : Database) (k : String) :
    ((purge.run texts settings now sqlOk db).taskRuns.find k = db.taskRuns.find k ∨
      (purge.run texts settings now sqlOk db).taskRuns.find k = none) ∧
    (db.runStatus k = some (statusText .Running) →
      (purge.run texts settings now sqlOk db).taskRuns.find k = db.taskRuns.find k) := by
  unfold Purge.run
  split
  · exact ⟨.inl rfl, fun _ => rfl⟩
  · split
    · exact ⟨.inl rfl, fun _ => rfl⟩
    · split_ifs
      · exact find_purge _ _ k
      · exact ⟨.inl rfl, fun _ => rfl⟩

theorem lifecycleStep_spec {s s' : LifecycleState} {a : LifecycleAction} {o : List RunEvent}
    (h : lifecycleStep texts platform s a = some (s', o)) : s.Step texts a s' o := by
  unfold lifecycleStep at h
  cases hup : s.process with
  | none =>
    rw [hup] at h
    dsimp only at h
    split at h
    · cases h
      exact .start hup
    · cases h
      exact .startFailed hup
    · cases h
  | some p =>
    rw [hup] at h
    cases a with
    | start recovered => cases h
    | crash =>
      cases h
      exact .crash p hup
    | dispatch task id triggerId scheduledAt newAt startedAt =>
      cases h
      exact .begin_ _ p (.dispatched task id triggerId scheduledAt newAt startedAt) hup rfl rfl rfl
    | triggerNow task id scheduledAt newAt startedAt =>
      cases h
      exact .begin_ _ p (.triggeredNow task id scheduledAt newAt startedAt) hup rfl rfl rfl
    | advance id inputs =>
      unfold processStep at h
      dsimp only at h
      split at h
      · cases h
      · rename_i run hrun
        split at h
        · cases h
        · rename_i db' p' next o' hop
          cases h
          exact .advance id inputs p p' run db' next o hup hrun (operate_spec hop)
    | cancel id =>
      cases h
      exact .quiet _ p _ s.db hup (runs_cancel p id) (isSome_lookup_cancel p id) fun _ => .inl rfl
    | shutdown =>
      cases h
      exact .quiet _ p _ s.db hup rfl (fun _ => rfl) fun _ => .inl rfl
    | purge purge settings now sqlOk =>
      unfold processStep at h
      dsimp only at h
      split_ifs at h
      cases h
      exact .quiet _ p _ _ hup rfl (fun _ => rfl) fun k =>
        (find_purgeRun _ _ _ _ _ k).1.imp (congrArg _) (congrArg _)
    | saveTask fails task =>
      cases h
      have hsaved : { s with db := (save texts fails s.db task).2 } =
          { s with db := (save texts fails s.db task).2, process := some p } := by rw [← hup]
      rw [hsaved]
      exact .quiet _ p p _ hup rfl (fun _ => rfl) fun k => .inl (by rw [runStatus_save])
    | deleteTask id sqlOk =>
      cases h
      have hdeleted (db' : Database) : { s with db := db' } =
          { s with db := db', process := some p } := by rw [← hup]
      rw [hdeleted]
      refine .quiet _ p p _ hup rfl (fun _ => rfl) fun k => ?_
      split_ifs
      · exact runStatus_deleteTask _ k
      · exact .inl rfl

/-! ## The runs after a step -/

section Runs

variable {s : LifecycleState} {p p' : AgentProcess} {run : TaskRun} {db' : Database}
  {next : Option TaskRun} {o : List RunEvent}

theorem run_eq_lookup (hup : s.process = some p) (id : ExecutionId) :
    s.run id = p.runs.lookup id := by
  rw [LifecycleState.run, hup]
  rfl

theorem isActive_eq_lookup (hup : s.process = some p) (id : ExecutionId) :
    s.isActive id = (p.activeExecutions.lookup id).isSome := by
  rw [LifecycleState.isActive, hup]
  rfl

theorem run_beginRun (hup : s.process = some p) (run : TaskRun) (id : ExecutionId) :
    (s.beginRun p run).run id = if id = run.exec.id then some run else s.run id := by
  rw [run_eq_lookup hup]
  exact lookup_putRun p run.exec.id id (some run)

theorem run_advance (hup : s.process = some p) (hop : run.Operation texts s.db p db' p' next o)
    (id id' : ExecutionId) :
    LifecycleState.run { s with db := db', process := some (p'.putRun id next) } id' =
      if id' = id then next else s.run id' := by
  rw [run_eq_lookup hup]
  show (p'.putRun id next).runs.lookup id' = _
  rw [lookup_putRun, (operation_frame hop).runs]

theorem isActive_advance (s : LifecycleState) (db' : Database) (p' : AgentProcess)
    (next : Option TaskRun) (id id' : ExecutionId) :
    LifecycleState.isActive { s with db := db', process := some (p'.putRun id next) } id' =
      (p'.activeExecutions.lookup id').isSome := by
  show ((p'.putRun id next).activeExecutions.lookup id').isSome = _
  rw [activeExecutions_putRun]

theorem run_quiet (hup : s.process = some p) (hruns : p'.runs = p.runs) (db' : Database)
    (id : ExecutionId) :
    LifecycleState.run { s with db := db', process := some p' } id = s.run id := by
  rw [run_eq_lookup hup, ← hruns]
  rfl

end Runs

end EasyJob.Agent
