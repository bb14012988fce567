import EasyJob.Agent.Executions
import EasyJob.Agent.Frames
import EasyJob.Executor.Runner
import EasyJob.Persistence.ExecutionRepo

/-!
# The stages of an execution

Model of what one execution does after its slot is acquired: the task that the
dispatcher spawns (`apps/agent/src/service.rs` lines 252–375) and the second half
of `task.trigger_now` (lines 747–889). The two are the same code on different
executions, with an `await` between any two stages. A `TaskRun` is one of them;
`TaskRun.operate` is its next operation on the database and on what the executions
of a process share.

Assumed: a statement that returns an error has changed nothing.

* `TaskRun.Operation`: all that an operation can do.
* `operate_remaining`: each operation brings a run nearer to its end.
* `operation_phase`: the stages are those between `admitted` and `ended` in
  `executions`.
-/

namespace EasyJob.Agent

open EasyJob.Chrono EasyJob.Domain EasyJob.Executor EasyJob.Ipc EasyJob.Persistence.Sqlite

/-! ## Events -/

/-- An event that is broadcast for an execution. -/
inductive ExecutionEvent
  | started (exec : Execution)
  | output (exec : Execution) (stream : OutputStream) (content : String)
  | finished (exec : Execution) (task : Task)
  deriving DecidableEq

def ExecutionEvent.exec : ExecutionEvent → Execution
  | .started exec => exec
  | .output exec _ _ => exec
  | .finished exec _ => exec

/-- What is seen of a run: that its `create_run` succeeded, and its events. -/
inductive RunEvent
  | created (id : ExecutionId)
  | broadcast (event : ExecutionEvent)
  deriving DecidableEq

def RunEvent.id : RunEvent → ExecutionId
  | .created id => id
  | .broadcast event => event.exec.id

/-! ## The action loop -/

/-- `final_status`, `exit_code` and `error_message`. -/
structure LoopVars where
  finalStatus : ExecutionStatus := .Succeeded
  exitCode : Option ℤ := some 0
  errorMessage : Option String := none
  terminal : isTerminal finalStatus = true := by rfl

/-- What a run does next. -/
inductive Stage
  /-- `create_run`. -/
  | creating
  /-- Insert into `active_executions`. -/
  | registering
  /-- Send `execution.started`. -/
  | starting
  /-- The loop over the actions. -/
  | acting (rest : List Action) (vars : LoopVars)
  /-- In `run_action`, the process was started. -/
  | waiting (action : Action) (rest : List Action) (vars : LoopVars)
  /-- `append_output`. -/
  | appending (stream : OutputStream) (res : RunResult) (rest : List Action) (vars : LoopVars)
  /-- Send `execution.output`. -/
  | sending (stream : OutputStream) (res : RunResult) (rest : List Action) (vars : LoopVars)
  /-- `update_run`. -/
  | recording (vars : LoopVars)
  /-- `trigger_log_retention_purge`. -/
  | purging
  /-- Send `execution.finished`. -/
  | finishing
  /-- Remove from `active_executions`. -/
  | removing
  /-- `release_slot`. -/
  | releasing

/-- After the outputs of an action (lines 327–333). -/
def afterOutputs (res : RunResult) (rest : List Action) (vars : LoopVars) : Stage :=
  if res.status ≠ .Succeeded then
    .recording ⟨res.status, res.exitCode, res.errorMessage, res.terminal⟩
  else .acting rest { vars with exitCode := res.exitCode }

/-- After its standard output (line 313). -/
def afterStdout (res : RunResult) (rest : List Action) (vars : LoopVars) : Stage :=
  if res.stderr ≠ "" then .appending .stderr res rest vars else afterOutputs res rest vars

/-- After `run_action` (lines 297–340). -/
def afterAction (res : Except String RunResult) (rest : List Action) (vars : LoopVars) : Stage :=
  match res with
  | .ok res =>
    if res.stdout ≠ "" then .appending .stdout res rest vars else afterStdout res rest vars
  | .error e => .recording ⟨.Failed, vars.exitCode, some e, rfl⟩

def afterSending (stream : OutputStream) (res : RunResult) (rest : List Action)
    (vars : LoopVars) : Stage :=
  match stream with
  | .stdout => afterStdout res rest vars
  | .stderr => afterOutputs res rest vars

def outputText (res : RunResult) : OutputStream → String
  | .stdout => res.stdout
  | .stderr => res.stderr

/-- Lines 342–351. -/
def finishedExec (exec : Execution) (vars : LoopVars) (finishedAt : DateTime) : Execution :=
  { exec with
    status := vars.finalStatus
    finishedAt := some finishedAt
    durationMs := some ((finishedAt - exec.startedAt).tdiv 1000000).toNat
    exitCode := vars.exitCode
    errorMessage := vars.errorMessage }

/-! ## Runs -/

structure TaskRun where
  source : Source
  task : Task
  exec : Execution
  stage : Stage

/-- The run that the dispatcher spawns (lines 254–260). -/
def TaskRun.dispatched (task : Task) (id : ExecutionId) (triggerId : Option TriggerId)
    (scheduledAt newAt startedAt : DateTime) : TaskRun where
  source := .dispatcher
  task := task
  exec := { Execution.new id task.id triggerId (some scheduledAt) newAt with
    status := .Running
    startedAt := startedAt }
  stage := .creating

/-- The run of `task.trigger_now` (lines 748–750). -/
def TaskRun.triggeredNow (task : Task) (id : ExecutionId) (scheduledAt newAt startedAt : DateTime) :
    TaskRun where
  source := .triggerNow
  task := task
  exec := { Execution.new id task.id none (some scheduledAt) newAt with
    status := .Running
    startedAt := startedAt }
  stage := .creating

/-- A spawned task of `trigger_log_retention_purge`. -/
structure Purge where
  taskId : TaskId
  policy : LogRetentionPolicy
  deriving DecidableEq

/-- What the executions of one agent process share, and its spawned tasks. A cancel token
    is whether it was cancelled. -/
structure AgentProcess where
  runs : HashMap ExecutionId TaskRun
  activeExecutions : HashMap ExecutionId Bool
  purges : List Purge
  /-- `exec_cancel_token`, the parent of all others. -/
  execCancelToken : Bool

def AgentProcess.new : AgentProcess := ⟨∅, ∅, [], false⟩

/-- `action_cancel.is_cancelled()`. -/
def AgentProcess.isCancelled (p : AgentProcess) (id : ExecutionId) : Bool :=
  p.execCancelToken || p.activeExecutions.lookup id == some true

/-- What an operation gets from outside. -/
structure RunInputs where
  sqlOk : Bool
  now : DateTime
  spawned : Except String Unit
  waited : Waited
  pipes : Pipes

variable (texts : Texts) (platform : Platform)

/-- The next operation of a run; its last result is the run afterwards, unless it ended. -/
def TaskRun.operate (run : TaskRun) (db : Database) (p : AgentProcess) (i : RunInputs) :
    Option (Database × AgentProcess × Option TaskRun × List RunEvent) :=
  match run.stage with
  | .creating =>
    match if i.sqlOk then createRun texts run.exec db else none with
    | some db => some (db, p, some { run with stage := .registering }, [.created run.exec.id])
    | none => some (db, p, some { run with stage := .releasing }, [])
  | .registering =>
    some (db, { p with activeExecutions := p.activeExecutions.insert run.exec.id false },
      some { run with stage := .starting }, [])
  | .starting =>
    some (db, p, some { run with stage := .acting run.task.actions {} },
      [.broadcast (.started run.exec)])
  | .acting [] vars => some (db, p, some { run with stage := .recording vars }, [])
  | .acting (action :: rest) vars =>
    if action.enabled then
      match beginAction (p.isCancelled run.exec.id) i.spawned with
      | some res => some (db, p, some { run with stage := afterAction res rest vars }, [])
      | none => some (db, p, some { run with stage := .waiting action rest vars }, [])
    else some (db, p, some { run with stage := .acting rest vars }, [])
  | .waiting action rest vars =>
    if i.waited = .cancelled ∧ p.isCancelled run.exec.id = false then none
    else
      let res :=
        awaitAction platform action.kind run.task.executionPolicy.timeoutSecs i.waited i.pipes
      some (db, p, some { run with stage := afterAction res rest vars }, [])
  | .appending stream res rest vars =>
    let appended :=
      if i.sqlOk then appendOutput texts run.exec.id stream.name (outputText res stream) i.now db
      else none
    some (appended.getD db, p, some { run with stage := .sending stream res rest vars }, [])
  | .sending stream res rest vars =>
    some (db, p, some { run with stage := afterSending stream res rest vars },
      [.broadcast (.output run.exec stream (outputText res stream))])
  | .recording vars =>
    let exec := finishedExec run.exec vars i.now
    some (if i.sqlOk then updateRun texts exec db else db, p,
      some { run with exec := exec, stage := .purging }, [])
  | .purging =>
    some (db, { p with purges := ⟨run.task.id, run.task.executionPolicy.logRetention⟩ :: p.purges },
      some { run with stage := .finishing }, [])
  | .finishing =>
    some (db, p, some { run with stage := .removing }, [.broadcast (.finished run.exec run.task)])
  | .removing =>
    some (db, { p with activeExecutions := p.activeExecutions.erase run.exec.id },
      some { run with stage := .releasing }, [])
  | .releasing => some (db, p, none, [])

/-! ## What an operation can do -/

/-- The stages between `execution.started` and the purge. -/
def Stage.acts : Stage → Bool
  | .acting _ _ | .waiting _ _ _ | .appending _ _ _ _ | .sending _ _ _ _ | .recording _ => true
  | .creating | .registering | .starting | .purging | .finishing | .removing | .releasing => false

/-- An upper bound of the operations that are left in a stage, with the `actions` of the task. -/
def Stage.remaining (actions : ℕ) : Stage → ℕ
  | .creating => 6 * actions + 9
  | .registering => 6 * actions + 8
  | .starting => 6 * actions + 7
  | .acting rest _ => 6 * rest.length + 6
  | .waiting _ rest _ => 6 * rest.length + 11
  | .appending .stdout _ rest _ => 6 * rest.length + 10
  | .sending .stdout _ rest _ => 6 * rest.length + 9
  | .appending .stderr _ rest _ => 6 * rest.length + 8
  | .sending .stderr _ rest _ => 6 * rest.length + 7
  | .recording _ => 5
  | .purging => 4
  | .finishing => 3
  | .removing => 2
  | .releasing => 1

def TaskRun.remaining (run : TaskRun) : ℕ := run.stage.remaining run.task.actions.length

/-- A turn of the loop over the actions, by what it does to the stage. -/
inductive Stage.LoopTurn (task : Task) (isCancelled : Bool) (i : RunInputs) : Stage → Stage → Prop
  | ended (vars : LoopVars) : LoopTurn task isCancelled i (.acting [] vars) (.recording vars)
  | skipped (action : Action) (rest : List Action) (vars : LoopVars)
      (hen : action.enabled = false) :
      LoopTurn task isCancelled i (.acting (action :: rest) vars) (.acting rest vars)
  | refused (action : Action) (rest : List Action) (vars : LoopVars)
      (result : Except String RunResult) (hen : action.enabled = true)
      (hbegin : beginAction isCancelled i.spawned = some result) :
      LoopTurn task isCancelled i (.acting (action :: rest) vars) (afterAction result rest vars)
  | begun (action : Action) (rest : List Action) (vars : LoopVars) (hen : action.enabled = true)
      (hbegin : beginAction isCancelled i.spawned = none) :
      LoopTurn task isCancelled i (.acting (action :: rest) vars) (.waiting action rest vars)
  | awaited (action : Action) (rest : List Action) (vars : LoopVars) :
      LoopTurn task isCancelled i (.waiting action rest vars)
        (afterAction (awaitAction platform action.kind task.executionPolicy.timeoutSecs i.waited
          i.pipes) rest vars)
  | appended (stream : OutputStream) (res : RunResult) (rest : List Action) (vars : LoopVars) :
      LoopTurn task isCancelled i (.appending stream res rest vars) (.sending stream res rest vars)
  | sent (stream : OutputStream) (res : RunResult) (rest : List Action) (vars : LoopVars) :
      LoopTurn task isCancelled i (.sending stream res rest vars)
        (afterSending stream res rest vars)

/-- The operations of a run, by what they do. -/
inductive TaskRun.Operation (run : TaskRun) (db : Database) (p : AgentProcess) :
    Database → AgentProcess → Option TaskRun → List RunEvent → Prop
  | create (db' : Database) (hstage : run.stage = .creating)
      (hcreate : createRun texts run.exec db = some db') :
      Operation run db p db' p (some { run with stage := .registering }) [.created run.exec.id]
  | refuse (hstage : run.stage = .creating) :
      Operation run db p db p (some { run with stage := .releasing }) []
  | register (hstage : run.stage = .registering) :
      Operation run db p db
        { p with activeExecutions := p.activeExecutions.insert run.exec.id false }
        (some { run with stage := .starting }) []
  | start (hstage : run.stage = .starting) :
      Operation run db p db p (some { run with stage := .acting run.task.actions {} })
        [.broadcast (.started run.exec)]
  | act (db' : Database) (stage : Stage) (hfrom : run.stage.acts = true) (hto : stage.acts = true)
      (hless : stage.remaining run.task.actions.length < run.remaining)
      (hdb : db'.runStatus = db.runStatus) :
      Operation run db p db' p (some { run with stage := stage }) []
  | send (stream : OutputStream) (content : String) (stage : Stage) (hfrom : run.stage.acts = true)
      (hto : stage.acts = true)
      (hless : stage.remaining run.task.actions.length < run.remaining) :
      Operation run db p db p (some { run with stage := stage })
        [.broadcast (.output run.exec stream content)]
  | record (vars : LoopVars) (finishedAt : DateTime) (db' : Database)
      (hstage : run.stage = .recording vars)
      (hdb : db' = updateRun texts (finishedExec run.exec vars finishedAt) db ∨ db' = db) :
      Operation run db p db' p
        (some { run with exec := finishedExec run.exec vars finishedAt, stage := .purging }) []
  | spawnPurge (hstage : run.stage = .purging) :
      Operation run db p db
        { p with purges := ⟨run.task.id, run.task.executionPolicy.logRetention⟩ :: p.purges }
        (some { run with stage := .finishing }) []
  | finish (hstage : run.stage = .finishing) :
      Operation run db p db p (some { run with stage := .removing })
        [.broadcast (.finished run.exec run.task)]
  | remove (hstage : run.stage = .removing) :
      Operation run db p db { p with activeExecutions := p.activeExecutions.erase run.exec.id }
        (some { run with stage := .releasing }) []
  | release (hstage : run.stage = .releasing) : Operation run db p db p none []

theorem afterOutputs_spec (res : RunResult) (rest : List Action) (vars : LoopVars) (actions : ℕ) :
    (afterOutputs res rest vars).acts = true ∧
      (afterOutputs res rest vars).remaining actions ≤ 6 * rest.length + 6 := by
  unfold afterOutputs
  split_ifs
  · exact ⟨rfl, by show 5 ≤ _; omega⟩
  · exact ⟨rfl, Nat.le_refl _⟩

theorem afterStdout_spec (res : RunResult) (rest : List Action) (vars : LoopVars) (actions : ℕ) :
    (afterStdout res rest vars).acts = true ∧
      (afterStdout res rest vars).remaining actions ≤ 6 * rest.length + 8 := by
  unfold afterStdout
  split_ifs
  · exact ⟨rfl, Nat.le_refl _⟩
  · have hspec := afterOutputs_spec res rest vars actions
    exact ⟨hspec.1, by omega⟩

theorem afterAction_spec (res : Except String RunResult) (rest : List Action) (vars : LoopVars)
    (actions : ℕ) :
    (afterAction res rest vars).acts = true ∧
      (afterAction res rest vars).remaining actions ≤ 6 * rest.length + 10 := by
  unfold afterAction
  cases res with
  | error e => exact ⟨rfl, by show 5 ≤ _; omega⟩
  | ok res =>
    dsimp only
    split_ifs
    · exact ⟨rfl, Nat.le_refl _⟩
    · have hspec := afterStdout_spec res rest vars actions
      exact ⟨hspec.1, by omega⟩

theorem afterSending_spec (stream : OutputStream) (res : RunResult) (rest : List Action)
    (vars : LoopVars) (actions : ℕ) :
    (afterSending stream res rest vars).acts = true ∧
      (afterSending stream res rest vars).remaining actions <
        (Stage.sending stream res rest vars).remaining actions := by
  cases stream with
  | stdout =>
    have hspec := afterStdout_spec res rest vars actions
    refine ⟨hspec.1, ?_⟩
    show (afterStdout res rest vars).remaining actions < 6 * rest.length + 9
    omega
  | stderr =>
    have hspec := afterOutputs_spec res rest vars actions
    refine ⟨hspec.1, ?_⟩
    show (afterOutputs res rest vars).remaining actions < 6 * rest.length + 7
    omega

variable {texts platform} {run : TaskRun} {db db' : Database} {p p' : AgentProcess}
  {next : Option TaskRun} {o : List RunEvent}

/-- A turn of the loop stays in the loop or ends it, and brings the run nearer to its end. -/
theorem Stage.LoopTurn.spec {task : Task} {isCancelled : Bool} {i : RunInputs}
    {stage stage' : Stage} (h : stage.LoopTurn platform task isCancelled i stage') (actions : ℕ) :
    stage'.acts = true ∧ stage'.remaining actions < stage.remaining actions := by
  cases h with
  | ended vars =>
    refine ⟨rfl, ?_⟩
    show 5 < 6 * 0 + 6
    omega
  | skipped action rest vars hen =>
    refine ⟨rfl, ?_⟩
    show 6 * rest.length + 6 < 6 * (rest.length + 1) + 6
    omega
  | refused action rest vars result hen hbegin =>
    have hspec := afterAction_spec result rest vars actions
    refine ⟨hspec.1, ?_⟩
    show (afterAction result rest vars).remaining actions < 6 * (rest.length + 1) + 6
    omega
  | begun action rest vars hen hbegin =>
    refine ⟨rfl, ?_⟩
    show 6 * rest.length + 11 < 6 * (rest.length + 1) + 6
    omega
  | awaited action rest vars =>
    have hspec := afterAction_spec (awaitAction platform action.kind
      task.executionPolicy.timeoutSecs i.waited i.pipes) rest vars actions
    refine ⟨hspec.1, ?_⟩
    show _ < 6 * rest.length + 11
    omega
  | appended stream res rest vars =>
    refine ⟨rfl, ?_⟩
    cases stream with
    | stdout =>
      show 6 * rest.length + 9 < 6 * rest.length + 10
      omega
    | stderr =>
      show 6 * rest.length + 7 < 6 * rest.length + 8
      omega
  | sent stream res rest vars => exact afterSending_spec stream res rest vars actions

/-- Between `execution.started` and `update_run`, an operation is a turn of the loop. -/
theorem operate_loop {i : RunInputs}
    (h : run.operate texts platform db p i = some (db', p', next, o))
    (hacts : run.stage.acts = true) : (∃ vars, run.stage = .recording vars) ∨
      ∃ stage, next = some { run with stage := stage } ∧
        run.stage.LoopTurn platform run.task (p.isCancelled run.exec.id) i stage ∧ p' = p ∧
        (o = [] ∧ db'.runStatus = db.runStatus ∨
          ∃ stream content, o = [.broadcast (.output run.exec stream content)] ∧ db' = db) := by
  unfold TaskRun.operate at h
  cases hstage : run.stage with
  | creating | registering | starting | purging | finishing | removing | releasing =>
    rw [hstage] at hacts
    cases hacts
  | recording vars => exact .inl ⟨vars, rfl⟩
  | acting rest vars =>
    rw [hstage] at h
    right
    cases rest with
    | nil =>
      cases h
      exact ⟨_, rfl, .ended vars, rfl, .inl ⟨rfl, rfl⟩⟩
    | cons action rest =>
      dsimp only at h
      split_ifs at h with hen
      · split at h
        · rename_i result hbegin
          cases h
          exact ⟨_, rfl, .refused action rest vars result hen hbegin, rfl, .inl ⟨rfl, rfl⟩⟩
        · rename_i hbegin
          cases h
          exact ⟨_, rfl, .begun action rest vars hen hbegin, rfl, .inl ⟨rfl, rfl⟩⟩
      · cases h
        have hskipped : action.enabled = false := Bool.eq_false_of_not_eq_true hen
        exact ⟨_, rfl, .skipped action rest vars hskipped, rfl, .inl ⟨rfl, rfl⟩⟩
  | waiting action rest vars =>
    rw [hstage] at h
    dsimp only at h
    split_ifs at h
    cases h
    exact .inr ⟨_, rfl, .awaited action rest vars, rfl, .inl ⟨rfl, rfl⟩⟩
  | appending stream res rest vars =>
    rw [hstage] at h
    cases h
    refine .inr ⟨_, rfl, .appended stream res rest vars, rfl, .inl ⟨rfl, ?_⟩⟩
    split_ifs
    · cases happend : appendOutput texts run.exec.id stream.name (outputText res stream) i.now
        db with
      | none => rfl
      | some db₁ => exact runStatus_append happend
    · rfl
  | sending stream res rest vars =>
    rw [hstage] at h
    cases h
    exact .inr ⟨_, rfl, .sent stream res rest vars, rfl, .inr ⟨stream, _, rfl, rfl⟩⟩

theorem operate_spec {i : RunInputs}
    (h : run.operate texts platform db p i = some (db', p', next, o)) :
    run.Operation texts db p db' p' next o := by
  cases hacts : run.stage.acts with
  | true =>
    rcases operate_loop h hacts with
      ⟨vars, hstage⟩ | ⟨stage, rfl, hturn, rfl, ⟨rfl, hdb⟩ | ⟨stream, content, rfl, rfl⟩⟩
    · rw [TaskRun.operate, hstage] at h
      cases h
      refine .record vars i.now _ hstage ?_
      split_ifs
      · exact .inl rfl
      · exact .inr rfl
    · obtain ⟨hto, hless⟩ := hturn.spec run.task.actions.length
      exact .act db' stage hacts hto hless hdb
    · obtain ⟨hto, hless⟩ := hturn.spec run.task.actions.length
      exact .send stream content stage hacts hto hless
  | false =>
    unfold TaskRun.operate at h
    cases hstage : run.stage with
    | acting | waiting | appending | sending | recording =>
      rw [hstage] at hacts
      cases hacts
    | creating =>
      rw [hstage] at h
      dsimp only at h
      split at h
      · rename_i db₁ hcreate
        cases h
        split_ifs at hcreate
        exact .create db' hstage hcreate
      · cases h
        exact .refuse hstage
    | registering =>
      rw [hstage] at h
      cases h
      exact .register hstage
    | starting =>
      rw [hstage] at h
      cases h
      exact .start hstage
    | purging =>
      rw [hstage] at h
      cases h
      exact .spawnPurge hstage
    | finishing =>
      rw [hstage] at h
      cases h
      exact .finish hstage
    | removing =>
      rw [hstage] at h
      cases h
      exact .remove hstage
    | releasing =>
      rw [hstage] at h
      cases h
      exact .release hstage

/-- An operation from one stage of the loop to another is a turn of it. -/
theorem operate_loopTurn {i : RunInputs} {stage : Stage}
    (h : run.operate texts platform db p i =
      some (db', p', some { run with stage := stage }, o))
    (hfrom : run.stage.acts = true) (hto : stage.acts = true) :
    run.stage.LoopTurn platform run.task (p.isCancelled run.exec.id) i stage := by
  rcases operate_loop h hfrom with ⟨vars, hstage⟩ | ⟨stage', heq, hturn, -⟩
  · rw [TaskRun.operate, hstage] at h
    simp only [Option.some.injEq, Prod.mk.injEq, TaskRun.mk.injEq] at h
    obtain ⟨-, -, ⟨-, -, -, rfl⟩, -⟩ := h
    cases hto
  · cases heq
    exact hturn

/-! ## Progress -/

/-- Each operation brings a run nearer to its end. -/
theorem operate_remaining {run' : TaskRun} (h : run.Operation texts db p db' p' (some run') o) :
    run'.remaining < run.remaining := by
  cases h with
  | act db' stage hfrom hto hless hdb => exact hless
  | send stream content stage hfrom hto hless => exact hless
  | create db' hstage hcreate | refuse hstage | register hstage | start hstage
  | record vars finishedAt db' hstage hdb | spawnPurge hstage | finish hstage | remove hstage =>
    unfold TaskRun.remaining
    rw [hstage]
    dsimp only [Stage.remaining]
    omega

/-- A run can take its next operation as soon as its process exits. -/
theorem operate_isSome (run : TaskRun) (db : Database) (p : AgentProcess) {i : RunInputs}
    (hwaited : i.waited ≠ .cancelled) : (run.operate texts platform db p i).isSome := by
  unfold TaskRun.operate
  split
  · split <;> rfl
  · rfl
  · rfl
  · rfl
  · split_ifs
    · split <;> rfl
    · rfl
  · rw [if_neg fun hcancelled => hwaited hcancelled.1]
    rfl
  · rfl
  · rfl
  · rfl
  · rfl
  · rfl
  · rfl
  · rfl

/-! ## What other runs see -/

/-- An operation leaves the other runs and their entries in `active_executions` alone, and
    all its events are its own. -/
structure TaskRun.Frame (run : TaskRun) (p p' : AgentProcess) (next : Option TaskRun)
    (o : List RunEvent) : Prop where
  runs : p'.runs = p.runs
  active : ∀ id, id ≠ run.exec.id → p'.activeExecutions.lookup id = p.activeExecutions.lookup id
  events : ∀ e ∈ o, e.id = run.exec.id
  next : ∀ run', next = some run' → run'.exec.id = run.exec.id ∧
    run'.source = run.source ∧ run'.task = run.task

theorem operation_frame (h : run.Operation texts db p db' p' next o) : run.Frame p p' next o := by
  cases h with
  | register hstage =>
    refine ⟨rfl, fun id hid => AList.lookup_insert_ne hid, by simp, ?_⟩
    rintro run' ⟨⟩
    exact ⟨rfl, rfl, rfl⟩
  | remove hstage =>
    refine ⟨rfl, fun id hid => AList.lookup_erase_ne hid, by simp, ?_⟩
    rintro run' ⟨⟩
    exact ⟨rfl, rfl, rfl⟩
  | release hstage => exact ⟨rfl, fun _ _ => rfl, by simp, by simp⟩
  | create db' hstage hcreate | refuse hstage | start hstage | act db' stage hfrom hto hless hdb
  | send stream content stage hfrom hto hless | record vars finishedAt db' hstage hdb
  | spawnPurge hstage | finish hstage =>
    refine ⟨rfl, fun _ _ => rfl, ?_, ?_⟩
    · first
      | exact List.forall_mem_singleton.mpr rfl
      | simp
    · rintro run' ⟨⟩
      exact ⟨rfl, rfl, rfl⟩

/-! ## The phases of `executions` -/

def Stage.phase : Stage → Phase
  | .creating => .admitted
  | .releasing => .ended
  | .registering | .starting | .acting _ _ | .waiting _ _ _ | .appending _ _ _ _ | .sending _ _ _ _
  | .recording _ | .purging | .finishing | .removing => .running

/-- A run as `executions` has it. -/
def TaskRun.job (run : TaskRun) : Job :=
  ⟨run.source, run.task.id, run.task.executionPolicy.concurrencyPolicy, run.stage.phase⟩

theorem phase_of_acts {stage : Stage} (h : stage.acts = true) : stage.phase = .running := by
  cases stage <;> first | rfl | cases h

/-- In `executions`, an operation of a run is no step or the next one of its job; the last
    operation is `release_slot`. -/
theorem operation_phase (h : run.Operation texts db p db' p' next o) (m : ExecutionManager) :
    match next with
    | some run' => run'.job = run.job ∨ ∃ created, run.job.operate m created = (m, some run'.job)
    | none => run.job.phase = .ended := by
  cases h with
  | create db' hstage hcreate =>
    right
    refine ⟨true, ?_⟩
    unfold Job.operate TaskRun.job
    rw [hstage]
    rfl
  | refuse hstage =>
    right
    refine ⟨false, ?_⟩
    unfold Job.operate TaskRun.job
    rw [hstage]
    rfl
  | act db' stage hfrom hto hless hdb =>
    left
    unfold TaskRun.job
    rw [phase_of_acts hfrom]
    show Job.mk _ _ _ stage.phase = _
    rw [phase_of_acts hto]
  | send stream content stage hfrom hto hless =>
    left
    unfold TaskRun.job
    rw [phase_of_acts hfrom]
    show Job.mk _ _ _ stage.phase = _
    rw [phase_of_acts hto]
  | remove hstage =>
    right
    refine ⟨true, ?_⟩
    unfold Job.operate TaskRun.job
    rw [hstage]
    rfl
  | release hstage =>
    show run.stage.phase = .ended
    rw [hstage]
    rfl
  | register hstage | start hstage | record vars finishedAt db' hstage hdb | spawnPurge hstage
  | finish hstage =>
    left
    unfold TaskRun.job
    rw [hstage]
    rfl

end EasyJob.Agent
