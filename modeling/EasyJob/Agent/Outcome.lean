import EasyJob.Agent.LifecycleRuns

/-!
# The outcome of an execution

The status, exit code and error message of an execution after its action loop, for
every list of actions and every sequence of results of `run_action`, on both
paths, whatever happens beside it.

* `Stage.Holds`: what the loop has done so far, by its stage; `operate_holds` is
  the step and `takes_holds` the run.
* `execution_outcome_iff`: the outcome is that of the first action that does not
  succeed, except for the exit code after one that could not be started.
-/

namespace EasyJob.Agent

open EasyJob.Chrono EasyJob.Domain EasyJob.Executor EasyJob.Persistence.Sqlite

variable {texts : Texts} {platform : Platform}

/-! ## Results of `run_action` -/

/-- The status that the loop takes from a result (lines 329 and 336). -/
def callStatus : Except String RunResult → ExecutionStatus
  | .ok res => res.status
  | .error _ => .Failed

/-- Exit code 0 is for success, a message is for anything else. -/
structure Coherent (res : RunResult) : Prop where
  exitCode : res.exitCode = some 0 ↔ res.status = .Succeeded
  message : res.errorMessage.isSome = true ↔ res.status ≠ .Succeeded

theorem beginAction_coherent {isCancelled : Bool} {spawned : Except String Unit} {res : RunResult}
    (h : beginAction isCancelled spawned = some (.ok res)) : Coherent res := by
  unfold beginAction at h
  split_ifs at h
  · cases h
    exact ⟨by simp [cancelledResult], by simp [cancelledResult]⟩
  · split at h <;> cases h

theorem awaitAction_coherent {kind : ActionKind} {timeoutSecs : Option ℕ} {waited : Waited}
    {pipes : Pipes} {res : RunResult}
    (h : awaitAction platform kind timeoutSecs waited pipes = .ok res) :
    Coherent res := by
  unfold awaitAction at h
  cases waited with
  | cancelled =>
    cases h
    exact ⟨by simp [cancelledResult], by simp [cancelledResult]⟩
  | timedOut =>
    cases h
    exact ⟨by simp [timedOutResult], by simp [timedOutResult]⟩
  | failed e => cases h
  | exited code =>
    cases h
    by_cases hcode : code = some 0
    · exact ⟨by simp [exitedResult, hcode], by simp [exitedResult, hcode]⟩
    · exact ⟨by simp [exitedResult, hcode], by simp [exitedResult, hcode]⟩

/-! ## Operations in a row -/

/-- An action with the result of its `run_action`. -/
abbrev Call := Action × Except String RunResult

/-- The call of `run_action` that returns in the next operation, if one does. -/
def TaskRun.called (platform : Platform) (run : TaskRun) (p : AgentProcess) (i : RunInputs) :
    List Call :=
  match run.stage with
  | .acting (action :: _) _ =>
    if action.enabled then
      ((beginAction (p.isCancelled run.exec.id) i.spawned).map fun res => (action, res)).toList
    else []
  | .waiting action _ _ =>
    [(action, awaitAction platform action.kind run.task.executionPolicy.timeoutSecs i.waited
      i.pipes)]
  | _ => []

/-- The run takes operations, with these calls of `run_action`. Between two of them anything
    may happen to the database and to what the runs share. -/
inductive TaskRun.Takes (texts : Texts) (platform : Platform) (start : TaskRun) :
    List Call → TaskRun → Prop
  | refl : Takes texts platform start [] start
  | step {calls : List Call} {run run' : TaskRun} {db db' : Database} {p p' : AgentProcess}
      {i : RunInputs} {o : List RunEvent} (h : Takes texts platform start calls run)
      (hop : run.operate texts platform db p i = some (db', p', some run', o)) :
      Takes texts platform start (calls ++ run.called platform p i) run'

/-- A run as one of the two paths begins it. -/
def TaskRun.Begins (run : TaskRun) : Prop :=
  (∃ task id triggerId scheduledAt newAt startedAt,
    run = .dispatched task id triggerId scheduledAt newAt startedAt) ∨
  ∃ task id scheduledAt newAt startedAt, run = .triggeredNow task id scheduledAt newAt startedAt

/-! ## What the loop has done -/

/-- The loop has come to `rest`, and all calls so far succeeded. -/
structure SoFar (actions rest : List Action) (calls : List Call) : Prop where
  done : ∃ before, actions = before ++ rest ∧ calls.map Prod.fst = before.filter (·.enabled)
  succeeded : ∀ call ∈ calls, callStatus call.2 = .Succeeded

/-- The loop has ended with this status, exit code and message. -/
inductive Ended (actions : List Action) :
    List Call → ExecutionStatus → Option ℤ → Option String → Prop
  | all {calls : List Call} (h : SoFar actions [] calls) :
      Ended actions calls .Succeeded (some 0) none
  | failed {calls : List Call} {action : Action} {rest : List Action} {res : RunResult}
      (h : SoFar actions (action :: rest) calls) (hen : action.enabled = true)
      (hres : Coherent res) (hstatus : res.status ≠ .Succeeded) :
      Ended actions (calls ++ [(action, .ok res)]) res.status res.exitCode res.errorMessage
  | error {calls : List Call} {action : Action} {rest : List Action} (e : String)
      (h : SoFar actions (action :: rest) calls) (hen : action.enabled = true) :
      Ended actions (calls ++ [(action, .error e)]) .Failed (some 0) (some e)

/-- The last call returned `res`, and `rest` is what is left. -/
def Returned (actions : List Action) (calls : List Call) (res : RunResult) (rest : List Action) :
    Prop :=
  ∃ action before, calls = before ++ [(action, .ok res)] ∧ action.enabled = true ∧
    SoFar actions (action :: rest) before ∧ Coherent res

/-- No call has ended the loop: its variables are as it began. -/
structure LoopVars.Fresh (vars : LoopVars) : Prop where
  finalStatus : vars.finalStatus = .Succeeded
  exitCode : vars.exitCode = some 0
  errorMessage : vars.errorMessage = none

theorem LoopVars.fresh_start : ({} : LoopVars).Fresh := ⟨rfl, rfl, rfl⟩

theorem LoopVars.Fresh.eq_start {vars : LoopVars} (h : vars.Fresh) : vars = {} := by
  obtain ⟨finalStatus, exitCode, errorMessage, terminal⟩ := vars
  obtain ⟨rfl, rfl, rfl⟩ := h
  rfl

/-- What the calls so far say, by the stage of the run. -/
def Stage.Holds (actions : List Action) (calls : List Call) (exec : Execution) : Stage → Prop
  | .creating | .registering | .starting => calls = []
  | .acting rest vars => SoFar actions rest calls ∧ vars.Fresh
  | .waiting action rest vars =>
    action.enabled = true ∧ SoFar actions (action :: rest) calls ∧ vars.Fresh
  | .appending _ res rest vars | .sending _ res rest vars =>
    Returned actions calls res rest ∧ vars.Fresh
  | .recording vars => Ended actions calls vars.finalStatus vars.exitCode vars.errorMessage
  | .purging | .finishing => Ended actions calls exec.status exec.exitCode exec.errorMessage
  | .removing | .releasing => True

theorem SoFar.start (actions : List Action) : SoFar actions actions [] :=
  ⟨⟨[], rfl, rfl⟩, by simp⟩

theorem SoFar.skip {actions rest : List Action} {action : Action} {calls : List Call}
    (h : SoFar actions (action :: rest) calls) (hen : action.enabled = false) :
    SoFar actions rest calls := by
  obtain ⟨⟨before, hactions, hcalls⟩, hsucceeded⟩ := h
  refine ⟨⟨before ++ [action], by simpa using hactions, ?_⟩, hsucceeded⟩
  rw [hcalls, List.filter_append]
  simp [hen]

theorem SoFar.call {actions rest : List Action} {action : Action} {calls : List Call}
    {res : Except String RunResult} (h : SoFar actions (action :: rest) calls)
    (hen : action.enabled = true) (hres : callStatus res = .Succeeded) :
    SoFar actions rest (calls ++ [(action, res)]) := by
  obtain ⟨⟨before, hactions, hcalls⟩, hsucceeded⟩ := h
  refine ⟨⟨before ++ [action], by simpa using hactions, ?_⟩, ?_⟩
  · rw [List.map_append, hcalls, List.filter_append]
    simp [hen]
  · intro call hcall
    rcases List.mem_append.mp hcall with hcall | hcall
    · exact hsucceeded call hcall
    · rw [List.mem_singleton.mp hcall]
      exact hres

section Holds

variable {actions rest : List Action} {calls : List Call} {exec : Execution} {res : RunResult}

theorem holds_afterOutputs (h : Returned actions calls res rest) :
    (afterOutputs res rest {}).Holds actions calls exec := by
  obtain ⟨action, before, rfl, hen, hsofar, hres⟩ := h
  unfold afterOutputs
  split_ifs with hstatus
  · exact .failed hsofar hen hres hstatus
  · have hstatus : res.status = .Succeeded := not_not.mp hstatus
    exact ⟨hsofar.call hen hstatus, ⟨rfl, hres.exitCode.mpr hstatus, rfl⟩⟩

theorem holds_afterStdout (h : Returned actions calls res rest) :
    (afterStdout res rest {}).Holds actions calls exec := by
  unfold afterStdout
  split_ifs
  · exact ⟨h, LoopVars.fresh_start⟩
  · exact holds_afterOutputs h

/-- After a call, the loop goes on, or has ended. -/
theorem holds_afterAction {action : Action} {result : Except String RunResult}
    (h : SoFar actions (action :: rest) calls) (hen : action.enabled = true)
    (hresult : ∀ res, result = .ok res → Coherent res) :
    (afterAction result rest {}).Holds actions (calls ++ [(action, result)]) exec := by
  unfold afterAction
  cases result with
  | error e => exact .error e h hen
  | ok res =>
    have hreturned : Returned actions (calls ++ [(action, .ok res)]) res rest :=
      ⟨action, calls, rfl, hen, h, hresult res rfl⟩
    dsimp only
    split_ifs
    · exact ⟨hreturned, LoopVars.fresh_start⟩
    · exact holds_afterStdout hreturned

end Holds

/-- A turn of the loop keeps what the calls say. -/
theorem loopTurn_holds {run : TaskRun} {p : AgentProcess} {i : RunInputs} {calls : List Call}
    {stage : Stage}
    (hturn : run.stage.LoopTurn platform run.task (p.isCancelled run.exec.id) i stage)
    (h : run.stage.Holds run.task.actions calls run.exec) :
    stage.Holds run.task.actions (calls ++ run.called platform p i) run.exec := by
  unfold TaskRun.called
  generalize run.stage = before at hturn h ⊢
  cases hturn with
  | ended vars =>
    obtain ⟨hsofar, hfresh⟩ := h
    obtain rfl := hfresh.eq_start
    rw [List.append_nil]
    exact .all hsofar
  | skipped action rest vars hen =>
    obtain ⟨hsofar, hfresh⟩ := h
    dsimp only
    rw [hen, if_neg Bool.false_ne_true, List.append_nil]
    exact ⟨hsofar.skip hen, hfresh⟩
  | refused action rest vars result hen hbegin =>
    obtain ⟨hsofar, hfresh⟩ := h
    obtain rfl := hfresh.eq_start
    dsimp only
    rw [if_pos hen, hbegin]
    exact holds_afterAction hsofar hen fun res hres => beginAction_coherent (hres ▸ hbegin)
  | begun action rest vars hen hbegin =>
    obtain ⟨hsofar, hfresh⟩ := h
    dsimp only
    rw [if_pos hen, hbegin, Option.map_none, Option.toList_none, List.append_nil]
    exact ⟨hen, hsofar, hfresh⟩
  | awaited action rest vars =>
    obtain ⟨hen, hsofar, hfresh⟩ := h
    obtain rfl := hfresh.eq_start
    exact holds_afterAction hsofar hen fun res hres => awaitAction_coherent hres
  | appended stream res rest vars =>
    rw [List.append_nil]
    exact h
  | sent stream res rest vars =>
    obtain ⟨hreturned, hfresh⟩ := h
    obtain rfl := hfresh.eq_start
    rw [List.append_nil]
    cases stream with
    | stdout => exact holds_afterStdout hreturned
    | stderr => exact holds_afterOutputs hreturned

/-- One operation keeps what the calls say. -/
theorem operate_holds {run run' : TaskRun} {db db' : Database} {p p' : AgentProcess} {i : RunInputs}
    {o : List RunEvent} {calls : List Call}
    (hop : run.operate texts platform db p i = some (db', p', some run', o))
    (h : run.stage.Holds run.task.actions calls run.exec) :
    run'.stage.Holds run.task.actions (calls ++ run.called platform p i) run'.exec := by
  cases operate_spec hop with
  | act db' stage hfrom hto hless hdb | send stream content stage hfrom hto hless =>
    exact loopTurn_holds (operate_loopTurn hop hfrom hto) h
  | create db' hstage hcreate | register hstage | spawnPurge hstage
  | record vars finishedAt db' hstage hdb =>
    rw [hstage] at h
    rw [TaskRun.called, hstage, List.append_nil]
    exact h
  | start hstage =>
    rw [hstage] at h
    rw [TaskRun.called, hstage, List.append_nil, show calls = [] from h]
    exact ⟨SoFar.start _, LoopVars.fresh_start⟩
  | refuse hstage | finish hstage | remove hstage => trivial

theorem takes_holds {start run : TaskRun} {calls : List Call} (hstart : start.Begins)
    (h : start.Takes texts platform calls run) :
    run.task = start.task ∧ run.stage.Holds start.task.actions calls run.exec := by
  induction h with
  | refl =>
    rcases hstart with ⟨_, _, _, _, _, _, rfl⟩ | ⟨_, _, _, _, _, rfl⟩ <;> exact ⟨rfl, rfl⟩
  | step h hop ih =>
    obtain ⟨htask, hholds⟩ := ih
    obtain ⟨-, -, htask'⟩ := (operation_frame (operate_spec hop)).next _ rfl
    refine ⟨htask'.trans htask, ?_⟩
    rw [← htask] at hholds ⊢
    exact operate_holds hop hholds

/-! ## The outcome -/

/-- What an execution with these calls is expected to record: the enabled actions were run up
    to the first that does not succeed, and status, message and exit code are those of the
    last one. -/
structure Outcome (actions : List Action) (calls : List Call) (exec : Execution) : Prop where
  inOrder : calls.map Prod.fst <+: actions.filter (·.enabled)
  untilFailure : ∀ call ∈ calls.dropLast, callStatus call.2 = .Succeeded
  complete : (∀ call ∈ calls, callStatus call.2 = .Succeeded) →
    calls.map Prod.fst = actions.filter (·.enabled)
  status : exec.status = (calls.getLast?.map fun call => callStatus call.2).getD .Succeeded
  message : exec.errorMessage.isSome = true ↔ exec.status ≠ .Succeeded
  exitCode : exec.exitCode = some 0 ↔ exec.status = .Succeeded

/-- The status, exit code and message that the calls lead to. -/
def verdict (calls : List Call) : ExecutionStatus × Option ℤ × Option String :=
  match calls.getLast? with
  | some (_, .error e) => (.Failed, some 0, some e)
  | some (_, .ok res) =>
    if res.status = .Succeeded then (.Succeeded, some 0, none)
    else (res.status, res.exitCode, res.errorMessage)
  | none => (.Succeeded, some 0, none)

theorem Ended.eq_verdict {actions : List Action} {calls : List Call} {status : ExecutionStatus}
    {exitCode : Option ℤ} {message : Option String}
    (h : Ended actions calls status exitCode message) :
    (status, exitCode, message) = verdict calls := by
  unfold verdict
  cases h with
  | all h =>
    cases hlast : calls.getLast? with
    | none => rfl
    | some call =>
      obtain ⟨action, result⟩ := call
      have hstatus := h.succeeded _ (List.mem_of_getLast? hlast)
      cases result with
      | error e => cases hstatus
      | ok res =>
        exact (if_pos hstatus).symm
  | failed h hen hres hstatus =>
    rw [List.getLast?_append, List.getLast?_singleton]
    dsimp only [Option.or]
    rw [if_neg hstatus]
  | error e h hen =>
    rw [List.getLast?_append, List.getLast?_singleton]
    rfl

theorem SoFar.inOrder {actions rest : List Action} {action : Action} {calls : List Call}
    {result : Except String RunResult} (h : SoFar actions (action :: rest) calls)
    (hen : action.enabled = true) :
    (calls ++ [(action, result)]).map Prod.fst <+: actions.filter (·.enabled) := by
  obtain ⟨before, rfl, hcalls⟩ := h.done
  refine ⟨rest.filter (·.enabled), ?_⟩
  rw [List.map_append, hcalls, List.filter_append]
  simp [hen]

/-- All of the expected outcome holds but for the exit code. -/
theorem Ended.outcome_iff {actions : List Action} {calls : List Call} {exec : Execution}
    (h : Ended actions calls exec.status exec.exitCode exec.errorMessage) :
    Outcome actions calls exec ↔ (exec.exitCode = some 0 ↔ exec.status = .Succeeded) := by
  refine ⟨Outcome.exitCode, fun hexit => ?_⟩
  generalize hst : exec.status = status, hcode : exec.exitCode = exitCode,
    hmessage : exec.errorMessage = message at h
  cases h with
  | all h =>
    obtain ⟨before, hactions, hcalls⟩ := h.done
    rw [List.append_nil] at hactions
    rw [← hactions] at hcalls
    refine ⟨hcalls ▸ List.prefix_rfl, fun call hcall => ?_, fun _ => hcalls, ?_, ?_, hexit⟩
    · exact h.succeeded call (List.dropLast_subset _ hcall)
    · rw [hst]
      cases hlast : calls.getLast? with
      | none => rfl
      | some call => exact (h.succeeded call (List.mem_of_getLast? hlast)).symm
    · simp [hst, hmessage]
  | @failed calls action rest res h hen hres hstatus =>
    refine ⟨h.inOrder hen, ?_, fun hall => ?_, ?_, ?_, hexit⟩
    · rw [List.dropLast_concat]
      exact h.succeeded
    · exact absurd (hall _ (List.mem_append_right _ (List.mem_singleton_self _))) hstatus
    · rw [hst, List.getLast?_append, List.getLast?_singleton]
      rfl
    · rw [hst, hmessage]
      exact hres.message
  | @error calls action rest e h hen =>
    refine ⟨h.inOrder hen, ?_, fun hall => ?_, ?_, ?_, hexit⟩
    · rw [List.dropLast_concat]
      exact h.succeeded
    · have hstatus := hall _ (List.mem_append_right _ (List.mem_singleton_self _))
      cases hstatus
    · rw [hst, List.getLast?_append, List.getLast?_singleton]
      rfl
    · simp [hst, hmessage]

/-- The exit code is as expected unless the last call is an error. -/
theorem Ended.exitCode_iff {actions : List Action} {calls : List Call} {status : ExecutionStatus}
    {exitCode : Option ℤ} {message : Option String}
    (h : Ended actions calls status exitCode message) :
    (exitCode = some 0 ↔ status = .Succeeded) ↔ ∀ call ∈ calls, ∃ res, call.2 = .ok res := by
  have hok : ∀ {calls : List Call}, (∀ call ∈ calls, callStatus call.2 = .Succeeded) →
      ∀ call ∈ calls, ∃ res, call.2 = .ok res := by
    intro calls hsucceeded call hcall
    have hstatus := hsucceeded call hcall
    cases hresult : call.2 with
    | ok res => exact ⟨res, rfl⟩
    | error e =>
      rw [hresult] at hstatus
      cases hstatus
  cases h with
  | all h => exact iff_of_true (by simp) (hok h.succeeded)
  | failed h hen hres hstatus =>
    refine iff_of_true hres.exitCode fun call hcall => ?_
    rcases List.mem_append.mp hcall with hcall | hcall
    · exact hok h.succeeded call hcall
    · exact ⟨_, by rw [List.mem_singleton.mp hcall]⟩
  | error e h hen =>
    refine iff_of_false (by simp) fun hall => ?_
    obtain ⟨res, hres⟩ := hall _ (List.mem_append_right _ (List.mem_singleton_self _))
    cases hres

/-- On both paths, for every list of actions and every sequence of results: when the loop is
    over and its outcome recorded, the outcome is the expected one iff no action failed to be
    started or waited for. Two executions with the same calls have the same outcome. -/
theorem execution_outcome_iff {start run : TaskRun} {calls : List Call} (hstart : start.Begins)
    (h : start.Takes texts platform calls run) (hstage : run.stage = .finishing) :
    (Outcome start.task.actions calls run.exec ↔ ∀ call ∈ calls, ∃ res, call.2 = .ok res) ∧
    (∀ start' run', TaskRun.Begins start' → start'.Takes texts platform calls run' →
      run'.stage = .finishing →
      (run'.exec.status, run'.exec.exitCode, run'.exec.errorMessage) =
        (run.exec.status, run.exec.exitCode, run.exec.errorMessage)) := by
  have hends : ∀ start' run', TaskRun.Begins start' → start'.Takes texts platform calls run' →
      run'.stage = .finishing → Ended start'.task.actions calls run'.exec.status
        run'.exec.exitCode run'.exec.errorMessage := by
    intro start' run' hstart' h' hstage'
    have hholds := (takes_holds hstart' h').2
    rwa [hstage'] at hholds
  have hended := hends start run hstart h hstage
  refine ⟨hended.outcome_iff.trans hended.exitCode_iff, fun start' run' hstart' h' hstage' => ?_⟩
  rw [(hends start' run' hstart' h' hstage').eq_verdict, hended.eq_verdict]

/-! ## Two executions -/

/-- The next `n` operations of a run, with the same inputs. -/
def TaskRun.take (run : TaskRun) (i : RunInputs) : ℕ → Option (List Call × TaskRun)
  | 0 => some ([], run)
  | n + 1 =>
    match run.take i n with
    | some (calls, run') =>
      match run'.operate twoActionsTexts .unix storedTask .new i with
      | some (_, _, some next, _) => some (calls ++ run'.called .unix .new i, next)
      | _ => none
    | none => none

theorem take_takes {start run : TaskRun} {i : RunInputs} {n : ℕ} {calls : List Call}
    (h : start.take i n = some (calls, run)) : start.Takes twoActionsTexts .unix calls run := by
  induction n generalizing run calls with
  | zero =>
    cases h
    exact .refl
  | succ n ih =>
    unfold TaskRun.take at h
    split at h
    · rename_i calls' run' hbefore
      split at h
      · rename_i db p next o hop
        cases h
        exact .step (ih hbefore) hop
      · cases h
    · cases h

def twoActionsRun : TaskRun := .dispatched twoActions ⟨1⟩ none 0 0 0

theorem twoActionsRun_begins : twoActionsRun.Begins := .inl ⟨_, _, _, _, _, _, rfl⟩

/-- The program of the first action is not there. -/
def missingInputs : RunInputs := ⟨true, 0, .error "No such file or directory", .timedOut, ⟨[], []⟩⟩

def Stage.isFinishing : Stage → Bool
  | .finishing => true
  | _ => false

theorem isFinishing_eq {stage : Stage} (h : stage.isFinishing = true) : stage = .finishing := by
  cases stage <;> first | rfl | cases h

/-- An execution of the two actions that gets to its end with these inputs. -/
theorem exists_takes {i : RunInputs} {n : ℕ} {f : List Call × TaskRun → Bool}
    (h : ((twoActionsRun.take i n).any fun x => x.2.stage.isFinishing && f x) = true) :
    ∃ calls run, twoActionsRun.Takes twoActionsTexts .unix calls run ∧ run.stage = .finishing ∧
      f (calls, run) = true := by
  obtain ⟨⟨calls, run⟩, htake, hrun⟩ := (Option.any_eq_true _ _).mp h
  obtain ⟨hstage, hf⟩ := Bool.and_eq_true_iff.mp hrun
  exact ⟨calls, run, take_takes htake, isFinishing_eq hstage, hf⟩

/-- An action that cannot be started leaves its execution `Failed` with the exit code 0 that
    the loop began with. -/
theorem failed_with_exit_code_zero : twoActionsRun.Begins ∧ ∃ calls run,
    twoActionsRun.Takes twoActionsTexts .unix calls run ∧ run.stage = .finishing ∧
      run.exec.status = .Failed ∧ run.exec.exitCode = some 0 ∧
      ¬Outcome twoActionsRun.task.actions calls run.exec := by
  have hfails : ((twoActionsRun.take missingInputs 6).any fun x => x.2.stage.isFinishing &&
      decide (x.2.exec.status = .Failed ∧ x.2.exec.exitCode = some 0)) = true := by
    decide +kernel
  obtain ⟨calls, run, htakes, hstage, hrun⟩ := exists_takes hfails
  obtain ⟨hstatus, hexit⟩ := of_decide_eq_true hrun
  refine ⟨twoActionsRun_begins, calls, run, htakes, hstage, hstatus, hexit, fun houtcome => ?_⟩
  have hsucceeded := houtcome.exitCode.mp hexit
  rw [hstatus] at hsucceeded
  cases hsucceeded

/-- Two actions that exit with code 0 have the expected outcome. -/
theorem execution_outcome_iff_twoActions : ∃ calls run,
    twoActionsRun.Takes twoActionsTexts .unix calls run ∧ run.stage = .finishing ∧
      Outcome twoActionsRun.task.actions calls run.exec := by
  have hsucceeds : ((twoActionsRun.take succeedingInputs 14).any fun x =>
      x.2.stage.isFinishing && x.1.all fun call => call.2.toBool) = true := by
    decide +kernel
  obtain ⟨calls, run, htakes, hstage, hcalls⟩ := exists_takes hsucceeds
  refine ⟨calls, run, htakes, hstage,
    (execution_outcome_iff twoActionsRun_begins htakes hstage).1.mpr fun call hcall => ?_⟩
  have hok := List.all_eq_true.mp hcalls call hcall
  cases hresult : call.2 with
  | ok res => exact ⟨res, rfl⟩
  | error e =>
    rw [hresult] at hok
    cases hok

end EasyJob.Agent
