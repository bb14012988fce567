import EasyJob.Executor.Capture

/-!
# Running an action

Model of `ProcessRunner::run_action` (`crates/executor/src/runner.rs` lines
29–157). It looks at the cancel token, starts the process, and waits for the
first of a cancellation, the timeout and the exit; what happens outside is an
argument.

* `RunResult`: the status of a result is one that a run keeps.
* `runAction_succeeded_iff`: when an action succeeds.
-/

namespace EasyJob.Executor

open EasyJob.Domain

/-! ## Results -/

/-- A status that a run keeps. -/
def isTerminal : ExecutionStatus → Bool
  | .Succeeded | .Failed | .TimedOut | .Cancelled | .Interrupted => true
  | .Queued | .Running | .Skipped => false

structure RunResult where
  status : ExecutionStatus
  exitCode : Option ℤ
  stdout : String
  stderr : String
  errorMessage : Option String
  terminal : isTerminal status = true
  deriving DecidableEq, Repr

/-- `Error::Process(e).to_string()`. -/
def processError (e : String) : String := "Process execution error: " ++ e

/-- `format!("{:?}", code)`. -/
def debugCode : Option ℤ → String
  | some code => "Some(" ++ toString code ++ ")"
  | none => "None"

def cancelledResult (stdout stderr : String) : RunResult where
  status := .Cancelled
  exitCode := none
  stdout := stdout
  stderr := stderr
  errorMessage := some "Cancelled by user"
  terminal := rfl

def timedOutResult (timeoutSecs : Option ℕ) (stdout stderr : String) : RunResult where
  status := .TimedOut
  exitCode := none
  stdout := stdout
  stderr := stderr
  errorMessage := some ("Timed out after " ++ toString (timeoutSecs.getD 86400) ++ " seconds")
  terminal := rfl

def exitedResult (code : Option ℤ) (stdout stderr : String) : RunResult where
  status := if code = some 0 then .Succeeded else .Failed
  exitCode := code
  stdout := stdout
  stderr := stderr
  errorMessage := if code = some 0 then none else some ("Exited with code " ++ debugCode code)
  terminal := by split_ifs <;> rfl

/-! ## The two halves of `run_action` -/

/-- The encoding of lines 48–52. -/
def outputEncoding : ActionKind → Option ScriptEncoding
  | .ExecuteCmd _ encoding => encoding
  | .ExecutePowerShell _ _ encoding => encoding
  | .ExecuteProgram _ _ | .ExecuteShell _ => none

/-- How the wait for a process ends. -/
inductive Waited
  /-- `cancel.cancelled()` is taken first. -/
  | cancelled
  | timedOut
  /-- `child.wait()` fails. -/
  | failed (e : String)
  | exited (code : Option ℤ)
  deriving DecidableEq, Repr

/-- What was read from the two pipes until they were collected. -/
structure Pipes where
  stdout : List (List UInt8)
  stderr : List (List UInt8)

/-- Lines 36–90: the result, if it is there before the wait. -/
def beginAction (isCancelled : Bool) (spawned : Except String Unit) :
    Option (Except String RunResult) :=
  if isCancelled then some (.ok (cancelledResult "" ""))
  else
    match spawned with
    | .error e => some (.error (processError e))
    | .ok () => none

variable (platform : Platform)

/-- `collect_pipe_output`. -/
def collectPipeOutput (encoding : Option ScriptEncoding) (reads : List (List UInt8)) : String :=
  decodeOutput platform (capture reads).buf encoding

/-- Lines 92–155. -/
def awaitAction (kind : ActionKind) (timeoutSecs : Option ℕ) (waited : Waited) (pipes : Pipes) :
    Except String RunResult :=
  let stdout := collectPipeOutput platform (outputEncoding kind) pipes.stdout
  let stderr := collectPipeOutput platform (outputEncoding kind) pipes.stderr
  match waited with
  | .cancelled => .ok (cancelledResult stdout stderr)
  | .timedOut => .ok (timedOutResult timeoutSecs stdout stderr)
  | .failed e => .error (processError e)
  | .exited code => .ok (exitedResult code stdout stderr)

/-- Model of `run_action`. -/
def runAction (kind : ActionKind) (timeoutSecs : Option ℕ) (isCancelled : Bool)
    (spawned : Except String Unit) (waited : Waited) (pipes : Pipes) : Except String RunResult :=
  (beginAction isCancelled spawned).getD (awaitAction platform kind timeoutSecs waited pipes)

/-! ## When an action succeeds -/

variable {platform}

/-- An action succeeds exactly when its process was started, was neither cancelled nor
    too slow, and exits with code 0. -/
theorem runAction_succeeded_iff {kind : ActionKind} {timeoutSecs : Option ℕ} {isCancelled : Bool}
    {spawned : Except String Unit} {waited : Waited} {pipes : Pipes} :
    (∃ r, runAction platform kind timeoutSecs isCancelled spawned waited pipes = .ok r ∧
      r.status = .Succeeded) ↔
    isCancelled = false ∧ spawned = .ok () ∧ waited = .exited (some 0) := by
  unfold runAction beginAction
  cases isCancelled with
  | true => simp [cancelledResult]
  | false =>
    cases spawned with
    | error e => simp
    | ok =>
      cases waited with
      | cancelled => simp [awaitAction, cancelledResult]
      | timedOut => simp [awaitAction, timedOutResult]
      | failed e => simp [awaitAction]
      | exited code => simp [awaitAction, exitedResult]

end EasyJob.Executor
