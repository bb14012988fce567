import EasyJob.Agent.LifecycleRuns

/-!
# A confirmed cancel

`execution.cancel` succeeds as long as its execution is in `active_executions`,
and sets its token. The token is looked at when an action starts and while a
process is waited for; after the last action nothing looks at it.

* `TaskRun.isOpen`: the run has not got through all its actions.
* `operate_isOpen`: with a cancelled token, an open run stays so, unless the exit
  of its last process is taken before the cancel.
* `cancel_honoured`: a confirmed cancel of an open run keeps it from `Succeeded`,
  in every order of steps.
-/

namespace EasyJob.Agent

open EasyJob.Chrono EasyJob.Domain EasyJob.Executor EasyJob.Persistence.Sqlite Transition

variable {texts : Texts} {platform : Platform}

/-! ## Open runs -/

/-- The run is in `active_executions` and has not got through all its actions: one is running or
    left to be run, or it already failed. -/
def TaskRun.isOpen (run : TaskRun) : Bool :=
  match run.stage with
  | .creating | .registering | .releasing => false
  | .starting => run.task.actions.any (·.enabled)
  | .acting rest _ => rest.any (·.enabled)
  | .waiting _ _ _ => true
  | .appending _ res rest _ | .sending _ res rest _ =>
    res.status != .Succeeded || rest.any (·.enabled)
  | .recording vars => vars.finalStatus != .Succeeded
  | .purging | .finishing | .removing => run.exec.status != .Succeeded

/-- After the process it waits for, the run has another action to run. -/
def TaskRun.goesOn (run : TaskRun) : Bool :=
  match run.stage with
  | .waiting _ rest _ => rest.any (·.enabled)
  | _ => true

section Open

variable {run : TaskRun} {rest : List Action} {vars : LoopVars} {res : RunResult}

theorem isOpen_afterOutputs (h : (res.status != .Succeeded || rest.any (·.enabled)) = true) :
    { run with stage := afterOutputs res rest vars }.isOpen = true := by
  unfold afterOutputs
  split_ifs with hstatus
  · exact bne_iff_ne.mpr hstatus
  · have hsucceeded : (res.status != .Succeeded) = false := by simpa using hstatus
    rwa [hsucceeded, Bool.false_or] at h

theorem isOpen_afterStdout (h : (res.status != .Succeeded || rest.any (·.enabled)) = true) :
    { run with stage := afterStdout res rest vars }.isOpen = true := by
  unfold afterStdout
  split_ifs
  · exact h
  · exact isOpen_afterOutputs h

theorem isOpen_afterAction {result : Except String RunResult}
    (h : ∀ res, result = .ok res →
      (res.status != .Succeeded || rest.any (·.enabled)) = true) :
    { run with stage := afterAction result rest vars }.isOpen = true := by
  unfold afterAction
  cases result with
  | error e => rfl
  | ok res =>
    dsimp only
    split_ifs
    · exact h res rfl
    · exact isOpen_afterStdout (h res rfl)

end Open

/-- While its token is cancelled, a turn of the loop leaves an open run open. -/
theorem loopTurn_isOpen {run : TaskRun} {i : RunInputs} {stage : Stage}
    (hturn : run.stage.LoopTurn platform run.task true i stage) (hopen : run.isOpen = true)
    (hrace : i.waited = .exited (some 0) → run.goesOn = true) :
    { run with stage := stage }.isOpen = true := by
  unfold TaskRun.isOpen at hopen
  unfold TaskRun.goesOn at hrace
  generalize run.stage = before at hturn hopen hrace
  cases hturn with
  | ended vars => cases hopen
  | skipped action rest vars hen =>
    have hrest : (action.enabled || rest.any (·.enabled)) = true := hopen
    rwa [hen, Bool.false_or] at hrest
  | refused action rest vars result hen hbegin =>
    cases hbegin
    refine isOpen_afterAction fun res hres => ?_
    cases hres
    rfl
  | begun action rest vars hen hbegin => rfl
  | awaited action rest vars =>
    refine isOpen_afterAction fun res hres => ?_
    cases hwaited : i.waited with
    | cancelled | timedOut =>
      rw [hwaited] at hres
      cases hres
      rfl
    | failed e =>
      rw [hwaited] at hres
      cases hres
    | exited code =>
      rw [hwaited] at hres
      cases hres
      by_cases hcode : code = some 0
      · have hrest : rest.any (·.enabled) = true := hrace (by rw [hwaited, hcode])
        rw [hrest, Bool.or_true]
      · simp [exitedResult, hcode]
  | appended stream res rest vars => exact hopen
  | sent stream res rest vars =>
    cases stream with
    | stdout => exact isOpen_afterStdout hopen
    | stderr => exact isOpen_afterOutputs hopen

/-- While its token is cancelled, an operation of an open run leaves it open or takes it out of
    `active_executions`. -/
theorem operate_isOpen {run run' : TaskRun} {db db' : Database} {p p' : AgentProcess}
    {i : RunInputs} {o : List RunEvent}
    (hop : run.operate texts platform db p i = some (db', p', some run', o))
    (hopen : run.isOpen = true) (hcancelled : p.isCancelled run.exec.id = true)
    (hrace : i.waited = .exited (some 0) → run.goesOn = true) :
    run'.stage = .releasing ∨ run'.isOpen = true := by
  cases operate_spec hop with
  | act db' stage hfrom hto hless hdb | send stream content stage hfrom hto hless =>
    have hturn := operate_loopTurn hop hfrom hto
    rw [hcancelled] at hturn
    exact .inr (loopTurn_isOpen hturn hopen hrace)
  | create db' hstage hcreate | register hstage =>
    unfold TaskRun.isOpen at hopen
    rw [hstage] at hopen
    cases hopen
  | start hstage | record vars finishedAt db' hstage hdb | spawnPurge hstage | finish hstage =>
    unfold TaskRun.isOpen at hopen
    rw [hstage] at hopen
    exact .inr hopen
  | refuse hstage | remove hstage => exact .inl rfl

/-! ## What is reported of a run -/

/-- The stages between `update_run` and the removal from `active_executions`. -/
def Stage.isRecorded : Stage → Bool
  | .purging | .finishing | .removing => true
  | .creating | .registering | .starting | .acting _ _ | .waiting _ _ _ | .appending _ _ _ _
  | .sending _ _ _ _ | .recording _ | .releasing => false

/-- After `update_run`, the row of a run has its status, unless the statement failed or the row
    is gone; and its `execution.finished` has it. -/
structure TaskRun.Reported (run : TaskRun) (log : List RunEvent) (row : Option String) : Prop where
  row : run.stage.isRecorded = true →
    row = none ∨ row = some (statusText .Running) ∨ row = some (statusText run.exec.status)
  finished : run.stage = .removing → ∀ exec task, .broadcast (.finished exec task) ∈ log →
    exec.status = run.exec.status

theorem isRecorded_of_acts {stage : Stage} (h : stage.acts = true) : stage.isRecorded = false := by
  cases stage <;> first | rfl | cases h

theorem StartedLog.not_finished {id : ExecutionId} {log : List RunEvent} (h : StartedLog id log)
    (exec : Execution) (task : Task) : .broadcast (.finished exec task) ∉ log := by
  obtain ⟨exec', outputs, -, houtputs, rfl⟩ := h
  intro hmem
  rcases List.mem_cons.mp hmem with heq | hmem
  · cases heq
  · rcases List.mem_cons.mp hmem with heq | hmem
    · cases heq
    · cases houtputs _ hmem

/-- A run is reported anew only by its own operations. -/
theorem TaskRun.Reported.operation {run run' : TaskRun} {db db' : Database} {p p' : AgentProcess}
    {o log : List RunEvent} {active : Bool}
    (hlocal : run.Local log active (db.runStatus (ExecutionId.text run.exec.id)))
    (h : run.Reported log (db.runStatus (ExecutionId.text run.exec.id)))
    (hop : run.Operation texts db p db' p' (some run') o) :
    run'.Reported (log ++ o) (db'.runStatus (ExecutionId.text run.exec.id)) := by
  cases hop with
  | create db' hstage hcreate | refuse hstage | register hstage | start hstage =>
    exact ⟨nofun, nofun⟩
  | act db' stage hfrom hto hless hdb | send stream content stage hfrom hto hless =>
    have hno : stage.isRecorded = false := isRecorded_of_acts hto
    refine ⟨fun hrecorded => ?_, fun (hremoving : stage = .removing) => ?_⟩
    · rw [show stage.isRecorded = true from hrecorded] at hno
      cases hno
    · rw [hremoving] at hto
      cases hto
  | record vars finishedAt db' hstage hdb =>
    refine ⟨fun _ => ?_, nofun⟩
    have hrow := hlocal.row
    rw [hstage] at hrow
    rcases hdb with rfl | rfl
    · have hstatus : (updateRun texts (finishedExec run.exec vars finishedAt) db).runStatus
          (ExecutionId.text run.exec.id) =
            (db.runStatus (ExecutionId.text run.exec.id)).map fun _ =>
              statusText vars.finalStatus :=
        (runStatus_update _ _).trans (if_pos rfl)
      rcases hrow with hrow | hrow
      · rw [hstatus, hrow]
        exact .inl rfl
      · rw [hstatus, hrow]
        exact .inr (.inr rfl)
    · exact hrow.imp_right .inl
  | spawnPurge hstage =>
    rw [List.append_nil]
    exact ⟨fun _ => h.row (by rw [hstage]; rfl), nofun⟩
  | finish hstage =>
    refine ⟨fun _ => h.row (by rw [hstage]; rfl), fun _ exec task hmem => ?_⟩
    rcases List.mem_append.mp hmem with hmem | hmem
    · have hlog := hlocal.log
      rw [hstage] at hlog
      exact absurd hmem (StartedLog.not_finished hlog exec task)
    · cases List.mem_singleton.mp hmem
      rfl
  | remove hstage => exact ⟨nofun, nofun⟩

/-- What is reported of each execution, and that only runs are in `active_executions`. -/
structure Tracked (out : List RunEvent) (s : LifecycleState) : Prop where
  reported : ∀ id run, s.run id = some run →
    run.Reported (about id out) (s.status (ExecutionId.text id))
  listed : ∀ id, s.isActive id = true → ∃ run, s.run id = some run ∧ run.stage.isListed = true

/-- A run in `active_executions` stays a run until an operation of it takes it out. -/
theorem operation_isListed {run : TaskRun} {db db' : Database} {p p' : AgentProcess}
    {next : Option TaskRun} {o : List RunEvent} (hop : run.Operation texts db p db' p' next o)
    (h : (p.activeExecutions.lookup run.exec.id).isSome = true → run.stage.isListed = true)
    (hactive : (p'.activeExecutions.lookup run.exec.id).isSome = true) :
    ∃ run', next = some run' ∧ run'.stage.isListed = true := by
  cases hop with
  | create db' hstage hcreate | refuse hstage | release hstage =>
    have hlisted := h hactive
    rw [hstage] at hlisted
    cases hlisted
  | act db' stage hfrom hto hless hdb | send stream content stage hfrom hto hless =>
    exact ⟨_, rfl, isListed_of_acts hto⟩
  | register hstage | start hstage | record vars finishedAt db' hstage hdb | spawnPurge hstage
  | finish hstage => exact ⟨_, rfl, rfl⟩
  | remove hstage =>
    have hsome : (AList.lookup run.exec.id (p.activeExecutions.erase run.exec.id)).isSome = true :=
      hactive
    rw [AList.lookup_erase] at hsome
    cases hsome

section Tracked

variable {out o : List RunEvent} {s s' : LifecycleState} {a : LifecycleAction}

theorem Tracked.advance {p p' : AgentProcess} {id : ExecutionId} {run : TaskRun}
    {db' : Database} {next : Option TaskRun} (h : Tracked out s) (hs : Consistent out s)
    (hup : s.process = some p) (hrun : p.runs.lookup id = some run)
    (hop : run.Operation texts s.db p db' p' next o) :
    Tracked (out ++ o) { s with db := db', process := some (p'.putRun id next) } := by
  have hsrun : s.run id = some run := (run_eq_lookup hup id).trans hrun
  obtain ⟨hexec, hlocal⟩ := hs.running id run hsrun
  have hframe := operation_frame hop
  have hevents : ∀ e ∈ o, e.id = id := fun e he => (hframe.events e he).trans hexec
  refine ⟨fun id' run' hid' => ?_, fun id' hactive => ?_⟩
  · rw [run_advance hup hop] at hid'
    split_ifs at hid' with heq
    · subst heq hid'
      have hreported := h.reported id' run hsrun
      rw [about_append, about_eq_self hevents]
      rw [← hexec] at hreported hlocal ⊢
      exact TaskRun.Reported.operation hlocal hreported hop
    · -- another execution has another row
      have hne : ExecutionId.text id' ≠ ExecutionId.text run.exec.id := by
        rw [hexec]
        exact fun htext => heq (hs.distinct id' id run' run hid' hsrun htext)
      have hreported := h.reported id' run' hid'
      rw [about_append, about_eq_nil hevents heq, List.append_nil]
      show run'.Reported _ (db'.runStatus (ExecutionId.text id'))
      rw [operation_runStatus_other hop hne]
      exact hreported
  · rw [isActive_advance] at hactive
    rw [run_advance hup hop]
    split_ifs with heq
    · subst heq
      rw [← hexec] at hactive
      refine operation_isListed hop (fun hbefore => ?_) hactive
      rw [hexec, ← isActive_eq_lookup hup] at hbefore
      obtain ⟨run', hrun', hlisted⟩ := h.listed id' hbefore
      rw [hsrun] at hrun'
      cases hrun'
      exact hlisted
    · rw [hframe.active id' (hexec.symm ▸ heq), ← isActive_eq_lookup hup] at hactive
      exact h.listed id' hactive

theorem Tracked.step (h : Tracked out s) (hs : Consistent out s) (hfresh : FreshIds s a)
    (hst : s.Step texts a s' o) : Tracked (out ++ o) s' := by
  cases hst with
  | start hdown | crash p hup =>
    refine ⟨fun id run hid => ?_, fun id hid => ?_⟩ <;> cases hid
  | startFailed hdown =>
    rw [List.append_nil]
    exact h
  | begin_ a p run hup hid hstage hstatus =>
    rw [List.append_nil]
    refine ⟨fun id run' hid' => ?_, fun id hactive => ?_⟩
    · rw [run_beginRun hup] at hid'
      split_ifs at hid'
      · cases hid'
        refine ⟨?_, ?_⟩
        · rw [hstage]
          exact nofun
        · rw [hstage]
          exact nofun
      · exact h.reported id run' hid'
    · have hbefore : s.isActive id = true := (isActive_eq_lookup hup id).trans hactive
      obtain ⟨run', hrun', hlisted⟩ := h.listed id hbefore
      refine ⟨run', ?_, hlisted⟩
      rw [run_beginRun hup, if_neg, hrun']
      rintro rfl
      exact hfresh _ hid (hs.issued_run _ run' hrun')
  | advance id inputs p p' run db' next o hup hrun hop => exact h.advance hs hup hrun hop
  | quiet a p p' db' hup hruns hactive hdb =>
    rw [List.append_nil]
    refine ⟨fun id run hid => ?_, fun id hid => ?_⟩
    · rw [run_quiet hup hruns] at hid
      obtain ⟨hrow, hfinished⟩ := h.reported id run hid
      refine ⟨fun hrecorded => ?_, hfinished⟩
      rcases hdb (ExecutionId.text id) with hsame | hnone
      · show db'.runStatus (ExecutionId.text id) = none ∨ db'.runStatus (ExecutionId.text id) = _ ∨
          db'.runStatus (ExecutionId.text id) = _
        rw [hsame]
        exact hrow hrecorded
      · exact .inl hnone
    · rw [run_quiet hup hruns]
      have hbefore : s.isActive id = true := by
        rw [isActive_eq_lookup hup, ← hactive]
        exact hid
      exact h.listed id hbefore

theorem run_tracked {db : Database} {tr : List (LifecycleAction × List RunEvent)}
    (h : (lifecycle texts platform db).Run FreshIds (lifecycle texts platform db).init tr s) :
    Tracked (Machine.outputs tr) s := by
  refine h.history (I := fun tr s => Tracked (Machine.outputs tr) s) ?_ ?_
  · refine ⟨fun id run hid => ?_, fun id hid => ?_⟩ <;> cases hid
  intro tr s a t o hrun htracked hfresh hst
  rw [Machine.outputs_append, Machine.outputs_singleton]
  exact htracked.step (run_consistent hrun).1 hfresh (lifecycleStep_spec hst)

end Tracked

/-! ## After a confirmed cancel -/

/-- The token of an execution in `active_executions`. -/
def LifecycleState.token (s : LifecycleState) (id : ExecutionId) : Option Bool :=
  s.process.bind fun p => p.activeExecutions.lookup id

/-- A cancel that succeeds is for an open run, and the exit of its last process with code 0 is
    not taken before its cancel. -/
def CancelInTime (s : LifecycleState) : LifecycleAction → Prop
  | .cancel id => s.isActive id = true → (s.run id).all TaskRun.isOpen = true
  | .advance id inputs =>
    s.token id = some true → inputs.waited = .exited (some 0) →
      (s.run id).all TaskRun.goesOn = true
  | .start _ | .crash | .dispatch _ _ _ _ _ _ | .triggerNow _ _ _ _ _ | .shutdown | .purge _ _ _ _
  | .saveTask _ _ | .deleteTask _ _ => True

/-- The execution is not reported as `Succeeded`, and will not be. -/
structure Honoured (id : ExecutionId) (out : List RunEvent) (s : LifecycleState) : Prop where
  issued : ExecutionId.text id ∈ s.issued
  row : s.status (ExecutionId.text id) ≠ some (statusText .Succeeded)
  events : ∀ exec task, .broadcast (.finished exec task) ∈ about id out → exec.status ≠ .Succeeded
  running : ∀ run, s.run id = some run →
    run.stage = .releasing ∨ (s.token id = some true ∧ run.isOpen = true)
  alone : ∀ id' run, s.run id' = some run → ExecutionId.text id' = ExecutionId.text id → id' = id

theorem advance_inv {s s' : LifecycleState} {id : ExecutionId} {i : RunInputs} {o : List RunEvent}
    (h : lifecycleStep texts platform s (.advance id i) = some (s', o)) :
    ∃ p p' run db' next, s.process = some p ∧ p.runs.lookup id = some run ∧
      run.operate texts platform s.db p i = some (db', p', next, o) ∧
      s' = { s with db := db', process := some (p'.putRun id next) } := by
  unfold lifecycleStep at h
  cases hup : s.process with
  | none =>
    rw [hup] at h
    cases h
  | some p =>
    rw [hup] at h
    unfold processStep at h
    dsimp only at h
    split at h
    · cases h
    · rename_i run hrun
      split at h
      · cases h
      · rename_i db' p' next o' hop
        cases h
        exact ⟨p, p', run, db', next, rfl, hrun, hop, rfl⟩

/-- Only the execution itself takes its token away. -/
theorem token_kept {s s' : LifecycleState} {a : LifecycleAction} {o : List RunEvent}
    {id : ExecutionId} {p' : AgentProcess} (h : lifecycleStep texts platform s a = some (s', o))
    (ha : ∀ id i, a ≠ .advance id i) (hup' : s'.process = some p')
    (htoken : s.token id = some true) : s'.token id = some true := by
  obtain ⟨p, hup, hlookup⟩ := Option.bind_eq_some_iff.mp htoken
  unfold lifecycleStep at h
  rw [hup] at h
  cases a with
  | advance id i => exact absurd rfl (ha id i)
  | start recovered => cases h
  | crash =>
    cases h
    cases hup'
  | cancel id' =>
    cases h
    show (p.cancel id').activeExecutions.lookup id = some true
    unfold AgentProcess.cancel
    split
    · by_cases heq : id = id'
      · rw [heq]
        exact AList.lookup_insert _
      · rw [AList.lookup_insert_ne heq]
        exact hlookup
    · exact hlookup
  | purge purge settings now sqlOk =>
    unfold processStep at h
    dsimp only at h
    split_ifs at h
    cases h
    exact hlookup
  | dispatch | triggerNow | shutdown =>
    cases h
    exact hlookup
  | saveTask | deleteTask =>
    cases h
    exact htoken

/-- What the operations of an open run report, and leave of its token. -/
theorem operation_of_isOpen {run : TaskRun} {db db' : Database} {p p' : AgentProcess}
    {next : Option TaskRun} {o : List RunEvent} (hop : run.Operation texts db p db' p' next o)
    (hopen : run.isOpen = true) :
    (∃ run', next = some run' ∧
      (run'.stage = .releasing ∨ p'.activeExecutions = p.activeExecutions)) ∧
    (∀ exec task, .broadcast (.finished exec task) ∈ o → exec.status ≠ .Succeeded) ∧
    (∀ vars, run.stage = .recording vars → vars.finalStatus ≠ .Succeeded) := by
  have hrecording : ∀ vars, run.stage = .recording vars → vars.finalStatus ≠ .Succeeded := by
    intro vars hstage
    rw [TaskRun.isOpen, hstage] at hopen
    exact bne_iff_ne.mp hopen
  cases hop with
  | create db' hstage hcreate | refuse hstage | register hstage | release hstage =>
    rw [TaskRun.isOpen, hstage] at hopen
    cases hopen
  | start hstage =>
    refine ⟨⟨_, rfl, .inr rfl⟩, fun exec task hmem => ?_, hrecording⟩
    cases List.mem_singleton.mp hmem
  | act db' stage hfrom hto hless hdb | record vars finishedAt db' hstage hdb
  | spawnPurge hstage =>
    exact ⟨⟨_, rfl, .inr rfl⟩, fun exec task hmem => absurd hmem List.not_mem_nil, hrecording⟩
  | send stream content stage hfrom hto hless =>
    refine ⟨⟨_, rfl, .inr rfl⟩, fun exec task hmem => ?_, hrecording⟩
    cases List.mem_singleton.mp hmem
  | finish hstage =>
    refine ⟨⟨_, rfl, .inr rfl⟩, fun exec task hmem => ?_, hrecording⟩
    cases List.mem_singleton.mp hmem
    rw [TaskRun.isOpen, hstage] at hopen
    exact bne_iff_ne.mp hopen
  | remove hstage =>
    exact ⟨⟨_, rfl, .inl rfl⟩, fun exec task hmem => absurd hmem List.not_mem_nil, hrecording⟩

section Honoured

variable {id : ExecutionId} {out o : List RunEvent} {s s' : LifecycleState} {a : LifecycleAction}

/-- The execution takes its own operation. -/
theorem Honoured.advance {i : RunInputs} (h : Honoured id out s) (hs : Consistent out s)
    (hok : CancelInTime s (.advance id i))
    (hst : lifecycleStep texts platform s (.advance id i) = some (s', o)) :
    Honoured id (out ++ o) s' := by
  obtain ⟨p, p', run, db', next, hup, hrun, hop, rfl⟩ := advance_inv hst
  have hsrun : s.run id = some run := (run_eq_lookup hup id).trans hrun
  obtain ⟨hexec, hlocal⟩ := hs.running id run hsrun
  have hspec := operate_spec hop
  have hframe := operation_frame hspec
  have hmine : about id (out ++ o) = about id out ++ o := by
    rw [about_append, about_eq_self fun e he => (hframe.events e he).trans hexec]
  have htrun := (run_advance hup hspec id id).trans (if_pos rfl)
  have hrow : s.db.runStatus (ExecutionId.text id) ≠ some (statusText .Succeeded) := h.row
  have halone : ∀ id' run', LifecycleState.run
      { s with db := db', process := some (p'.putRun id next) } id' = some run' →
        ExecutionId.text id' = ExecutionId.text id → id' = id := by
    intro id' run' hrun' htext
    by_contra hne
    rw [run_advance hup hspec, if_neg hne] at hrun'
    exact hne (h.alone id' run' hrun' htext)
  rcases h.running run hsrun with hreleasing | ⟨htoken, hopen⟩
  · -- its last operation
    cases hspec with
    | release hstage =>
      refine ⟨h.issued, hrow, ?_, fun run' hrun' => ?_, halone⟩
      · rw [List.append_nil]
        exact h.events
      · rw [htrun] at hrun'
        cases hrun'
    | create db' hstage hcreate | refuse hstage | register hstage | start hstage
    | record vars finishedAt db' hstage hdb | spawnPurge hstage | finish hstage | remove hstage =>
      rw [hreleasing] at hstage
      cases hstage
    | act db' stage hfrom hto hless hdb | send stream content stage hfrom hto hless =>
      rw [hreleasing] at hfrom
      cases hfrom
  · obtain ⟨⟨run', hnext, hkept⟩, hevents, hrecording⟩ := operation_of_isOpen hspec hopen
    refine ⟨h.issued, ?_, ?_, fun run'' hrun'' => ?_, halone⟩
    · show db'.runStatus (ExecutionId.text id) ≠ _
      rcases operation_runStatus hspec (ExecutionId.text id) with hsame | ⟨hstage, -, -⟩ |
        ⟨vars, hstage, -, hended⟩
      · rw [hsame]
        exact hrow
      · rw [TaskRun.isOpen, hstage] at hopen
        cases hopen
      · rw [hended]
        intro hsucceeded
        obtain ⟨_, -, htext⟩ := Option.map_eq_some_iff.mp hsucceeded
        exact hrecording vars hstage (statusText_injective htext)
    · rw [hmine]
      intro exec task hmem
      rcases List.mem_append.mp hmem with hmem | hmem
      · exact h.events exec task hmem
      · exact hevents exec task hmem
    · rw [htrun, hnext] at hrun''
      obtain rfl := Option.some.inj hrun''
      subst hnext
      obtain ⟨p₁, hup₁, hlookup⟩ := Option.bind_eq_some_iff.mp htoken
      rw [hup] at hup₁
      cases hup₁
      have hcancelled : p.isCancelled run.exec.id = true := by
        unfold AgentProcess.isCancelled
        rw [hexec, hlookup]
        simp
      have hrace : i.waited = .exited (some 0) → run.goesOn = true := by
        intro hwaited
        simpa [hsrun] using hok htoken hwaited
      rcases operate_isOpen hop hopen hcancelled hrace with hstage | hopen'
      · exact .inl hstage
      · rcases hkept with hstage | hactive
        · exact .inl hstage
        · refine .inr ⟨?_, hopen'⟩
          show (p'.putRun id (some run')).activeExecutions.lookup id = some true
          rw [activeExecutions_putRun, hactive]
          exact hlookup

/-- Another execution takes an operation. -/
theorem Honoured.advanceOther {id' : ExecutionId} {i : RunInputs} (h : Honoured id out s)
    (hs : Consistent out s) (hne : id ≠ id')
    (hst : lifecycleStep texts platform s (.advance id' i) = some (s', o)) :
    Honoured id (out ++ o) s' := by
  obtain ⟨p, p', run, db', next, hup, hrun, hop, rfl⟩ := advance_inv hst
  have hsrun : s.run id' = some run := (run_eq_lookup hup id').trans hrun
  obtain ⟨hexec, -⟩ := hs.running id' run hsrun
  have hspec := operate_spec hop
  have hframe := operation_frame hspec
  have htext : ExecutionId.text id ≠ ExecutionId.text run.exec.id := by
    rw [hexec]
    exact fun htext => hne (h.alone id' run hsrun htext.symm).symm
  refine ⟨h.issued, ?_, ?_, fun run' hrun' => ?_, fun id'' run'' hrun'' hsame => ?_⟩
  · show db'.runStatus (ExecutionId.text id) ≠ _
    rw [operation_runStatus_other hspec htext]
    exact h.row
  · rw [about_append, about_eq_nil (fun e he => (hframe.events e he).trans hexec) hne,
      List.append_nil]
    exact h.events
  · rw [run_advance hup hspec, if_neg hne] at hrun'
    refine (h.running run' hrun').imp_right ?_
    rintro ⟨htoken, hopen⟩
    refine ⟨?_, hopen⟩
    rw [LifecycleState.token, hup] at htoken
    show (p'.putRun id' next).activeExecutions.lookup id = some true
    rw [activeExecutions_putRun, hframe.active id (hexec.symm ▸ hne)]
    exact htoken
  · by_cases heq : id'' = id'
    · rw [heq, ← hexec] at hsame
      exact absurd hsame.symm htext
    · rw [run_advance hup hspec, if_neg heq] at hrun''
      exact h.alone id'' run'' hrun'' hsame

theorem Honoured.step (h : Honoured id out s) (hs : Consistent out s) (hfresh : FreshIds s a)
    (hok : CancelInTime s a) (hst : lifecycleStep texts platform s a = some (s', o)) :
    Honoured id (out ++ o) s' := by
  by_cases hadvance : ∃ id' i, a = .advance id' i
  · obtain ⟨id', i, rfl⟩ := hadvance
    by_cases heq : id = id'
    · subst heq
      exact h.advance hs hok hst
    · exact h.advanceOther hs heq hst
  have ha : ∀ id i, a ≠ .advance id i := fun id i heq => hadvance ⟨id, i, heq⟩
  have hstep := lifecycleStep_spec hst
  have hrow : s.db.runStatus (ExecutionId.text id) ≠ some (statusText .Succeeded) := h.row
  cases hstep with
  | advance id' inputs p p' run db' next o hup hrun hop => exact absurd rfl (ha id' inputs)
  | start hdown =>
    rw [List.append_nil]
    refine ⟨h.issued, ?_, h.events, fun run hrun => ?_, fun id' run hrun => ?_⟩
    · show (recoverDanglingExecutions s.db).runStatus (ExecutionId.text id) ≠ _
      rw [runStatus_recover]
      intro hsucceeded
      obtain ⟨status, hstatus, htext⟩ := Option.map_eq_some_iff.mp hsucceeded
      split_ifs at htext
      · cases statusText_injective htext
      · exact hrow (htext ▸ hstatus)
    · cases hrun
    · cases hrun
  | startFailed hdown =>
    rw [List.append_nil]
    exact h
  | crash p hup =>
    rw [List.append_nil]
    refine ⟨h.issued, h.row, h.events, fun run hrun => ?_, fun id' run hrun => ?_⟩ <;> cases hrun
  | begin_ a p run hup hid hstage hstatus =>
    rw [List.append_nil]
    refine ⟨List.mem_cons_of_mem _ h.issued, h.row, h.events, fun run' hrun' => ?_,
      fun id' run' hrun' hsame => ?_⟩
    · rw [run_beginRun hup] at hrun'
      split_ifs at hrun' with heq
      · have hissued := h.issued
        rw [heq] at hissued
        exact absurd hissued (hfresh _ hid)
      · refine (h.running run' hrun').imp_right ?_
        rintro ⟨htoken, hopen⟩
        rw [LifecycleState.token, hup] at htoken
        exact ⟨htoken, hopen⟩
    · rw [run_beginRun hup] at hrun'
      split_ifs at hrun' with heq
      · have hissued := h.issued
        rw [← hsame, heq] at hissued
        exact absurd hissued (hfresh _ hid)
      · exact h.alone id' run' hrun' hsame
  | quiet a p p' db' hup hruns hactive hdb =>
    rw [List.append_nil]
    have hbefore := run_quiet hup hruns db'
    refine ⟨h.issued, ?_, h.events, fun run hrun => ?_,
      fun id' run' hrun' => h.alone id' run' ((hbefore id').symm.trans hrun')⟩
    · show db'.runStatus (ExecutionId.text id) ≠ _
      rcases hdb (ExecutionId.text id) with hsame | hnone
      · rw [hsame]
        exact hrow
      · rw [hnone]
        exact nofun
    · refine (h.running run ((hbefore id).symm.trans hrun)).imp_right ?_
      rintro ⟨htoken, hopen⟩
      exact ⟨token_kept hst ha rfl htoken, hopen⟩

/-- Neither the row nor an event of an open run says `Succeeded`. -/
theorem not_succeeded_of_isOpen {run : TaskRun} {log : List RunEvent} {active : Bool}
    {row : Option String} (hopen : run.isOpen = true) (hlocal : run.Local log active row)
    (hreported : run.Reported log row) :
    row ≠ some (statusText .Succeeded) ∧
      ∀ exec task, .broadcast (.finished exec task) ∈ log → exec.status ≠ .Succeeded := by
  have hlog := hlocal.log
  have hrow := hlocal.row
  have hrunning : ∀ {row : Option String}, row = none ∨ row = some (statusText .Running) →
      row ≠ some (statusText .Succeeded) := by
    rintro row (rfl | rfl) heq
    · cases heq
    · cases statusText_injective (Option.some.inj heq)
  have hrecorded : run.stage.isRecorded = true → run.exec.status ≠ .Succeeded →
      row ≠ some (statusText .Succeeded) := by
    intro hstage hstatus
    rcases hreported.row hstage with rfl | rfl | rfl
    · exact hrunning (.inl rfl)
    · exact hrunning (.inr rfl)
    · exact fun heq => hstatus (statusText_injective (Option.some.inj heq))
  unfold TaskRun.isOpen at hopen
  cases hstage : run.stage with
  | creating | registering | releasing =>
    rw [hstage] at hopen
    cases hopen
  | starting =>
    rw [hstage] at hlog hrow
    have hcreated : log = [.created run.exec.id] := hlog
    refine ⟨hrunning hrow, fun exec task hmem => ?_⟩
    rw [hcreated] at hmem
    cases List.mem_singleton.mp hmem
  | acting | waiting | appending | sending | recording =>
    rw [hstage] at hlog hrow
    refine ⟨hrunning hrow, fun exec task hmem => ?_⟩
    exact absurd hmem (StartedLog.not_finished hlog exec task)
  | purging | finishing =>
    rw [hstage] at hlog hopen
    exact ⟨hrecorded (by rw [hstage]; rfl) (bne_iff_ne.mp hopen),
      fun exec task hmem => absurd hmem (StartedLog.not_finished hlog exec task)⟩
  | removing =>
    rw [hstage] at hopen
    have hstatus := bne_iff_ne.mp hopen
    refine ⟨hrecorded (by rw [hstage]; rfl) hstatus, fun exec task hmem => ?_⟩
    rw [hreported.finished hstage exec task hmem]
    exact hstatus

theorem Honoured.of_cancel (hs : Consistent out s) (ht : Tracked out s)
    (hactive : s.isActive id = true) (hok : CancelInTime s (.cancel id))
    (hst : lifecycleStep texts platform s (.cancel id) = some (s', o)) :
    Honoured id (out ++ o) s' := by
  obtain ⟨run, hrun, -⟩ := ht.listed id hactive
  have hopen : run.isOpen = true := by simpa [hrun] using hok hactive
  obtain ⟨p, hup, hlookup⟩ := Option.bind_eq_some_iff.mp hrun
  obtain ⟨hexec, hlocal⟩ := hs.running id run hrun
  obtain ⟨hrow, hevents⟩ := not_succeeded_of_isOpen hopen hlocal (ht.reported id run hrun)
  unfold lifecycleStep at hst
  rw [hup] at hst
  cases hst
  rw [List.append_nil]
  have hbefore := run_quiet hup (runs_cancel p id) s.db
  refine ⟨hs.issued_run id run hrun, hrow, hevents, fun run' hrun' => ?_,
    fun id' run' hrun' htext => ?_⟩
  · rw [hbefore, hrun] at hrun'
    cases hrun'
    refine .inr ⟨?_, hopen⟩
    show (p.cancel id).activeExecutions.lookup id = some true
    rw [isActive_eq_lookup hup] at hactive
    obtain ⟨token, htoken⟩ := Option.isSome_iff_exists.mp hactive
    rw [AgentProcess.cancel, htoken]
    exact AList.lookup_insert _
  · rw [hbefore] at hrun'
    exact hs.distinct id' id run' run hrun' hrun htext

end Honoured

/-! ## Confirmed cancels -/

instance (s : LifecycleState) : DecidablePred (CancelInTime s)
  | .cancel id =>
    inferInstanceAs (Decidable (s.isActive id = true → (s.run id).all TaskRun.isOpen = true))
  | .advance id inputs =>
    inferInstanceAs (Decidable (s.token id = some true → inputs.waited = .exited (some 0) →
      (s.run id).all TaskRun.goesOn = true))
  | .start _ | .crash | .dispatch _ _ _ _ _ _ | .triggerNow _ _ _ _ _ | .shutdown | .purge _ _ _ _
  | .saveTask _ _ | .deleteTask _ _ => isTrue trivial

/-- The runs with fresh ids in which every cancel comes in time. -/
def InTime (s : LifecycleState) (a : LifecycleAction) : Prop := FreshIds s a ∧ CancelInTime s a

instance (s : LifecycleState) (a : LifecycleAction) : Decidable (InTime s a) :=
  inferInstanceAs (Decidable (FreshIds s a ∧ CancelInTime s a))

/-- In every run in which the cancels come in time, an execution for which `execution.cancel`
    succeeds is never `Succeeded`: neither in its row nor in its `execution.finished`. -/
theorem cancel_honoured (texts : Texts) (platform : Platform) (db : Database)
    {pre post : List (LifecycleAction × List RunEvent)} {s₁ s₂ s : LifecycleState}
    {id : ExecutionId} {o : List RunEvent}
    (hpre : (lifecycle texts platform db).Run InTime (lifecycle texts platform db).init pre s₁)
    (hactive : s₁.isActive id = true) (hintime : CancelInTime s₁ (.cancel id))
    (hcancel : lifecycleStep texts platform s₁ (.cancel id) = some (s₂, o))
    (hpost : (lifecycle texts platform db).Run InTime s₂ post s) :
    (∀ exec task, .broadcast (.finished exec task) ∈ Machine.outputs (pre ++ post) →
      exec.id = id → exec.status ≠ .Succeeded) ∧
    s.status (ExecutionId.text id) ≠ some (statusText .Succeeded) := by
  have hfresh := hpre.mono fun _ _ h => h.1
  have hs := (run_consistent hfresh).1
  have hnone : o = [] := by
    unfold lifecycleStep at hcancel
    cases hup : s₁.process with
    | none =>
      rw [hup] at hcancel
      cases hcancel
    | some p =>
      rw [hup] at hcancel
      cases hcancel
      rfl
  subst hnone
  have hbegin : Consistent (Machine.outputs pre) s₂ ∧ Honoured id (Machine.outputs pre) s₂ := by
    have hstep := hs.step (fun _ hid => by cases hid) (lifecycleStep_spec hcancel)
    have hhonoured := Honoured.of_cancel hs (run_tracked hfresh) hactive hintime hcancel
    rw [List.append_nil] at hstep hhonoured
    exact ⟨hstep, hhonoured⟩
  have hend : Consistent (Machine.outputs (pre ++ post)) s ∧
      Honoured id (Machine.outputs (pre ++ post)) s := by
    refine hpost.history (I := fun tr s => Consistent (Machine.outputs (pre ++ tr)) s ∧
      Honoured id (Machine.outputs (pre ++ tr)) s) ?_ ?_
    · rw [List.append_nil]
      exact hbegin
    · rintro tr t a u o - ⟨hs, hh⟩ hok hst
      rw [← List.append_assoc, Machine.outputs_append, Machine.outputs_singleton]
      exact ⟨hs.step hok.1 (lifecycleStep_spec hst), hh.step hs hok.1 hok.2 hst⟩
  refine ⟨fun exec task hmem hid => ?_, hend.2.row⟩
  exact hend.2.events exec task ((mem_about (.broadcast (.finished exec task)) hid).mpr hmem)

/-! ## A cancel in time, and one too late -/

/-- The dispatch of an execution and the first `n` operations of its run. -/
def cancelActions (n : Nat) : List LifecycleAction :=
  [.start true, .dispatch twoActions ⟨1⟩ none 0 0 0] ++
    List.replicate n (.advance ⟨1⟩ succeedingInputs)

/-- The execution of `cancelActions n`, cancelled, and the next `m` operations of its run. -/
def cancelRun (ok : LifecycleState → LifecycleAction → Prop) [∀ s a, Decidable (ok s a)]
    (n m : Nat) : Option (LifecycleState × LifecycleState × List RunEvent) := do
  let (pre, s₁) ← crashMachine.exec ok crashMachine.init (cancelActions n)
  let (s₂, _) ← lifecycleStep twoActionsTexts .unix s₁ (.cancel ⟨1⟩)
  let (post, s) ← crashMachine.exec ok s₂ (List.replicate m (.advance ⟨1⟩ succeedingInputs))
  pure (s₁, s, Machine.outputs (pre ++ post))

theorem exists_of_cancelRun {ok : LifecycleState → LifecycleAction → Prop}
    [∀ s a, Decidable (ok s a)] {n m : Nat}
    {f : LifecycleState × LifecycleState × List RunEvent → Bool}
    (h : (cancelRun ok n m).any f = true) : ∃ pre post s₁ s₂ s o,
      crashMachine.Run ok crashMachine.init pre s₁ ∧
      lifecycleStep twoActionsTexts .unix s₁ (.cancel ⟨1⟩) = some (s₂, o) ∧
      crashMachine.Run ok s₂ post s ∧ f (s₁, s, Machine.outputs (pre ++ post)) = true := by
  obtain ⟨x, hx, hf⟩ := (Option.any_eq_true _ _).mp h
  unfold cancelRun at hx
  obtain ⟨⟨pre, s₁⟩, hpre, hx⟩ := Option.bind_eq_some_iff.mp hx
  obtain ⟨⟨s₂, o⟩, hcancel, hx⟩ := Option.bind_eq_some_iff.mp hx
  obtain ⟨⟨post, s⟩, hpost, hx⟩ := Option.bind_eq_some_iff.mp hx
  rw [← Option.some.inj hx] at hf
  exact ⟨pre, post, s₁, s₂, s, o, Machine.exec_run hpre, hcancel, Machine.exec_run hpost, hf⟩

/-- Whether the event reports the end of execution 1 with status `Succeeded`. -/
def RunEvent.isSucceeded : RunEvent → Bool
  | .broadcast (.finished exec _) => exec.id == ⟨1⟩ && exec.status == .Succeeded
  | _ => false

/-- A cancel before the last status is written, and after the last process exited: it succeeds,
    and the execution is `Succeeded`. -/
theorem cancel_not_honoured : ∃ pre post s₁ s₂ s o,
    crashMachine.Run FreshIds crashMachine.init pre s₁ ∧ s₁.isActive ⟨1⟩ = true ∧
    lifecycleStep twoActionsTexts .unix s₁ (.cancel ⟨1⟩) = some (s₂, o) ∧
    crashMachine.Run FreshIds s₂ post s ∧
    s.status (ExecutionId.text ⟨1⟩) = some (statusText .Succeeded) ∧
    ∃ exec task, .broadcast (.finished exec task) ∈ Machine.outputs (pre ++ post) ∧
      exec.id = ⟨1⟩ ∧ exec.status = .Succeeded := by
  have hrun : ((cancelRun FreshIds 12 3).any fun x => x.1.isActive ⟨1⟩ &&
      (x.2.1.status (ExecutionId.text ⟨1⟩) == some (statusText .Succeeded) &&
        x.2.2.any RunEvent.isSucceeded)) = true := by
    decide +kernel
  obtain ⟨pre, post, s₁, s₂, s, o, hpre, hcancel, hpost, hf⟩ := exists_of_cancelRun hrun
  obtain ⟨hactive, hf⟩ := Bool.and_eq_true_iff.mp hf
  obtain ⟨hstatus, hevent⟩ := Bool.and_eq_true_iff.mp hf
  refine ⟨pre, post, s₁, s₂, s, o, hpre, hactive, hcancel, hpost, beq_iff_eq.mp hstatus, ?_⟩
  obtain ⟨e, he, hsucceeded⟩ := List.any_eq_true.mp hevent
  unfold RunEvent.isSucceeded at hsucceeded
  split at hsucceeded
  · rename_i exec task
    obtain ⟨hid, hstatus⟩ := Bool.and_eq_true_iff.mp hsucceeded
    exact ⟨exec, task, he, beq_iff_eq.mp hid, beq_iff_eq.mp hstatus⟩
  · cases hsucceeded

/-- A cancel while the first of two actions runs. -/
theorem cancel_honoured_twoActions : ∃ pre post s₁, ∃ s : LifecycleState,
    crashMachine.Run InTime crashMachine.init pre s₁ ∧ s₁.isActive ⟨1⟩ = true ∧
    s.status (ExecutionId.text ⟨1⟩) = some (statusText .Cancelled) ∧
    ∀ exec task, .broadcast (.finished exec task) ∈ Machine.outputs (pre ++ post) →
      exec.id = ⟨1⟩ → exec.status ≠ .Succeeded := by
  have hrun : ((cancelRun InTime 4 9).any fun x => x.1.isActive ⟨1⟩ &&
      (decide (CancelInTime x.1 (.cancel ⟨1⟩)) &&
        x.2.1.status (ExecutionId.text ⟨1⟩) == some (statusText .Cancelled))) = true := by
    decide +kernel
  obtain ⟨pre, post, s₁, s₂, s, o, hpre, hcancel, hpost, hf⟩ := exists_of_cancelRun hrun
  obtain ⟨hactive, hf⟩ := Bool.and_eq_true_iff.mp hf
  obtain ⟨hintime, hstatus⟩ := Bool.and_eq_true_iff.mp hf
  exact ⟨pre, post, s₁, s, hpre, hactive, beq_iff_eq.mp hstatus,
    (cancel_honoured twoActionsTexts .unix storedTask hpre hactive (of_decide_eq_true hintime)
      hcancel hpost).1⟩

end EasyJob.Agent
