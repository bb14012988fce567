import EasyJob.Agent.ExecutionLog
import EasyJob.Agent.LifecycleRuns

/-!
# Live output and stored output

An execution appends each chunk of its output to `run_outputs` and then broadcasts
it (`apps/agent/src/service.rs` lines 299–325 and 779–808). A client can follow the
`execution.output` events or ask `get_output` later. In every run of `lifecycle`,
with any number of executions, crashes, purges and changes of the tasks:

* `operate_chunks`: no operation of an execution loses, repeats or changes a chunk.
* `live_output_stored`: what is stored of an execution is what was broadcast, less the
  chunks whose `append_output` failed, and at most one chunk ahead.
-/

namespace EasyJob.Agent

open EasyJob.Domain EasyJob.Executor EasyJob.Persistence.Sqlite Transition

/-! ## Chunks -/

/-- The stream and the content of an `execution.output`. -/
def RunEvent.chunk : RunEvent → Option (String × String)
  | .broadcast (.output _ stream content) => some (stream.name, content)
  | .broadcast (.started _) | .broadcast (.finished _ _) | .created _ => none

/-- The chunks of an execution that were broadcast. -/
def sentOutputs (id : ExecutionId) (out : List RunEvent) : List (String × String) :=
  (about id out).filterMap RunEvent.chunk

/-- The chunks of an execution that `get_outputs` returns. -/
def storedOutputs (db : Database) (id : ExecutionId) : List (String × String) :=
  (getOutputs db id).map fun record => (record.stream, record.content)

/-- The chunk that is appended next. -/
def Stage.appends : Stage → List (String × String)
  | .appending stream res _ _ => [(stream.name, outputText res stream)]
  | .creating | .registering | .starting | .acting _ _ | .waiting _ _ _ | .sending _ _ _ _
  | .recording _ | .purging | .finishing | .removing | .releasing => []

/-- The chunk that was appended and is sent next. -/
def Stage.unsent : Stage → List (String × String)
  | .sending stream res _ _ => [(stream.name, outputText res stream)]
  | .creating | .registering | .starting | .acting _ _ | .waiting _ _ _ | .appending _ _ _ _
  | .recording _ | .purging | .finishing | .removing | .releasing => []

theorem Stage.length_unsent_le (stage : Stage) : stage.unsent.length ≤ 1 := by
  cases stage <;> first | exact Nat.le_refl _ | exact Nat.zero_le _

theorem unsent_afterOutputs (res : RunResult) (rest : List Action) (vars : LoopVars) :
    (afterOutputs res rest vars).unsent = [] := by
  unfold afterOutputs
  split_ifs <;> rfl

theorem unsent_afterStdout (res : RunResult) (rest : List Action) (vars : LoopVars) :
    (afterStdout res rest vars).unsent = [] := by
  unfold afterStdout
  split_ifs
  · rfl
  · exact unsent_afterOutputs res rest vars

theorem unsent_afterAction (res : Except String RunResult) (rest : List Action)
    (vars : LoopVars) : (afterAction res rest vars).unsent = [] := by
  cases res with
  | error e => rfl
  | ok res =>
    show Stage.unsent (if _ then _ else _) = []
    split_ifs
    · rfl
    · exact unsent_afterStdout res rest vars

theorem unsent_afterSending (stream : OutputStream) (res : RunResult) (rest : List Action)
    (vars : LoopVars) : (afterSending stream res rest vars).unsent = [] := by
  cases stream with
  | stdout => exact unsent_afterStdout res rest vars
  | stderr => exact unsent_afterOutputs res rest vars

section Operation

variable {texts : Texts} {platform : Platform} {run : TaskRun} {db db' : Database}
  {p p' : AgentProcess} {next : Option TaskRun} {o : List RunEvent} {i : RunInputs}

/-- The chunk that an execution holds after it was appended. -/
def unsentOf (run : Option TaskRun) : List (String × String) :=
  (run.map fun run => run.stage.unsent).getD []

/-- What an operation sends and what it holds afterwards is what it held before and what it
    appends. -/
theorem operate_chunks (h : run.operate texts platform db p i = some (db', p', next, o)) :
    o.filterMap RunEvent.chunk ++ unsentOf next = run.stage.unsent ++ run.stage.appends := by
  unfold TaskRun.operate at h
  cases hstage : run.stage with
  | creating =>
    rw [hstage] at h
    dsimp only at h
    split at h <;> cases h <;> rfl
  | acting rest vars =>
    rw [hstage] at h
    cases rest with
    | nil =>
      cases h
      rfl
    | cons action rest =>
      dsimp only at h
      split_ifs at h
      · split at h
        · cases h
          exact unsent_afterAction _ rest vars
        · cases h
          rfl
      · cases h
        rfl
  | waiting action rest vars =>
    rw [hstage] at h
    dsimp only at h
    split_ifs at h
    cases h
    exact unsent_afterAction _ rest vars
  | sending stream res rest vars =>
    rw [hstage] at h
    cases h
    exact congrArg (_ :: ·) (unsent_afterSending stream res rest vars)
  | registering | starting | appending | recording | purging | finishing | removing | releasing =>
    rw [hstage] at h
    cases h
    rfl

/-- Only a stage that appends touches `run_outputs`. -/
theorem operate_runOutputs (h : run.operate texts platform db p i = some (db', p', next, o))
    (happends : run.stage.appends = []) : db'.runOutputs = db.runOutputs := by
  cases hstage : run.stage with
  | appending stream res rest vars =>
    rw [hstage] at happends
    cases happends
  | creating =>
    rw [TaskRun.operate, hstage] at h
    dsimp only at h
    split at h
    · rename_i db₁ hcreate
      cases h
      split_ifs at hcreate
      exact (createRun_frame hcreate).1
    · cases h
      rfl
  | recording vars =>
    rw [TaskRun.operate, hstage] at h
    cases h
    split_ifs <;> rfl
  | acting rest vars =>
    rw [TaskRun.operate.eq_def, hstage] at h
    cases rest with
    | nil =>
      cases h
      rfl
    | cons action rest =>
      dsimp only at h
      split_ifs at h
      · split at h <;> cases h <;> rfl
      · cases h
        rfl
  | waiting action rest vars =>
    rw [TaskRun.operate, hstage] at h
    dsimp only at h
    split_ifs at h
    cases h
    rfl
  | registering | starting | sending | purging | finishing | removing | releasing =>
    rw [TaskRun.operate, hstage] at h
    cases h
    rfl

/-- Appending a chunk: it is the last one stored, unless the statement fails or the run is gone. -/
theorem operate_appending {stream : OutputStream} {res : RunResult} {rest : List Action}
    {vars : LoopVars} (h : run.operate texts platform db p i = some (db', p', next, o))
    (hstage : run.stage = .appending stream res rest vars) (horder : InIdOrder db) :
    InIdOrder db' ∧
    (∀ id, ExecutionId.text id ≠ ExecutionId.text run.exec.id →
      storedOutputs db' id = storedOutputs db id) ∧
    (storedOutputs db' run.exec.id = storedOutputs db run.exec.id ++ run.stage.appends ∨
      db' = db ∧ (i.sqlOk = true → db.runStatus (ExecutionId.text run.exec.id) = none)) := by
  rw [TaskRun.operate, hstage] at h
  cases h
  cases happend : if i.sqlOk = true then
      appendOutput texts run.exec.id stream.name (outputText res stream) i.now db else none with
  | none =>
    refine ⟨horder, fun _ _ => rfl, .inr ⟨rfl, fun hsql => ?_⟩⟩
    rw [if_pos hsql] at happend
    exact appendOutput_eq_none happend
  | some db₁ =>
    split_ifs at happend
    have hstored := getOutputs_append horder happend
    refine ⟨horder.append happend, fun id hid => ?_, .inl ?_⟩
    · show List.map _ (getOutputs db₁ id) = _
      rw [hstored, if_neg (Ne.symm hid)]
      rfl
    · show List.map _ (getOutputs db₁ run.exec.id) = _
      rw [hstored, if_pos rfl, List.map_append, hstage]
      rfl

/-- What any operation does to the stored chunks. -/
theorem operate_stored (h : run.operate texts platform db p i = some (db', p', next, o))
    (horder : InIdOrder db) :
    InIdOrder db' ∧
    (∀ id, ExecutionId.text id ≠ ExecutionId.text run.exec.id →
      storedOutputs db' id = storedOutputs db id) ∧
    (storedOutputs db' run.exec.id = storedOutputs db run.exec.id ++ run.stage.appends ∨
      run.stage.appends ≠ [] ∧ db' = db ∧
        (i.sqlOk = true → db.runStatus (ExecutionId.text run.exec.id) = none)) := by
  by_cases happends : run.stage.appends = []
  · have hrows := operate_runOutputs h happends
    have hstored : ∀ id, storedOutputs db' id = storedOutputs db id := by
      intro id
      rw [storedOutputs, getOutputs_congr hrows]
      rfl
    refine ⟨?_, fun id _ => hstored id, .inl ?_⟩
    · unfold InIdOrder
      rw [hrows]
      exact horder
    · rw [hstored, happends, List.append_nil]
  · cases hstage : run.stage with
    | appending stream res rest vars =>
      obtain ⟨horder', hothers, hmine⟩ := operate_appending h hstage horder
      rw [hstage] at hmine happends
      exact ⟨horder', hothers, hmine.imp_right fun hfailed => ⟨happends, hfailed⟩⟩
    | creating | registering | starting | acting | waiting | sending | recording | purging
    | finishing | removing | releasing =>
      rw [hstage] at happends
      exact absurd rfl happends

end Operation

/-! ## The invariant -/

/-- If the action appends a chunk, the statement succeeds. -/
def AppendSucceeds (s : LifecycleState) (a : LifecycleAction) : Prop :=
  ∀ id inputs run, a = .advance id inputs → s.run id = some run → run.stage.appends ≠ [] →
    inputs.sqlOk = true

/-- What can be said of stored and broadcast chunks, when some are not stored. -/
structure ChunkRelation (R : List (String × String) → List (String × String) → Prop) : Prop where
  nil : R [] []
  append : ∀ stored sent chunks, R stored sent → R (stored ++ chunks) (sent ++ chunks)

/-- It allows for chunks that are broadcast and not stored. -/
def AllowsMissing (R : List (String × String) → List (String × String) → Prop) : Prop :=
  ∀ stored sent chunks, R stored sent → R stored (sent ++ chunks)

theorem chunkRelation_eq : ChunkRelation Eq := ⟨rfl, fun _ _ _ h => by rw [h]⟩

theorem chunkRelation_sublist : ChunkRelation List.Sublist :=
  ⟨List.nil_sublist _, fun _ _ chunks h => h.append_right chunks⟩

theorem allowsMissing_sublist : AllowsMissing List.Sublist :=
  fun _ sent chunks h => h.trans (List.sublist_append_left sent chunks)

/-- The chunk of an execution that is stored and not broadcast. -/
def LifecycleState.unsent (s : LifecycleState) (id : ExecutionId) : List (String × String) :=
  unsentOf (s.run id)

/-- `rest` was stored and not broadcast, and is still to be, unless a crash came between. -/
structure Unsent (s : LifecycleState) (id : ExecutionId) (rest : List (String × String)) :
    Prop where
  length_le : rest.length ≤ 1
  unsent : id ∉ s.lost → rest = s.unsent id

/-- The stored chunks of the executions of this machine agree with the events so far. -/
structure OutputsKept (R : List (String × String) → List (String × String) → Prop)
    (out : List RunEvent) (s : LifecycleState) : Prop where
  inIdOrder : InIdOrder s.db
  distinct : ∀ id id' run, .created id ∈ out → s.run id' = some run →
    ExecutionId.text id = ExecutionId.text id' → id = id'
  issued_lost : ∀ id ∈ s.lost, ExecutionId.text id ∈ s.issued
  not_lost : ∀ id run, s.run id = some run → id ∉ s.lost
  kept : ∀ id, .created id ∈ out → s.status (ExecutionId.text id) ≠ none →
    ∃ rest, Unsent s id rest ∧ R (storedOutputs s.db id) (sentOutputs id out ++ rest)

section Invariant

variable {texts : Texts} {platform : Platform}
  {R : List (String × String) → List (String × String) → Prop} {out o : List RunEvent}
  {s s' : LifecycleState} {a : LifecycleAction}

theorem unsentOf_length_le (run : Option TaskRun) : (unsentOf run).length ≤ 1 := by
  cases run with
  | none => exact Nat.zero_le _
  | some run => exact run.stage.length_unsent_le

/-- Created executions have ids that were issued. -/
theorem Consistent.issued_created (h : Consistent out s) {id : ExecutionId}
    (hid : .created id ∈ out) : ExecutionId.text id ∈ s.issued :=
  h.issued_event id (List.ne_nil_of_mem ((mem_about (.created id) rfl).mpr hid))

theorem OutputsKept.init {db : Database} (hdb : InIdOrder db) :
    OutputsKept R [] (lifecycle texts platform db).init where
  inIdOrder := hdb
  distinct _ _ _ h := absurd h List.not_mem_nil
  issued_lost _ h := absurd h List.not_mem_nil
  not_lost _ _ h := by cases h
  kept _ h := absurd h List.not_mem_nil

/-- Steps without events that change no chunk of a run that is still stored. -/
theorem OutputsKept.quiet (h : OutputsKept R out s) (hs : Consistent out s)
    (hrun : ∀ id run, s'.run id = some run → (∃ run₀, s.run id = some run₀) ∨
      ExecutionId.text id ∉ s.issued)
    (hissued : ∀ id ∈ s'.lost, ExecutionId.text id ∈ s'.issued)
    (hlost : ∀ id run, s'.run id = some run → id ∉ s'.lost)
    (hunsent : ∀ id, .created id ∈ out → id ∉ s'.lost → id ∉ s.lost ∧ s'.unsent id = s.unsent id)
    (horder : InIdOrder s'.db)
    (hstored : ∀ id, s'.status (ExecutionId.text id) ≠ none →
      s.status (ExecutionId.text id) ≠ none ∧ storedOutputs s'.db id = storedOutputs s.db id) :
    OutputsKept R out s' where
  inIdOrder := horder
  distinct id id' run hid hrun' htext := by
    rcases hrun id' run hrun' with ⟨run₀, hrun₀⟩ | hfresh
    · exact h.distinct id id' run₀ hid hrun₀ htext
    · exact absurd (htext ▸ hs.issued_created hid) hfresh
  issued_lost := hissued
  not_lost := hlost
  kept id hid hrow := by
    obtain ⟨hrow₀, heq⟩ := hstored id hrow
    obtain ⟨rest, hrest, hR⟩ := h.kept id hid hrow₀
    refine ⟨rest, ⟨hrest.length_le, fun hnot => ?_⟩, by rwa [heq]⟩
    obtain ⟨hnot₀, hsame⟩ := hunsent id hid hnot
    rw [hsame]
    exact hrest.unsent hnot₀

/-- Steps of a process that leave its runs alone. -/
theorem OutputsKept.database {p p' : AgentProcess} {db' : Database} (h : OutputsKept R out s)
    (hs : Consistent out s) (hup : s.process = some p) (hruns : p'.runs = p.runs)
    (horder : InIdOrder db')
    (hstored : ∀ id, db'.runStatus (ExecutionId.text id) ≠ none →
      s.db.runStatus (ExecutionId.text id) ≠ none ∧
        storedOutputs db' id = storedOutputs s.db id) :
    OutputsKept R out { s with db := db', process := some p' } := by
  have hrun := run_quiet hup hruns db'
  refine h.quiet hs (fun id run hid => .inl ⟨run, (hrun id).symm.trans hid⟩) h.issued_lost
    (fun id run hid => h.not_lost id run ((hrun id).symm.trans hid))
    (fun id _ hnot => ⟨hnot, ?_⟩) horder hstored
  rw [LifecycleState.unsent, hrun]
  rfl

/-- Deletions of runs, with their cascade. -/
theorem stored_cascade {db db' : Database} (horder : InIdOrder db)
    (hrows : db'.runOutputs = db.runOutputs.cascade RunOutputRow.runId db'.taskRuns)
    (hstatus : ∀ k, db'.runStatus k = db.runStatus k ∨ db'.runStatus k = none) (id : ExecutionId)
    (hrow : db'.runStatus (ExecutionId.text id) ≠ none) :
    db.runStatus (ExecutionId.text id) ≠ none ∧ storedOutputs db' id = storedOutputs db id := by
  constructor
  · rcases hstatus (ExecutionId.text id) with hsame | hnone
    · rwa [← hsame]
    · exact absurd hnone hrow
  · rw [storedOutputs, (getOutputs_cascade horder hrows (mem_keys_iff_runStatus.mpr hrow)).2]
    rfl

theorem InIdOrder.cascade {db db' : Database} (horder : InIdOrder db)
    (hrows : db'.runOutputs = db.runOutputs.cascade RunOutputRow.runId db'.taskRuns) :
    InIdOrder db' := by
  unfold InIdOrder
  rw [hrows]
  exact horder.filter _

theorem InIdOrder.congr {db db' : Database} (horder : InIdOrder db)
    (hrows : db'.runOutputs = db.runOutputs) : InIdOrder db' := by
  unfold InIdOrder
  rw [hrows]
  exact horder

/-- `create_run` makes the first event of an execution. -/
theorem operation_created {run : TaskRun} {db db' : Database} {p p' : AgentProcess}
    {next : Option TaskRun} (h : run.Operation texts db p db' p' next o) {id : ExecutionId}
    (hid : .created id ∈ o) :
    run.stage = .creating ∧ createRun texts run.exec db = some db' ∧ unsentOf next = [] ∧
      o.filterMap RunEvent.chunk = [] := by
  cases h with
  | create db' hstage hcreate => exact ⟨hstage, hcreate, rfl, rfl⟩
  | start hstage | send stream content stage hfrom hto hless | finish hstage =>
    cases List.mem_singleton.mp hid
  | refuse hstage | register hstage | act db' stage hfrom hto hless hdb
  | record vars finishedAt db' hstage hdb | spawnPurge hstage | remove hstage
  | release hstage => exact absurd hid List.not_mem_nil

/-- Operations of created executions insert no row. -/
theorem operation_row {run : TaskRun} {db db' : Database} {p p' : AgentProcess}
    {next : Option TaskRun} (h : run.Operation texts db p db' p' next o)
    (hstage : run.stage ≠ .creating) {k : String} (hrow : db'.runStatus k ≠ none) :
    db.runStatus k ≠ none := by
  rcases operation_runStatus h k with hsame | ⟨hcreating, -⟩ | ⟨vars, -, -, hmap⟩
  · rwa [← hsame]
  · exact absurd hcreating hstage
  · intro hnone
    rw [hmap, hnone] at hrow
    exact hrow rfl

/-- The execution that operates: it has what it appended, and the events it sent. -/
theorem OutputsKept.mine {p p' : AgentProcess} {id : ExecutionId} {inputs : RunInputs}
    {run : TaskRun} {db' : Database} {next : Option TaskRun} (h : OutputsKept R out s)
    (hs : Consistent out s) (hR : ChunkRelation R)
    (hmiss : AllowsMissing R ∨ AppendSucceeds s (.advance id inputs)) (hrun : s.run id = some run)
    (hop : run.operate texts platform s.db p inputs = some (db', p', next, o))
    (hid : .created id ∈ out ++ o) (hrow : db'.runStatus (ExecutionId.text id) ≠ none) :
    R (storedOutputs db' id) (sentOutputs id (out ++ o) ++ unsentOf next) := by
  obtain ⟨hexec, hlocal⟩ := hs.running id run hrun
  have hspec := operate_spec hop
  have hevents : ∀ e ∈ o, e.id = id := fun e he => ((operation_frame hspec).events e he).trans hexec
  have hlog := hlocal.log
  rw [hexec] at hlog
  rw [sentOutputs, about_append, about_eq_self hevents, List.filterMap_append, List.append_assoc]
  by_cases hold : .created id ∈ out
  · have hstage : run.stage ≠ .creating := by
      intro hcreating
      rw [hcreating] at hlog
      exact absurd hlog (List.ne_nil_of_mem ((mem_about (.created id) rfl).mpr hold))
    have hbefore := operation_row hspec hstage hrow
    obtain ⟨rest, hrest, hkept⟩ := h.kept id hold hbefore
    have hunsent : rest = run.stage.unsent := by
      rw [hrest.unsent (h.not_lost id run hrun), LifecycleState.unsent, hrun]
      rfl
    rw [operate_chunks hop, ← List.append_assoc, ← hunsent]
    have hmine := (operate_stored hop h.inIdOrder).2.2
    rw [hexec] at hmine
    rcases hmine with hstored | ⟨happends, hdb, hfailed⟩
    · rw [hstored]
      exact hR.append _ _ _ hkept
    · rw [hdb]
      rcases hmiss with hmiss | hsucceeds
      · exact hmiss _ _ _ hkept
      · exact absurd (hfailed (hsucceeds id inputs run rfl hrun happends)) hbefore
  · obtain ⟨hstage, hcreate, hnext, hchunks⟩ :=
      operation_created hspec ((List.mem_append.mp hid).resolve_left hold)
    rw [hstage] at hlog
    obtain ⟨houtputs, hfree⟩ := createRun_frame hcreate
    have hstored : storedOutputs db' id = [] := by
      rw [storedOutputs, getOutputs_congr houtputs, ← hexec, getOutputs_eq_nil hfree]
      rfl
    rw [hstored, hchunks, hnext, show about id out = [] from hlog]
    exact hR.nil

theorem OutputsKept.advance {p p' : AgentProcess} {id : ExecutionId} {inputs : RunInputs}
    {run : TaskRun} {db' : Database} {next : Option TaskRun} (h : OutputsKept R out s)
    (hs : Consistent out s) (hR : ChunkRelation R)
    (hmiss : AllowsMissing R ∨ AppendSucceeds s (.advance id inputs)) (hup : s.process = some p)
    (hrun : p.runs.lookup id = some run)
    (hop : run.operate texts platform s.db p inputs = some (db', p', next, o)) :
    OutputsKept R (out ++ o) { s with db := db', process := some (p'.putRun id next) } := by
  have hsrun : s.run id = some run := (run_eq_lookup hup id).trans hrun
  have hexec := (hs.running id run hsrun).1
  have hspec := operate_spec hop
  obtain ⟨horder, hothers, -⟩ := operate_stored hop h.inIdOrder
  set t : LifecycleState := { s with db := db', process := some (p'.putRun id next) } with ht
  have htrun : ∀ id', t.run id' = if id' = id then next else s.run id' := run_advance hup hspec id
  have hevents : ∀ e ∈ o, e.id = id := fun e he => ((operation_frame hspec).events e he).trans hexec
  have hbefore : ∀ id' run', t.run id' = some run' → ∃ run₀, s.run id' = some run₀ := by
    intro id' run' hid'
    rw [htrun] at hid'
    split_ifs at hid' with heq
    · exact ⟨run, heq ▸ hsrun⟩
    · exact ⟨run', hid'⟩
  refine ⟨horder, ?_, h.issued_lost, fun id' run' hid' => ?_, fun id' hid' hrow => ?_⟩
  · intro id₁ id₂ run₂ hid₁ hid₂ htext
    obtain ⟨run₀, hrun₀⟩ := hbefore id₂ run₂ hid₂
    rcases List.mem_append.mp hid₁ with hid₁ | hid₁
    · exact h.distinct id₁ id₂ run₀ hid₁ hrun₀ htext
    · obtain rfl : id₁ = id := hevents _ hid₁
      exact hs.distinct id₁ id₂ run run₀ hsrun hrun₀ htext
  · obtain ⟨run₀, hrun₀⟩ := hbefore id' run' hid'
    exact h.not_lost id' run₀ hrun₀
  · have hunsent : t.unsent id' = unsentOf (if id' = id then next else s.run id') :=
      congrArg unsentOf (htrun id')
    by_cases heq : id' = id
    · subst heq
      rw [if_pos rfl] at hunsent
      exact ⟨unsentOf next, ⟨unsentOf_length_le next, fun _ => hunsent.symm⟩,
        h.mine hs hR hmiss hsrun hop hid' hrow⟩
    · rw [if_neg heq] at hunsent
      have hold : .created id' ∈ out :=
        (List.mem_append.mp hid').resolve_right fun hmem => heq (hevents _ hmem)
      -- its row has another id
      have htext : ExecutionId.text id' ≠ ExecutionId.text run.exec.id := by
        rw [hexec]
        exact fun htext => heq (h.distinct id' id run hold hsrun htext)
      have hsame : s.db.runStatus (ExecutionId.text id') ≠ none := by
        rwa [← operation_runStatus_other hspec htext]
      obtain ⟨rest, hrest, hkept⟩ := h.kept id' hold hsame
      refine ⟨rest, ⟨hrest.length_le, fun hnot => (hrest.unsent hnot).trans hunsent.symm⟩, ?_⟩
      rw [hothers id' htext, sentOutputs, about_append, about_eq_nil hevents heq, List.append_nil]
      exact hkept

theorem OutputsKept.start (h : OutputsKept R out s) (hs : Consistent out s)
    (hdown : s.process = none) :
    OutputsKept R out { s with db := recoverDanglingExecutions s.db, process := some .new } := by
  have hnone : ∀ id, s.run id = none := by
    intro id
    rw [LifecycleState.run, hdown]
    rfl
  refine h.quiet hs (fun id run hid => by cases hid) h.issued_lost (fun id run hid => by cases hid)
    (fun id _ hnot => ⟨hnot, ?_⟩) (h.inIdOrder.congr rfl) fun id hrow => ⟨fun hrow₀ => hrow ?_, ?_⟩
  · rw [LifecycleState.unsent, LifecycleState.unsent, hnone]
    rfl
  · show (recoverDanglingExecutions s.db).runStatus _ = none
    rw [runStatus_recover, show s.db.runStatus _ = none from hrow₀]
    rfl
  · rw [storedOutputs, getOutputs_congr rfl]
    rfl

theorem OutputsKept.crash {p : AgentProcess} (h : OutputsKept R out s) (hs : Consistent out s)
    (hup : s.process = some p) :
    OutputsKept R out { s with process := none, lost := p.runs.keys ++ s.lost } := by
  have hkeys : ∀ id, id ∈ p.runs.keys → ∃ run, s.run id = some run := by
    intro id hid
    rw [← AList.mem_keys, ← AList.lookup_isSome, Option.isSome_iff_exists] at hid
    obtain ⟨run, hrun⟩ := hid
    exact ⟨run, (run_eq_lookup hup id).trans hrun⟩
  refine h.quiet hs (fun id run hid => by cases hid) (fun id hid => ?_)
    (fun id run hid => by cases hid) (fun id _ hnot => ?_) h.inIdOrder fun id hrow => ⟨hrow, rfl⟩
  · rcases List.mem_append.mp hid with hid | hid
    · obtain ⟨run, hrun⟩ := hkeys id hid
      exact hs.issued_run id run hrun
    · exact h.issued_lost id hid
  · have hnot' : id ∉ p.runs.keys ∧ id ∉ s.lost := not_or.mp (mt List.mem_append.mpr hnot)
    refine ⟨hnot'.2, ?_⟩
    have hnone : s.run id = none := by
      rw [run_eq_lookup hup, AList.lookup_eq_none, AList.mem_keys]
      exact hnot'.1
    rw [LifecycleState.unsent, LifecycleState.unsent, hnone]
    rfl

theorem OutputsKept.beginRun {p : AgentProcess} {run : TaskRun} (h : OutputsKept R out s)
    (hs : Consistent out s) (hup : s.process = some p)
    (hfresh : ExecutionId.text run.exec.id ∉ s.issued) : OutputsKept R out (s.beginRun p run) := by
  have hrun := run_beginRun hup run
  refine h.quiet hs (fun id run' hid => ?_) (fun id hid => List.mem_cons_of_mem _
    (h.issued_lost id hid)) (fun id run' hid hlost => ?_) (fun id hcreated hnot => ⟨hnot, ?_⟩)
    h.inIdOrder fun id hrow => ⟨hrow, rfl⟩
  · rw [hrun] at hid
    split_ifs at hid with heq
    · exact .inr (heq ▸ hfresh)
    · exact .inl ⟨run', hid⟩
  · rw [hrun] at hid
    split_ifs at hid with heq
    · exact hfresh (heq ▸ h.issued_lost id hlost)
    · exact h.not_lost id run' hid hlost
  · have heq : id ≠ run.exec.id := by
      rintro rfl
      exact hfresh (hs.issued_created hcreated)
    rw [LifecycleState.unsent, hrun, if_neg heq]
    rfl

theorem stored_purge {purge : Purge} {settings : Option SystemSettings} {now : Chrono.DateTime}
    {sqlOk : Bool} {db : Database} (horder : InIdOrder db) :
    InIdOrder (purge.run texts settings now sqlOk db) ∧ ∀ id,
      (purge.run texts settings now sqlOk db).runStatus (ExecutionId.text id) ≠ none →
        db.runStatus (ExecutionId.text id) ≠ none ∧
          storedOutputs (purge.run texts settings now sqlOk db) id = storedOutputs db id := by
  unfold Purge.run
  split
  · exact ⟨horder, fun id hrow => ⟨hrow, rfl⟩⟩
  · split
    · exact ⟨horder, fun id hrow => ⟨hrow, rfl⟩⟩
    · split_ifs
      · exact ⟨horder.cascade rfl, stored_cascade horder rfl fun k =>
          (find_purge _ _ k).1.imp (congrArg _) (congrArg _)⟩
      · exact ⟨horder, fun id hrow => ⟨hrow, rfl⟩⟩

theorem runOutputs_save (fails : ℕ → Bool) (db : Database) (task : Task) :
    (save texts fails db task).2.runOutputs = db.runOutputs := by
  cases hsave : save texts fails db task with
  | mk result db' =>
    cases result with
    | error => rw [transaction_error hsave]
    | ok => exact (saved_of_executeAll (transaction_ok hsave)).runOutputs

theorem OutputsKept.step (h : OutputsKept R out s) (hs : Consistent out s) (hR : ChunkRelation R)
    (hmiss : AllowsMissing R ∨ AppendSucceeds s a) (hfresh : FreshIds s a)
    (hst : lifecycleStep texts platform s a = some (s', o)) : OutputsKept R (out ++ o) s' := by
  unfold lifecycleStep at hst
  cases hup : s.process with
  | none =>
    rw [hup] at hst
    dsimp only at hst
    split at hst
    · cases hst
      rw [List.append_nil]
      exact h.start hs hup
    · cases hst
      rw [List.append_nil]
      exact h
    · cases hst
  | some p =>
    rw [hup] at hst
    have hself (db' : Database) : { s with db := db' } =
        { s with db := db', process := some p } := by rw [← hup]
    cases a with
    | start recovered => cases hst
    | crash =>
      cases hst
      rw [List.append_nil]
      exact h.crash hs hup
    | dispatch task id triggerId scheduledAt newAt startedAt =>
      cases hst
      rw [List.append_nil]
      exact h.beginRun hs hup (hfresh id rfl)
    | triggerNow task id scheduledAt newAt startedAt =>
      cases hst
      rw [List.append_nil]
      exact h.beginRun hs hup (hfresh id rfl)
    | advance id inputs =>
      unfold processStep at hst
      dsimp only at hst
      split at hst
      · cases hst
      · rename_i run hrun
        split at hst
        · cases hst
        · rename_i db' p' next o' hop
          cases hst
          exact h.advance hs hR hmiss hup hrun hop
    | cancel id =>
      cases hst
      rw [List.append_nil]
      exact h.database hs hup (runs_cancel p id) h.inIdOrder fun id hrow => ⟨hrow, rfl⟩
    | shutdown =>
      cases hst
      rw [List.append_nil]
      exact h.database hs hup rfl h.inIdOrder fun id hrow => ⟨hrow, rfl⟩
    | purge purge settings now sqlOk =>
      unfold processStep at hst
      dsimp only at hst
      split_ifs at hst
      cases hst
      rw [List.append_nil]
      obtain ⟨horder, hstored⟩ := stored_purge h.inIdOrder
      exact h.database hs hup rfl horder hstored
    | saveTask fails task =>
      cases hst
      have hrows : (save texts fails s.db task).2.runOutputs = s.db.runOutputs :=
        runOutputs_save fails s.db task
      have hstatus : (save texts fails s.db task).2.runStatus = s.db.runStatus :=
        runStatus_save fails task
      rw [List.append_nil, hself]
      refine h.database hs hup rfl (h.inIdOrder.congr hrows) fun id hrow => ⟨?_, ?_⟩
      · rwa [← hstatus]
      · rw [storedOutputs, getOutputs_congr hrows]
        rfl
    | deleteTask id sqlOk =>
      cases hst
      rw [List.append_nil, hself]
      cases sqlOk with
      | false => exact h.database hs hup rfl h.inIdOrder fun id hrow => ⟨hrow, rfl⟩
      | true =>
        exact h.database hs hup rfl (h.inIdOrder.cascade rfl)
          (stored_cascade h.inIdOrder rfl (runStatus_deleteTask _))

end Invariant

/-! ## Over a run -/

theorem run_outputsKept {texts : Texts} {platform : Platform} {db : Database} (hdb : InIdOrder db)
    {R : List (String × String) → List (String × String) → Prop} (hR : ChunkRelation R)
    {ok : LifecycleState → LifecycleAction → Prop} (hfresh : ∀ s a, ok s a → FreshIds s a)
    (hmiss : ∀ s a, ok s a → AllowsMissing R ∨ AppendSucceeds s a)
    {tr : List (LifecycleAction × List RunEvent)} {s : LifecycleState}
    (h : (lifecycle texts platform db).Run ok (lifecycle texts platform db).init tr s) :
    Consistent (Machine.outputs tr) s ∧ OutputsKept R (Machine.outputs tr) s := by
  refine h.history (I := fun tr s => Consistent (Machine.outputs tr) s ∧
    OutputsKept R (Machine.outputs tr) s) ⟨Consistent.init db, OutputsKept.init hdb⟩ ?_
  rintro tr s a t o - ⟨hs, hkept⟩ hok hst
  rw [Machine.outputs_append, Machine.outputs_singleton]
  exact ⟨hs.step (hfresh s a hok) (lifecycleStep_spec hst),
    hkept.step hs hR (hmiss s a hok) (hfresh s a hok) hst⟩

/-- In every run of agent processes, of each execution whose row was written: the chunks that
    are stored are some of those that were broadcast, in their order, with at most one more,
    which the execution still has to send unless a crash ended it; and all of them, if no
    `append_output` fails and the row is still there. -/
theorem live_output_stored (texts : Texts) (platform : Platform) {db : Database}
    (hdb : InIdOrder db) {tr : List (LifecycleAction × List RunEvent)} {s : LifecycleState}
    (h : (lifecycle texts platform db).Run FreshIds (lifecycle texts platform db).init tr s)
    {id : ExecutionId} (hid : .created id ∈ Machine.outputs tr) :
    (∃ rest, Unsent s id rest ∧
      (storedOutputs s.db id).Sublist (sentOutputs id (Machine.outputs tr) ++ rest)) ∧
    ((lifecycle texts platform db).Run (fun s a => FreshIds s a ∧ AppendSucceeds s a)
        (lifecycle texts platform db).init tr s →
      s.status (ExecutionId.text id) ≠ none →
      ∃ rest, Unsent s id rest ∧
        storedOutputs s.db id = sentOutputs id (Machine.outputs tr) ++ rest) := by
  constructor
  · obtain ⟨-, hkept⟩ := run_outputsKept hdb chunkRelation_sublist (fun _ _ hok => hok)
      (fun _ _ _ => .inl allowsMissing_sublist) h
    by_cases hrow : s.status (ExecutionId.text id) = none
    · refine ⟨s.unsent id, ⟨unsentOf_length_le _, fun _ => rfl⟩, ?_⟩
      have hfree : ExecutionId.text id ∉ s.db.taskRuns.rows.map TaskRunRow.id :=
        fun hmem => mem_keys_iff_runStatus.mp hmem hrow
      rw [storedOutputs, getOutputs_eq_nil hfree]
      exact List.nil_sublist _
    · exact hkept.kept id hid hrow
  · intro hsucceeds hrow
    obtain ⟨-, hkept⟩ := run_outputsKept hdb chunkRelation_eq (fun _ _ hok => hok.1)
      (fun _ _ hok => .inr hok.2) hsucceeds
    exact hkept.kept id hid hrow

/-- In the run with a crash no statement of an execution fails. -/
def LifecycleAction.appends (a : LifecycleAction) : Bool :=
  match a with
  | .advance _ inputs => inputs.sqlOk
  | _ => true

theorem crashTrace_appends : crashMachine.Run (fun s a => FreshIds s a ∧ AppendSucceeds s a)
    crashMachine.init crashTrace crashState := by
  have hactions : crashTrace.map Prod.fst = crashActions :=
    Machine.exec_get_actions crashActions_possible
  have happends : ∀ a ∈ crashTrace.map Prod.fst, a.appends = true := by
    rw [hactions, ← List.all_eq_true]
    decide
  refine (crashTrace_run.restrict happends).mono fun s a hok => ⟨hok.1, ?_⟩
  rintro id inputs run rfl - -
  exact hok.2

theorem storedTask_inIdOrder : InIdOrder storedTask := by
  have hrows : storedTask.runOutputs.rows = [] := rfl
  rw [InIdOrder, hrows]
  exact List.Pairwise.nil

/-- The execution that ended before the crash stored what it sent. -/
theorem live_output_stored_crash :
    storedOutputs crashState.db ⟨1⟩ = sentOutputs ⟨1⟩ (Machine.outputs crashTrace) := by
  obtain ⟨hcreated, hlost, hrun⟩ := crashState_facts.1
  have hrow : (crashState.status (ExecutionId.text ⟨1⟩)).isSome = true := by decide +kernel
  obtain ⟨rest, hrest, hstored⟩ :=
    (live_output_stored twoActionsTexts .unix storedTask_inIdOrder crashTrace_run hcreated).2
      crashTrace_appends (Option.isSome_iff_ne_none.mp hrow)
  have hunsent : crashState.unsent ⟨1⟩ = [] := by
    rw [LifecycleState.unsent, Option.isNone_iff_eq_none.mp hrun]
    rfl
  rw [hstored, hrest.unsent hlost, hunsent, List.append_nil]

end EasyJob.Agent
