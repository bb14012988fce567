import EasyJob.Agent.Lifecycle

/-!
# The life of an execution

What holds in every run of `lifecycle`, whatever the order of its steps and
wherever it crashes.

* `Consistent`: what the events so far, the rows, and `active_executions` say about
  each execution, by its stage.
* `Consistent.step_status`: what a step makes of the status of a row.
* `Consistent.ends`: every execution can get to its end by its own operations.
* `execution_lifecycle`: the events of an execution come in their order and are
  complete unless its process crashed; statuses that are not `Running` stay;
  purges spare rows with the status `Running`, and a restart leaves none.
-/

namespace EasyJob.Agent

open EasyJob.Domain EasyJob.Executor EasyJob.Persistence.Sqlite Transition

variable {texts : Texts} {platform : Platform}

/-! ## The events of an execution -/

def RunEvent.isOutput : RunEvent → Bool
  | .broadcast (.output _ _ _) => true
  | .broadcast (.started _) | .broadcast (.finished _ _) | .created _ => false

/-- `execution.started` after `create_run`, and then only outputs. -/
def StartedLog (id : ExecutionId) (log : List RunEvent) : Prop :=
  ∃ exec outputs, exec.id = id ∧ (∀ e ∈ outputs, RunEvent.isOutput e = true) ∧
    log = .created id :: .broadcast (.started exec) :: outputs

/-- Last of all one `execution.finished`. -/
def FinishedLog (id : ExecutionId) (log : List RunEvent) : Prop :=
  ∃ started exec task, StartedLog id started ∧ exec.id = id ∧
    log = started ++ [.broadcast (.finished exec task)]

/-- What was seen of an execution so far. -/
def OrderedLog (id : ExecutionId) (log : List RunEvent) : Prop :=
  log = [] ∨ log = [.created id] ∨ StartedLog id log ∨ FinishedLog id log

def Stage.Log (id : ExecutionId) (log : List RunEvent) : Stage → Prop
  | .creating => log = []
  | .registering | .starting => log = [.created id]
  | .acting _ _ | .waiting _ _ _ | .appending _ _ _ _ | .sending _ _ _ _ | .recording _ | .purging
  | .finishing => StartedLog id log
  | .removing => FinishedLog id log
  | .releasing => log = [] ∨ FinishedLog id log

/-- The execution is in `active_executions`. -/
def Stage.isListed : Stage → Bool
  | .creating | .registering | .releasing => false
  | .starting | .acting _ _ | .waiting _ _ _ | .appending _ _ _ _ | .sending _ _ _ _ | .recording _
  | .purging | .finishing | .removing => true

/-- The status of its row, which a deletion of the task removes. -/
def Stage.Row (row : Option String) : Stage → Prop
  | .creating => row = none
  | .registering | .starting | .acting _ _ | .waiting _ _ _ | .appending _ _ _ _ | .sending _ _ _ _
  | .recording _ => row = none ∨ row = some (statusText .Running)
  | .purging | .finishing | .removing | .releasing => True

theorem log_of_acts {stage : Stage} (h : stage.acts = true) (id : ExecutionId)
    (log : List RunEvent) : stage.Log id log ↔ StartedLog id log := by
  cases stage <;> first | exact Iff.rfl | cases h

theorem row_of_acts {stage : Stage} (h : stage.acts = true) (row : Option String) :
    stage.Row row ↔ row = none ∨ row = some (statusText .Running) := by
  cases stage <;> first | exact Iff.rfl | cases h

theorem isListed_of_acts {stage : Stage} (h : stage.acts = true) : stage.isListed = true := by
  cases stage <;> first | rfl | cases h

theorem Stage.Log.ordered {stage : Stage} {id : ExecutionId} {log : List RunEvent}
    (h : stage.Log id log) : OrderedLog id log := by
  cases stage with
  | creating => exact .inl h
  | registering | starting => exact .inr (.inl h)
  | acting | waiting | appending | sending | recording | purging | finishing =>
    exact .inr (.inr (.inl h))
  | removing => exact .inr (.inr (.inr h))
  | releasing => exact Or.imp_right (fun hfinished => .inr (.inr hfinished)) h

theorem StartedLog.snoc {id : ExecutionId} {log : List RunEvent} {e : RunEvent}
    (h : StartedLog id log) (he : e.isOutput = true) : StartedLog id (log ++ [e]) := by
  obtain ⟨exec, outputs, hid, houtputs, rfl⟩ := h
  refine ⟨exec, outputs ++ [e], hid, ?_, rfl⟩
  intro e' he'
  rcases List.mem_append.mp he' with he' | he'
  · exact houtputs e' he'
  · rw [List.mem_singleton.mp he']
    exact he

/-- What holds of a run by its stage. -/
structure TaskRun.Local (run : TaskRun) (log : List RunEvent) (active : Bool)
    (row : Option String) : Prop where
  log : run.stage.Log run.exec.id log
  active : run.stage.isListed = true → active = true
  row : run.stage.Row row
  status : run.stage = .creating → run.exec.status = .Running

/-- What an operation makes of the rows. -/
theorem operation_runStatus {run : TaskRun} {db db' : Database} {p p' : AgentProcess}
    {next : Option TaskRun} {o : List RunEvent} (h : run.Operation texts db p db' p' next o)
    (k : String) :
    db'.runStatus k = db.runStatus k ∨
    (run.stage = .creating ∧ k = ExecutionId.text run.exec.id ∧
      db'.runStatus k = some (statusText run.exec.status)) ∨
    ∃ vars, run.stage = .recording vars ∧ k = ExecutionId.text run.exec.id ∧
      db'.runStatus k = (db.runStatus k).map fun _ => statusText vars.finalStatus := by
  cases h with
  | create db' hstage hcreate =>
    have hstatus := (runStatus_create hcreate k).2
    by_cases hk : k = ExecutionId.text run.exec.id
    · rw [if_pos hk] at hstatus
      exact .inr (.inl ⟨hstage, hk, hstatus⟩)
    · rw [if_neg hk] at hstatus
      exact .inl hstatus
  | act db' stage hfrom hto hless hdb =>
    left
    rw [hdb]
  | record vars finishedAt db' hstage hdb =>
    rcases hdb with rfl | rfl
    · have hstatus : (updateRun texts (finishedExec run.exec vars finishedAt) db).runStatus k =
          if k = ExecutionId.text run.exec.id then
            (db.runStatus k).map fun _ => statusText vars.finalStatus
          else db.runStatus k :=
        runStatus_update _ k
      by_cases hk : k = ExecutionId.text run.exec.id
      · rw [if_pos hk] at hstatus
        exact .inr (.inr ⟨vars, hstage, hk, hstatus⟩)
      · rw [if_neg hk] at hstatus
        exact .inl hstatus
    · exact .inl rfl
  | refuse hstage | register hstage | start hstage | send stream content stage hfrom hto hless
  | spawnPurge hstage | finish hstage | remove hstage | release hstage => exact .inl rfl

/-- The rows of other executions stay as they are. -/
theorem operation_runStatus_other {run : TaskRun} {db db' : Database} {p p' : AgentProcess}
    {next : Option TaskRun} {o : List RunEvent} (h : run.Operation texts db p db' p' next o)
    {k : String} (hk : k ≠ ExecutionId.text run.exec.id) : db'.runStatus k = db.runStatus k := by
  rcases operation_runStatus h k with hsame | ⟨-, htext, -⟩ | ⟨-, -, htext, -⟩
  · exact hsame
  · exact absurd htext hk
  · exact absurd htext hk

/-- An operation leaves the run in its next stage with all that belongs to it, or ends it. -/
theorem TaskRun.Local.operation {run : TaskRun} {db db' : Database} {p p' : AgentProcess}
    {next : Option TaskRun} {o log : List RunEvent}
    (h : run.Local log (p.activeExecutions.lookup run.exec.id).isSome
      (db.runStatus (ExecutionId.text run.exec.id)))
    (hop : run.Operation texts db p db' p' next o) :
    match next with
    | some run' => run'.Local (log ++ o) (p'.activeExecutions.lookup run.exec.id).isSome
        (db'.runStatus (ExecutionId.text run.exec.id))
    | none => log ++ o = [] ∨ FinishedLog run.exec.id (log ++ o) := by
  obtain ⟨hlog, hactive, hrow, hstatus⟩ := h
  cases hop with
  | create db' hstage hcreate =>
    rw [hstage] at hlog
    have hnil : log = [] := hlog
    refine ⟨?_, nofun, ?_, nofun⟩
    · rw [hnil]
      rfl
    · right
      rw [(runStatus_create hcreate _).2, if_pos rfl, hstatus hstage]
  | refuse hstage =>
    rw [hstage] at hlog
    rw [List.append_nil]
    exact ⟨.inl hlog, nofun, trivial, nofun⟩
  | register hstage =>
    rw [hstage] at hlog hrow
    rw [List.append_nil]
    refine ⟨hlog, fun _ => ?_, hrow, nofun⟩
    show (AList.lookup _ (AList.insert _ _ _)).isSome = true
    rw [AList.lookup_insert]
    rfl
  | start hstage =>
    rw [hstage] at hlog hrow hactive
    have hcreated : log = [.created run.exec.id] := hlog
    refine ⟨?_, fun _ => hactive rfl, hrow, nofun⟩
    rw [hcreated]
    exact ⟨run.exec, [], rfl, fun _ he => absurd he List.not_mem_nil, rfl⟩
  | act db' stage hfrom hto hless hdb =>
    rw [List.append_nil, hdb]
    refine ⟨(log_of_acts hto _ _).mpr ((log_of_acts hfrom _ _).mp hlog),
      fun _ => hactive (isListed_of_acts hfrom),
      (row_of_acts hto _).mpr ((row_of_acts hfrom _).mp hrow), ?_⟩
    intro (hcreating : stage = .creating)
    rw [hcreating] at hto
    cases hto
  | send stream content stage hfrom hto hless =>
    refine ⟨(log_of_acts hto _ _).mpr (((log_of_acts hfrom _ _).mp hlog).snoc rfl),
      fun _ => hactive (isListed_of_acts hfrom),
      (row_of_acts hto _).mpr ((row_of_acts hfrom _).mp hrow), ?_⟩
    intro (hcreating : stage = .creating)
    rw [hcreating] at hto
    cases hto
  | record vars finishedAt db' hstage hdb =>
    rw [hstage] at hlog hactive
    rw [List.append_nil]
    exact ⟨hlog, fun _ => hactive rfl, trivial, nofun⟩
  | spawnPurge hstage =>
    rw [hstage] at hlog hactive
    rw [List.append_nil]
    exact ⟨hlog, fun _ => hactive rfl, trivial, nofun⟩
  | finish hstage =>
    rw [hstage] at hlog hactive
    exact ⟨⟨log, run.exec, run.task, hlog, rfl, rfl⟩, fun _ => hactive rfl, trivial, nofun⟩
  | remove hstage =>
    rw [hstage] at hlog
    rw [List.append_nil]
    exact ⟨.inr hlog, nofun, trivial, nofun⟩
  | release hstage =>
    rw [hstage] at hlog
    rw [List.append_nil]
    exact hlog

/-! ## The invariant -/

/-- The events about one execution. -/
def about (id : ExecutionId) (out : List RunEvent) : List RunEvent :=
  out.filter fun e => decide (e.id = id)

theorem about_append (id : ExecutionId) (out o : List RunEvent) :
    about id (out ++ o) = about id out ++ about id o :=
  List.filter_append _ _

theorem about_eq_self {id : ExecutionId} {o : List RunEvent} (h : ∀ e ∈ o, e.id = id) :
    about id o = o := by
  apply List.filter_eq_self.mpr
  intro e he
  exact decide_eq_true (h e he)

theorem about_eq_nil {id id' : ExecutionId} {o : List RunEvent} (h : ∀ e ∈ o, e.id = id)
    (hne : id' ≠ id) : about id' o = [] := by
  apply List.filter_eq_nil_iff.mpr
  intro e he
  rw [h e he, decide_eq_true_eq]
  exact fun heq => hne heq.symm

def LifecycleState.status (s : LifecycleState) (k : String) : Option String := s.db.runStatus k

/-- The events so far agree with the state. -/
structure Consistent (out : List RunEvent) (s : LifecycleState) : Prop where
  running : ∀ id run, s.run id = some run → run.exec.id = id ∧
    run.Local (about id out) (s.isActive id) (s.status (ExecutionId.text id))
  ended : ∀ id, s.run id = none → id ∈ s.lost ∨ about id out = [] ∨ FinishedLog id (about id out)
  ordered : ∀ id, OrderedLog id (about id out)
  issued_run : ∀ id run, s.run id = some run → ExecutionId.text id ∈ s.issued
  issued_event : ∀ id, about id out ≠ [] → ExecutionId.text id ∈ s.issued
  issued_row : ∀ k, s.status k ≠ none → k ∈ s.issued
  distinct : ∀ id id' run run', s.run id = some run → s.run id' = some run' →
    ExecutionId.text id = ExecutionId.text id' → id = id'

section Consistent

variable {out o : List RunEvent} {s s' : LifecycleState} {a : LifecycleAction}

theorem Consistent.init (db : Database) : Consistent [] (lifecycle texts platform db).init where
  running _ _ h := by cases h
  ended _ _ := .inr (.inl rfl)
  ordered _ := .inl rfl
  issued_run _ _ h := by cases h
  issued_event _ h := absurd rfl h
  issued_row k hk := by
    obtain ⟨status, hstatus⟩ := Option.ne_none_iff_exists'.mp hk
    obtain ⟨row, hrow, -⟩ := Option.map_eq_some_iff.mp hstatus
    obtain ⟨hmem, hid⟩ := Table.find_eq_some.mp hrow
    exact List.mem_map.mpr ⟨row, hmem, hid⟩
  distinct _ _ _ _ h := by cases h

/-- Without a process there are no runs to agree with. -/
theorem Consistent.noRuns (h : Consistent out s) (hrun : ∀ id, s'.run id = none)
    (hlost : ∀ id, id ∈ s'.lost ∨ about id out = [] ∨ FinishedLog id (about id out))
    (hissued : s'.issued = s.issued) (hrow : ∀ k, s.status k = none → s'.status k = none) :
    Consistent out s' where
  running id run hid := by
    rw [hrun] at hid
    cases hid
  ended id _ := hlost id
  ordered := h.ordered
  issued_run id run hid := by
    rw [hrun] at hid
    cases hid
  issued_event id hid := hissued ▸ h.issued_event id hid
  issued_row k hk := hissued ▸ h.issued_row k fun hnone => hk (hrow k hnone)
  distinct id id' run run' hid := by
    rw [hrun] at hid
    cases hid

theorem Consistent.start (h : Consistent out s) (hdown : s.process = none) :
    Consistent out { s with db := recoverDanglingExecutions s.db, process := some .new } := by
  refine h.noRuns (fun _ => rfl) (fun id => h.ended id ?_) rfl fun k hk => ?_
  · rw [LifecycleState.run, hdown]
    rfl
  · have hstatus : s.db.runStatus k = none := hk
    show (recoverDanglingExecutions s.db).runStatus k = none
    rw [runStatus_recover, hstatus]
    rfl

theorem Consistent.crash {p : AgentProcess} (h : Consistent out s) (hup : s.process = some p) :
    Consistent out { s with process := none, lost := p.runs.keys ++ s.lost } := by
  refine h.noRuns (fun _ => rfl) (fun id => ?_) rfl fun k hk => hk
  show id ∈ p.runs.keys ++ s.lost ∨ _
  cases hrun : s.run id with
  | none => exact (h.ended id hrun).imp_left (List.mem_append_right _)
  | some run =>
    left
    rw [LifecycleState.run, hup] at hrun
    have hlookup : p.runs.lookup id = some run := hrun
    apply List.mem_append_left
    rw [← AList.mem_keys, ← AList.lookup_isSome, hlookup]
    rfl

theorem Consistent.quiet {p p' : AgentProcess} {db' : Database} (h : Consistent out s)
    (hup : s.process = some p) (hruns : p'.runs = p.runs)
    (hactive : ∀ id, (p'.activeExecutions.lookup id).isSome =
      (p.activeExecutions.lookup id).isSome)
    (hdb : ∀ k, db'.runStatus k = s.db.runStatus k ∨ db'.runStatus k = none) :
    Consistent out { s with db := db', process := some p' } := by
  have hrun := run_quiet hup hruns db'
  have hlisted : ∀ id, LifecycleState.isActive { s with db := db', process := some p' } id =
      s.isActive id := by
    intro id
    rw [isActive_eq_lookup hup]
    exact hactive id
  refine ⟨?_, fun id hid => h.ended id ((hrun id).symm.trans hid), h.ordered,
    fun id run hid => h.issued_run id run ((hrun id).symm.trans hid), h.issued_event, ?_,
    fun id id' run run' hid hid' => h.distinct id id' run run' ((hrun id).symm.trans hid)
      ((hrun id').symm.trans hid')⟩
  · intro id run hid
    rw [hrun] at hid
    obtain ⟨hexec, hlocal⟩ := h.running id run hid
    refine ⟨hexec, hlocal.log, ?_, ?_, hlocal.status⟩
    · rw [hlisted]
      exact hlocal.active
    · -- a deleted row suits every stage
      have hrow := hlocal.row
      show run.stage.Row (db'.runStatus (ExecutionId.text id))
      rcases hdb (ExecutionId.text id) with hsame | hnone
      · rw [hsame]
        exact hrow
      · rw [hnone]
        cases hstage : run.stage with
        | creating => rfl
        | registering | starting | acting | waiting | appending | sending | recording =>
          exact .inl rfl
        | purging | finishing | removing | releasing => trivial
  · intro k hk
    apply h.issued_row
    rcases hdb k with hsame | hnone
    · show s.db.runStatus k ≠ none
      rw [← hsame]
      exact hk
    · exact absurd hnone hk

theorem Consistent.beginRun {p : AgentProcess} {run : TaskRun} (h : Consistent out s)
    (hup : s.process = some p) (hfresh : ExecutionId.text run.exec.id ∉ s.issued)
    (hstage : run.stage = .creating) (hstatus : run.exec.status = .Running) :
    Consistent out (s.beginRun p run) := by
  have hrun := run_beginRun hup run
  have hactive : ∀ id, (s.beginRun p run).isActive id = s.isActive id := by
    intro id
    rw [isActive_eq_lookup hup]
    rfl
  have hevents : about run.exec.id out = [] := by
    by_contra hne
    exact hfresh (h.issued_event _ hne)
  have hrow : s.status (ExecutionId.text run.exec.id) = none := by
    by_contra hne
    exact hfresh (h.issued_row _ hne)
  have hold : ∀ id run', s.run id = some run' →
      ExecutionId.text id ≠ ExecutionId.text run.exec.id := by
    intro id run' hid htext
    exact hfresh (htext ▸ h.issued_run id run' hid)
  refine ⟨?_, ?_, h.ordered, ?_, fun id hid => List.mem_cons_of_mem _ (h.issued_event id hid),
    fun k hk => List.mem_cons_of_mem _ (h.issued_row k hk), ?_⟩
  · intro id run' hid
    rw [hrun] at hid
    split_ifs at hid with heq
    · cases hid
      subst heq
      refine ⟨rfl, ?_, ?_, ?_, fun _ => hstatus⟩
      · rw [hstage]
        exact hevents
      · rw [hstage]
        exact nofun
      · rw [hstage]
        exact hrow
    · obtain ⟨hexec, hlocal⟩ := h.running id run' hid
      rw [hactive]
      exact ⟨hexec, hlocal⟩
  · intro id hid
    rw [hrun] at hid
    split_ifs at hid
    exact h.ended id hid
  · intro id run' hid
    rw [hrun] at hid
    split_ifs at hid with heq
    · rw [heq]
      exact List.mem_cons_self
    · exact List.mem_cons_of_mem _ (h.issued_run id run' hid)
  · intro id id' run₁ run₂ hid hid' htext
    rw [hrun] at hid hid'
    split_ifs at hid hid' with heq heq' heq'
    · rw [heq, heq']
    · exact absurd (heq ▸ htext.symm) (hold id' run₂ hid')
    · exact absurd (heq' ▸ htext) (hold id run₁ hid)
    · exact h.distinct id id' run₁ run₂ hid hid' htext

theorem Consistent.advance {p p' : AgentProcess} {id : ExecutionId} {run : TaskRun}
    {db' : Database} {next : Option TaskRun} (h : Consistent out s) (hup : s.process = some p)
    (hrun : p.runs.lookup id = some run) (hop : run.Operation texts s.db p db' p' next o) :
    Consistent (out ++ o) { s with db := db', process := some (p'.putRun id next) } := by
  have hsrun : s.run id = some run := (run_eq_lookup hup id).trans hrun
  have hframe := operation_frame hop
  obtain ⟨hexec, hlocal⟩ := h.running id run hsrun
  rw [isActive_eq_lookup hup, ← hexec] at hlocal
  have hkept := hlocal.operation hop
  rw [hexec] at hkept
  set t : LifecycleState := { s with db := db', process := some (p'.putRun id next) } with ht
  have htrun : ∀ id', t.run id' = if id' = id then next else s.run id' := run_advance hup hop id
  have htactive : ∀ id', t.isActive id' = (p'.activeExecutions.lookup id').isSome :=
    isActive_advance s db' p' next id
  have hevents : ∀ e ∈ o, e.id = id := fun e he => (hframe.events e he).trans hexec
  have hmine : about id (out ++ o) = about id out ++ o := by
    rw [about_append, about_eq_self hevents]
  have hothers : ∀ id', id' ≠ id → about id' (out ++ o) = about id' out := by
    intro id' hne
    rw [about_append, about_eq_nil hevents hne, List.append_nil]
  have hnext : ∀ run', next = some run' → run'.exec.id = id ∧
      run'.Local (about id out ++ o) (p'.activeExecutions.lookup id).isSome
        (db'.runStatus (ExecutionId.text id)) := by
    rintro run' rfl
    exact ⟨(hframe.next run' rfl).1.trans hexec, hkept⟩
  have hissued : ExecutionId.text id ∈ s.issued := h.issued_run id run hsrun
  refine ⟨?_, ?_, ?_, ?_, ?_, ?_, ?_⟩
  · intro id' run' hid'
    rw [htrun] at hid'
    split_ifs at hid' with heq
    · subst heq
      obtain ⟨hexec', hlocal'⟩ := hnext run' hid'
      rw [htactive, hmine]
      exact ⟨hexec', hlocal'⟩
    · obtain ⟨hexec', hlocal'⟩ := h.running id' run' hid'
      refine ⟨hexec', ?_, ?_, ?_, hlocal'.status⟩
      · rw [hothers id' heq]
        exact hlocal'.log
      · rw [htactive, hframe.active id' (hexec.symm ▸ heq), ← isActive_eq_lookup hup]
        exact hlocal'.active
      · -- its row has another id
        have hne : ExecutionId.text id' ≠ ExecutionId.text run.exec.id := by
          rw [hexec]
          exact fun htext => heq (h.distinct id' id run' run hid' hsrun htext)
        show run'.stage.Row (db'.runStatus (ExecutionId.text id'))
        rw [operation_runStatus_other hop hne]
        exact hlocal'.row
  · intro id' hid'
    rw [htrun] at hid'
    split_ifs at hid' with heq
    · subst heq hid'
      rw [hmine]
      exact .inr hkept
    · rw [hothers id' heq]
      exact h.ended id' hid'
  · intro id'
    by_cases heq : id' = id
    · subst heq
      rw [hmine]
      cases next with
      | none => exact hkept.imp_right fun hfinished => .inr (.inr hfinished)
      | some run' =>
        obtain ⟨hexec', hlocal'⟩ := hnext run' rfl
        have hlog := hlocal'.log.ordered
        rw [hexec'] at hlog
        exact hlog
    · rw [hothers id' heq]
      exact h.ordered id'
  · intro id' run' hid'
    rw [htrun] at hid'
    split_ifs at hid' with heq
    · rw [heq]
      exact hissued
    · exact h.issued_run id' run' hid'
  · intro id' hid'
    by_cases heq : id' = id
    · rw [heq]
      exact hissued
    · rw [hothers id' heq] at hid'
      exact h.issued_event id' hid'
  · intro k hk
    by_cases hold : s.status k = none
    · -- the row of this execution was inserted
      rcases operation_runStatus hop k with hsame | ⟨-, htext, -⟩ | ⟨-, -, htext, -⟩
      · exact absurd (hsame.trans hold) hk
      · rw [htext, hexec]
        exact hissued
      · rw [htext, hexec]
        exact hissued
    · exact h.issued_row k hold
  · intro id₁ id₂ run₁ run₂ hid₁ hid₂ htext
    have hbefore : ∀ id' run', t.run id' = some run' → ∃ run'', s.run id' = some run'' := by
      intro id' run' hid'
      rw [htrun] at hid'
      split_ifs at hid' with heq
      · exact ⟨run, heq ▸ hsrun⟩
      · exact ⟨run', hid'⟩
    obtain ⟨run₁', h₁⟩ := hbefore id₁ run₁ hid₁
    obtain ⟨run₂', h₂⟩ := hbefore id₂ run₂ hid₂
    exact h.distinct id₁ id₂ run₁' run₂' h₁ h₂ htext

theorem Consistent.step (h : Consistent out s) (hfresh : FreshIds s a)
    (hst : s.Step texts a s' o) : Consistent (out ++ o) s' := by
  cases hst with
  | start hdown =>
    rw [List.append_nil]
    exact h.start hdown
  | startFailed hdown =>
    rw [List.append_nil]
    exact h
  | crash p hup =>
    rw [List.append_nil]
    exact h.crash hup
  | begin_ a p run hup hid hstage hstatus =>
    rw [List.append_nil]
    exact h.beginRun hup (hfresh _ hid) hstage hstatus
  | advance id inputs p p' run db' next o hup hrun hop => exact h.advance hup hrun hop
  | quiet a p p' db' hup hruns hactive hdb =>
    rw [List.append_nil]
    exact h.quiet hup hruns hactive hdb

end Consistent

/-! ## The status of a row over a run -/

theorem operation_stage_ne {run run' : TaskRun} {db db' : Database} {p p' : AgentProcess}
    {o : List RunEvent} (h : run.Operation texts db p db' p' (some run') o) :
    run'.stage ≠ .creating := by
  cases h with
  | act db' stage hfrom hto hless hdb | send stream content stage hfrom hto hless =>
    intro (hcreating : stage = .creating)
    rw [hcreating] at hto
    cases hto
  | create db' hstage hcreate | refuse hstage | register hstage | start hstage
  | record vars finishedAt db' hstage hdb | spawnPurge hstage | finish hstage | remove hstage =>
    exact nofun

section Status

variable {P : Option String → Prop} {k : String} {out o : List RunEvent} {s s' : LifecycleState}
  {a : LifecycleAction}

/-- A step leaves a status, deletes its row, ends a `Running`, or is the `create_run` of
    that row. -/
theorem Consistent.step_status (h : Consistent out s) (hst : s.Step texts a s' o) (k : String) :
    s'.status k = s.status k ∨ s'.status k = none ∨
    (s.status k = some (statusText .Running) ∧
      ∃ status, isTerminal status = true ∧ s'.status k = some (statusText status)) ∨
    (s'.status k = some (statusText .Running) ∧
      ∃ id run, s.run id = some run ∧ ExecutionId.text id = k ∧ run.stage = .creating) := by
  cases hst with
  | start hdown =>
    have hstatus : LifecycleState.status
        { s with db := recoverDanglingExecutions s.db, process := some .new } k =
          (s.status k).map fun status =>
            if status = statusText .Running then statusText .Interrupted else status :=
      runStatus_recover k
    rw [hstatus]
    cases hold : s.status k with
    | none => exact .inl rfl
    | some status =>
      rw [Option.map_some]
      split_ifs with hrunning
      · exact .inr (.inr (.inl ⟨by rw [hrunning], .Interrupted, rfl, rfl⟩))
      · exact .inl rfl
  | startFailed hdown | crash p hup | begin_ a p run hup hid hstage hstatus => exact .inl rfl
  | quiet a p p' db' hup hruns hactive hdb => exact (hdb k).imp_right .inl
  | advance id inputs p p' run db' next o hup hrun hop =>
    have hsrun : s.run id = some run := (run_eq_lookup hup id).trans hrun
    obtain ⟨hexec, hlocal⟩ := h.running id run hsrun
    rcases operation_runStatus hop k with hsame | ⟨hstage, htext, hcreated⟩ |
      ⟨vars, hstage, htext, hended⟩
    · exact .inl hsame
    · refine .inr (.inr (.inr ⟨?_, id, run, hsrun, hexec ▸ htext.symm, hstage⟩))
      rw [hlocal.status hstage] at hcreated
      exact hcreated
    · -- the row is still `Running`, if it is there
      have hrow := hlocal.row
      rw [hstage, ← hexec, ← htext] at hrow
      rcases hrow with hrow | hrow
      · have hnone : s.db.runStatus k = none := hrow
        rw [hnone] at hended
        exact .inr (.inl hended)
      · have hrunning : s.db.runStatus k = some (statusText .Running) := hrow
        rw [hrunning] at hended
        exact .inr (.inr (.inl ⟨hrow, vars.finalStatus, vars.terminal, hended⟩))

/-- The row `k` is there or was, its status satisfies `P`, and no run will insert it. -/
structure StatusKept (P : Option String → Prop) (k : String) (s : LifecycleState) : Prop where
  status : P (s.status k)
  issued : k ∈ s.issued
  inserted : ∀ id run, s.run id = some run → ExecutionId.text id = k → run.stage ≠ .creating

theorem Consistent.statusKept (h : Consistent out s) (hP : P (s.status k))
    (hk : s.status k ≠ none) : StatusKept P k s := by
  refine ⟨hP, h.issued_row k hk, ?_⟩
  rintro id run hrun rfl hstage
  have hrow := (h.running id run hrun).2.row
  rw [hstage] at hrow
  exact hk hrow

/-- A property that allows the row to go, and `Running` to become terminal, is kept. -/
theorem StatusKept.step (hnone : P none)
    (hend : P (some (statusText .Running)) →
      ∀ status, isTerminal status = true → P (some (statusText status)))
    (h : StatusKept P k s) (hs : Consistent out s) (hfresh : FreshIds s a)
    (hst : s.Step texts a s' o) : StatusKept P k s' := by
  have hP : P (s'.status k) := by
    have hold := h.status
    rcases hs.step_status hst k with hsame | hgone | ⟨hrunning, status, hterminal, hended⟩ |
      ⟨-, id, run, hrun, htext, hstage⟩
    · rw [hsame]
      exact hold
    · rw [hgone]
      exact hnone
    · rw [hrunning] at hold
      rw [hended]
      exact hend hold status hterminal
    · exact absurd hstage (h.inserted id run hrun htext)
  cases hst with
  | start hdown => exact ⟨hP, h.issued, fun id run hrun => by cases hrun⟩
  | startFailed hdown => exact h
  | crash p hup => exact ⟨hP, h.issued, fun id run hrun => by cases hrun⟩
  | begin_ a p run hup hid hstage hstatus =>
    refine ⟨hP, List.mem_cons_of_mem _ h.issued, ?_⟩
    intro id run' hrun htext
    rw [run_beginRun hup] at hrun
    split_ifs at hrun with heq
    · rw [heq] at htext
      exact absurd (htext ▸ h.issued) (hfresh _ hid)
    · exact h.inserted id run' hrun htext
  | advance id inputs p p' run db' next o hup hrun hop =>
    refine ⟨hP, h.issued, ?_⟩
    intro id' run' hrun' htext
    rw [run_advance hup hop] at hrun'
    split_ifs at hrun' with heq
    · subst hrun'
      exact operation_stage_ne hop
    · exact h.inserted id' run' hrun' htext
  | quiet a p p' db' hup hruns hactive hdb =>
    refine ⟨hP, h.issued, ?_⟩
    intro id run hrun htext
    rw [run_quiet hup hruns] at hrun
    exact h.inserted id run hrun htext

theorem StatusKept.run {db : Database} {tr : List (LifecycleAction × List RunEvent)}
    (hnone : P none)
    (hend : P (some (statusText .Running)) →
      ∀ status, isTerminal status = true → P (some (statusText status)))
    (hrun : (lifecycle texts platform db).Run FreshIds s tr s') (hs : Consistent out s)
    (h : StatusKept P k s) : StatusKept P k s' := by
  have hboth : (∃ out, Consistent out s') ∧ StatusKept P k s' := by
    refine hrun.invariant (I := fun s => (∃ out, Consistent out s) ∧ StatusKept P k s)
      ⟨⟨out, hs⟩, h⟩ ?_
    rintro s a t o ⟨⟨out, hs⟩, h⟩ hfresh hst
    have hstep := lifecycleStep_spec hst
    exact ⟨⟨_, hs.step hfresh hstep⟩, h.step hnone hend hs hfresh hstep⟩
  exact hboth.2

end Status

/-! ## Every execution can end -/

/-- An operation of the execution `id`. -/
def OwnOperation (id : ExecutionId) (_ : LifecycleState) (a : LifecycleAction) : Prop :=
  ∃ inputs, a = .advance id inputs

/-- Answers with which every operation is possible: the process exits. -/
def exitingInputs : RunInputs := ⟨true, 0, .error "", .exited none, ⟨[], []⟩⟩

/-- By its own operations a run gets to its end, with all its events or none. -/
theorem Consistent.ends {db : Database} {id : ExecutionId} {out : List RunEvent}
    {s : LifecycleState} {run : TaskRun} (h : Consistent out s) (hrun : s.run id = some run) :
    ∃ tr t, (lifecycle texts platform db).Run (OwnOperation id) s tr t ∧ t.run id = none ∧
      (about id (out ++ Machine.outputs tr) = [] ∨
        FinishedLog id (about id (out ++ Machine.outputs tr))) := by
  induction hn : run.remaining using Nat.strong_induction_on generalizing out s run with
  | _ n ih =>
    obtain ⟨p, hup, hlookup⟩ := Option.bind_eq_some_iff.mp hrun
    have hsome : (run.operate texts platform s.db p exitingInputs).isSome :=
      operate_isSome run s.db p nofun
    obtain ⟨⟨db', p', next, o⟩, hop⟩ := Option.isSome_iff_exists.mp hsome
    set t : LifecycleState := { s with db := db', process := some (p'.putRun id next) }
    have hst : (lifecycle texts platform db).step s (.advance id exitingInputs) = some (t, o) := by
      show lifecycleStep texts platform s (.advance id exitingInputs) = some (t, o)
      unfold lifecycleStep processStep
      rw [hup]
      dsimp only
      rw [hlookup]
      dsimp only
      rw [hop]
    have hspec := operate_spec hop
    have ht : Consistent (out ++ o) t := h.advance hup hlookup hspec
    have htrun : t.run id = next := (run_advance hup hspec id id).trans (if_pos rfl)
    cases next with
    | none =>
      have hexec := (h.running id run hrun).1
      have hlocal := (h.running id run hrun).2
      have hlast : about id out ++ o = [] ∨ FinishedLog id (about id out ++ o) := by
        rw [isActive_eq_lookup hup, ← hexec] at hlocal
        have hkept := hlocal.operation hspec
        rw [hexec] at hkept
        exact hkept
      refine ⟨_, t, .single ⟨exitingInputs, rfl⟩ hst, htrun, ?_⟩
      have hevents : ∀ e ∈ o, e.id = id :=
        fun e he => ((operation_frame hspec).events e he).trans hexec
      rw [Machine.outputs_singleton, about_append, about_eq_self hevents]
      exact hlast
    | some run' =>
      have hless : run'.remaining < n := hn ▸ operate_remaining hspec
      obtain ⟨tr, u, htr, hnone, hevents⟩ := ih _ hless ht htrun rfl
      refine ⟨_, u, .cons ⟨exitingInputs, rfl⟩ hst htr, hnone, ?_⟩
      rw [Machine.outputs_cons, ← List.append_assoc]
      exact hevents

/-! ## The lifecycle -/

def HasStarted (id : ExecutionId) (out : List RunEvent) : Prop :=
  ∃ exec, exec.id = id ∧ .broadcast (.started exec) ∈ out

def HasFinished (id : ExecutionId) (out : List RunEvent) : Prop :=
  ∃ exec task, exec.id = id ∧ .broadcast (.finished exec task) ∈ out

theorem mem_about {id : ExecutionId} {out : List RunEvent} (e : RunEvent) (hid : e.id = id) :
    e ∈ about id out ↔ e ∈ out := by
  rw [about, List.mem_filter]
  exact and_iff_left (decide_eq_true hid)

theorem FinishedLog.hasFinished {id : ExecutionId} {out : List RunEvent}
    (h : FinishedLog id (about id out)) : HasFinished id out := by
  obtain ⟨started, exec, task, -, hid, hlog⟩ := h
  refine ⟨exec, task, hid, ?_⟩
  have hmem : RunEvent.broadcast (.finished exec task) ∈ about id out := by
    rw [hlog]
    exact List.mem_append_right _ (List.mem_singleton_self _)
  exact (mem_about (.broadcast (.finished exec task)) hid).mp hmem

/-- Between its `execution.started` and its `execution.finished` an execution is in
    `active_executions`. -/
theorem Consistent.isActive {out : List RunEvent} {s : LifecycleState} {id : ExecutionId}
    (h : Consistent out s) (hstarted : HasStarted id out) (hfinished : ¬HasFinished id out)
    (hlost : id ∉ s.lost) : s.isActive id = true := by
  obtain ⟨exec, hid, hmem⟩ := hstarted
  have hmem' : RunEvent.broadcast (.started exec) ∈ about id out :=
    (mem_about (.broadcast (.started exec)) hid).mpr hmem
  have hnil : about id out ≠ [] := List.ne_nil_of_mem hmem'
  have hcreated : about id out ≠ [.created id] := by
    intro heq
    rw [heq, List.mem_singleton] at hmem'
    cases hmem'
  have hnot : ¬FinishedLog id (about id out) := fun hlog => hfinished hlog.hasFinished
  cases hrun : s.run id with
  | none =>
    rcases h.ended id hrun with hmem | hlog | hlog
    · exact absurd hmem hlost
    · exact absurd hlog hnil
    · exact absurd hlog hnot
  | some run =>
    obtain ⟨hexec, hlocal⟩ := h.running id run hrun
    apply hlocal.active
    have hlog := hlocal.log
    rw [hexec] at hlog
    cases hstage : run.stage with
    | starting | acting | waiting | appending | sending | recording | purging | finishing
    | removing => rfl
    | creating =>
      rw [hstage] at hlog
      exact absurd hlog hnil
    | registering =>
      rw [hstage] at hlog
      exact absurd hlog hcreated
    | releasing =>
      rw [hstage] at hlog
      exact absurd hlog (not_or_intro hnil hnot)

/-- A created row has the status `Running`. -/
theorem Consistent.created {out o : List RunEvent} {s s' : LifecycleState} {a : LifecycleAction}
    {id : ExecutionId} (h : Consistent out s) (hst : s.Step texts a s' o) (hid : .created id ∈ o) :
    s'.status (ExecutionId.text id) = some (statusText .Running) := by
  cases hst with
  | advance id' inputs p p' run db' next o hup hrun hop =>
    cases hop with
    | create db' hstage hcreate =>
      cases List.mem_singleton.mp hid
      have hstatus : run.exec.status = .Running := by
        refine (h.running id' run ?_).2.status hstage
        exact (run_eq_lookup hup id').trans hrun
      show db'.runStatus (ExecutionId.text run.exec.id) = _
      rw [(runStatus_create hcreate _).2, if_pos rfl, hstatus]
    | start hstage | send stream content stage hfrom hto hless | finish hstage =>
      cases List.mem_singleton.mp hid
    | refuse hstage | register hstage | act db' stage hfrom hto hless hdb
    | record vars finishedAt db' hstage hdb | spawnPurge hstage | remove hstage
    | release hstage => exact absurd hid List.not_mem_nil
  | start hdown | startFailed hdown | crash p hup | begin_ a p run hup hid hstage hstatus
  | quiet a p p' db' hup hruns hactive hdb => exact absurd hid List.not_mem_nil

/-- Every status is `Running`, a terminal one, or that of the row in `db`. -/
def Written (db : Database) (s : LifecycleState) : Prop :=
  ∀ k status, s.status k = some status → db.runStatus k = some status ∨
    status = statusText .Running ∨
    ∃ terminal, isTerminal terminal = true ∧ status = statusText terminal

theorem Written.step {db : Database} {out o : List RunEvent} {s s' : LifecycleState}
    {a : LifecycleAction} (h : Written db s) (hs : Consistent out s)
    (hst : s.Step texts a s' o) : Written db s' := by
  intro k status hstatus
  rcases hs.step_status hst k with hsame | hgone | ⟨-, terminal, hterminal, hended⟩ |
    ⟨hrunning, -⟩
  · exact h k status (hsame ▸ hstatus)
  · rw [hgone] at hstatus
    cases hstatus
  · rw [hended] at hstatus
    exact .inr (.inr ⟨terminal, hterminal, (Option.some.inj hstatus).symm⟩)
  · rw [hrunning] at hstatus
    exact .inr (.inl (Option.some.inj hstatus).symm)

theorem run_consistent {db : Database} {s : LifecycleState}
    {tr : List (LifecycleAction × List RunEvent)}
    (h : (lifecycle texts platform db).Run FreshIds (lifecycle texts platform db).init tr s) :
    Consistent (Machine.outputs tr) s ∧ Written db s := by
  refine h.history (I := fun tr s => Consistent (Machine.outputs tr) s ∧ Written db s) ?_ ?_
  · exact ⟨Consistent.init db, fun k status hstatus => .inl hstatus⟩
  · rintro tr s a t o - ⟨hs, hw⟩ hfresh hst
    have hstep := lifecycleStep_spec hst
    rw [Machine.outputs_append, Machine.outputs_singleton]
    exact ⟨hs.step hfresh hstep, hw.step hs hstep⟩

section Run

variable {db : Database} {s t u : LifecycleState} {tr tr' : List (LifecycleAction × List RunEvent)}
  {out : List RunEvent} {k : String}

/-- Over a run, a status stays, ends a `Running`, or goes with its row. -/
theorem Consistent.status_of_run (hs : Consistent out s)
    (htr : (lifecycle texts platform db).Run FreshIds s tr t) {status : String}
    (hstatus : s.status k = some status) :
    t.status k = none ∨ t.status k = some status ∨ (status = statusText .Running ∧
      ∃ terminal, isTerminal terminal = true ∧ t.status k = some (statusText terminal)) := by
  have hkept : StatusKept (fun status' => status' = none ∨ status' = some status ∨
      (status = statusText .Running ∧
        ∃ terminal, isTerminal terminal = true ∧ status' = some (statusText terminal))) k s :=
    hs.statusKept (.inr (.inl hstatus)) (by rw [hstatus]; exact nofun)
  refine (hkept.run (.inl rfl) ?_ htr hs).status
  rintro (hnone | hrunning | ⟨hrunning, -⟩) terminal hterminal
  · cases hnone
  · exact .inr (.inr ⟨(Option.some.inj hrunning).symm, terminal, hterminal, rfl⟩)
  · exact .inr (.inr ⟨hrunning, terminal, hterminal, rfl⟩)

/-- A row that is deleted never comes back. -/
theorem Consistent.gone_of_run {out' : List RunEvent} (hs : Consistent out s)
    (htr : (lifecycle texts platform db).Run FreshIds s tr t) (ht : Consistent out' t)
    (htr' : (lifecycle texts platform db).Run FreshIds t tr' u) (hk : s.status k ≠ none)
    (hnone : t.status k = none) : u.status k = none := by
  have hkept : StatusKept (fun _ => True) k t :=
    (hs.statusKept trivial hk).run trivial (fun _ _ _ => trivial) htr hs
  have hgone : StatusKept (fun status => status = none) k t :=
    ⟨hnone, hkept.issued, hkept.inserted⟩
  exact (hgone.run (P := fun status => status = none) rfl nofun htr' ht).status

end Run

theorem db_of_purge {s t : LifecycleState} {purge : Purge} {settings : Option SystemSettings}
    {now : Chrono.DateTime} {sqlOk : Bool} {o : List RunEvent}
    (hst : lifecycleStep texts platform s (.purge purge settings now sqlOk) = some (t, o)) :
    t.db = purge.run texts settings now sqlOk s.db := by
  unfold lifecycleStep at hst
  split at hst
  · unfold processStep at hst
    dsimp only at hst
    split_ifs at hst
    cases hst
    rfl
  · cases hst

theorem db_of_start {s t : LifecycleState} {o : List RunEvent}
    (hst : lifecycleStep texts platform s (.start true) = some (t, o)) :
    t.db = recoverDanglingExecutions s.db := by
  cases lifecycleStep_spec hst with
  | start hdown => rfl
  | begin_ a p run hup hid hstage hstatus => cases hid
  | quiet a p p' db' hup hruns hactive hdb =>
    unfold lifecycleStep at hst
    rw [hup] at hst
    cases hst

/-- In every run of agent processes on a database, with crashes anywhere and with fresh
    ids for the executions:

    the events of an execution are one `execution.started` after its `create_run`, then
    `execution.output`s, then one `execution.finished`, or the beginning of that; all of
    them were sent when an execution with a `create_run` is over, unless a crash ended it;
    and an execution in progress can get there by its own operations;

    a created row has the status `Running`; whatever happens later, `Running` becomes
    at most a terminal status, another status stays, and a row that is gone stays gone;

    an execution with its `execution.started` and without its `execution.finished` is in
    `active_executions`, unless a crash ended it;

    a purge leaves a row with the status `Running` as it is;

    after a restart, each row that was `Running` is `Interrupted`, the other rows have
    their status, which is a terminal one or from the beginning, and none of these rows
    becomes `Running` later. -/
theorem execution_lifecycle (texts : Texts) (platform : Platform) (db : Database)
    {tr : List (LifecycleAction × List RunEvent)} {s : LifecycleState}
    (h : (lifecycle texts platform db).Run FreshIds (lifecycle texts platform db).init tr s) :
    ((∀ id, OrderedLog id (about id (Machine.outputs tr))) ∧
      (∀ id, .created id ∈ Machine.outputs tr → id ∉ s.lost → s.run id = none →
        FinishedLog id (about id (Machine.outputs tr))) ∧
      (∀ id run, s.run id = some run → ∃ tr' t,
        (lifecycle texts platform db).Run (OwnOperation id) s tr' t ∧ t.run id = none ∧
          (.created id ∈ Machine.outputs (tr ++ tr') →
            FinishedLog id (about id (Machine.outputs (tr ++ tr')))))) ∧
    ((∀ a t o id, lifecycleStep texts platform s a = some (t, o) → .created id ∈ o →
        t.status (ExecutionId.text id) = some (statusText .Running)) ∧
      (∀ tr' t, (lifecycle texts platform db).Run FreshIds s tr' t → ∀ k status,
        s.status k = some status →
          t.status k = none ∨ t.status k = some status ∨
          (status = statusText .Running ∧
            ∃ terminal, isTerminal terminal = true ∧ t.status k = some (statusText terminal))) ∧
      (∀ tr' t, (lifecycle texts platform db).Run FreshIds s tr' t →
        ∀ tr'' u, (lifecycle texts platform db).Run FreshIds t tr'' u →
          ∀ k, s.status k ≠ none → t.status k = none → u.status k = none)) ∧
    (∀ id, HasStarted id (Machine.outputs tr) → ¬HasFinished id (Machine.outputs tr) →
      id ∉ s.lost → s.isActive id = true) ∧
    (∀ purge settings now sqlOk t o,
      lifecycleStep texts platform s (.purge purge settings now sqlOk) = some (t, o) →
      ∀ k, s.status k = some (statusText .Running) →
        t.db.taskRuns.find k = s.db.taskRuns.find k) ∧
    (∀ t o, lifecycleStep texts platform s (.start true) = some (t, o) →
      (∀ k, t.status k = (s.status k).map fun status =>
        if status = statusText .Running then statusText .Interrupted else status) ∧
      (∀ k status, t.status k = some status →
        (∃ terminal, isTerminal terminal = true ∧ status = statusText terminal) ∨
          db.runStatus k = some status ∧ status ≠ statusText .Running) ∧
      (∀ tr' t', (lifecycle texts platform db).Run FreshIds t tr' t' →
        ∀ k, t.status k ≠ none → t'.status k ≠ some (statusText .Running))) := by
  obtain ⟨hs, hw⟩ := run_consistent h
  refine ⟨⟨hs.ordered, ?_, ?_⟩, ⟨?_, ?_, ?_⟩, fun id => hs.isActive, ?_, ?_⟩
  · intro id hcreated hlost hrun
    rcases hs.ended id hrun with hmem | hlog | hlog
    · exact absurd hmem hlost
    · exact absurd hlog (List.ne_nil_of_mem ((mem_about (.created id) rfl).mpr hcreated))
    · exact hlog
  · intro id run hrun
    obtain ⟨tr', t, htr', hnone, hevents⟩ : ∃ tr' t, (lifecycle texts platform db).Run
        (OwnOperation id) s tr' t ∧ t.run id = none ∧
          (about id (Machine.outputs tr ++ Machine.outputs tr') = [] ∨
            FinishedLog id (about id (Machine.outputs tr ++ Machine.outputs tr'))) :=
      hs.ends hrun
    refine ⟨tr', t, htr', hnone, fun hcreated => ?_⟩
    rw [Machine.outputs_append] at hcreated ⊢
    rcases hevents with hlog | hlog
    · exact absurd hlog (List.ne_nil_of_mem ((mem_about (.created id) rfl).mpr hcreated))
    · exact hlog
  · intro a t o id hst hcreated
    exact hs.created (lifecycleStep_spec hst) hcreated
  · exact fun tr' t htr' k status => hs.status_of_run htr'
  · intro tr' t htr' tr'' u htr'' k
    exact hs.gone_of_run htr' (run_consistent (h.append htr')).1 htr''
  · intro purge settings now sqlOk t o hst k hrunning
    rw [db_of_purge hst]
    exact (find_purgeRun purge settings now sqlOk s.db k).2 hrunning
  · intro t o hst
    have hstep := lifecycleStep_spec hst
    have hrecovered := db_of_start hst
    have hne : ∀ k, t.status k ≠ some (statusText .Running) := by
      intro k
      rw [LifecycleState.status, hrecovered]
      exact runStatus_recover_ne k
    have ht : Consistent (Machine.outputs tr ++ o) t := by
      apply hs.step _ hstep
      exact nofun
    refine ⟨?_, ?_, ?_⟩
    · intro k
      rw [LifecycleState.status, hrecovered]
      exact runStatus_recover k
    · intro k status hstatus
      rcases hw.step hs hstep k status hstatus with hold | hrunning | hterminal
      · refine .inr ⟨hold, ?_⟩
        rintro rfl
        exact hne k hstatus
      · rw [hrunning] at hstatus
        exact absurd hstatus (hne k)
      · exact .inl hterminal
    · intro tr' t' htr' k hk
      have hkept : StatusKept (fun status => status ≠ some (statusText .Running)) k t :=
        ht.statusKept (hne k) hk
      refine (hkept.run nofun ?_ htr' ht).status
      exact fun hP => absurd rfl hP

/-! ## A run with a crash -/

/-- A process that is started, writes an `a`, and exits with code 0. -/
def succeedingInputs : RunInputs := ⟨true, 0, .ok (), .exited (some 0), ⟨[[97]], []⟩⟩

def storedTask : Database :=
  Database.empty.upsertTask (TaskRow.ofTask twoActionsTexts twoActions)
    (TaskRow.ofTask twoActionsTexts twoActions).update (TaskRow.update_id _)

/-- An execution from its dispatch to its end with its purge, and a second one that a crash
    ends in its first action. -/
def crashActions : List LifecycleAction :=
  [.start true, .dispatch twoActions ⟨1⟩ none 0 0 0] ++
    List.replicate 17 (.advance ⟨1⟩ succeedingInputs) ++
    [.purge ⟨twoActions.id, twoActions.executionPolicy.logRetention⟩ none 0 true,
      .triggerNow twoActions ⟨2⟩ 0 0 0] ++
    List.replicate 4 (.advance ⟨2⟩ succeedingInputs) ++ [.cancel ⟨2⟩, .crash]

def crashMachine : Machine LifecycleState LifecycleAction RunEvent :=
  lifecycle twoActionsTexts .unix storedTask

theorem crashActions_possible :
    (crashMachine.exec FreshIds crashMachine.init crashActions).isSome = true := by
  decide +kernel

def crashTrace : List (LifecycleAction × List RunEvent) :=
  ((crashMachine.exec FreshIds crashMachine.init crashActions).get crashActions_possible).1

/-- The state after the crash. -/
def crashState : LifecycleState :=
  ((crashMachine.exec FreshIds crashMachine.init crashActions).get crashActions_possible).2

theorem crashTrace_run : crashMachine.Run FreshIds crashMachine.init crashTrace crashState :=
  Machine.exec_get_run crashActions_possible

theorem crashState_facts :
    (.created ⟨1⟩ ∈ Machine.outputs crashTrace ∧ ⟨1⟩ ∉ crashState.lost ∧
      (crashState.run ⟨1⟩).isNone = true) ∧
    crashState.process.isNone = true ∧
    crashState.status (ExecutionId.text ⟨2⟩) = some (statusText .Running) := by
  decide +kernel

/-- The first execution sent all its events, and a restart interrupts the second. -/
theorem execution_lifecycle_crash :
    FinishedLog ⟨1⟩ (about ⟨1⟩ (Machine.outputs crashTrace)) ∧
    ∃ t, lifecycleStep twoActionsTexts .unix crashState (.start true) = some (t, []) ∧
      t.status (ExecutionId.text ⟨2⟩) = some (statusText .Interrupted) := by
  obtain ⟨⟨hcreated, hlost, hrun⟩, hdown, hrunning⟩ := crashState_facts
  have h := execution_lifecycle twoActionsTexts .unix storedTask crashTrace_run
  have hstart : lifecycleStep twoActionsTexts .unix crashState (.start true) =
      some ({ crashState with
        db := recoverDanglingExecutions crashState.db, process := some .new }, []) := by
    rw [lifecycleStep, Option.isNone_iff_eq_none.mp hdown]
  refine ⟨h.1.2.1 ⟨1⟩ hcreated hlost (Option.isNone_iff_eq_none.mp hrun), _, hstart, ?_⟩
  rw [(h.2.2.2.2 _ [] hstart).1, hrunning, Option.map_some, if_pos rfl]

end EasyJob.Agent
