import EasyJob.Domain.Task
import EasyJob.Lib.Transition

/-!
# The execution store of the desktop application

Model of `apps/desktop/src/stores/executionStore.ts` (lines 40–170) and of
`handleTrigger` (`views/TasksView.vue` lines 85–102), together with what they talk
to: the agent's runs, and the events, replies of `task.trigger_now` and listings
that are on their way from it. The page runs one callback at a time; everything
that is on its way can arrive in any order.

* `finished_stays_finished`: an execution whose finished event has been handled is
  not shown as running, as long as no listing from before and no second entry is.
* `running_again`: a listing from before the finished event shows it again.
* `executions_unique`: no execution is listed twice, as long as none is added that is
  listed already.
* `listed_twice`: the listing that the started event asks for comes before the reply.
-/

namespace EasyJob.Frontend

open EasyJob.Chrono EasyJob.Domain Transition

/-! ## The store -/

def maxLinesPerExecution : ℕ := 2000

def maxCachedExecutions : ℕ := 50

/-- An entry of `finishedExecutions`: how an execution has ended. -/
structure Finished where
  status : ExecutionStatus
  durationMs : Option ℕ
  exitCode : Option ℤ
  errorMessage : Option String
  ended : status ≠ .Running
  deriving DecidableEq

/-- What the agent records at the end of a run. -/
def Finished.record (finished : Finished) (finishedAt : DateTime) (run : Execution) : Execution :=
  { run with
    status := finished.status
    finishedAt := some finishedAt
    durationMs := finished.durationMs
    exitCode := finished.exitCode
    errorMessage := finished.errorMessage }

structure ExecutionStore where
  executions : List Execution
  /-- The lines of each execution; the object's keys are in the order of insertion. -/
  logs : List (ExecutionId × List String)
  activeExecutionId : Option ExecutionId
  loading : Bool
  finishedExecutions : List (ExecutionId × Finished)
  deriving DecidableEq

namespace ExecutionStore

def empty : ExecutionStore := ⟨[], [], none, false, []⟩

/-- The assignments of lines 43–46 and 150–159: what is known of the end replaces what the
    execution says. -/
def finish (exec : Execution) (finished : Finished) : Execution :=
  { exec with
    status := finished.status
    durationMs := finished.durationMs.or exec.durationMs
    exitCode := finished.exitCode.or exec.exitCode
    errorMessage := finished.errorMessage.or exec.errorMessage }

/-- Model of `addExecution` (lines 40–50). -/
def addExecution (s : ExecutionStore) (exec : Execution) : ExecutionStore :=
  let exec :=
    match s.finishedExecutions.lookup exec.id with
    | some finished => finish exec finished
    | none => exec
  { s with executions := exec :: s.executions, activeExecutionId := some exec.id }

/-- `loadExecutions` (lines 56–63) up to its request. -/
def startLoading (s : ExecutionStore) : ExecutionStore := { s with loading := true }

/-- The rest of `loadExecutions`, after the response or a failure. -/
def loaded (s : ExecutionStore) (listing : Option (List Execution)) : ExecutionStore :=
  { s with executions := listing.getD s.executions, loading := false }

/-- The assignment `logs.value[id] = lines`. -/
def setLog (logs : List (ExecutionId × List String)) (id : ExecutionId) (lines : List String) :
    List (ExecutionId × List String) :=
  if (logs.lookup id).isSome then logs.map fun log => if log.1 = id then (id, lines) else log
  else logs ++ [(id, lines)]

/-- Model of `appendLog` (lines 69–82). -/
def appendLog (s : ExecutionStore) (id : ExecutionId) (content : String) : ExecutionStore :=
  let logs :=
    match s.logs.lookup id with
    | some _ => s.logs
    -- evict the oldest execution
    | none => setLog (if maxCachedExecutions ≤ s.logs.length then s.logs.tail else s.logs) id []
  let lines := (logs.lookup id).getD [] ++ [content]
  { s with logs := setLog logs id (lines.drop (lines.length - maxLinesPerExecution)) }

/-- The response in `fetchExecutionLogs` (lines 84–95). -/
def logsFetched (s : ExecutionStore) (id : ExecutionId) (records : List String) : ExecutionStore :=
  if records.isEmpty then s else { s with logs := setLog s.logs id records }

/-- The assignments to `target`, the first entry of this execution (lines 147–159). -/
def patchTarget (id : ExecutionId) (finished : Finished) : List Execution → List Execution
  | [] => []
  | exec :: execs =>
    if exec.id = id then finish exec finished :: execs
    else exec :: patchTarget id finished execs

/-- The handler of `execution.finished` (lines 137–160) up to its requests. -/
def onFinished (s : ExecutionStore) (id : ExecutionId) (finished : Finished) : ExecutionStore :=
  { s with
    finishedExecutions := (id, finished) :: s.finishedExecutions
    executions := patchTarget id finished s.executions }

end ExecutionStore

/-! ## The page and the agent -/

inductive AgentEvent
  | started (id : ExecutionId)
  | output (id : ExecutionId) (content : String)
  | finished (id : ExecutionId) (finished : Finished)
  deriving DecidableEq

structure Page where
  store : ExecutionStore
  /-- The runs that the agent has recorded. -/
  runs : List Execution
  /-- The executions that there have been. -/
  used : List ExecutionId
  /-- The events that have been sent and not handled. -/
  events : List AgentEvent
  /-- The executions returned by `task.trigger_now` that have not arrived. -/
  replies : List Execution
  /-- The requests of `loadExecutions`: each without an answer, or with the listing that
      is on its way. -/
  loads : List (Option (List Execution))
  deriving DecidableEq

inductive PageAction
  /-- The agent records a new run, for `task.trigger_now` or by itself. -/
  | start (exec : Execution) (triggered : Bool)
  | output (id : ExecutionId) (content : String)
  /-- The agent records the end of a run. -/
  | finish (id : ExecutionId) (finished : Finished) (finishedAt : DateTime)
  /-- The retention purge deletes a run. -/
  | purge (id : ExecutionId)
  /-- A view calls `loadExecutions`. -/
  | load
  /-- The agent answers the `i`-th request with a listing of some of its runs. -/
  | answer (i : ℕ) (listing : List Execution)
  /-- The response to the `i`-th request arrives. -/
  | respond (i : ℕ)
  | loadFails (i : ℕ)
  /-- The `i`-th reply arrives in `handleTrigger`. -/
  | reply (i : ℕ)
  /-- The `i`-th event is handled. -/
  | handle (i : ℕ)
  /-- The records of `getExecutionOutput` arrive. -/
  | logsFetched (id : ExecutionId) (records : List String)

/-- The listing shows runs of the agent, each once. -/
def Page.Lists (p : Page) (listing : List Execution) : Prop :=
  (∀ exec ∈ listing, exec ∈ p.runs) ∧ (listing.map Execution.id).Nodup

instance (p : Page) (listing : List Execution) : Decidable (p.Lists listing) :=
  inferInstanceAs (Decidable (_ ∧ _))

/-- `loadExecutions` begins. -/
def Page.requestLoad (p : Page) : Page :=
  { p with store := p.store.startLoading, loads := p.loads ++ [none] }

/-- The handler of an event (lines 122–167). -/
def Page.handle (p : Page) : AgentEvent → Page
  | .started _ => p.requestLoad
  | .output id content => { p with store := p.store.appendLog id content }
  | .finished id finished => { p with store := p.store.onFinished id finished }.requestLoad

/-- The execution whose finished event this is. -/
def AgentEvent.finishedId : AgentEvent → List ExecutionId
  | .finished id _ => [id]
  | _ => []

/-- One step of the page or of the agent; the outputs are the executions whose finished
    event it handles. -/
def pageStep (p : Page) (a : PageAction) : Option (Page × List ExecutionId) :=
  match a with
  | .start exec triggered =>
    if exec.id ∈ p.used then none
    else
      some ({ p with
        runs := exec :: p.runs
        used := exec.id :: p.used
        events := p.events ++ [.started exec.id]
        replies := if triggered then p.replies ++ [exec] else p.replies }, [])
  | .output id content => some ({ p with events := p.events ++ [.output id content] }, [])
  | .finish id finished finishedAt =>
    if p.runs.any fun run => run.id = id then
      some ({ p with
        runs := p.runs.map fun run =>
          if run.id = id then finished.record finishedAt run else run
        events := p.events ++ [.finished id finished] }, [])
    else none
  | .purge id => some ({ p with runs := p.runs.filter fun run => run.id ≠ id }, [])
  | .load => some (p.requestLoad, [])
  | .answer i listing =>
    if p.loads[i]? = some none ∧ p.Lists listing then
      some ({ p with loads := p.loads.set i (some listing) }, [])
    else none
  | .respond i =>
    match p.loads[i]? with
    | some (some listing) =>
      some ({ p with store := p.store.loaded (some listing), loads := p.loads.eraseIdx i }, [])
    | _ => none
  | .loadFails i =>
    match p.loads[i]? with
    | some _ => some ({ p with store := p.store.loaded none, loads := p.loads.eraseIdx i }, [])
    | none => none
  | .reply i =>
    match p.replies[i]? with
    | some exec =>
      some ({ p with store := p.store.addExecution exec, replies := p.replies.eraseIdx i }, [])
    | none => none
  | .handle i =>
    match p.events[i]? with
    | some event => some ({ p with events := p.events.eraseIdx i }.handle event, event.finishedId)
    | none => none
  | .logsFetched id records => some ({ p with store := p.store.logsFetched id records }, [])

/-- A page that opens when the agent has recorded `runs`. -/
def page (runs : List Execution) : Machine Page PageAction ExecutionId where
  init := ⟨.empty, runs, runs.map Execution.id, [], [], []⟩
  step := pageStep

/-! ## Finished executions -/

namespace ExecutionStore

@[simp] theorem finish_id (exec : Execution) (finished : Finished) :
    (finish exec finished).id = exec.id := rfl

theorem finish_status (exec : Execution) (finished : Finished) :
    (finish exec finished).status ≠ .Running := finished.ended

theorem addExecution_executions (s : ExecutionStore) (exec : Execution) :
    ∃ exec', (s.addExecution exec).executions = exec' :: s.executions ∧ exec'.id = exec.id ∧
      ((s.finishedExecutions.lookup exec.id).isSome → exec'.status ≠ .Running) := by
  refine ⟨_, rfl, ?_, ?_⟩
  · split <;> rfl
  · intro h
    obtain ⟨finished, hfinished⟩ := Option.isSome_iff_exists.mp h
    rw [hfinished]
    exact finish_status exec finished

@[simp] theorem logsFetched_executions (s : ExecutionStore) (id : ExecutionId)
    (records : List String) : (s.logsFetched id records).executions = s.executions := by
  unfold logsFetched
  split <;> rfl

@[simp] theorem logsFetched_finishedExecutions (s : ExecutionStore) (id : ExecutionId)
    (records : List String) :
    (s.logsFetched id records).finishedExecutions = s.finishedExecutions := by
  unfold logsFetched
  split <;> rfl

@[simp] theorem patchTarget_ids (id : ExecutionId) (finished : Finished)
    (execs : List Execution) :
    (patchTarget id finished execs).map Execution.id = execs.map Execution.id := by
  induction execs with
  | nil => rfl
  | cons exec execs ih =>
    rw [patchTarget]
    split
    · rfl
    · rw [List.map_cons, List.map_cons, ih]

/-- The other executions stay as they are. -/
theorem mem_patchTarget_of_ne {id : ExecutionId} {finished : Finished} {execs : List Execution}
    {exec : Execution} (hne : exec.id ≠ id) :
    exec ∈ patchTarget id finished execs ↔ exec ∈ execs := by
  induction execs with
  | nil => rfl
  | cons e execs ih =>
    rw [patchTarget]
    split
    · rename_i he
      have hfinish : exec ≠ finish e finished := fun h => hne (h ▸ he)
      have hother : exec ≠ e := fun h => hne (h ▸ he)
      simp [hfinish, hother]
    · simp [ih]

/-- Of the entries of this execution, the first one is changed. -/
theorem filter_patchTarget (id : ExecutionId) (finished : Finished) (execs : List Execution) :
    (patchTarget id finished execs).filter (fun e => e.id = id) =
      (execs.filter fun e => e.id = id).modifyHead fun e => finish e finished := by
  induction execs with
  | nil => rfl
  | cons e execs ih =>
    rw [patchTarget]
    split
    · rename_i he
      simp [he]
    · rename_i he
      simp [he, ih]

end ExecutionStore

/-- No entry shows an execution as running whose finished event has been handled. -/
def Page.StaysFinished (handled : List ExecutionId) (p : Page) : Prop :=
  ∀ exec ∈ p.store.executions, exec.id ∈ handled → exec.status ≠ .Running

/-- `finishedExecutions` has an entry for each handled finished event. -/
def Page.Records (handled : List ExecutionId) (p : Page) : Prop :=
  ∀ id, (p.store.finishedExecutions.lookup id).isSome ↔ id ∈ handled

/-- The entries after the first one of the execution whose finished event is the `i`-th. -/
def Page.otherEntries (p : Page) (i : ℕ) : List Execution :=
  match p.events[i]? with
  | some (.finished id _) => (p.store.executions.filter fun exec => exec.id = id).tail
  | _ => []

/-- No listing arrives that shows an execution as running whose finished event has been
    handled, and when one is handled, no second entry of its execution is running. -/
def KeepsFinished (p : Page) : PageAction → Prop
  | .respond i => ∀ exec ∈ p.loads[i]?.join.getD [], exec.status = .Running →
      p.store.finishedExecutions.lookup exec.id = none
  | .handle i => ∀ exec ∈ p.otherEntries i, exec.status ≠ .Running
  | _ => True

instance (p : Page) : DecidablePred (KeepsFinished p)
  | .respond _ => inferInstanceAs (Decidable (∀ exec ∈ _, _ → _))
  | .handle _ => inferInstanceAs (Decidable (∀ exec ∈ _, _))
  | .start _ _ | .output _ _ | .finish _ _ _ | .purge _ | .load | .answer _ _ | .loadFails _
  | .reply _ | .logsFetched _ _ => isTrue trivial

/-- No reply arrives for an execution that is listed already. -/
def AddsNew (p : Page) : PageAction → Prop
  | .reply i => ∀ exec ∈ p.replies[i]?, exec.id ∉ p.store.executions.map Execution.id
  | _ => True

instance (p : Page) : DecidablePred (AddsNew p)
  | .reply _ => inferInstanceAs (Decidable (∀ exec ∈ _, _))
  | .start _ _ | .output _ _ | .finish _ _ _ | .purge _ | .load | .answer _ _ | .respond _
  | .loadFails _ | .handle _ | .logsFetched _ _ => isTrue trivial

section Steps

variable {p p' : Page} {a : PageAction} {handled o : List ExecutionId}

/-- The step leaves the store's list and its map of finished executions alone. -/
structure SameStore (p p' : Page) : Prop where
  executions : p'.store.executions = p.store.executions
  finishedExecutions : p'.store.finishedExecutions = p.store.finishedExecutions

/-- What a step does to the list and the map: nothing, or it is one of the three writers. -/
theorem pageStep_cases (hst : pageStep p a = some (p', o)) :
    (SameStore p p' ∧ o = [] ∧ KeepsFinished p a ∧ AddsNew p a) ∨
    (∃ i listing, a = .respond i ∧ p.loads[i]? = some (some listing) ∧
      p'.store = p.store.loaded (some listing) ∧ o = []) ∨
    (∃ i exec, a = .reply i ∧ p.replies[i]? = some exec ∧
      p'.store = p.store.addExecution exec ∧ o = []) ∨
    ∃ i id finished, a = .handle i ∧ p.events[i]? = some (.finished id finished) ∧
      p'.store = (p.store.onFinished id finished).startLoading ∧ o = [id] := by
  cases a with
  | start exec triggered =>
    simp only [pageStep] at hst
    split at hst
    · cases hst
    · cases hst
      exact .inl ⟨⟨rfl, rfl⟩, rfl, trivial, trivial⟩
  | output | purge | load =>
    cases hst
    exact .inl ⟨⟨rfl, rfl⟩, rfl, trivial, trivial⟩
  | logsFetched id records =>
    cases hst
    exact .inl ⟨⟨by simp, by simp⟩, rfl, trivial, trivial⟩
  | finish id finished finishedAt =>
    simp only [pageStep] at hst
    split at hst
    · cases hst
      exact .inl ⟨⟨rfl, rfl⟩, rfl, trivial, trivial⟩
    · cases hst
  | answer i listing =>
    simp only [pageStep] at hst
    split at hst
    · cases hst
      exact .inl ⟨⟨rfl, rfl⟩, rfl, trivial, trivial⟩
    · cases hst
  | respond i =>
    simp only [pageStep] at hst
    split at hst
    · rename_i listing hload
      cases hst
      exact .inr (.inl ⟨i, listing, rfl, hload, rfl, rfl⟩)
    · cases hst
  | loadFails i =>
    simp only [pageStep] at hst
    split at hst
    · cases hst
      exact .inl ⟨⟨rfl, rfl⟩, rfl, trivial, trivial⟩
    · cases hst
  | reply i =>
    simp only [pageStep] at hst
    split at hst
    · rename_i exec hreply
      cases hst
      exact .inr (.inr (.inl ⟨i, exec, rfl, hreply, rfl, rfl⟩))
    · cases hst
  | handle i =>
    simp only [pageStep] at hst
    split at hst
    · rename_i event hevent
      cases hst
      cases event with
      | started id =>
        exact .inl ⟨⟨rfl, rfl⟩, rfl, by simp [KeepsFinished, Page.otherEntries, hevent], trivial⟩
      | output id content =>
        exact .inl ⟨⟨rfl, rfl⟩, rfl, by simp [KeepsFinished, Page.otherEntries, hevent], trivial⟩
      | finished id finished =>
        exact .inr (.inr (.inr ⟨i, id, finished, rfl, hevent, rfl, rfl⟩))
    · cases hst

theorem Page.Records.step (h : p.Records handled) (hst : pageStep p a = some (p', o)) :
    p'.Records (handled ++ o) := by
  intro id
  rcases pageStep_cases hst with ⟨hsame, rfl, -⟩ | ⟨i, listing, -, -, hstore, rfl⟩ |
    ⟨i, exec, -, -, hstore, rfl⟩ | ⟨i, id', finished, -, -, hstore, rfl⟩
  · rw [hsame.finishedExecutions, List.append_nil]
    exact h id
  · rw [hstore, List.append_nil]
    exact h id
  · rw [hstore, List.append_nil]
    exact h id
  · rw [hstore]
    show (List.lookup id ((id', finished) :: p.store.finishedExecutions)).isSome ↔ _
    rw [List.lookup_cons, List.mem_append, List.mem_singleton]
    by_cases hid : id = id'
    · simp [hid]
    · have hbeq : (id == id') = false := beq_eq_false_iff_ne.mpr hid
      rw [hbeq, or_iff_left hid]
      exact h id

/-- The step lemma: a step lets the finished executions stay finished exactly if it keeps
    the condition. -/
theorem staysFinished_step_iff (hr : p.Records handled) (h : p.StaysFinished handled)
    (hst : pageStep p a = some (p', o)) :
    p'.StaysFinished (handled ++ o) ↔ KeepsFinished p a := by
  rcases pageStep_cases hst with ⟨hsame, rfl, hkeeps, -⟩ | ⟨i, listing, rfl, hload, hstore, rfl⟩ |
    ⟨i, exec, rfl, hreply, hstore, rfl⟩ | ⟨i, id, finished, rfl, hevent, hstore, rfl⟩
  · rw [Page.StaysFinished, hsame.executions, List.append_nil]
    exact ⟨fun _ => hkeeps, fun _ => h⟩
  · have hnone (exec : Execution) :
        p.store.finishedExecutions.lookup exec.id = none ↔ exec.id ∉ handled := by
      rw [← hr exec.id, Option.not_isSome_iff_eq_none]
    simp only [KeepsFinished, hload, Option.join_some, Option.getD_some, hnone]
    rw [Page.StaysFinished, hstore, List.append_nil]
    exact forall₂_congr fun exec _ => imp_not_comm
  · obtain ⟨exec', hexecs, hid, hfinished⟩ := p.store.addExecution_executions exec
    rw [Page.StaysFinished, hstore, hexecs, List.append_nil]
    refine ⟨fun _ => trivial, fun _ e he hhandled => ?_⟩
    rcases List.mem_cons.mp he with rfl | he
    · exact hfinished ((hr _).mpr (hid ▸ hhandled))
    · exact h e he hhandled
  · have hexecs : p'.store.executions =
        ExecutionStore.patchTarget id finished p.store.executions := by rw [hstore]; rfl
    -- the entries of this execution after the step: the first one has its end
    have hentries := ExecutionStore.filter_patchTarget id finished p.store.executions
    rw [← hexecs] at hentries
    simp only [KeepsFinished, Page.otherEntries, hevent]
    generalize hfilter : (p.store.executions.filter fun e => e.id = id) = entries at hentries ⊢
    constructor
    · intro hstays exec hexec
      have hmem : exec ∈ p'.store.executions.filter fun e => e.id = id := by
        rw [hentries]
        cases entries with
        | nil => cases hexec
        | cons e es => exact List.mem_cons_of_mem _ hexec
      have hid : exec.id = id := by simpa using (List.mem_filter.mp hmem).2
      refine hstays exec (List.mem_filter.mp hmem).1 ?_
      rw [hid]
      exact List.mem_append_right _ (List.mem_singleton.mpr rfl)
    · intro hothers exec hexec hhandled
      by_cases hid : exec.id = id
      · have hmem : exec ∈ p'.store.executions.filter fun e => e.id = id :=
          List.mem_filter.mpr ⟨hexec, by simpa using hid⟩
        rw [hentries] at hmem
        cases entries with
        | nil => cases hmem
        | cons e es =>
          rcases List.mem_cons.mp hmem with rfl | hmem
          · exact ExecutionStore.finish_status e finished
          · exact hothers exec hmem
      · rw [hexecs] at hexec
        refine h exec ((ExecutionStore.mem_patchTarget_of_ne hid).mp hexec) ?_
        rcases List.mem_append.mp hhandled with hhandled | hhandled
        · exact hhandled
        · exact absurd (List.mem_singleton.mp hhandled) hid

/-- The listings on their way show each run once. -/
def Page.LoadsUnique (p : Page) : Prop :=
  ∀ listing, some listing ∈ p.loads → (listing.map Execution.id).Nodup

/-- No execution is listed twice. -/
def Page.Unique (p : Page) : Prop := (p.store.executions.map Execution.id).Nodup

theorem Page.LoadsUnique.step (h : p.LoadsUnique) (hst : pageStep p a = some (p', o)) :
    p'.LoadsUnique := by
  have herase (i : ℕ) (store : ExecutionStore) :
      { p with store := store, loads := p.loads.eraseIdx i }.LoadsUnique :=
    fun listing hmem => h listing (List.mem_of_mem_eraseIdx hmem)
  have hrequest (q : Page) (hq : q.loads = p.loads) : q.requestLoad.LoadsUnique := by
    intro listing hmem
    rcases List.mem_append.mp hmem with hmem | hmem
    · exact h listing (hq ▸ hmem)
    · cases List.mem_singleton.mp hmem
  cases a with
  | start exec triggered =>
    simp only [pageStep] at hst
    split at hst
    · cases hst
    · cases hst
      exact h
  | output id content | purge id | logsFetched id records =>
    cases hst
    exact h
  | load =>
    cases hst
    exact hrequest p rfl
  | finish id finished finishedAt =>
    simp only [pageStep] at hst
    split at hst
    · cases hst
      exact h
    · cases hst
  | answer i listing =>
    simp only [pageStep] at hst
    split at hst
    · rename_i hanswer
      cases hst
      intro listing' hmem
      rcases List.mem_or_eq_of_mem_set hmem with hmem | heq
      · exact h listing' hmem
      · cases heq
        exact hanswer.2.2
    · cases hst
  | respond i =>
    simp only [pageStep] at hst
    split at hst
    · cases hst
      exact herase i _
    · cases hst
  | loadFails i =>
    simp only [pageStep] at hst
    split at hst
    · cases hst
      exact herase i _
    · cases hst
  | reply i =>
    simp only [pageStep] at hst
    split at hst
    · cases hst
      exact h
    · cases hst
  | handle i =>
    simp only [pageStep] at hst
    split at hst
    · rename_i event _
      cases hst
      cases event with
      | started id => exact hrequest _ rfl
      | output id content => exact h
      | finished id finished => exact hrequest _ rfl
    · cases hst

/-- The step lemma: a step lists no execution twice exactly if it adds a new one. -/
theorem unique_step_iff (hl : p.LoadsUnique) (h : p.Unique)
    (hst : pageStep p a = some (p', o)) : p'.Unique ↔ AddsNew p a := by
  unfold Page.Unique at h ⊢
  rcases pageStep_cases hst with ⟨hsame, -, -, hnew⟩ | ⟨i, listing, rfl, hload, hstore, -⟩ |
    ⟨i, exec, rfl, hreply, hstore, -⟩ | ⟨i, id, finished, rfl, -, hstore, -⟩
  · rw [hsame.executions]
    exact ⟨fun _ => hnew, fun _ => h⟩
  · rw [hstore]
    exact ⟨fun _ => trivial, fun _ => hl listing (List.mem_of_getElem? hload)⟩
  · obtain ⟨exec', hexecs, hid, -⟩ := p.store.addExecution_executions exec
    rw [hstore, hexecs, List.map_cons, List.nodup_cons, hid]
    simp only [AddsNew, hreply, Option.mem_def, Option.some.injEq, forall_eq']
    exact ⟨fun hnodup => hnodup.1, fun hnew => ⟨hnew, h⟩⟩
  · have hexecs : p'.store.executions =
        ExecutionStore.patchTarget id finished p.store.executions := by rw [hstore]; rfl
    rw [hexecs, ExecutionStore.patchTarget_ids]
    exact ⟨fun _ => trivial, fun _ => h⟩

end Steps

/-! ## Whole sessions -/

section Runs

variable {runs : List Execution} {tr : List (PageAction × List ExecutionId)} {p : Page}
  {ok : Page → PageAction → Prop}

theorem page_records (h : (page runs).Run ok (page runs).init tr p) :
    p.Records (Machine.outputs tr) := by
  refine h.history (I := fun tr p => p.Records (Machine.outputs tr)) (fun id => ?_) ?_
  · simp [page, ExecutionStore.empty]
  · intro tr p a p' o _ hr _ hst
    rw [Machine.outputs_append, Machine.outputs_singleton]
    exact Page.Records.step hr hst

theorem page_loadsUnique (h : (page runs).Run ok (page runs).init tr p) : p.LoadsUnique :=
  h.invariant (fun _ hmem => by cases hmem) fun _ _ _ _ hl _ hst => hl.step hst

/-- When does a finished execution stay finished? Along every sequence of steps that keep
    the condition, no entry shows an execution as running whose finished event has been
    handled; and the first step that does not keep it leads to such an entry. -/
theorem finished_stays_finished (h : (page runs).Run KeepsFinished (page runs).init tr p) :
    p.StaysFinished (Machine.outputs tr) ∧ ∀ a p' o, pageStep p a = some (p', o) →
      (p'.StaysFinished (Machine.outputs tr ++ o) ↔ KeepsFinished p a) := by
  have hstays : p.StaysFinished (Machine.outputs tr) := by
    refine h.history (I := fun tr p => p.StaysFinished (Machine.outputs tr)) ?_ ?_
    · intro exec hexec
      cases hexec
    · intro tr p a p' o hrun hp hok hst
      rw [Machine.outputs_append, Machine.outputs_singleton]
      exact (staysFinished_step_iff (page_records hrun) hp hst).mpr hok
  exact ⟨hstays, fun a p' o hst => staysFinished_step_iff (page_records h) hstays hst⟩

/-- When is no execution listed twice? Along every sequence of steps in which no reply
    arrives for an execution that is listed already; and the first such reply lists it
    twice. -/
theorem executions_unique (h : (page runs).Run AddsNew (page runs).init tr p) :
    p.Unique ∧ ∀ a p' o, pageStep p a = some (p', o) → (p'.Unique ↔ AddsNew p a) := by
  have hunique : p.Unique := by
    refine h.history (I := fun _ p => p.Unique) List.nodup_nil ?_
    intro tr p a p' o hrun hp hok hst
    exact (unique_step_iff (page_loadsUnique hrun) hp hst).mpr hok
  exact ⟨hunique, fun a p' o hst => unique_step_iff (page_loadsUnique h) hunique hst⟩

end Runs

/-! ## One execution -/

def runningExecution : Execution :=
  { Execution.new ⟨1⟩ ⟨1⟩ none none 0 with status := .Running }

def succeeded : Finished := ⟨.Succeeded, some 5, some 0, none, by decide⟩

/-- The reply arrives first, and each listing before the next event. -/
def orderlyActions : List PageAction :=
  [.start runningExecution true, .reply 0, .handle 0, .answer 0 [runningExecution], .respond 0,
   .finish ⟨1⟩ succeeded 5, .handle 0, .answer 0 [succeeded.record 5 runningExecution], .respond 0]

/-- The listing that the started event asks for is answered while the execution runs, and
    arrives after its finished event. -/
def lateListingActions : List PageAction :=
  [.start runningExecution false, .handle 0, .answer 0 [runningExecution],
   .finish ⟨1⟩ succeeded 5, .handle 0, .respond 0]

/-- The listing that the started event asks for arrives before the reply. -/
def lateReplyActions : List PageAction :=
  [.start runningExecution true, .handle 0, .answer 0 [runningExecution], .respond 0, .reply 0]

theorem orderlyActions_possible :
    ((page []).exec KeepsFinished (page []).init orderlyActions).isSome = true ∧
      ((page []).exec AddsNew (page []).init orderlyActions).isSome = true := by decide

theorem finished_stays_finished_orderly :
    (((page []).exec KeepsFinished (page []).init orderlyActions).get
      orderlyActions_possible.1).2.StaysFinished [⟨1⟩] := by
  have h := (finished_stays_finished (Machine.exec_get_run orderlyActions_possible.1)).1
  have houtputs : Machine.outputs (((page []).exec KeepsFinished (page []).init
      orderlyActions).get orderlyActions_possible.1).1 = [⟨1⟩] := by decide
  rwa [houtputs] at h

theorem executions_unique_orderly :
    (((page []).exec AddsNew (page []).init orderlyActions).get
      orderlyActions_possible.2).2.Unique :=
  (executions_unique (Machine.exec_get_run orderlyActions_possible.2)).1

theorem lateListingActions_possible :
    ((page []).exec Machine.anyStep (page []).init lateListingActions).isSome = true := by decide

theorem lateReplyActions_possible :
    ((page []).exec Machine.anyStep (page []).init lateReplyActions).isSome = true := by decide

/-- The finished event has been handled, and the list shows the execution as running. -/
theorem running_again :
    ∃ tr p, (page []).Run Machine.anyStep (page []).init tr p ∧
      ⟨1⟩ ∈ Machine.outputs tr ∧ p.store.executions = [runningExecution] ∧
      ¬p.StaysFinished (Machine.outputs tr) := by
  have hrun := Machine.exec_get_run lateListingActions_possible
  have hhandled : (⟨1⟩ : ExecutionId) ∈ Machine.outputs (((page []).exec Machine.anyStep
      (page []).init lateListingActions).get lateListingActions_possible).1 := by decide
  refine ⟨_, _, hrun, hhandled, by decide, fun hstays => ?_⟩
  exact hstays runningExecution (by decide) hhandled rfl

/-- The list shows the execution twice. -/
theorem listed_twice :
    ∃ p, (page []).Reachable Machine.anyStep p ∧
      p.store.executions = [runningExecution, runningExecution] ∧ ¬p.Unique := by
  refine ⟨_, ⟨_, Machine.exec_get_run lateReplyActions_possible⟩, by decide, ?_⟩
  unfold Page.Unique
  decide

end EasyJob.Frontend
