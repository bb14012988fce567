import EasyJob.Executor.Manager
import EasyJob.Lib.Transition
import Mathlib.Algebra.Order.Group.Multiset
import Mathlib.Tactic.Common

/-!
# Executions of the agent

Model of the two ways in which `apps/agent/src/service.rs` runs a task: the
dispatcher of `AgentService::run` (lines 226–375), which handles one trigger
event after the other, and the handlers of `task.trigger_now` (lines 693–894),
of which any number run at once. A `Job` is one such attempt. Its operations on
the shared `ExecutionManager` are the steps of the machine `executions`, taken
in any order.

Assumed: an `Execution` serialises to JSON, and spawned tasks do not panic.

* `Accounting`: the invariant that ties the counters and permits to the jobs.
* `executions_accounting`: it holds in every reachable state.
-/

namespace EasyJob.Agent

open EasyJob.Domain EasyJob.Executor Transition

/-! ## Jobs -/

inductive Source
  | dispatcher
  | triggerNow
  deriving DecidableEq, Repr

/-- What a job does next. -/
inductive Phase
  /-- The task was read from the repository; next is `try_acquire_owned`. -/
  | found
  /-- Next is `try_acquire_slot`. -/
  | permitted
  /-- The slot was refused; next the permit is dropped. -/
  | refused
  /-- Next is `create_run`. -/
  | admitted
  /-- `create_run` succeeded and the actions run. -/
  | running
  /-- The actions have ended, or `create_run` failed; next is `release_slot`. -/
  | ended
  /-- Next the permit is dropped. -/
  | released
  deriving DecidableEq, Repr

structure Job where
  source : Source
  taskId : TaskId
  policy : ConcurrencyPolicy
  phase : Phase
  deriving DecidableEq, Repr

/-- The job holds a permit. -/
def Job.holdsPermit (j : Job) : Prop := j.phase ≠ .found

/-- The job was admitted by `try_acquire_slot` and has not released its slot. -/
def Job.inFlight (j : Job) : Prop := j.phase = .admitted ∨ j.phase = .running ∨ j.phase = .ended

/-- The dispatcher itself works on the job: it has not yet spawned the execution. -/
def Job.inDispatcher (j : Job) : Prop :=
  j.source = .dispatcher ∧ (j.phase = .found ∨ j.phase = .permitted ∨ j.phase = .refused)

instance : DecidablePred Job.holdsPermit := fun _ => inferInstanceAs (Decidable (_ ≠ _))

instance : DecidablePred Job.inFlight := fun _ => inferInstanceAs (Decidable (_ ∨ _ ∨ _))

instance : DecidablePred Job.inDispatcher := fun _ => inferInstanceAs (Decidable (_ ∧ (_ ∨ _ ∨ _)))

/-- The executions of a task that are in flight. -/
def inFlightOf (id : TaskId) (jobs : Multiset Job) : ℕ :=
  jobs.countP fun j => j.taskId = id ∧ j.inFlight

/-! ## The machine -/

structure ExecutionsState where
  manager : ExecutionManager
  jobs : Multiset Job

inductive ExecutionsAction
  /-- The dispatcher receives an event, or a `task.trigger_now` request arrives,
      and the task is found with this policy. -/
  | begin_ (source : Source) (taskId : TaskId) (policy : ConcurrencyPolicy)
  /-- The job takes its next operation; `created` says whether a `create_run`
      succeeds. -/
  | advance (job : Job) (created : Bool)

/-- What one operation makes of the manager and of the job. -/
def Job.operate (j : Job) (m : ExecutionManager) (created : Bool) :
    ExecutionManager × Option Job :=
  match j.phase with
  | .found =>
    match m.tryAcquireOwned with
    | none => (m, none)
    | some m => (m, some { j with phase := .permitted })
  | .permitted =>
    let (acquired, m) := m.tryAcquireSlot j.taskId j.policy
    (m, some { j with phase := if acquired then .admitted else .refused })
  | .refused => (m.dropPermit, none)
  | .admitted => (m, some { j with phase := if created then .running else .ended })
  | .running => (m, some { j with phase := .ended })
  | .ended => (m.releaseSlot j.taskId, some { j with phase := .released })
  | .released => (m.dropPermit, none)

/-- The other jobs with the job that an operation leaves, if any. -/
def putBack (next : Option Job) (rest : Multiset Job) : Multiset Job :=
  match next with
  | some j => j ::ₘ rest
  | none => rest

/-- One step: a job begins, or a job takes its next operation. The dispatcher
    begins a job only when it is done with the last one. -/
def executionsStep (s : ExecutionsState) (a : ExecutionsAction) :
    Option (ExecutionsState × List Empty) :=
  match a with
  | .begin_ source taskId policy =>
    if source = .dispatcher ∧ 0 < s.jobs.countP Job.inDispatcher then none
    else some ({ s with jobs := ⟨source, taskId, policy, .found⟩ ::ₘ s.jobs }, [])
  | .advance j created =>
    if j ∈ s.jobs then
      let (manager, next) := j.operate s.manager created
      some (⟨manager, putBack next (s.jobs.erase j)⟩, [])
    else none

/-- The executions of an agent with `maxConcurrent` permits. -/
def executions (maxConcurrent : ℕ) : Machine ExecutionsState ExecutionsAction Empty where
  init := ⟨.new maxConcurrent, 0⟩
  step := executionsStep

/-! ## The invariant -/

/-- The counters and permits agree with the jobs. -/
structure Accounting (maxConcurrent : ℕ) (s : ExecutionsState) : Prop where
  counter : ∀ id, s.manager.runningCount id = inFlightOf id s.jobs
  permits : s.jobs.countP Job.holdsPermit + s.manager.available = maxConcurrent
  total : s.manager.totalRunningCount = s.jobs.countP Job.inFlight

theorem Accounting.init (maxConcurrent : ℕ) :
    Accounting maxConcurrent (executions maxConcurrent).init where
  counter _ := rfl
  permits := by
    show Multiset.countP Job.holdsPermit 0 + maxConcurrent = maxConcurrent
    simp
  total := rfl

/-- A step of a job replaces it among the jobs. -/
theorem executionsStep_advance {s s' : ExecutionsState} {j : Job} {created : Bool}
    {o : List Empty} (h : executionsStep s (.advance j created) = some (s', o)) :
    ∃ rest, s.jobs = j ::ₘ rest ∧ s'.manager = (j.operate s.manager created).1 ∧
      s'.jobs = putBack (j.operate s.manager created).2 rest := by
  unfold executionsStep at h
  dsimp only at h
  split_ifs at h with hmem
  cases h
  exact ⟨s.jobs.erase j, (Multiset.cons_erase hmem).symm, rfl, rfl⟩

theorem executionsStep_begin {s s' : ExecutionsState} {source : Source} {taskId : TaskId}
    {policy : ConcurrencyPolicy} {o : List Empty}
    (h : executionsStep s (.begin_ source taskId policy) = some (s', o)) :
    s' = { s with jobs := ⟨source, taskId, policy, .found⟩ ::ₘ s.jobs } := by
  unfold executionsStep at h
  dsimp only at h
  split_ifs at h
  cases h
  rfl

theorem inFlightOf_cons (id : TaskId) (j : Job) (jobs : Multiset Job) :
    inFlightOf id (j ::ₘ jobs) =
      inFlightOf id jobs + if j.taskId = id ∧ j.inFlight then 1 else 0 :=
  Multiset.countP_cons _ _ _

theorem Accounting.begin_ {maxConcurrent : ℕ} {s : ExecutionsState}
    (h : Accounting maxConcurrent s) (source : Source) (taskId : TaskId)
    (policy : ConcurrencyPolicy) :
    Accounting maxConcurrent { s with jobs := ⟨source, taskId, policy, .found⟩ ::ₘ s.jobs } where
  counter id := by
    rw [inFlightOf_cons, h.counter]
    simp [Job.inFlight]
  permits := by
    rw [Multiset.countP_cons_of_neg _ (by simp [Job.holdsPermit])]
    exact h.permits
  total := by
    rw [Multiset.countP_cons_of_neg _ (by simp [Job.inFlight])]
    exact h.total

/-- A job whose operation keeps its slot and its permit keeps the accounts. -/
theorem Accounting.replace {maxConcurrent : ℕ} {m : ExecutionManager} {j j' : Job}
    {rest : Multiset Job} (h : Accounting maxConcurrent ⟨m, j ::ₘ rest⟩)
    (htask : j'.taskId = j.taskId) (hslot : j'.inFlight ↔ j.inFlight)
    (hpermit : j'.holdsPermit ↔ j.holdsPermit) : Accounting maxConcurrent ⟨m, j' ::ₘ rest⟩ where
  counter id := by
    rw [h.counter, inFlightOf_cons, inFlightOf_cons]
    simp only [htask, hslot]
  permits := by
    rw [← h.permits, Multiset.countP_cons, Multiset.countP_cons]
    simp only [hpermit]
  total := by
    rw [h.total, Multiset.countP_cons, Multiset.countP_cons]
    simp only [hslot]

section Operate

variable {maxConcurrent : ℕ} {m : ExecutionManager} {j : Job} {rest : Multiset Job}

/-- A job without slot and permit gets its permit. -/
theorem Accounting.tryAcquireOwned (h : Accounting maxConcurrent ⟨m, j ::ₘ rest⟩)
    (hphase : j.phase = .found) {m' : ExecutionManager} (hm : m.tryAcquireOwned = some m') :
    Accounting maxConcurrent ⟨m', { j with phase := .permitted } ::ₘ rest⟩ := by
  obtain ⟨hcounter, hpermits, htotal⟩ := h
  have hno : ¬j.inFlight := by simp [Job.inFlight, hphase]
  simp only [inFlightOf_cons, Multiset.countP_cons, hno, and_false, if_false, add_zero,
    Job.holdsPermit, hphase, ne_eq, not_true_eq_false] at hcounter hpermits htotal
  unfold ExecutionManager.tryAcquireOwned at hm
  split_ifs at hm with hzero
  cases hm
  refine ⟨fun id => ?_, ?_, ?_⟩
  · show m.runningCount id = inFlightOf id (_ ::ₘ rest)
    simp [inFlightOf_cons, Job.inFlight, hcounter]
  · show Multiset.countP _ (_ ::ₘ rest) + (m.available - 1) = maxConcurrent
    rw [Multiset.countP_cons_of_pos _ (by simp [Job.holdsPermit])]
    omega
  · show m.totalRunningCount = Multiset.countP _ (_ ::ₘ rest)
    rw [Multiset.countP_cons_of_neg _ (by simp [Job.inFlight]), htotal]

/-- A job that ends before it held a permit. -/
theorem Accounting.drop (h : Accounting maxConcurrent ⟨m, j ::ₘ rest⟩)
    (hphase : j.phase = .found) : Accounting maxConcurrent ⟨m, rest⟩ := by
  obtain ⟨hcounter, hpermits, htotal⟩ := h
  have hno : ¬j.inFlight := by simp [Job.inFlight, hphase]
  simp only [inFlightOf_cons, Multiset.countP_cons, hno, and_false, if_false, add_zero,
    Job.holdsPermit, hphase, ne_eq, not_true_eq_false] at hcounter hpermits htotal
  exact ⟨hcounter, hpermits, htotal⟩

/-- A job without slot that ends gives its permit back. -/
theorem Accounting.dropPermit (h : Accounting maxConcurrent ⟨m, j ::ₘ rest⟩)
    (hslot : ¬j.inFlight) (hpermit : j.holdsPermit) :
    Accounting maxConcurrent ⟨m.dropPermit, rest⟩ := by
  obtain ⟨hcounter, hpermits, htotal⟩ := h
  simp only [inFlightOf_cons, Multiset.countP_cons, hslot, and_false, if_false, add_zero, hpermit,
    if_true] at hcounter hpermits htotal
  refine ⟨hcounter, ?_, htotal⟩
  show Multiset.countP _ rest + (m.available + 1) = maxConcurrent
  omega

/-- A job with a permit gets a slot if it is admitted. -/
theorem Accounting.tryAcquireSlot (h : Accounting maxConcurrent ⟨m, j ::ₘ rest⟩)
    (hphase : j.phase = .permitted) :
    Accounting maxConcurrent ⟨(m.tryAcquireSlot j.taskId j.policy).2, { j with
      phase := if (m.tryAcquireSlot j.taskId j.policy).1 then .admitted else .refused } ::ₘ
        rest⟩ := by
  obtain ⟨hcounter, hpermits, htotal⟩ := h
  have hno : ¬j.inFlight := by simp [Job.inFlight, hphase]
  have hpermit : j.holdsPermit := by simp [Job.holdsPermit, hphase]
  simp only [inFlightOf_cons, Multiset.countP_cons, hno, and_false, if_false, add_zero, hpermit,
    if_true] at hcounter hpermits htotal
  rw [ExecutionManager.tryAcquireSlot_fst]
  refine ⟨fun id => ?_, ?_, ?_⟩
  · show (m.tryAcquireSlot j.taskId j.policy).2.runningCount id = inFlightOf id (_ ::ₘ rest)
    rw [ExecutionManager.runningCount_tryAcquireSlot, inFlightOf_cons, hcounter]
    cases ExecutionManager.admits j.policy (m.runningCount j.taskId) <;>
      simp [Job.inFlight, eq_comm]
  · show Multiset.countP _ (_ ::ₘ rest) + _ = maxConcurrent
    rw [ExecutionManager.available_tryAcquireSlot, Multiset.countP_cons_of_pos]
    · omega
    · cases ExecutionManager.admits j.policy (m.runningCount j.taskId) <;> simp [Job.holdsPermit]
  · show _ = Multiset.countP _ (_ ::ₘ rest)
    rw [ExecutionManager.totalRunningCount_tryAcquireSlot, Multiset.countP_cons, htotal]
    cases ExecutionManager.admits j.policy (m.runningCount j.taskId) <;> simp [Job.inFlight]

/-- A job whose execution has ended gives its slot back. -/
theorem Accounting.releaseSlot (h : Accounting maxConcurrent ⟨m, j ::ₘ rest⟩)
    (hphase : j.phase = .ended) :
    Accounting maxConcurrent ⟨m.releaseSlot j.taskId, { j with phase := .released } ::ₘ rest⟩ := by
  obtain ⟨hcounter, hpermits, htotal⟩ := h
  have hyes : j.inFlight := by simp [Job.inFlight, hphase]
  have hpermit : j.holdsPermit := by simp [Job.holdsPermit, hphase]
  simp only [inFlightOf_cons, Multiset.countP_cons, hyes, and_true, hpermit, if_true]
    at hcounter hpermits htotal
  have hpos : 0 < m.runningCount j.taskId := by
    rw [hcounter, if_pos rfl]
    omega
  refine ⟨fun id => ?_, ?_, ?_⟩
  · show (m.releaseSlot j.taskId).runningCount id = inFlightOf id (_ ::ₘ rest)
    rw [ExecutionManager.runningCount_releaseSlot, inFlightOf_cons, hcounter]
    simp only [Job.inFlight, reduceCtorEq, or_self, and_false, if_false, eq_comm]
    omega
  · show Multiset.countP _ (_ ::ₘ rest) + _ = maxConcurrent
    rw [ExecutionManager.available_releaseSlot, Multiset.countP_cons_of_pos]
    · omega
    · simp [Job.holdsPermit]
  · show (m.releaseSlot j.taskId).totalRunningCount = Multiset.countP _ (_ ::ₘ rest)
    rw [ExecutionManager.totalRunningCount_releaseSlot hpos, Multiset.countP_cons_of_neg]
    · omega
    · simp [Job.inFlight]

/-- Each operation of a job keeps the accounts. -/
theorem Accounting.operate (h : Accounting maxConcurrent ⟨m, j ::ₘ rest⟩) (created : Bool) :
    Accounting maxConcurrent ⟨(j.operate m created).1, putBack (j.operate m created).2 rest⟩ := by
  unfold Job.operate
  cases hphase : j.phase with
  | found =>
    dsimp only
    cases hm : m.tryAcquireOwned with
    | none => exact h.drop hphase
    | some m' => exact h.tryAcquireOwned hphase hm
  | permitted => exact h.tryAcquireSlot hphase
  | admitted =>
    refine h.replace rfl ?_ ?_ <;> cases created <;>
      simp [Job.inFlight, Job.holdsPermit, hphase]
  | running =>
    refine h.replace rfl ?_ ?_ <;> simp [Job.inFlight, Job.holdsPermit, hphase]
  | ended => exact h.releaseSlot hphase
  | refused | released =>
    refine h.dropPermit ?_ ?_
    · simp [Job.inFlight, hphase]
    · simp [Job.holdsPermit, hphase]

end Operate

theorem Accounting.step {maxConcurrent : ℕ} {s s' : ExecutionsState} {a : ExecutionsAction}
    {o : List Empty} (h : Accounting maxConcurrent s) (hst : executionsStep s a = some (s', o)) :
    Accounting maxConcurrent s' := by
  cases a with
  | begin_ source taskId policy =>
    rw [executionsStep_begin hst]
    exact h.begin_ source taskId policy
  | advance j created =>
    obtain ⟨rest, hjobs, hm, hj⟩ := executionsStep_advance hst
    have hs : Accounting maxConcurrent ⟨s.manager, j ::ₘ rest⟩ := by
      rw [← hjobs]
      exact h
    have hs' := hs.operate created
    rw [← hm, ← hj] at hs'
    exact hs'

theorem reachable_accounting {maxConcurrent : ℕ}
    {ok : ExecutionsState → ExecutionsAction → Prop} {s : ExecutionsState}
    (h : (executions maxConcurrent).Reachable ok s) : Accounting maxConcurrent s :=
  h.invariant (I := Accounting maxConcurrent) (Accounting.init maxConcurrent)
    fun _ _ _ _ hi _ hst => hi.step hst

/-! ## Slots and permits -/

/-- An execution in flight holds a permit. -/
theorem countP_inFlight_le (jobs : Multiset Job) :
    jobs.countP Job.inFlight ≤ jobs.countP Job.holdsPermit := by
  rw [Multiset.countP_eq_card_filter, Multiset.countP_eq_card_filter]
  refine Multiset.card_le_card (Multiset.monotone_filter_right _ fun j hj => ?_)
  rcases hj with hj | hj | hj <;> simp [Job.holdsPermit, hj]

/-- All requests for the task are made under the policy `QueueOne`. -/
def ExecutionsAction.QueueOneOnly (id : TaskId) : ExecutionsAction → Prop
  | .begin_ _ taskId policy => taskId = id → policy = .QueueOne
  | .advance _ _ => True

instance (id : TaskId) : DecidablePred (ExecutionsAction.QueueOneOnly id)
  | .begin_ _ taskId policy => inferInstanceAs (Decidable (taskId = id → policy = .QueueOne))
  | .advance _ _ => isTrue trivial

/-- In every reachable state: the counter of a task is the number of its
    executions in flight; the permits held and free are `maxConcurrent`; the sum of
    the counters is at most that; `release_slot` always has something to release;
    `try_acquire_slot` admits only next to no other execution of the task under
    `SkipIfRunning`, and next to at most one under `QueueOne`; and when all jobs
    are done, nothing is counted and all permits are free. -/
theorem executions_accounting {maxConcurrent : ℕ} {s : ExecutionsState}
    (h : (executions maxConcurrent).Reachable Machine.anyStep s) :
    (∀ id, s.manager.runningCount id = inFlightOf id s.jobs) ∧
    s.jobs.countP Job.holdsPermit + s.manager.available = maxConcurrent ∧
    s.manager.totalRunningCount ≤ maxConcurrent ∧
    (∀ j ∈ s.jobs, j.phase = .ended → 0 < s.manager.runningCount j.taskId) ∧
    (∀ j ∈ s.jobs, j.phase = .permitted → (s.manager.tryAcquireSlot j.taskId j.policy).1 = true →
      (j.policy = .SkipIfRunning → inFlightOf j.taskId s.jobs = 0) ∧
      (j.policy = .QueueOne → inFlightOf j.taskId s.jobs ≤ 1)) ∧
    (s.jobs = 0 → (∀ id, s.manager.runningCount id = 0) ∧ s.manager.available = maxConcurrent) := by
  have hacc := reachable_accounting h
  have hle := countP_inFlight_le s.jobs
  have hpermits := hacc.permits
  have htotal := hacc.total
  refine ⟨hacc.counter, hacc.permits, by omega, ?_, ?_, ?_⟩
  · intro j hj hphase
    rw [hacc.counter]
    exact Multiset.countP_pos_of_mem hj ⟨rfl, .inr (.inr hphase)⟩
  · intro j _ _ hadm
    rw [ExecutionManager.tryAcquireSlot_fst, hacc.counter] at hadm
    constructor
    · intro hpolicy
      simpa [ExecutionManager.admits, hpolicy] using hadm
    · intro hpolicy
      simp only [ExecutionManager.admits, hpolicy, ge_iff_le, Bool.not_eq_eq_eq_not, Bool.not_true,
        decide_eq_false_iff_not, not_le] at hadm
      omega
  · intro hnone
    rw [hnone, Multiset.countP_zero] at hpermits
    refine ⟨fun id => ?_, by omega⟩
    rw [hacc.counter, hnone]
    rfl

/-- Two requests for a task whose policy is `QueueOne`, both admitted and running. -/
def queueOneActions : List ExecutionsAction :=
  let job (source : Source) (phase : Phase) : Job := ⟨source, ⟨1⟩, .QueueOne, phase⟩
  [.begin_ .dispatcher ⟨1⟩ .QueueOne, .advance (job .dispatcher .found) true,
    .advance (job .dispatcher .permitted) true, .advance (job .dispatcher .admitted) true,
    .begin_ .triggerNow ⟨1⟩ .QueueOne, .advance (job .triggerNow .found) true,
    .advance (job .triggerNow .permitted) true, .advance (job .triggerNow .admitted) true]

def queueOneExec : Option (List (ExecutionsAction × List Empty) × ExecutionsState) :=
  (executions 4).exec (fun _ a => a.QueueOneOnly ⟨1⟩) (executions 4).init queueOneActions

theorem queueOneExec_isSome : queueOneExec.isSome = true := by decide

/-- The state in which both executions run. -/
def queueOneState : ExecutionsState := (queueOneExec.get queueOneExec_isSome).2

theorem queueOneState_reachable :
    (executions 4).Reachable (fun _ a => a.QueueOneOnly ⟨1⟩) queueOneState :=
  ⟨_, Machine.exec_get_run queueOneExec_isSome⟩

/-- With two executions in flight, the counter of the task is 2. -/
theorem executions_accounting_two :
    inFlightOf ⟨1⟩ queueOneState.jobs = 2 ∧
      queueOneState.manager.runningCount ⟨1⟩ = inFlightOf ⟨1⟩ queueOneState.jobs :=
  have hrun := Machine.Reachable.mono (fun _ _ _ => trivial) queueOneState_reachable
  ⟨by decide, (executions_accounting hrun).1 ⟨1⟩⟩

end EasyJob.Agent
