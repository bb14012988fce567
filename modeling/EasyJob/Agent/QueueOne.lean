import EasyJob.Agent.Executions

/-!
# What `QueueOne` serialises

`QueueOne` admits a second execution of a task next to one that is in flight,
and nothing holds the second one back: it runs its actions at once.

* `queueOne_serialises_iff`: the executions of a task run one after the other as
  long as each is admitted when the actions of the others have ended. When one
  is admitted earlier, both can run at once.
-/

namespace EasyJob.Agent

open EasyJob.Domain EasyJob.Executor Transition

/-! ## Active executions -/

/-- The execution was admitted and its actions have not ended. -/
def Job.active (j : Job) : Prop := j.phase = .admitted ∨ j.phase = .running

instance : DecidablePred Job.active := fun _ => inferInstanceAs (Decidable (_ ∨ _))

/-- The active executions of a task. -/
def activeOf (id : TaskId) (jobs : Multiset Job) : ℕ :=
  jobs.countP fun j => j.taskId = id ∧ j.active

/-- The executions of a task that run their actions. -/
def runningOf (id : TaskId) (jobs : Multiset Job) : ℕ :=
  jobs.countP fun j => j.taskId = id ∧ j.phase = .running

/-- The action admits an execution of the task. -/
def ExecutionsAction.Admits (id : TaskId) (s : ExecutionsState) : ExecutionsAction → Prop
  | .advance j _ => j ∈ s.jobs ∧ j.taskId = id ∧ j.phase = .permitted ∧
      (s.manager.tryAcquireSlot j.taskId j.policy).1 = true
  | .begin_ _ _ _ => False

/-- If the action admits an execution of the task, no other one is active. -/
def AdmitsAlone (id : TaskId) (s : ExecutionsState) (a : ExecutionsAction) : Prop :=
  a.Admits id s → activeOf id s.jobs = 0

instance (id : TaskId) (s : ExecutionsState) : DecidablePred (ExecutionsAction.Admits id s)
  | .advance j _ => inferInstanceAs (Decidable (j ∈ s.jobs ∧ j.taskId = id ∧
      j.phase = .permitted ∧ (s.manager.tryAcquireSlot j.taskId j.policy).1 = true))
  | .begin_ _ _ _ => isFalse not_false

instance (id : TaskId) (s : ExecutionsState) (a : ExecutionsAction) :
    Decidable (AdmitsAlone id s a) := inferInstanceAs (Decidable (_ → _))

theorem activeOf_cons (id : TaskId) (j : Job) (jobs : Multiset Job) :
    activeOf id (j ::ₘ jobs) = activeOf id jobs + if j.taskId = id ∧ j.active then 1 else 0 :=
  Multiset.countP_cons _ _ _

theorem runningOf_cons (id : TaskId) (j : Job) (jobs : Multiset Job) :
    runningOf id (j ::ₘ jobs) =
      runningOf id jobs + if j.taskId = id ∧ j.phase = .running then 1 else 0 :=
  Multiset.countP_cons _ _ _

theorem runningOf_le_activeOf (id : TaskId) (jobs : Multiset Job) :
    runningOf id jobs ≤ activeOf id jobs := by
  unfold runningOf activeOf
  rw [Multiset.countP_eq_card_filter, Multiset.countP_eq_card_filter]
  refine Multiset.card_le_card (Multiset.monotone_filter_right _ fun j hj => ?_)
  exact ⟨hj.1, .inr hj.2⟩

/-! ## Admitted alone -/

/-- Only an admission makes one more execution active. -/
theorem activeOf_step {id : TaskId} {s s' : ExecutionsState} {a : ExecutionsAction}
    {o : List Empty} (hst : executionsStep s a = some (s', o)) :
    activeOf id s'.jobs ≤ activeOf id s.jobs ∨
      a.Admits id s ∧ activeOf id s'.jobs = activeOf id s.jobs + 1 := by
  cases a with
  | begin_ source taskId policy =>
    left
    rw [executionsStep_begin hst, activeOf_cons]
    simp [Job.active]
  | advance j created =>
    obtain ⟨rest, hjobs, -, hj⟩ := executionsStep_advance hst
    have hmem : j ∈ s.jobs := hjobs ▸ Multiset.mem_cons_self j rest
    rw [hj, hjobs, activeOf_cons]
    unfold Job.operate
    cases hphase : j.phase with
    | found =>
      left
      dsimp only
      cases s.manager.tryAcquireOwned <;> simp [putBack, activeOf_cons, Job.active, hphase]
    | permitted =>
      dsimp only
      rw [ExecutionManager.tryAcquireSlot_fst]
      by_cases hadm : ExecutionManager.admits j.policy (s.manager.runningCount j.taskId) = true
      · by_cases hid : j.taskId = id
        · right
          refine ⟨⟨hmem, hid, hphase, ?_⟩, ?_⟩
          · rw [ExecutionManager.tryAcquireSlot_fst, hadm]
          · rw [hadm]
            simp [putBack, activeOf_cons, Job.active, hphase, hid]
        · left
          simp [putBack, activeOf_cons, hid]
      · left
        simp [putBack, activeOf_cons, Job.active, hphase, hadm]
    | refused | released | running | ended =>
      left
      simp [putBack, activeOf_cons, Job.active, hphase]
    | admitted =>
      left
      cases created <;> simp [putBack, activeOf_cons, Job.active, hphase]

/-- While every admission finds no active execution, at most one is active. -/
theorem reachable_activeOf_le {maxConcurrent : ℕ} {id : TaskId} {s : ExecutionsState}
    (h : (executions maxConcurrent).Reachable
      (fun s a => a.QueueOneOnly id ∧ AdmitsAlone id s a) s) : activeOf id s.jobs ≤ 1 := by
  have hinit : activeOf id (executions maxConcurrent).init.jobs ≤ 1 := Nat.zero_le 1
  refine h.invariant (I := fun s => activeOf id s.jobs ≤ 1) hinit ?_
  intro s a t o hi hok hst
  rcases activeOf_step hst with hle | ⟨hadmits, heq⟩
  · exact hle.trans hi
  · have hzero : activeOf id s.jobs = 0 := hok.2 hadmits
    omega

/-! ## Admitted next to an active execution -/

/-- An active execution that is in flight runs after at most one operation. -/
theorem exists_step_running {maxConcurrent : ℕ} {s : ExecutionsState} {j : Job}
    {rest : Multiset Job} (hjobs : s.jobs = j ::ₘ rest) (hj : j.active) :
    ∃ later s', (executions maxConcurrent).Run Machine.anyStep s later s' ∧
      s'.jobs = { j with phase := .running } ::ₘ rest := by
  rcases hj with hphase | hphase
  · have hst : (executions maxConcurrent).step s (.advance j true) =
        some (⟨s.manager, { j with phase := .running } ::ₘ rest⟩, []) := by
      show executionsStep s (.advance j true) = _
      simp [executionsStep, Job.operate, hphase, putBack, hjobs]
    exact ⟨_, _, Machine.Run.single trivial hst, rfl⟩
  · refine ⟨[], s, Machine.Run.nil s, ?_⟩
    rw [hjobs, ← hphase]

/-- If an execution is admitted while another one of its task is active, the two
    can run at once. -/
theorem admitted_next_to_active {maxConcurrent : ℕ} {id : TaskId} {s s' : ExecutionsState}
    {a : ExecutionsAction} {o : List Empty} (hst : executionsStep s a = some (s', o))
    (hadmits : a.Admits id s) (hactive : activeOf id s.jobs ≠ 0) :
    ∃ later s'', (executions maxConcurrent).Run Machine.anyStep s' later s'' ∧
      2 ≤ runningOf id s''.jobs := by
  cases a with
  | begin_ _ _ _ => cases hadmits
  | advance j created =>
    obtain ⟨-, hid, hphase, hacq⟩ := hadmits
    obtain ⟨rest, hjobs, -, hj⟩ := executionsStep_advance hst
    -- another active execution `k` of the task
    obtain ⟨k, hk, hkid, hkactive⟩ := Multiset.countP_pos.mp (Nat.pos_of_ne_zero hactive)
    have hne : k ≠ j := by
      rintro rfl
      rcases hkactive with h | h <;> rw [hphase] at h <;> cases h
    have hkrest : k ∈ rest := by
      rw [hjobs] at hk
      exact (Multiset.mem_cons.mp hk).resolve_left hne
    obtain ⟨others, rfl⟩ := Multiset.exists_cons_of_mem hkrest
    -- start `j`, then `k`
    have hjobs' : s'.jobs = { j with phase := .admitted } ::ₘ k ::ₘ others := by
      rw [hj]
      simp [Job.operate, hphase, hacq, putBack]
    obtain ⟨later₁, s₁, hrun₁, hjobs₁⟩ := exists_step_running hjobs' (.inl rfl)
    rw [Multiset.cons_swap] at hjobs₁
    obtain ⟨later₂, s₂, hrun₂, hjobs₂⟩ := exists_step_running hjobs₁ hkactive
    refine ⟨later₁ ++ later₂, s₂, hrun₁.append hrun₂, ?_⟩
    rw [hjobs₂, runningOf_cons, runningOf_cons, if_pos ⟨hid, rfl⟩, if_pos ⟨hkid, rfl⟩]
    omega

/-! ## `QueueOne` -/

/-- When does `QueueOne` run the executions of a task one after the other? If every
    admission finds no active execution of the task, at most one runs in every
    reachable state, and none while another one is about to start. From every
    admission that finds one, two can run at once. A third is refused in any case
    while two are in flight. -/
theorem queueOne_serialises_iff (maxConcurrent : ℕ) (id : TaskId) :
    (∀ s, (executions maxConcurrent).Reachable
        (fun s a => a.QueueOneOnly id ∧ AdmitsAlone id s a) s →
      runningOf id s.jobs ≤ 1 ∧
        ∀ j ∈ s.jobs, j.taskId = id → j.phase = .admitted → runningOf id s.jobs = 0) ∧
    (∀ s a s' o, (executions maxConcurrent).Reachable (fun _ a => a.QueueOneOnly id) s →
      executionsStep s a = some (s', o) → ¬AdmitsAlone id s a →
      ∃ later s'', (executions maxConcurrent).Run Machine.anyStep s' later s'' ∧
        2 ≤ runningOf id s''.jobs) ∧
    (∀ s, (executions maxConcurrent).Reachable (fun _ a => a.QueueOneOnly id) s →
      ∀ j ∈ s.jobs, j.taskId = id → j.policy = .QueueOne → 2 ≤ inFlightOf id s.jobs →
        (s.manager.tryAcquireSlot j.taskId j.policy).1 = false) := by
  refine ⟨?_, ?_, ?_⟩
  · intro s h
    have hle := reachable_activeOf_le h
    refine ⟨(runningOf_le_activeOf id s.jobs).trans hle, ?_⟩
    intro j hj hid hphase
    obtain ⟨rest, hjobs⟩ := Multiset.exists_cons_of_mem hj
    rw [hjobs, activeOf_cons, if_pos ⟨hid, .inl hphase⟩] at hle
    have hrest := runningOf_le_activeOf id rest
    rw [hjobs, runningOf_cons, if_neg (by simp [hphase])]
    omega
  · intro s a s' o _ hst hno
    rw [AdmitsAlone, Classical.not_imp] at hno
    exact admitted_next_to_active hst hno.1 hno.2
  · intro s h j _ hid hpolicy htwo
    rw [ExecutionManager.tryAcquireSlot_fst, (reachable_accounting h).counter, hid, hpolicy]
    simpa [ExecutionManager.admits] using htwo

/-- Two executions of a task; the second is admitted when the actions of the first have ended,
    and a third request comes before the first is released. -/
def oneByOneActions : List ExecutionsAction :=
  let job (source : Source) (phase : Phase) : Job := ⟨source, ⟨1⟩, .QueueOne, phase⟩
  [.begin_ .dispatcher ⟨1⟩ .QueueOne, .advance (job .dispatcher .found) true,
    .advance (job .dispatcher .permitted) true, .begin_ .triggerNow ⟨1⟩ .QueueOne,
    .advance (job .triggerNow .found) true, .advance (job .dispatcher .admitted) true,
    .advance (job .dispatcher .running) true, .advance (job .triggerNow .permitted) true,
    .begin_ .triggerNow ⟨1⟩ .QueueOne, .advance (job .triggerNow .found) true]

theorem oneByOne_possible : ((executions 4).exec
    (fun s a => a.QueueOneOnly ⟨1⟩ ∧ AdmitsAlone ⟨1⟩ s a) (executions 4).init
      oneByOneActions).isSome = true := by decide +kernel

def oneByOneState : ExecutionsState := (((executions 4).exec
  (fun s a => a.QueueOneOnly ⟨1⟩ ∧ AdmitsAlone ⟨1⟩ s a) (executions 4).init
    oneByOneActions).get oneByOne_possible).2

/-- When the second execution is about to start, none runs, and the third is refused. -/
theorem queueOne_serialises_oneByOne :
    runningOf ⟨1⟩ oneByOneState.jobs = 0 ∧
      (oneByOneState.manager.tryAcquireSlot ⟨1⟩ .QueueOne).1 = false := by
  obtain ⟨hone, -, hthird⟩ := queueOne_serialises_iff 4 ⟨1⟩
  have hreach : (executions 4).Reachable
      (fun s a => a.QueueOneOnly ⟨1⟩ ∧ AdmitsAlone ⟨1⟩ s a) oneByOneState :=
    ⟨_, Machine.exec_get_run oneByOne_possible⟩
  have hadmitted : ⟨.triggerNow, ⟨1⟩, .QueueOne, .admitted⟩ ∈ oneByOneState.jobs := by
    decide +kernel
  refine ⟨(hone _ hreach).2 _ hadmitted rfl rfl, ?_⟩
  exact hthird _ (hreach.mono fun _ _ h => h.1) _ hadmitted rfl rfl (by decide +kernel)

/-- Two executions of a task whose policy is `QueueOne` run at once. -/
theorem queueOne_runs_two :
    ∃ s, (executions 4).Reachable (fun _ a => a.QueueOneOnly ⟨1⟩) s ∧ runningOf ⟨1⟩ s.jobs = 2 :=
  ⟨queueOneState, queueOneState_reachable, by decide⟩

end EasyJob.Agent
