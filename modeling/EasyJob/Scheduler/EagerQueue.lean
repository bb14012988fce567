import EasyJob.Lib.Transition
import EasyJob.Scheduler.Queue

/-!
# The queue refines an eager one

The eager queue is a bag of entries with a generation for every task: a new
generation of a task deletes all its entries at once, and an item of another
generation than the current one is not accepted. `queue_refines_eager`: every
sequence of operations on `ScheduleQueue` is one on the eager queue, with the
same results.
-/

namespace EasyJob.Scheduler

open EasyJob.Chrono EasyJob.Domain Transition

/-! ## Operations -/

inductive QueueOp
  | push (item : ScheduledItem)
  | pop
  | peekValid
  | bumpGeneration (taskId : TaskId)
  /-- Only the items of the current generation are kept of those taken out. -/
  | takeTaskItems (taskId : TaskId)
  | clear

/-- What an operation returns. -/
inductive QueueResult
  | popped (item : Option Entry)
  | peeked (item : Option Entry)
  | bumped (generation : ℕ)
  | taken (items : Multiset Entry)

/-- One operation on the queue. -/
def queueStep (q : ScheduleQueue) : QueueOp → Option (ScheduleQueue × List QueueResult)
  | .push item => some (q.push item, [])
  | .pop => some (q.pop.2, [.popped (q.pop.1.map ScheduledItem.entry)])
  | .peekValid => some (q.peekValid.2, [.peeked (q.peekValid.1.map ScheduledItem.entry)])
  | .bumpGeneration taskId =>
    some (q.bumpGeneration taskId, [.bumped ((q.bumpGeneration taskId).currentGeneration taskId)])
  | .takeTaskItems taskId =>
    some ((q.takeTaskItems taskId).2,
      [.taken (((q.takeTaskItems taskId).1.filter fun item =>
        item.generation = q.currentGeneration taskId).map ScheduledItem.entry : List _)])
  | .clear => some (q.clear, [])

/-- The queue under any sequence of operations. -/
def queueMachine : Machine ScheduleQueue QueueOp QueueResult where
  init := .new
  step := queueStep

/-! ## The eager queue -/

structure EagerQueue where
  entries : Multiset Entry
  generation : TaskId → ℕ

/-- `e` is an earliest entry. -/
def EagerQueue.Earliest (q : EagerQueue) (e : Entry) : Prop :=
  e ∈ q.entries ∧ ∀ e' ∈ q.entries, e.nextFireAt ≤ e'.nextFireAt

/-- The operations of the eager queue. Which of several earliest entries comes first is
    left open. -/
inductive EagerQueue.Step : EagerQueue → QueueOp → EagerQueue → List QueueResult → Prop
  | push (q : EagerQueue) (item : ScheduledItem)
      (hgen : item.generation = q.generation item.taskId) :
      Step q (.push item) { q with entries := item.entry ::ₘ q.entries } []
  | pushStale (q : EagerQueue) (item : ScheduledItem)
      (hgen : item.generation ≠ q.generation item.taskId) : Step q (.push item) q []
  | pop (q : EagerQueue) (e : Entry) (h : q.Earliest e) :
      Step q .pop { q with entries := q.entries.erase e } [.popped (some e)]
  | popEmpty (q : EagerQueue) (h : q.entries = 0) : Step q .pop q [.popped none]
  | peek (q : EagerQueue) (e : Entry) (h : q.Earliest e) : Step q .peekValid q [.peeked (some e)]
  | peekEmpty (q : EagerQueue) (h : q.entries = 0) : Step q .peekValid q [.peeked none]
  | bump (q : EagerQueue) (taskId : TaskId) :
      Step q (.bumpGeneration taskId)
        { entries := q.entries.filter (·.taskId ≠ taskId)
          generation := Function.update q.generation taskId (q.generation taskId + 1) }
        [.bumped (q.generation taskId + 1)]
  | take (q : EagerQueue) (taskId : TaskId) :
      Step q (.takeTaskItems taskId) { q with entries := q.entries.filter (·.taskId ≠ taskId) }
        [.taken (q.entries.filter (·.taskId = taskId))]
  | clear (q : EagerQueue) : Step q .clear { q with entries := 0 } []

/-- The eager queue that a queue stands for. -/
def ScheduleQueue.eager (q : ScheduleQueue) : EagerQueue := ⟨q.pending, q.currentGeneration⟩

/-! ## Refinement -/

/-- A queue with the same generations stands for the same bag, up to its entries. -/
private theorem eager_eq {q q' : ScheduleQueue} {entries : Multiset Entry}
    (hgen : ∀ id, q'.currentGeneration id = q.currentGeneration id) (hpend : q'.pending = entries) :
    q'.eager = { q.eager with entries := entries } := by
  rw [ScheduleQueue.eager, hpend]
  exact congrArg (EagerQueue.mk entries) (funext hgen)

theorem ScheduleQueue.eager_pop (q : ScheduleQueue) :
    q.eager.Step .pop q.pop.2.eager [.popped (q.pop.1.map ScheduledItem.entry)] := by
  cases hpop : q.pop.1 with
  | none =>
    have hpend := ScheduleQueue.pending_pop_none (Prod.ext hpop rfl : q.pop = (none, q.pop.2))
    have hsub : q.pop.2.pending = 0 := by
      apply Multiset.eq_zero_of_forall_notMem
      intro e he
      obtain ⟨item, hitem, hvalid, rfl⟩ := ScheduleQueue.mem_pending.mp he
      have hmem : item.entry ∈ q.pending := ScheduleQueue.mem_pending.mpr
        ⟨item, LazyHeap.popValid_subset _ _ _ hitem, hvalid, rfl⟩
      rw [hpend] at hmem
      cases hmem
    have heager : q.pop.2.eager = q.eager := by
      rw [eager_eq (currentGeneration_pop q) (hsub.trans hpend.symm)]
      rfl
    rw [heager]
    exact .popEmpty _ hpend
  | some item =>
    obtain ⟨hpend, -, hgen, hmin⟩ :=
      ScheduleQueue.pending_pop (Prod.ext hpop rfl : q.pop = (some item, q.pop.2))
    have hrest : q.pop.2.pending = q.pending.erase item.entry := by
      rw [hpend, Multiset.erase_cons_head]
    have hmem : item.entry ∈ q.pending := hpend ▸ Multiset.mem_cons_self _ _
    rw [eager_eq hgen hrest]
    refine .pop q.eager item.entry ⟨hmem, ?_⟩
    intro e he
    change e ∈ q.pending at he
    rcases Multiset.mem_cons.mp (hpend ▸ he) with rfl | he
    · exact le_rfl
    · exact hmin e he

/-- `peek_valid` shows what `pop` would take out, and `pop` takes it out afterwards. -/
theorem ScheduleQueue.pop_peekValid (q : ScheduleQueue) :
    q.pop.1 = q.peekValid.1 ∧ q.peekValid.2.pop.1 = q.peekValid.1 := by
  refine ⟨LazyHeap.popValid_fst _ _, ?_⟩
  have hv : q.peekValid.2.isValid = q.isValid := isValid_congr (currentGeneration_peekValid q)
  show (LazyHeap.popValid ScheduledItem.cmp q.peekValid.2.isValid _ _).1 = _
  rw [hv]
  exact LazyHeap.popValid_peekValid

theorem ScheduleQueue.eager_peekValid (q : ScheduleQueue) :
    q.eager.Step .peekValid q.peekValid.2.eager
      [.peeked (q.peekValid.1.map ScheduledItem.entry)] := by
  have heager : q.peekValid.2.eager = q.eager := by
    rw [eager_eq (currentGeneration_peekValid q) (pending_peekValid q)]
    rfl
  rw [heager]
  cases hpeek : q.peekValid.1 with
  | none =>
    have hpop : q.pop = (none, q.pop.2) := Prod.ext ((pop_peekValid q).1.trans hpeek) rfl
    exact .peekEmpty _ (ScheduleQueue.pending_pop_none hpop)
  | some item =>
    exact .peek _ _ (ScheduleQueue.peekValid_some
      (Prod.ext hpeek rfl : q.peekValid = (some item, q.peekValid.2)))

theorem queue_refines : queueMachine.Refines ScheduleQueue.eager EagerQueue.Step := by
  intro q op q' o h
  cases op with
  | push item =>
    cases h
    by_cases hgen : item.generation = q.currentGeneration item.taskId
    · have hpend := ScheduleQueue.pending_push q item
      rw [if_pos hgen] at hpend
      rw [eager_eq (ScheduleQueue.currentGeneration_push q item) hpend]
      exact .push q.eager item hgen
    · have hpend := ScheduleQueue.pending_push q item
      rw [if_neg hgen] at hpend
      rw [eager_eq (ScheduleQueue.currentGeneration_push q item) hpend]
      exact .pushStale q.eager item hgen
  | pop =>
    cases h
    exact q.eager_pop
  | peekValid =>
    cases h
    exact q.eager_peekValid
  | bumpGeneration taskId =>
    cases h
    have hgen : (q.bumpGeneration taskId).currentGeneration =
        Function.update q.currentGeneration taskId (q.currentGeneration taskId + 1) := by
      funext id
      rw [ScheduleQueue.currentGeneration_bumpGeneration, Function.update_apply]
      split_ifs with hid
      · rw [hid]
      · rfl
    have heager : (q.bumpGeneration taskId).eager =
        { entries := q.pending.filter (·.taskId ≠ taskId)
          generation :=
            Function.update q.currentGeneration taskId (q.currentGeneration taskId + 1) } := by
      rw [ScheduleQueue.eager, hgen, ScheduleQueue.pending_bumpGeneration]
    rw [heager, hgen, Function.update_self]
    exact .bump q.eager taskId
  | takeTaskItems taskId =>
    cases h
    rw [eager_eq (ScheduleQueue.currentGeneration_takeTaskItems q taskId)
      (ScheduleQueue.pending_takeTaskItems q taskId), ScheduleQueue.takeTaskItems_valid]
    exact .take q.eager taskId
  | clear =>
    cases h
    rw [eager_eq (ScheduleQueue.currentGeneration_clear q) (ScheduleQueue.pending_clear q)]
    exact .clear q.eager

/-! ## Stale items stay stale -/

/-- No operation takes a generation back. -/
theorem currentGeneration_le {q q' : ScheduleQueue} {op : QueueOp} {o : List QueueResult}
    (h : queueStep q op = some (q', o)) (id : TaskId) :
    q.currentGeneration id ≤ q'.currentGeneration id := by
  cases op with
  | push item =>
    cases h
    rw [ScheduleQueue.currentGeneration_push]
  | bumpGeneration taskId =>
    cases h
    rw [ScheduleQueue.currentGeneration_bumpGeneration]
    split_ifs
    · exact Nat.le_succ _
    · exact le_rfl
  | pop | peekValid | takeTaskItems _ | clear =>
    cases h
    exact le_rfl

theorem run_currentGeneration_le {q q' : ScheduleQueue} {tr : List (QueueOp × List QueueResult)}
    (h : queueMachine.Run Machine.anyStep q tr q') (id : TaskId) :
    q.currentGeneration id ≤ q'.currentGeneration id :=
  h.invariant (I := fun s => q.currentGeneration id ≤ s.currentGeneration id) le_rfl
    fun _ _ _ _ hle _ hst => hle.trans (currentGeneration_le hst id)

/-- An item that the queue has held or that was valid is not of a later generation than
    the current one. -/
theorem ScheduleQueue.generation_le_of_held {q : ScheduleQueue} {item : ScheduledItem}
    (h : item ∈ q.heap ∨ q.isValid item = true) :
    item.generation ≤ q.currentGeneration item.taskId := by
  rcases h with hmem | hvalid
  · exact q.generation_le item hmem
  · have heq : q.currentGeneration item.taskId = item.generation := by
      simpa [ScheduleQueue.isValid] using hvalid
    exact le_of_eq heq.symm

/-- Every sequence of operations on the queue is one on the eager queue with the same
    results. In every state it reaches, `peek_valid` shows what the next `pop` takes out;
    the earliest time in `next_fire_by_trigger` is the time of the next `pop`, and the map
    is empty exactly if nothing pops; and an item that has been held or valid and is not
    valid any more will never be. -/
theorem queue_refines_eager :
    queueMachine.Refines ScheduleQueue.eager EagerQueue.Step ∧
    ∀ q, queueMachine.Reachable Machine.anyStep q →
      q.pop.1 = q.peekValid.1 ∧ q.peekValid.2.pop.1 = q.peekValid.1 ∧
      (q.pop.1 = none ↔ q.eager.entries = 0) ∧
      (∀ item, q.pop.1 = some item →
        (∃ key, q.nextFireByTrigger.lookup key = some item.nextFireAt) ∧
        ∀ key t, q.nextFireByTrigger.lookup key = some t → item.nextFireAt ≤ t) ∧
      (q.pop.1 = none ↔ ∀ key, q.nextFireByTrigger.lookup key = none) ∧
      ∀ tr q₁ tr' q₂ item, queueMachine.Run Machine.anyStep q tr q₁ →
        queueMachine.Run Machine.anyStep q₁ tr' q₂ →
        (item ∈ q.heap ∨ q.isValid item = true) → q₁.isValid item = false →
        q₂.isValid item = false := by
  refine ⟨queue_refines, ?_⟩
  intro q _
  have hnone : q.pop.1 = none ↔ q.eager.entries = 0 := by
    constructor
    · intro hpop
      exact ScheduleQueue.pending_pop_none (Prod.ext hpop rfl : q.pop = (none, q.pop.2))
    · intro hempty
      cases hpop : q.pop.1 with
      | none => rfl
      | some item =>
        obtain ⟨hpend, -⟩ :=
          ScheduleQueue.pending_pop (Prod.ext hpop rfl : q.pop = (some item, q.pop.2))
        change q.pending = 0 at hempty
        rw [hempty] at hpend
        exact absurd hpend.symm (Multiset.cons_ne_zero)
  refine ⟨q.pop_peekValid.1, q.pop_peekValid.2, hnone, ?_, ?_, ?_⟩
  · intro item hpop
    obtain ⟨hpend, -, -, hmin⟩ :=
      ScheduleQueue.pending_pop (Prod.ext hpop rfl : q.pop = (some item, q.pop.2))
    have hle : ∀ key t, q.nextFireByTrigger.lookup key = some t → item.nextFireAt ≤ t := by
      intro key t hlook
      obtain ⟨e, he, -, rfl⟩ := ScheduleQueue.nextFireByTrigger_mem hlook
      rcases Multiset.mem_cons.mp (hpend ▸ he) with rfl | he
      · exact le_rfl
      · exact hmin e he
    refine ⟨?_, hle⟩
    have hmem : item.entry ∈ q.pending := hpend ▸ Multiset.mem_cons_self _ _
    obtain ⟨t, ht, hlook⟩ := ScheduleQueue.nextFireByTrigger_le hmem
    have heq : t = item.nextFireAt := le_antisymm ht (hle _ _ hlook)
    exact ⟨item.entry.key, heq ▸ hlook⟩
  · rw [hnone]
    constructor
    · intro hempty key
      by_contra hsome
      obtain ⟨t, hlook⟩ := Option.ne_none_iff_exists'.mp hsome
      obtain ⟨e, he, -⟩ := ScheduleQueue.nextFireByTrigger_mem hlook
      change q.pending = 0 at hempty
      rw [hempty] at he
      cases he
    · intro hall
      apply Multiset.eq_zero_of_forall_notMem
      intro e he
      obtain ⟨t, -, hlook⟩ := ScheduleQueue.nextFireByTrigger_le he
      rw [hall] at hlook
      cases hlook
  · intro tr q₁ tr' q₂ item hrun hrun' hheld hinvalid
    have hle := ScheduleQueue.generation_le_of_held hheld
    have hle₁ := run_currentGeneration_le hrun item.taskId
    have hle₂ := run_currentGeneration_le hrun' item.taskId
    simp only [ScheduleQueue.isValid, beq_eq_false_iff_ne] at hinvalid ⊢
    omega

end EasyJob.Scheduler
