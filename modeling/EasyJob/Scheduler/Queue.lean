import EasyJob.Domain.Task
import EasyJob.Lib.LazyHeap
import Mathlib.Data.Multiset.Filter

/-!
# The schedule queue

Model of `crates/scheduler/src/queue.rs`: a binary heap of `ScheduledItem`s with
a generation number for every task. An item whose generation is not the current
one of its task is stale and is dropped when it comes to the top.

A generation is a `u64` that starts at 1 and grows by one with every command of
its task; it is a natural number here.

* `ScheduleQueue.pending`: the valid items, without their generations. This is
  all that the scheduler observes of the queue.
* `pending_push`, `pending_pop`, `pending_peekValid`, `pending_bumpGeneration`,
  `pending_clear`, `pending_takeTaskItems`: what each operation does to it.
* `nextFireByTrigger_mem`, `nextFireByTrigger_le`: the earliest pending times.
-/

namespace EasyJob.Scheduler

open EasyJob.Chrono EasyJob.Domain

/-! ## Items and their order -/

structure ScheduledItem where
  taskId : TaskId
  triggerId : TriggerId
  nextFireAt : DateTime
  generation : ℕ
  deriving DecidableEq, Repr

/-- Model of `ScheduledItem::cmp` (lines 15–25): the earliest item is the greatest. -/
def ScheduledItem.cmp : ScheduledItem → ScheduledItem → Ordering :=
  compareLex (fun self other => compare other.nextFireAt self.nextFireAt)
    (compareLex (compareOn (·.taskId.uuid))
      (compareLex (compareOn (·.triggerId.uuid)) (compareOn (·.generation))))

instance : Std.TransCmp ScheduledItem.cmp := by
  have : Std.TransCmp fun self other : ScheduledItem =>
      compare other.nextFireAt self.nextFireAt :=
    @Std.TransCmp.opposite _ (compareOn ScheduledItem.nextFireAt) inferInstance
  unfold ScheduledItem.cmp
  infer_instance

theorem ScheduledItem.nextFireAt_le_of_cmp {a b : ScheduledItem} (h : (a.cmp b).isLE) :
    b.nextFireAt ≤ a.nextFireAt := by
  by_contra hlt
  have hc : compare b.nextFireAt a.nextFireAt = .gt := compare_gt_iff_gt.mpr (not_le.mp hlt)
  simp [ScheduledItem.cmp, compareLex, hc] at h

/-! ## The queue -/

/-- `ScheduleQueue`. No item in the heap is from a generation that its task has
    not reached yet: `push` only accepts items of the current one. -/
structure ScheduleQueue where
  heap : List ScheduledItem
  generations : HashMap TaskId ℕ
  generation_le : ∀ item ∈ heap, item.generation ≤ (generations.lookup item.taskId).getD 1

namespace ScheduleQueue

/-- `ScheduleQueue::new`. -/
def new : ScheduleQueue := ⟨[], ∅, by simp⟩

/-- Model of `current_generation` (lines 79–81). -/
def currentGeneration (q : ScheduleQueue) (taskId : TaskId) : ℕ :=
  (q.generations.lookup taskId).getD 1

/-- Model of `is_valid` (lines 83–85). -/
def isValid (q : ScheduleQueue) (item : ScheduledItem) : Bool :=
  q.currentGeneration item.taskId == item.generation

/-- `generations.entry(task_id).or_insert(1)`, then set to `gen`. -/
private theorem generation_le_insert {heap : List ScheduledItem} {generations : HashMap TaskId ℕ}
    (h : ∀ item ∈ heap, item.generation ≤ (generations.lookup item.taskId).getD 1)
    {id : TaskId} {gen : ℕ} (hgen : (generations.lookup id).getD 1 ≤ gen) :
    ∀ item ∈ heap, item.generation ≤ ((generations.insert id gen).lookup item.taskId).getD 1 := by
  intro item hitem
  by_cases hid : item.taskId = id
  · rw [hid, AList.lookup_insert]
    exact (h item hitem).trans (hid ▸ hgen)
  · rw [AList.lookup_insert_ne hid]
    exact h item hitem

/-- Model of `push` (lines 43–48). -/
def push (q : ScheduleQueue) (item : ScheduledItem) : ScheduleQueue where
  heap := if item.generation = q.currentGeneration item.taskId then item :: q.heap else q.heap
  generations := q.generations.insert item.taskId (q.currentGeneration item.taskId)
  generation_le := by
    have hq := generation_le_insert q.generation_le (le_refl (q.currentGeneration item.taskId))
    split_ifs with hgen
    · intro x hx
      rcases List.mem_cons.mp hx with rfl | hx
      · simp [hgen]
      · exact hq x hx
    · exact hq

/-- Model of `pop` (lines 50–57). -/
def pop (q : ScheduleQueue) : Option ScheduledItem × ScheduleQueue :=
  let r := LazyHeap.popValid ScheduledItem.cmp q.isValid q.heap.length q.heap
  (r.1, ⟨r.2, q.generations, fun item h => q.generation_le item (LazyHeap.popValid_subset _ _ _ h)⟩)

/-- Model of `peek_valid` (lines 63–71). -/
def peekValid (q : ScheduleQueue) : Option ScheduledItem × ScheduleQueue :=
  let r := LazyHeap.peekValid ScheduledItem.cmp q.isValid q.heap.length q.heap
  (r.1, ⟨r.2, q.generations,
    fun item h => q.generation_le item (LazyHeap.peekValid_subset _ _ _ h)⟩)

/-- Model of `bump_generation` (lines 73–77); the value returned is the new
    `currentGeneration`. -/
def bumpGeneration (q : ScheduleQueue) (taskId : TaskId) : ScheduleQueue where
  heap := q.heap
  generations := q.generations.insert taskId (q.currentGeneration taskId + 1)
  generation_le := generation_le_insert q.generation_le (Nat.le_succ _)

/-- Model of `clear` (lines 87–89). -/
def clear (q : ScheduleQueue) : ScheduleQueue := ⟨[], q.generations, by simp⟩

/-- Model of `take_task_items` (lines 123–136). -/
def takeTaskItems (q : ScheduleQueue) (taskId : TaskId) : List ScheduledItem × ScheduleQueue :=
  (q.heap.filter (·.taskId = taskId),
    ⟨q.heap.filter (·.taskId ≠ taskId), q.generations,
      fun item h => q.generation_le item (List.mem_of_mem_filter h)⟩)

/-- The body of the loop in `next_fire_by_trigger` (lines 107–119). -/
def keepEarliest (result : HashMap (TaskId × TriggerId) DateTime) (item : ScheduledItem) :
    HashMap (TaskId × TriggerId) DateTime :=
  match result.lookup (item.taskId, item.triggerId) with
  | some existing =>
    if item.nextFireAt < existing then
      result.insert (item.taskId, item.triggerId) item.nextFireAt
    else result
  | none => result.insert (item.taskId, item.triggerId) item.nextFireAt

/-- Model of `next_fire_by_trigger` (lines 101–121). -/
def nextFireByTrigger (q : ScheduleQueue) : HashMap (TaskId × TriggerId) DateTime :=
  (q.heap.filter q.isValid).foldl keepEarliest ∅

/-! ## Generations -/

@[simp] theorem currentGeneration_push (q : ScheduleQueue) (item : ScheduledItem) (id : TaskId) :
    (q.push item).currentGeneration id = q.currentGeneration id := by
  rw [currentGeneration, push]
  by_cases hid : id = item.taskId
  · rw [hid, AList.lookup_insert]
    rfl
  · rw [AList.lookup_insert_ne hid]
    rfl

@[simp] theorem currentGeneration_pop (q : ScheduleQueue) (id : TaskId) :
    q.pop.2.currentGeneration id = q.currentGeneration id := rfl

@[simp] theorem currentGeneration_peekValid (q : ScheduleQueue) (id : TaskId) :
    q.peekValid.2.currentGeneration id = q.currentGeneration id := rfl

@[simp] theorem currentGeneration_clear (q : ScheduleQueue) (id : TaskId) :
    q.clear.currentGeneration id = q.currentGeneration id := rfl

@[simp] theorem currentGeneration_takeTaskItems (q : ScheduleQueue) (taskId id : TaskId) :
    (q.takeTaskItems taskId).2.currentGeneration id = q.currentGeneration id := rfl

theorem currentGeneration_bumpGeneration (q : ScheduleQueue) (taskId id : TaskId) :
    (q.bumpGeneration taskId).currentGeneration id =
      if id = taskId then q.currentGeneration id + 1 else q.currentGeneration id := by
  rw [currentGeneration, bumpGeneration]
  split_ifs with hid
  · rw [hid, AList.lookup_insert]
    rfl
  · rw [AList.lookup_insert_ne hid]
    rfl

theorem isValid_congr {q q' : ScheduleQueue}
    (h : ∀ id, q'.currentGeneration id = q.currentGeneration id) : q'.isValid = q.isValid := by
  funext item
  rw [isValid, h, ← isValid]

end ScheduleQueue

/-! ## Pending entries -/

/-- What an item schedules: its generation is left out. -/
structure Entry where
  taskId : TaskId
  triggerId : TriggerId
  nextFireAt : DateTime
  deriving DecidableEq, Repr

def ScheduledItem.entry (item : ScheduledItem) : Entry :=
  ⟨item.taskId, item.triggerId, item.nextFireAt⟩

/-- The key that an entry is for. -/
def Entry.key (e : Entry) : TaskId × TriggerId := (e.taskId, e.triggerId)

@[simp] theorem ScheduledItem.entry_taskId (item : ScheduledItem) :
    item.entry.taskId = item.taskId := rfl

@[simp] theorem ScheduledItem.entry_triggerId (item : ScheduledItem) :
    item.entry.triggerId = item.triggerId := rfl

@[simp] theorem ScheduledItem.entry_nextFireAt (item : ScheduledItem) :
    item.entry.nextFireAt = item.nextFireAt := rfl

namespace ScheduleQueue

/-- The valid items of the queue. -/
def validItems (q : ScheduleQueue) : List ScheduledItem := q.heap.filter q.isValid

/-- The entries of the valid items, in no order. -/
def pending (q : ScheduleQueue) : Multiset Entry := (q.validItems.map ScheduledItem.entry : List _)

theorem mem_pending {q : ScheduleQueue} {e : Entry} :
    e ∈ q.pending ↔ ∃ item ∈ q.heap, q.isValid item = true ∧ item.entry = e := by
  simp [pending, validItems, and_assoc]

@[simp] theorem pending_clear (q : ScheduleQueue) : q.clear.pending = 0 := rfl

/-- An item of the current generation becomes pending; any other is dropped. -/
theorem pending_push (q : ScheduleQueue) (item : ScheduledItem) :
    (q.push item).pending =
      if item.generation = q.currentGeneration item.taskId then item.entry ::ₘ q.pending
      else q.pending := by
  have hv : (q.push item).isValid = q.isValid := isValid_congr (by simp)
  rw [pending, validItems, hv, push]
  split_ifs with hgen
  · have hitem : q.isValid item = true := by simp [isValid, hgen]
    simp [hitem, pending, validItems]
  · rfl

/-- `pop` takes out an earliest pending entry. -/
theorem pending_pop {q q' : ScheduleQueue} {item : ScheduledItem} (h : q.pop = (some item, q')) :
    q.pending = item.entry ::ₘ q'.pending ∧ item.generation = q.currentGeneration item.taskId ∧
      (∀ id, q'.currentGeneration id = q.currentGeneration id) ∧
      ∀ e ∈ q'.pending, item.nextFireAt ≤ e.nextFireAt := by
  obtain ⟨h1, h2⟩ := Prod.mk.inj h
  change q.pop.2 = q' at h2
  subst h2
  have hpop : LazyHeap.popValid ScheduledItem.cmp q.isValid q.heap.length q.heap =
      (some item, q.pop.2.heap) := Prod.ext h1 rfl
  obtain ⟨hvalid, hperm, hmax⟩ := LazyHeap.popValid_some hpop
  have hv : q.pop.2.isValid = q.isValid := isValid_congr (fun _ => rfl)
  refine ⟨?_, (by simpa [isValid] using hvalid : _ = _).symm, fun _ => rfl, ?_⟩
  · rw [pending, pending, validItems, validItems, hv, Multiset.cons_coe, ← List.map_cons]
    exact Multiset.coe_eq_coe.mpr (hperm.map _)
  · intro e he
    obtain ⟨y, hy, -, rfl⟩ := mem_pending.mp he
    exact ScheduledItem.nextFireAt_le_of_cmp (hmax y hy)

/-- Nothing pops only when nothing is pending. -/
theorem pending_pop_none {q q' : ScheduleQueue} (h : q.pop = (none, q')) : q.pending = 0 := by
  have hpop : LazyHeap.popValid ScheduledItem.cmp q.isValid q.heap.length q.heap =
      (none, q.pop.2.heap) := Prod.ext (Prod.mk.inj h).1 rfl
  rw [pending, validItems, LazyHeap.popValid_none le_rfl hpop]
  rfl

/-- `peek_valid` drops stale items only. -/
@[simp] theorem pending_peekValid (q : ScheduleQueue) : q.peekValid.2.pending = q.pending := by
  have hv : q.peekValid.2.isValid = q.isValid := isValid_congr (fun _ => rfl)
  rw [pending, pending, validItems, validItems, hv]
  exact Multiset.coe_eq_coe.mpr ((LazyHeap.peekValid_filter _ _).map _)

/-- The peeked item is an earliest pending entry. -/
theorem peekValid_some {q q' : ScheduleQueue} {item : ScheduledItem}
    (h : q.peekValid = (some item, q')) :
    item.entry ∈ q.pending ∧ ∀ e ∈ q.pending, item.nextFireAt ≤ e.nextFireAt := by
  have hpeek : LazyHeap.peekValid ScheduledItem.cmp q.isValid q.heap.length q.heap =
      (some item, q.peekValid.2.heap) := Prod.ext (Prod.mk.inj h).1 rfl
  obtain ⟨hvalid, hmem, hmax⟩ := LazyHeap.peekValid_some hpeek
  refine ⟨mem_pending.mpr ⟨item, hmem, hvalid, rfl⟩, ?_⟩
  intro e he
  obtain ⟨y, hy, hyv, rfl⟩ := mem_pending.mp he
  exact ScheduledItem.nextFireAt_le_of_cmp (hmax y hy hyv)

/-- A new generation makes every item of the task stale and no other. -/
theorem pending_bumpGeneration (q : ScheduleQueue) (taskId : TaskId) :
    (q.bumpGeneration taskId).pending = q.pending.filter (·.taskId ≠ taskId) := by
  have hv : ∀ item ∈ q.heap, (q.bumpGeneration taskId).isValid item =
      (decide (item.entry.taskId ≠ taskId) && q.isValid item) := by
    intro item hitem
    have hle : item.generation ≤ q.currentGeneration item.taskId := q.generation_le item hitem
    rw [isValid, currentGeneration_bumpGeneration]
    by_cases hid : item.taskId = taskId
    · simp only [hid, if_true, ScheduledItem.entry_taskId, ne_eq, not_true_eq_false,
        decide_false, Bool.false_and, beq_eq_false_iff_ne]
      rw [hid] at hle
      omega
    · simp [hid, isValid]
  rw [pending, pending, validItems, validItems, Multiset.filter_coe, List.filter_map]
  congr 2
  rw [show (q.bumpGeneration taskId).heap = q.heap from rfl, List.filter_congr hv,
    ← List.filter_filter]
  rfl

/-- What stays in the heap when the items of a task are taken out. -/
theorem pending_takeTaskItems (q : ScheduleQueue) (taskId : TaskId) :
    (q.takeTaskItems taskId).2.pending = q.pending.filter (·.taskId ≠ taskId) := by
  have hv : (q.takeTaskItems taskId).2.isValid = q.isValid := isValid_congr (fun _ => rfl)
  rw [pending, pending, validItems, validItems, hv, Multiset.filter_coe, List.filter_map]
  congr 2
  simp only [takeTaskItems, List.filter_filter]
  refine List.filter_congr fun item _ => ?_
  by_cases hid : item.taskId = taskId <;> simp [hid]

/-- The valid ones among the items taken out. -/
theorem takeTaskItems_valid (q : ScheduleQueue) (taskId : TaskId) :
    ((((q.takeTaskItems taskId).1.filter
      fun item => item.generation = q.currentGeneration taskId).map ScheduledItem.entry : List _) :
        Multiset Entry) = q.pending.filter (·.taskId = taskId) := by
  rw [pending, validItems, Multiset.filter_coe, List.filter_map]
  congr 2
  simp only [takeTaskItems, List.filter_filter]
  refine List.filter_congr fun item _ => ?_
  by_cases hid : item.taskId = taskId
  · simp [hid, isValid, beq_eq_decide, eq_comm]
  · simp [hid]

/-! ## The next time of each trigger -/

/-- One more item lowers the time of its own trigger to its time, or sets it. -/
theorem lookup_keepEarliest (result : HashMap (TaskId × TriggerId) DateTime)
    (item : ScheduledItem) (key : TaskId × TriggerId) :
    (keepEarliest result item).lookup key =
      if item.entry.key = key then
        some (((result.lookup key).map (min item.nextFireAt)).getD item.nextFireAt)
      else result.lookup key := by
  have hkey : item.entry.key = (item.taskId, item.triggerId) := rfl
  rw [keepEarliest, hkey]
  split_ifs with hid
  · subst hid
    cases hold : result.lookup (item.taskId, item.triggerId) with
    | none => simp
    | some existing =>
      dsimp only [Option.map_some, Option.getD_some]
      split_ifs with hlt
      · rw [AList.lookup_insert, min_eq_left (le_of_lt hlt)]
      · rw [hold, min_eq_right (not_lt.mp hlt)]
  · cases result.lookup (item.taskId, item.triggerId) with
    | none => exact AList.lookup_insert_ne (Ne.symm hid)
    | some existing =>
      dsimp only
      split_ifs
      · exact AList.lookup_insert_ne (Ne.symm hid)
      · rfl

/-- A time in the result is that of an item or was there before. -/
private theorem mem_foldl_keepEarliest {items : List ScheduledItem}
    {result : HashMap (TaskId × TriggerId) DateTime} {key : TaskId × TriggerId} {t : DateTime}
    (h : (items.foldl keepEarliest result).lookup key = some t) :
    (∃ item ∈ items, item.entry.key = key ∧ item.nextFireAt = t) ∨ result.lookup key = some t := by
  induction items generalizing result with
  | nil => exact .inr h
  | cons item items ih =>
    rcases ih h with ⟨x, hx, hkey, ht⟩ | hold
    · exact .inl ⟨x, List.mem_cons_of_mem _ hx, hkey, ht⟩
    · rw [lookup_keepEarliest] at hold
      split_ifs at hold with hid
      · cases hres : result.lookup key with
        | none =>
          rw [hres] at hold
          exact .inl ⟨item, List.mem_cons_self, hid, by simpa using hold⟩
        | some existing =>
          rw [hres] at hold
          have hmin : min item.nextFireAt existing = t := by simpa using hold
          rcases min_choice item.nextFireAt existing with hc | hc
          · exact .inl ⟨item, List.mem_cons_self, hid, hc.symm.trans hmin⟩
          · exact .inr (by rw [← hmin, hc])
      · exact .inr hold

/-- The times of the result are at most those before and those of the items. -/
private theorem foldl_keepEarliest_le {items : List ScheduledItem}
    {result : HashMap (TaskId × TriggerId) DateTime} {key : TaskId × TriggerId} {t : DateTime}
    (h : result.lookup key = some t ∨ ∃ item ∈ items, item.entry.key = key ∧ item.nextFireAt = t) :
    ∃ t' ≤ t, (items.foldl keepEarliest result).lookup key = some t' := by
  induction items generalizing result t with
  | nil =>
    rcases h with h | ⟨item, hitem, -⟩
    · exact ⟨t, le_rfl, h⟩
    · cases hitem
  | cons item items ih =>
    have hstep := lookup_keepEarliest result item key
    rcases h with h | ⟨x, hx, hkey, ht⟩
    · split_ifs at hstep with hid
      · rw [h] at hstep
        obtain ⟨t', hle, hlook⟩ := ih (.inl hstep)
        exact ⟨t', hle.trans (min_le_right _ _), hlook⟩
      · exact ih (.inl (hstep.trans h))
    · rcases List.mem_cons.mp hx with rfl | hx
      · rw [if_pos hkey] at hstep
        obtain ⟨t', hle, hlook⟩ := ih (.inl hstep)
        refine ⟨t', hle.trans ?_, hlook⟩
        rw [← ht]
        cases result.lookup key with
        | none => exact le_rfl
        | some existing => exact min_le_left _ _
      · exact ih (.inr ⟨x, hx, hkey, ht⟩)

/-- Each time in the result is that of a pending entry of the trigger. -/
theorem nextFireByTrigger_mem {q : ScheduleQueue} {key : TaskId × TriggerId} {t : DateTime}
    (h : q.nextFireByTrigger.lookup key = some t) :
    ∃ e ∈ q.pending, e.key = key ∧ e.nextFireAt = t := by
  rcases mem_foldl_keepEarliest h with ⟨item, hitem, hkey, ht⟩ | hold
  · obtain ⟨hmem, hvalid⟩ := List.mem_filter.mp hitem
    exact ⟨item.entry, mem_pending.mpr ⟨item, hmem, hvalid, rfl⟩, hkey, ht⟩
  · cases hold

/-- A trigger with a pending entry has a time, and not a later one. -/
theorem nextFireByTrigger_le {q : ScheduleQueue} {e : Entry} (h : e ∈ q.pending) :
    ∃ t ≤ e.nextFireAt, q.nextFireByTrigger.lookup e.key = some t := by
  obtain ⟨item, hitem, hvalid, rfl⟩ := mem_pending.mp h
  exact foldl_keepEarliest_le (.inr ⟨item, List.mem_filter.mpr ⟨hitem, hvalid⟩, rfl, rfl⟩)

end ScheduleQueue

end EasyJob.Scheduler
