import EasyJob.Scheduler.Schedule
import Mathlib.Tactic.Abel

/-!
# The loop refines the schedule

`schedulerStep_refines`: every turn of the scheduler loop is a `Schedule.Step`
between the schedules that the states stand for, where the bag of entries is
what the queue has pending. Each branch has its own lemma, and each function
that a branch calls one lemma that says what it does to the pending entries.
`scheduler_refines` states it of the machine.
-/

namespace EasyJob.Scheduler

open EasyJob.Chrono EasyJob.Domain Transition

/-- The schedule that a state of the loop stands for. -/
def SchedulerState.schedule (s : SchedulerState) : Schedule where
  registered := s.registeredTasks.get
  pending := s.pending

/-! ## What each branch does to the pending entries -/

@[simp] theorem currentGeneration_pushNext (q : ScheduleQueue) (taskId : TaskId)
    (triggerId : TriggerId) (next : Option DateTime) (gen : ℕ) (id : TaskId) :
    (pushNext q taskId triggerId next gen).currentGeneration id = q.currentGeneration id := by
  cases next <;> simp [pushNext]

/-- At the current generation, the evaluation's entry becomes pending. -/
theorem pending_pushNext {q : ScheduleQueue} {taskId : TaskId} {gen : ℕ}
    (hgen : gen = q.currentGeneration taskId) (triggerId : TriggerId) (next : Option DateTime)
    (after : DateTime) :
    (pushNext q taskId triggerId next gen).pending =
      q.pending + entriesOf [⟨taskId, triggerId, after, next⟩] := by
  cases next with
  | none => rw [pushNext, entriesOf_cons_none [] rfl, entriesOf_nil, add_zero]
  | some next =>
    rw [pushNext, ScheduleQueue.pending_push, if_pos hgen, entriesOf_cons_some [] rfl,
      entriesOf_nil, Multiset.add_cons, add_zero]
    rfl

/-- The loop over the triggers of a task adds one entry for each evaluation that
    gives a time, and evaluates each enabled trigger once. -/
theorem enqueueTriggers_spec {env : Env} {taskId : TaskId} {gen : ℕ} {triggers : List Trigger}
    {readings : ℕ → Reading} {q q' : ScheduleQueue} {es : List Evaluation}
    (hgen : gen = q.currentGeneration taskId)
    (h : enqueueTriggers env taskId gen triggers readings q = .ok (q', es)) :
    (∀ id, q'.currentGeneration id = q.currentGeneration id) ∧
      q'.pending = q.pending + entriesOf es ∧
      es.map Evaluation.key = (triggers.filter (·.enabled)).map (fun tr => (taskId, tr.id)) ∧
      ∀ ev ∈ es, ∃ tr ∈ triggers, tr.id = ev.triggerId ∧ tr.enabled = true ∧
        ∃ k, ev.after = (readings k).now ∧
          evaluateNextOccurrence env tr.kind ev.after (readings k).draws = .ok ev.result := by
  induction triggers generalizing readings q es with
  | nil =>
    cases h
    simp
  | cons tr triggers ih =>
    rw [enqueueTriggers] at h
    by_cases hen : tr.enabled = true
    · rw [if_pos hen] at h
      obtain ⟨next, hnext, h⟩ := rust_bind_ok h
      obtain ⟨⟨q₂, es₂⟩, hrec, h⟩ := rust_bind_ok h
      cases h
      obtain ⟨h1, h2, h3, h4⟩ := ih (by simpa using hgen) hrec
      refine ⟨by simpa using h1, ?_, ?_, ?_⟩
      · rw [h2, pending_pushNext hgen tr.id next (readings 0).now, add_assoc, ← entriesOf_append,
          List.singleton_append]
      · simp [hen, h3, Evaluation.key]
      · intro ev hev
        rcases List.mem_cons.mp hev with rfl | hev
        · exact ⟨tr, List.mem_cons_self, rfl, hen, 0, rfl, hnext⟩
        · obtain ⟨tr', htr', hid, hen', k, hk⟩ := h4 ev hev
          exact ⟨tr', List.mem_cons_of_mem _ htr', hid, hen', k + 1, hk⟩
    · rw [if_neg hen] at h
      obtain ⟨h1, h2, h3, h4⟩ := ih hgen h
      refine ⟨h1, h2, by simpa [hen] using h3, ?_⟩
      intro ev hev
      obtain ⟨tr', htr', hrest⟩ := h4 ev hev
      exact ⟨tr', List.mem_cons_of_mem _ htr', hrest⟩

theorem rebuildTasks_spec {env : Env} {now : DateTime} {draws : TaskId → ℕ → ℕ → ℕ}
    {tasks : List Task} {q q' : ScheduleQueue} {es : List Evaluation}
    (h : rebuildTasks env now draws tasks q = .ok (q', es)) :
    q'.pending = q.pending + entriesOf es ∧ es.map Evaluation.key = tasks.flatMap taskKeys ∧
      ∀ ev ∈ es, ev.after = now ∧ ∃ task ∈ tasks, task.id = ev.taskId ∧ task.enabled = true ∧
        ∃ tr ∈ task.triggers, tr.id = ev.triggerId ∧ tr.enabled = true ∧
          ∃ draws, evaluateNextOccurrence env tr.kind ev.after draws = .ok ev.result := by
  induction tasks generalizing q es with
  | nil =>
    cases h
    simp
  | cons task tasks ih =>
    rw [rebuildTasks] at h
    by_cases hen : task.enabled = true
    · rw [if_pos hen] at h
      obtain ⟨⟨q₁, es₁⟩, hfirst, h⟩ := rust_bind_ok h
      obtain ⟨⟨q₂, es₂⟩, hrec, h⟩ := rust_bind_ok h
      cases h
      obtain ⟨-, h2, h3, h4⟩ := enqueueTriggers_spec rfl hfirst
      obtain ⟨h2', h3', h4'⟩ := ih hrec
      refine ⟨by rw [h2', h2, add_assoc, ← entriesOf_append], ?_, ?_⟩
      · simp [h3, h3', taskKeys, scheduledTriggers, hen]
      · intro ev hev
        rcases List.mem_append.mp hev with hev | hev
        · obtain ⟨tr, htr, hid, hten, k, hafter, heval⟩ := h4 ev hev
          have hkey : ev.key ∈ es₁.map Evaluation.key := List.mem_map_of_mem hev
          rw [h3] at hkey
          obtain ⟨tr', -, hkey⟩ := List.mem_map.mp hkey
          exact ⟨hafter, task, List.mem_cons_self, (Prod.mk.inj hkey).1, hen, tr, htr, hid, hten,
            _, heval⟩
        · obtain ⟨hafter, task', htask', hrest⟩ := h4' ev hev
          exact ⟨hafter, task', List.mem_cons_of_mem _ htask', hrest⟩
    · rw [if_neg hen] at h
      obtain ⟨h2, h3, h4⟩ := ih h
      refine ⟨h2, by simp [h3, taskKeys, scheduledTriggers, hen], ?_⟩
      intro ev hev
      obtain ⟨hafter, task', htask', hrest⟩ := h4 ev hev
      exact ⟨hafter, task', List.mem_cons_of_mem _ htask', hrest⟩

/-- The loop of `reroll_trigger` on valid items of a task: the items of the
    target are replaced by evaluations, the others stay as they are. -/
theorem rerollItems_spec {env : Env} {trigger : Trigger} {taskId : TaskId} {gen : ℕ}
    {items : List ScheduledItem} {readings : ℕ → Reading} {st st' : RerollLoop}
    (hitems : ∀ item ∈ items, item.taskId = taskId)
    (hgen : gen = st.queue.currentGeneration taskId)
    (h : rerollItems env trigger gen items readings st = .ok st') :
    ∃ es, st'.evaluations = st.evaluations ++ es ∧
      (∀ id, st'.queue.currentGeneration id = st.queue.currentGeneration id) ∧
      st'.queue.pending = st.queue.pending +
        ((items.map ScheduledItem.entry).filter (·.triggerId ≠ trigger.id) : List _) +
        entriesOf es ∧
      es.length = (items.filter (·.triggerId = trigger.id)).length ∧
      st'.targetRerolled = (st.targetRerolled || !es.isEmpty) ∧
      (es = [] → st'.newNext = st.newNext) ∧
      (∀ ev, es = [ev] → st'.newNext = ev.result.or st.newNext) ∧
      ∀ ev ∈ es, ev.key = (taskId, trigger.id) ∧
        ∃ draws, evaluateNextOccurrence env trigger.kind ev.after draws = .ok ev.result := by
  induction items generalizing readings st with
  | nil =>
    cases h
    exact ⟨[], by simp⟩
  | cons item items ih =>
    have hitem : item.taskId = taskId := hitems item List.mem_cons_self
    have hitems' : ∀ x ∈ items, x.taskId = taskId := fun x hx =>
      hitems x (List.mem_cons_of_mem _ hx)
    rw [rerollItems] at h
    by_cases hid : item.triggerId = trigger.id
    · rw [if_pos hid] at h
      obtain ⟨next, hnext, h⟩ := rust_bind_ok h
      obtain ⟨es, h1, h2, h3, h4, h5, h6, h7, h8⟩ := ih hitems' (by simpa using hgen) h
      refine ⟨⟨item.taskId, item.triggerId, (readings 0).now, next⟩ :: es, ?_⟩
      refine ⟨by simpa using h1, by simpa using h2, ?_, by simp [hid, h4], by simpa using h5,
        by simp, ?_, ?_⟩
      · rw [h3, pending_pushNext (hitem ▸ hgen) _ _ (readings 0).now]
        rw [← List.singleton_append (l := es), entriesOf_append]
        simp only [List.map_cons, ScheduledItem.entry_triggerId, hid, ne_eq, not_true_eq_false,
          decide_false, Bool.false_eq_true, not_false_eq_true, List.filter_cons_of_neg]
        abel
      · intro ev hev
        obtain ⟨rfl, rfl⟩ := List.cons_eq_cons.mp hev
        rw [h6 rfl]
      · intro ev hev
        rcases List.mem_cons.mp hev with rfl | hev
        · exact ⟨by rw [Evaluation.key, hitem, hid], _, hnext⟩
        · exact h8 ev hev
    · rw [if_neg hid] at h
      obtain ⟨es, h1, h2, h3, rest⟩ := ih hitems' (by simpa using hgen) h
      refine ⟨es, h1, by simpa using h2, ?_, by simpa [hid] using rest⟩
      rw [h3, ScheduleQueue.pending_push, if_pos (by simpa [hitem] using hgen)]
      simp [hid, ScheduledItem.entry, Multiset.cons_add, Multiset.add_cons, ← Multiset.cons_coe]

/-- Leaving out one trigger of a task is leaving out the task and putting back
    its other triggers. -/
theorem filter_key_ne (pending : Multiset Entry) (taskId : TaskId) (triggerId : TriggerId) :
    pending.filter (·.key ≠ (taskId, triggerId)) =
      pending.filter (·.taskId ≠ taskId) +
        (pending.filter (·.taskId = taskId)).filter (·.triggerId ≠ triggerId) := by
  rw [Multiset.filter_filter, Multiset.filter_add_filter]
  have hboth : pending.filter (fun e => e.taskId ≠ taskId ∧ e.triggerId ≠ triggerId ∧
      e.taskId = taskId) = 0 := Multiset.filter_eq_nil.mpr fun e _ h => h.1 h.2.2
  rw [hboth, add_zero]
  refine Multiset.filter_congr fun e _ => ?_
  simp only [Entry.key, ne_eq, Prod.mk.injEq]
  tauto

theorem filter_key_eq (pending : Multiset Entry) (taskId : TaskId) (triggerId : TriggerId) :
    pending.filter (·.key = (taskId, triggerId)) =
      (pending.filter (·.taskId = taskId)).filter (·.triggerId = triggerId) := by
  rw [Multiset.filter_filter]
  exact Multiset.filter_congr fun e _ => by simp [Entry.key, and_comm]

/-- A reroll replaces the pending entries of its target by one evaluation each,
    or adds one evaluation if there was none. -/
theorem rerollQueue_spec {env : Env} {q : ScheduleQueue} {taskId : TaskId} {trigger : Trigger}
    {readings : ℕ → Reading} {st : RerollLoop}
    (h : rerollQueue env q taskId trigger readings = .ok st) :
    st.queue.pending =
        q.pending.filter (·.key ≠ (taskId, trigger.id)) + entriesOf st.evaluations ∧
      st.evaluations.length =
        max 1 (Multiset.card (q.pending.filter (·.key = (taskId, trigger.id)))) ∧
      (∀ ev, st.evaluations = [ev] → st.newNext = ev.result) ∧
      ∀ ev ∈ st.evaluations, ev.key = (taskId, trigger.id) ∧
        ∃ draws, evaluateNextOccurrence env trigger.kind ev.after draws = .ok ev.result := by
  unfold rerollQueue at h
  dsimp only at h
  obtain ⟨st₁, hloop, hrest⟩ := rust_bind_ok h
  set items := (q.takeTaskItems taskId).1.filter (·.generation = q.currentGeneration taskId)
    with hitems_def
  have hitems : ∀ item ∈ items, item.taskId = taskId := by
    intro item hitem
    have := List.mem_of_mem_filter hitem
    simpa [ScheduleQueue.takeTaskItems] using (List.mem_filter.mp this).2
  have hmine : ((items.map ScheduledItem.entry : List _) : Multiset Entry) =
      q.pending.filter (·.taskId = taskId) := ScheduleQueue.takeTaskItems_valid q taskId
  have hothers : ((q.takeTaskItems taskId).2.bumpGeneration taskId).pending =
      q.pending.filter (·.taskId ≠ taskId) := by
    rw [ScheduleQueue.pending_bumpGeneration, ScheduleQueue.pending_takeTaskItems,
      Multiset.filter_filter]
    simp
  set q₁ := (q.takeTaskItems taskId).2.bumpGeneration taskId
  have hgen : q₁.currentGeneration taskId =
      (RerollLoop.mk q₁ false none []).queue.currentGeneration taskId := rfl
  obtain ⟨es, h1, h2, h3, h4, h5, h6, h7, h8⟩ := rerollItems_spec hitems hgen hloop
  have hkept : st₁.queue.pending =
      q.pending.filter (·.key ≠ (taskId, trigger.id)) + entriesOf es := by
    rw [h3, filter_key_ne, ← hothers, ← hmine, Multiset.filter_coe]
  have hlen : es.length = Multiset.card (q.pending.filter (·.key = (taskId, trigger.id))) := by
    rw [h4, filter_key_eq, ← hmine, Multiset.filter_coe, Multiset.coe_card, List.filter_map,
      List.length_map]
    rfl
  rw [List.nil_append] at h1
  by_cases hrerolled : st₁.targetRerolled = true
  · -- the loop met the target
    rw [if_pos hrerolled] at hrest
    cases hrest
    have hne : es ≠ [] := by
      rintro rfl
      simp [h5] at hrerolled
    have hpos : 0 < es.length := List.length_pos_iff.mpr hne
    rw [h1]
    exact ⟨hkept, by omega, fun ev hev => by simpa using h7 ev hev, h8⟩
  · -- the target was not pending
    rw [if_neg hrerolled] at hrest
    obtain ⟨next, hnext, hrest⟩ := rust_bind_ok hrest
    cases hrest
    have hes : es = [] := by
      by_contra hne
      simp [h5, hne] at hrerolled
    subst hes
    have hgen : ((q.takeTaskItems taskId).2.bumpGeneration taskId).currentGeneration taskId =
        st₁.queue.currentGeneration taskId := (h2 taskId).symm
    refine ⟨?_, ?_, ?_, ?_⟩
    · rw [pending_pushNext hgen _ _ (readings 0).now, hkept, h1]
      simp
    · simp only [h1, List.nil_append, List.length_singleton]
      simp only [List.length_nil] at hlen
      omega
    · intro ev hev
      simp only [h1, List.nil_append, List.cons.injEq, and_true] at hev
      rw [← hev, h6 rfl, Option.or_none]
    · intro ev hev
      simp only [h1, List.nil_append, List.mem_singleton] at hev
      rw [hev]
      exact ⟨rfl, _, hnext⟩

theorem rerollTarget_ok {reg : Registry} {taskId : TaskId} {triggerId : TriggerId}
    {trigger : Trigger} (h : rerollTarget reg taskId triggerId = .ok trigger) :
    trigger.id = triggerId ∧ ∃ task, reg.get taskId = some task ∧ task.enabled = true ∧
      trigger ∈ task.triggers ∧ trigger.enabled = true := by
  unfold rerollTarget at h
  split at h
  · cases h
  · rename_i task hget
    split_ifs at h with hen
    split at h
    · cases h
    · rename_i trigger' hfind
      split_ifs at h with hten
      cases h
      exact ⟨by simpa using List.find?_some hfind, task, hget, by simpa using hen,
        List.mem_of_find?_eq_some hfind, by simpa using hten⟩

/-! ## Refinement -/

/-- For a valid item, the timer branch renews the trigger that the schedule says. -/
theorem triggerToRenew_eq {s : SchedulerState} {q : ScheduleQueue} {item : ScheduledItem}
    (hgen : item.generation = q.currentGeneration item.taskId) :
    triggerToRenew q s.registeredTasks item = s.schedule.triggerToRenew item.entry := by
  unfold triggerToRenew Schedule.triggerToRenew
  cases hget : s.registeredTasks.get item.taskId with
  | none => simp [SchedulerState.schedule, hget]
  | some task =>
    have hid : task.id = item.taskId := Registry.get_id hget
    cases hen : task.enabled with
    | false => simp [SchedulerState.schedule, hget, hen]
    | true =>
      simp only [SchedulerState.schedule, hget, hid, hgen, hen, Option.bind_eq_bind,
        Option.bind_some, ScheduledItem.entry_taskId, and_self, if_true]
      rfl

theorem triggerToRenew_some {sch : Schedule} {e : Entry} {trigger : Trigger}
    (h : sch.triggerToRenew e = some trigger) :
    trigger.id = e.triggerId ∧ ∃ task, sch.registered e.taskId = some task ∧
      task.enabled = true ∧ trigger ∈ task.triggers ∧ trigger.enabled = true := by
  unfold Schedule.triggerToRenew at h
  obtain ⟨task, hreg, h⟩ := Option.bind_eq_some_iff.mp h
  split_ifs at h with hen
  obtain ⟨tr, hfind, h⟩ := Option.bind_eq_some_iff.mp h
  split_ifs at h with hten
  cases h
  exact ⟨by simpa using List.find?_some hfind, task, hreg, hen, List.mem_of_find?_eq_some hfind,
    hten⟩

section Refinement

variable {env : Env} {s s' : SchedulerState} {o : List Output}

theorem stepCommand_refines {cmd : SchedulerCommand} {readings : ℕ → Reading}
    (h : stepCommand env s cmd readings = some (s', o)) :
    s.schedule.Step env (.command cmd readings) s'.schedule o := by
  cases cmd with
  | AddTask task =>
    simp only [stepCommand] at h
    split at h
    · cases h
    · rename_i q es hadd
      cases h
      have hstep := ScheduleQueue.pending_bumpGeneration s.queue task.id
      have hreg := fun id => Registry.get_insert s.registeredTasks task id
      unfold addTask at hadd
      dsimp only at hadd
      by_cases hen : task.enabled = true
      · rw [if_pos hen] at hadd
        obtain ⟨-, h2, h3, h4⟩ := enqueueTriggers_spec rfl hadd
        have hpend : q.pending = s.schedule.pending.filter (·.taskId ≠ task.id) + entriesOf es := by
          rw [h2, hstep]
          rfl
        have hes : ∀ ev ∈ es, ev.IsOf env (s.registeredTasks.insert task).get := by
          intro ev hev
          obtain ⟨tr, htr, hid, hten, k, -, heval⟩ := h4 ev hev
          have hkey : ev.key ∈ es.map Evaluation.key := List.mem_map_of_mem hev
          rw [h3] at hkey
          obtain ⟨tr', -, hkey⟩ := List.mem_map.mp hkey
          have htask : ev.taskId = task.id := (Prod.mk.inj hkey).1.symm
          exact ⟨task, by rw [hreg, if_pos htask], hen, tr, htr, hid, hten, _, heval⟩
        have hadded : s.schedule.Step env _ _ _ := .addTask task readings es _ hreg
          (by simp [h3, taskKeys, scheduledTriggers, hen]) hes
        rwa [← hpend] at hadded
      · rw [if_neg hen] at hadd
        cases hadd
        have hpend : (s.queue.bumpGeneration task.id).pending =
            s.schedule.pending.filter (·.taskId ≠ task.id) + entriesOf [] := by
          rw [hstep, entriesOf_nil, add_zero]
          rfl
        have hadded : s.schedule.Step env _ _ _ := .addTask task readings [] _ hreg
          (by simp [taskKeys, scheduledTriggers, hen]) (by simp)
        rwa [← hpend] at hadded
  | RemoveTask id =>
    cases h
    have hpend : (s.queue.bumpGeneration id).pending =
        s.schedule.pending.filter (·.taskId ≠ id) := ScheduleQueue.pending_bumpGeneration _ _
    have hremoved : s.schedule.Step env _ _ _ :=
      .removeTask id readings _ fun id' => Registry.get_remove s.registeredTasks id id'
    rwa [← hpend] at hremoved
  | TriggerNow id =>
    cases h
    exact .triggerNow id readings
  | RerollTrigger taskId triggerId =>
    simp only [stepCommand] at h
    split at h
    · cases h
      exact .rerollRejected taskId triggerId readings _
    · rename_i trigger htarget
      obtain ⟨rfl, task, hget, hen, htr, hten⟩ := rerollTarget_ok htarget
      split at h
      · cases h
      · rename_i st hreroll
        cases h
        obtain ⟨h1, h2, h3, h4⟩ := rerollQueue_spec hreroll
        have hes : ∀ ev ∈ st.evaluations, ev.IsOf env s.schedule.registered := by
          intro ev hev
          obtain ⟨hkey, heval⟩ := h4 ev hev
          obtain ⟨htask, htrig⟩ := Prod.mk.inj hkey
          exact ⟨task, by rw [htask]; exact hget, hen, trigger, htr, htrig.symm, hten, heval⟩
        have hpend : st.queue.pending =
            s.schedule.pending.filter (·.key ≠ (taskId, trigger.id)) + entriesOf st.evaluations :=
          h1
        have hrerolled : s.schedule.Step env _ _ _ := .reroll taskId trigger.id readings
          st.evaluations st.newNext h2 (fun ev hev => (h4 ev hev).1) hes h3
        rwa [← hpend] at hrerolled
  | Shutdown => cases h

theorem stepFire_refines {wake : DateTime} {reading : Reading}
    (h : stepFire env s reading = some (s', o)) :
    s.schedule.Step env (.fire wake reading) s'.schedule o := by
  unfold stepFire at h
  split at h
  · cases h
  · rename_i item q hpop
    obtain ⟨hpend, hgen, hcur, hmin⟩ := ScheduleQueue.pending_pop hpop
    have hearliest : ∀ e ∈ s.schedule.pending, item.entry.nextFireAt ≤ e.nextFireAt := by
      intro e he
      rcases Multiset.mem_cons.mp (hpend ▸ he : e ∈ item.entry ::ₘ q.pending) with rfl | he
      · exact le_rfl
      · exact hmin e he
    split at h
    · cases h
    · rename_i q' es hrenew
      cases h
      unfold renew at hrenew
      rw [triggerToRenew_eq (by rw [hcur]; exact hgen)] at hrenew
      split at hrenew
      · rename_i hnone
        cases hrenew
        have hfired : s.schedule.Step env _ _ _ :=
          .fire wake reading item.entry q.pending [] hpend hearliest (by simp [hnone]) (by simp)
        simpa [SchedulerState.schedule] using hfired
      · rename_i trigger hsome
        obtain ⟨next, hnext, hrenew⟩ := rust_bind_ok hrenew
        cases hrenew
        obtain ⟨hid, task, hreg, hen, htr, hten⟩ := triggerToRenew_some hsome
        have hes : ∀ ev ∈ [(⟨item.taskId, trigger.id, reading.now, next⟩ : Evaluation)],
            ev.after = reading.now ∧ ev.IsOf env s.schedule.registered := by
          intro ev hev
          rw [List.mem_singleton.mp hev]
          exact ⟨rfl, task, hreg, hen, trigger, htr, rfl, hten, _, hnext⟩
        have hfired : s.schedule.Step env _ _ _ :=
          .fire wake reading item.entry q.pending _ hpend hearliest
            (by simp [hsome, Evaluation.key, Entry.key, hid]) hes
        rwa [← pending_pushNext rfl trigger.id next reading.now] at hfired

theorem stepTick_refines {wall : DateTime} {mono : ℤ} {now : DateTime}
    {draws : TaskId → ℕ → ℕ → ℕ} {newWall : DateTime} {newMono : ℤ}
    (h : stepTick env s wall mono now draws newWall newMono = some (s', o)) :
    s.schedule.Step env (.tick wall mono now draws newWall newMono) s'.schedule o := by
  unfold stepTick at h
  split_ifs at h
  · split at h
    · cases h
    · rename_i q es hrebuild
      cases h
      obtain ⟨h1, h2, h3⟩ := rebuildTasks_spec hrebuild
      rw [ScheduleQueue.pending_clear, zero_add] at h1
      have hkeys : s.schedule.AllKeys (es.map Evaluation.key) :=
        ⟨s.registeredTasks.values, Registry.nodup_values_id _, fun _ => Registry.mem_values, h2⟩
      have hes : ∀ ev ∈ es, ev.after = now ∧ ev.IsOf env s.schedule.registered := by
        intro ev hev
        obtain ⟨hafter, task, htask, hid, hen, tr, htr, htid, hten, heval⟩ := h3 ev hev
        exact ⟨hafter, task, hid ▸ Registry.mem_values.mp htask, hen, tr, htr, htid, hten, heval⟩
      have hrebuilt : s.schedule.Step env _ _ _ :=
        .rebuild wall mono now draws newWall newMono es hkeys hes
      rwa [← h1] at hrebuilt
  · cases h
    exact .tick wall mono now draws newWall newMono

/-- Every turn of the loop is a step of the schedule. -/
theorem schedulerStep_refines {a : Action} (h : schedulerStep env s a = some (s', o)) :
    s.schedule.Step env a s'.schedule o := by
  -- peeking only drops stale items
  have hpeek : SchedulerState.schedule { s with queue := s.queue.peekValid.2 } =
      s.schedule := by
    simp [SchedulerState.schedule, SchedulerState.pending]
  rw [← hpeek]
  unfold schedulerStep at h
  cases a with
  | command cmd readings => exact stepCommand_refines h
  | fire wake reading =>
    dsimp only at h
    split_ifs at h
    exact stepFire_refines h
  | tick wall mono now draws newWall newMono => exact stepTick_refines h

/-- The loop refines the schedule. -/
theorem scheduler_refines (env : Env) (wall : DateTime) (mono : ℤ) :
    (scheduler env wall mono).Refines SchedulerState.schedule (Schedule.Step env) := by
  intro s a s' o hst
  exact schedulerStep_refines hst

end Refinement

end EasyJob.Scheduler
