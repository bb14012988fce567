import EasyJob.Scheduler.ClockJump

/-!
# The order of events

The loop takes the earliest entry of the queue, and everything that it adds to the
queue is evaluated after a reading of the clock. Along a run whose clock readings
never go back, whatever is added, removed, rerolled or rebuilt on the way:

* `events_chronological`: the scheduled events of all triggers together come in the
  order of their times, and everything pending is due after them.
* `once_fires_once`: a Once trigger sends at most one event, at its `fire_at`.
-/

namespace EasyJob.Scheduler

open EasyJob.Chrono EasyJob.Domain Transition

/-! ## Scheduled events -/

/-- The `scheduled_at` values of the events sent for triggers, in order. -/
def scheduledTimes (o : List Output) : List DateTime :=
  o.filterMap fun
    | .event event => if event.triggerId.isSome then some event.scheduledAt else none
    | _ => none

@[simp] theorem scheduledTimes_append (o o' : List Output) :
    scheduledTimes (o ++ o') = scheduledTimes o ++ scheduledTimes o' :=
  List.filterMap_append

@[simp] theorem scheduledTimes_evaluated (es : List Evaluation) :
    scheduledTimes (es.map .evaluated) = [] := by
  induction es with
  | nil => rfl
  | cons ev es ih => exact ih

section Steps

variable {env : Env} {sch sch' : Schedule} {trace : List (Action × List Output)} {a : Action}
  {o : List Output}

/-- A step sends no scheduled event, or that of an earliest entry. -/
theorem Schedule.Step.scheduledTimes_cases (h : sch.Step env a sch' o) :
    scheduledTimes o = [] ∨
      ∃ wake reading e rest, a = .fire wake reading ∧ sch.pending = e ::ₘ rest ∧
        (∀ e' ∈ sch.pending, e.nextFireAt ≤ e'.nextFireAt) ∧ scheduledTimes o = [e.nextFireAt] := by
  cases h with
  | fire wake reading e rest es hpending hearliest hkeys hes =>
    refine .inr ⟨wake, reading, e, rest, rfl, hpending, hearliest, ?_⟩
    rw [scheduledTimes_append, scheduledTimes_evaluated]
    rfl
  | triggerNow | rerollRejected | removeTask | tick => exact .inl rfl
  | reroll =>
    left
    rw [scheduledTimes_append, scheduledTimes_evaluated]
    rfl
  | addTask | rebuild => exact .inl (scheduledTimes_evaluated _)

/-- The events so far are in order, and before everything pending. -/
structure Chronological (trace : List (Action × List Output)) (sch : Schedule) : Prop where
  sorted : (scheduledTimes (Machine.outputs trace)).Pairwise (· ≤ ·)
  passed : ∀ x ∈ scheduledTimes (Machine.outputs trace),
    ∃ reading ∈ trace.flatMap clockReadings, x ≤ reading
  pending : ∀ x ∈ scheduledTimes (Machine.outputs trace), ∀ e ∈ sch.pending, x ≤ e.nextFireAt

theorem Chronological.init (registered : TaskId → Option Task) :
    Chronological [] ⟨registered, 0⟩ :=
  ⟨List.Pairwise.nil, fun _ hx => absurd hx List.not_mem_nil,
    fun _ hx => absurd hx List.not_mem_nil⟩

theorem Chronological.step (hi : Chronological trace sch) (hf : sch'.Fits)
    (h : sch.Step env a sch' o)
    (hclock : ∀ r ∈ trace.flatMap clockReadings, ∀ r' ∈ clockReadings (a, o), r ≤ r')
    (hstep : (clockReadings (a, o)).Pairwise (· ≤ ·))
    (hdue : ∀ wake reading, a = .fire wake reading → ∀ e ∈ sch.pending,
      (∀ e' ∈ sch.pending, e.nextFireAt ≤ e'.nextFireAt) → e.nextFireAt ≤ wake) :
    Chronological (trace ++ [(a, o)]) sch' := by
  have hout : scheduledTimes (Machine.outputs (trace ++ [(a, o)])) =
      scheduledTimes (Machine.outputs trace) ++ scheduledTimes o := by simp
  have hreadings : ∀ r ∈ trace.flatMap clockReadings,
      r ∈ (trace ++ [(a, o)]).flatMap clockReadings := by
    intro r hr
    rw [List.flatMap_append]
    exact List.mem_append_left _ hr
  -- what is pending afterwards was kept, or evaluated after a reading of this step
  have hafter : ∀ x, (∀ e ∈ sch.pending, x ≤ e.nextFireAt) →
      (∀ ev ∈ evaluations o, x ≤ ev.after) → ∀ e ∈ sch'.pending, x ≤ e.nextFireAt := by
    intro x hkept hnew e he
    obtain ⟨kept, hle, hpend, -⟩ := h.pending
    rcases Multiset.mem_add.mp (hpend ▸ he) with he | he
    · exact hkept e (Multiset.mem_of_le hle he)
    · exact (h.entriesOf_after hf hnew e he).le
  have hold : ∀ x ∈ scheduledTimes (Machine.outputs trace), ∀ e ∈ sch'.pending,
      x ≤ e.nextFireAt := by
    intro x hx
    obtain ⟨r, hr, hxr⟩ := hi.passed x hx
    exact hafter x (hi.pending x hx) fun ev hev =>
      hxr.trans (hclock r hr _ (after_mem_clockReadings h hev))
  rcases h.scheduledTimes_cases with hnone | ⟨wake, reading, e, rest, rfl, hpend, hearliest, hone⟩
  · rw [hnone, List.append_nil] at hout
    refine ⟨hout ▸ hi.sorted, fun x hx => ?_, hout ▸ hold⟩
    obtain ⟨r, hr, hxr⟩ := hi.passed x (hout ▸ hx)
    exact ⟨r, hreadings r hr, hxr⟩
  · have hmem : e ∈ sch.pending := hpend ▸ Multiset.mem_cons_self _ _
    have hwake : e.nextFireAt ≤ wake := hdue wake reading rfl e hmem hearliest
    have hwake_mem : wake ∈ clockReadings (Action.fire wake reading, o) := List.mem_cons_self
    have hlast : ∀ e' ∈ sch'.pending, e.nextFireAt ≤ e'.nextFireAt := by
      refine hafter _ hearliest fun ev hev => hwake.trans ?_
      exact (List.pairwise_cons.mp hstep).1 _ (List.mem_map_of_mem hev)
    rw [hone] at hout
    refine ⟨?_, fun x hx => ?_, fun x hx => ?_⟩
    · rw [hout]
      refine List.pairwise_append.mpr ⟨hi.sorted, List.pairwise_singleton _ _, fun x hx y hy => ?_⟩
      rw [List.mem_singleton.mp hy]
      exact hi.pending x hx e hmem
    · rw [hout] at hx
      rcases List.mem_append.mp hx with hx | hx
      · obtain ⟨r, hr, hxr⟩ := hi.passed x hx
        exact ⟨r, hreadings r hr, hxr⟩
      · rw [List.mem_singleton.mp hx]
        refine ⟨wake, ?_, hwake⟩
        rw [List.flatMap_append, List.flatMap_singleton]
        exact List.mem_append_right _ hwake_mem
    · rw [hout] at hx
      rcases List.mem_append.mp hx with hx | hx
      · exact hold x hx
      · rw [List.mem_singleton.mp hx]
        exact hlast

end Steps

/-! ## Runs of the loop -/

section Runs

variable {env : Env} {wall : DateTime} {mono : ℤ} {s : SchedulerState}
  {trace : List (Action × List Output)} {ok : SchedulerState → Action → Prop}

/-- The run rule for runs whose clock readings never go back. -/
theorem run_clock {I : List (Action × List Output) → SchedulerState → Prop}
    (h : (scheduler env wall mono).Run ok (scheduler env wall mono).init trace s)
    (hfit : ∀ s a, ok s a → a.AddsFit)
    (hclock : (trace.flatMap clockReadings).Pairwise (· ≤ ·))
    (h0 : I [] (scheduler env wall mono).init)
    (hstep : ∀ trace t a u o, (scheduler env wall mono).Run ok (scheduler env wall mono).init
        trace t → I trace t → ok t a → schedulerStep env t a = some (u, o) → u.schedule.Fits →
      (∀ r ∈ trace.flatMap clockReadings, ∀ r' ∈ clockReadings (a, o), r ≤ r') →
      (clockReadings (a, o)).Pairwise (· ≤ ·) → I (trace ++ [(a, o)]) u) : I trace s := by
  refine h.history (I := fun trace s => (trace.flatMap clockReadings).Pairwise (· ≤ ·) → I trace s)
    (fun _ => h0) ?_ hclock
  intro trace t a u o hrun ih hok hst hclock
  rw [List.flatMap_append, List.flatMap_singleton, List.pairwise_append] at hclock
  refine hstep trace t a u o hrun (ih hclock.1) hok hst ?_ hclock.2.2 hclock.2.1
  exact reachable_fits ⟨_, (hrun.snoc hok hst).mono hfit⟩

theorem run_chronological
    (h : (scheduler env wall mono).Run (fun s a => a.AddsFit ∧ FiresWhenDue s a)
      (scheduler env wall mono).init trace s)
    (hclock : (trace.flatMap clockReadings).Pairwise (· ≤ ·)) : Chronological trace s.schedule := by
  refine run_clock (I := fun trace s => Chronological trace s.schedule) h
    (fun _ _ hok => hok.1) hclock (Chronological.init _) ?_
  intro trace t a u o _ hi hok hst hf hbefore hstep
  refine hi.step hf (schedulerStep_refines hst) hbefore hstep ?_
  rintro wake reading rfl e - hearliest
  exact fire_due hst hok.2 hearliest

end Runs

/-! ## The order of all events -/

/-- Where the action registers the task, the trigger is a Once trigger for this instant. -/
def Action.AddsOnce (id : TaskId) (tr : TriggerId) (fireAt : DateTime) : Action → Prop
  | .command (.AddTask task) _ =>
    task.id = id → ∀ trigger ∈ task.triggers, trigger.id = tr → trigger.kind = .Once fireAt
  | _ => True

instance (id : TaskId) (tr : TriggerId) (fireAt : DateTime) :
    DecidablePred (Action.AddsOnce id tr fireAt)
  | .command (.AddTask task) _ =>
    inferInstanceAs (Decidable (task.id = id →
      ∀ trigger ∈ task.triggers, trigger.id = tr → trigger.kind = .Once fireAt))
  | .command (.RemoveTask _) _ | .command (.TriggerNow _) _ | .command (.RerollTrigger _ _) _
  | .command .Shutdown _ | .fire _ _ | .tick _ _ _ _ _ _ => isTrue trivial

/-! ### A reminder next to an hourly task -/

/-- The Once task fires, is saved once more and rerolled, and the hourly task fires. -/
def reminderActions : List Action :=
  [.command (.AddTask hourlyTask) fun _ => ⟨0, fun _ => 0⟩,
    .command (.AddTask onceTask) fun _ => ⟨0, fun _ => 0⟩,
    .fire (10 * nanosPerSec) ⟨10 * nanosPerSec, fun _ => 0⟩,
    .command (.AddTask onceTask) fun _ => ⟨20 * nanosPerSec, fun _ => 0⟩,
    .command (.RerollTrigger ⟨2⟩ ⟨8⟩) fun _ => ⟨20 * nanosPerSec, fun _ => 0⟩,
    .fire (3600 * nanosPerSec) ⟨3600 * nanosPerSec, fun _ => 0⟩]

def reminderExec : Option (List (Action × List Output) × SchedulerState) :=
  (scheduler utcOnly 0 0).exec (fun s a => (a.AddsFit ∧ FiresWhenDue s a) ∧
    a.AddsDistinct ∧ a.AddsOnce ⟨2⟩ ⟨8⟩ (10 * nanosPerSec)) (scheduler utcOnly 0 0).init
    reminderActions

theorem reminderExec_isSome : reminderExec.isSome = true := by decide +kernel

def reminderTrace : List (Action × List Output) := (reminderExec.get reminderExec_isSome).1

theorem reminderRun : ∃ s, (scheduler utcOnly 0 0).Run (fun s a => (a.AddsFit ∧ FiresWhenDue s a) ∧
    a.AddsDistinct ∧ a.AddsOnce ⟨2⟩ ⟨8⟩ (10 * nanosPerSec)) (scheduler utcOnly 0 0).init
    reminderTrace s :=
  ⟨_, Machine.exec_get_run reminderExec_isSome⟩

theorem reminderTrace_clock : (reminderTrace.flatMap clockReadings).Pairwise (· ≤ ·) := by
  decide +kernel

theorem reminderTrace_events :
    scheduledTimes (Machine.outputs reminderTrace) = [10 * nanosPerSec, 3600 * nanosPerSec] ∧
      emitted ⟨2⟩ ⟨8⟩ (Machine.outputs reminderTrace) ≠ [] := by
  decide +kernel

section Order

variable {env : Env} {wall : DateTime} {mono : ℤ} {s : SchedulerState}
  {trace : List (Action × List Output)}

/-- In every run whose clock readings never go back, that fires only what is due, and whose
    tasks have intervals that fit in an `i64`: the events sent for the triggers of all tasks come
    in the order of their times, and nothing that is pending is due before an event already sent. -/
theorem events_chronological
    (h : (scheduler env wall mono).Run (fun s a => a.AddsFit ∧ FiresWhenDue s a)
      (scheduler env wall mono).init trace s)
    (hclock : (trace.flatMap clockReadings).Pairwise (· ≤ ·)) :
    (scheduledTimes (Machine.outputs trace)).Pairwise (· ≤ ·) ∧
      ∀ item ∈ s.queue.heap, s.queue.isValid item = true →
        ∀ x ∈ scheduledTimes (Machine.outputs trace), x ≤ item.nextFireAt := by
  have hi := run_chronological h hclock
  refine ⟨hi.sorted, fun item hitem hvalid x hx => ?_⟩
  exact hi.pending x hx item.entry (ScheduleQueue.mem_pending.mpr ⟨item, hitem, hvalid, rfl⟩)

end Order

/-- The reminder and the hourly task fire in the order of their times. -/
theorem events_chronological_reminder :
    scheduledTimes (Machine.outputs reminderTrace) = [10 * nanosPerSec, 3600 * nanosPerSec] ∧
      (scheduledTimes (Machine.outputs reminderTrace)).Pairwise (· ≤ ·) := by
  obtain ⟨s, hrun⟩ := reminderRun
  exact ⟨reminderTrace_events.1,
    (events_chronological (hrun.mono fun _ _ hok => hok.1) reminderTrace_clock).1⟩

/-! ## Once triggers -/

/-- The registered trigger is a Once trigger, and it is in the queue with its instant. -/
structure Schedule.HasOnce (sch : Schedule) (id : TaskId) (tr : TriggerId) (fireAt : DateTime) :
    Prop where
  registered : ∀ task, sch.registered id = some task → ∀ trigger ∈ task.triggers,
    trigger.id = tr → trigger.kind = .Once fireAt
  pending : ∀ e ∈ sch.pending, e.key = (id, tr) → e.nextFireAt = fireAt

section Once

variable {env : Env} {sch sch' : Schedule} {a : Action} {o : List Output} {id : TaskId}
  {tr : TriggerId} {fireAt : DateTime}

theorem Schedule.HasOnce.init {wall : DateTime} {mono : ℤ} :
    (scheduler env wall mono).init.schedule.HasOnce id tr fireAt where
  registered _ h := by cases h
  pending _ h := absurd h (Multiset.notMem_zero _)

/-- A Once trigger is only evaluated to its instant. -/
theorem Schedule.HasOnce.result
    (h : ∀ task, sch.registered id = some task → ∀ trigger ∈ task.triggers, trigger.id = tr →
      trigger.kind = .Once fireAt)
    {ev : Evaluation} (hev : ev.IsOf env sch.registered) (hkey : ev.key = (id, tr)) {x : DateTime}
    (hx : ev.result = some x) : x = fireAt := by
  obtain ⟨task, hreg, -, trigger, htr, hid, -, draws, heval⟩ := hev
  obtain ⟨htask, htrigger⟩ := Prod.mk.inj hkey
  rw [h task (htask ▸ hreg) trigger htr (hid.trans htrigger), evaluateNextOccurrence, hx] at heval
  split_ifs at heval
  · cases heval
    rfl
  · cases heval

theorem Schedule.Step.hasOnce (h : sch.Step env a sch' o) (ha : a.AddsOnce id tr fireAt)
    (hs : sch.HasOnce id tr fireAt) : sch'.HasOnce id tr fireAt := by
  have hreg' : ∀ task, sch'.registered id = some task → ∀ trigger ∈ task.triggers,
      trigger.id = tr → trigger.kind = .Once fireAt := by
    intro task hreg
    rw [h.registered] at hreg
    unfold Action.register at hreg
    split at hreg
    · split_ifs at hreg with hid
      · cases hreg
        exact ha hid.symm
      · exact hs.registered task hreg
    · split_ifs at hreg
      exact hs.registered task hreg
    · exact hs.registered task hreg
  refine ⟨hreg', fun e he hkey => ?_⟩
  obtain ⟨kept, hle, hpend, -⟩ := h.pending
  rcases Multiset.mem_add.mp (hpend ▸ he) with he | he
  · exact hs.pending e (Multiset.mem_of_le hle he) hkey
  · obtain ⟨ev, hev, hevkey, hresult⟩ := mem_entriesOf.mp he
    exact Schedule.HasOnce.result hreg' (h.isOf ev hev) (hevkey.trans hkey) hresult

/-- A step sends only the instant of a Once trigger. -/
theorem Schedule.Step.emitted_once (h : sch.Step env a sch' o) (hs : sch.HasOnce id tr fireAt) :
    ∀ x ∈ emitted id tr o, x = fireAt := by
  rcases h.emitted_cases with hnone | ⟨wake, reading, e, rest, -, hpend, -, -, hem⟩
  · intro x hx
    rw [hnone] at hx
    cases hx
  · intro x hx
    rw [hem] at hx
    split_ifs at hx with hkey
    · rw [List.mem_singleton.mp hx]
      exact hs.pending e (hpend ▸ Multiset.mem_cons_self _ _) hkey
    · cases hx

/-- A strictly increasing list of one value. -/
theorem eq_nil_or_singleton {x : DateTime} {l : List DateTime} (hlt : l.Pairwise (· < ·))
    (heq : ∀ y ∈ l, y = x) : l = [] ∨ l = [x] := by
  match l with
  | [] => exact .inl rfl
  | [y] => exact .inr (by rw [heq y List.mem_cons_self])
  | y :: z :: l =>
    have hyz : y < z := (List.pairwise_cons.mp hlt).1 z List.mem_cons_self
    rw [heq y List.mem_cons_self, heq z (List.mem_cons_of_mem _ List.mem_cons_self)] at hyz
    exact absurd hyz (lt_irrefl x)

/-- In every run whose clock readings never go back, that fires only what is due, and whose
    tasks have distinct trigger ids and intervals that fit in an `i64`: while the task is only
    registered with this Once trigger, however often, its trigger sends one event at most, the one
    for its `fire_at`. -/
theorem once_fires_once {wall : DateTime} {mono : ℤ} {s : SchedulerState}
    {trace : List (Action × List Output)}
    (h : (scheduler env wall mono).Run
      (fun s a => (a.AddsFit ∧ FiresWhenDue s a) ∧ a.AddsDistinct ∧ a.AddsOnce id tr fireAt)
      (scheduler env wall mono).init trace s)
    (hclock : (trace.flatMap clockReadings).Pairwise (· ≤ ·)) :
    emitted id tr (Machine.outputs trace) = [] ∨
      emitted id tr (Machine.outputs trace) = [fireAt] := by
  have hinv : Ahead trace s.schedule ∧ s.schedule.HasOnce id tr fireAt ∧
      ∀ x ∈ emitted id tr (Machine.outputs trace), x = fireAt := by
    refine run_clock (I := fun trace s => Ahead trace s.schedule ∧
      s.schedule.HasOnce id tr fireAt ∧ ∀ x ∈ emitted id tr (Machine.outputs trace), x = fireAt)
      h (fun _ _ hok => hok.1.1) hclock
      ⟨Ahead.init _, Schedule.HasOnce.init, fun _ hx => absurd hx List.not_mem_nil⟩ ?_
    rintro trace t a u o hrun ⟨hahead, honce, hem⟩ hok hst hf hbefore hstep
    have hrefines := schedulerStep_refines hst
    refine ⟨?_, hrefines.hasOnce hok.2.2 honce, fun x hx => ?_⟩
    · refine hahead.step (run_uniqueKeys (hrun.mono fun _ _ hok => hok.2.1)) hrefines hbefore
        hstep (fun ev hev x hx => hf.lt (hrefines.isOf ev hev) hx) ?_
      rintro wake reading rfl e - hearliest
      exact fire_due hst hok.1.2 hearliest
    · rw [Machine.outputs_append, Machine.outputs_singleton, emitted_append] at hx
      rcases List.mem_append.mp hx with hx | hx
      · exact hem x hx
      · exact hrefines.emitted_once honce x hx
  exact eq_nil_or_singleton (hinv.1.increasing id tr) hinv.2.2

end Once

/-- The reminder fires once, also though it was saved again and rerolled. -/
theorem once_fires_once_reminder :
    emitted ⟨2⟩ ⟨8⟩ (Machine.outputs reminderTrace) = [10 * nanosPerSec] := by
  obtain ⟨s, hrun⟩ := reminderRun
  exact (once_fires_once hrun reminderTrace_clock).resolve_left reminderTrace_events.2

end EasyJob.Scheduler
