import EasyJob.Scheduler.Entries

/-!
# No occurrence fires twice

Along a run whose clock readings never go back, the times of the events sent for
a trigger are strictly increasing. The invariant `Ahead` relates the pending
entries to the events sent: every pending entry of a trigger is after all the
events sent for it, and each of these is at or before some clock reading.
-/

namespace EasyJob.Scheduler

open EasyJob.Chrono EasyJob.Domain Transition

/-! ## Clock readings and events of a run -/

/-- The readings of the wall clock in a step, in order: the end of the sleep or
    the jump check, then the readings of the evaluations. -/
def clockReadings : Action × List Output → List DateTime
  | (.command (.TriggerNow _) readings, _) => [(readings 0).now]
  | (.command _ _, o) => (evaluations o).map Evaluation.after
  | (.fire wake _, o) => wake :: (evaluations o).map Evaluation.after
  | (.tick wall _ _ _ newWall _, o) => wall :: (evaluations o).map Evaluation.after ++ [newWall]

/-- The `scheduled_at` values of the events sent for a trigger, in order. -/
def emitted (id : TaskId) (tr : TriggerId) (o : List Output) : List DateTime :=
  o.filterMap fun
    | .event event =>
      if event.taskId = id ∧ event.triggerId = some tr then some event.scheduledAt else none
    | _ => none

@[simp] theorem emitted_append (id : TaskId) (tr : TriggerId) (o o' : List Output) :
    emitted id tr (o ++ o') = emitted id tr o ++ emitted id tr o' := by
  simp [emitted]

@[simp] theorem emitted_evaluated (id : TaskId) (tr : TriggerId) (es : List Evaluation) :
    emitted id tr (es.map .evaluated) = [] := by
  induction es with
  | nil => rfl
  | cons ev es ih => exact ih

/-- A step sends no scheduled event, or it takes out an earliest entry and sends
    the event of that entry. -/
theorem Schedule.Step.emitted_cases {env : Env} {sch sch' : Schedule} {a : Action} {o : List Output}
    (h : sch.Step env a sch' o) :
    (∀ id tr, emitted id tr o = []) ∨
      ∃ wake reading e rest, a = .fire wake reading ∧ sch.pending = e ::ₘ rest ∧
        (∀ e' ∈ sch.pending, e.nextFireAt ≤ e'.nextFireAt) ∧
        sch'.pending = rest + entriesOf (evaluations o) ∧
        ∀ id tr, emitted id tr o =
          if e.key = (id, tr) then [e.nextFireAt] else [] := by
  cases h with
  | fire wake reading e rest es hpending hearliest hkeys hes =>
    refine .inr ⟨wake, reading, e, rest, rfl, hpending, hearliest, by simp, ?_⟩
    intro id tr
    rw [emitted_append, emitted_evaluated, List.nil_append]
    by_cases hkey : e.taskId = id ∧ e.triggerId = tr <;>
      simp [emitted, Entry.key, hkey]
  | triggerNow => exact .inl fun _ _ => by simp [emitted]
  | rerollRejected | removeTask | tick => exact .inl fun _ _ => rfl
  | reroll =>
    left
    intro id tr
    rw [emitted_append, emitted_evaluated]
    rfl
  | addTask | rebuild => exact .inl fun _ _ => emitted_evaluated _ _ _

/-- The evaluations of a step are made at clock readings of the step. -/
theorem after_mem_clockReadings {env : Env} {sch sch' : Schedule} {a : Action} {o : List Output}
    (h : sch.Step env a sch' o) {ev : Evaluation} (hev : ev ∈ evaluations o) :
    ev.after ∈ clockReadings (a, o) := by
  have hmem : ev.after ∈ (evaluations o).map Evaluation.after := List.mem_map_of_mem hev
  cases h with
  | triggerNow => simp at hev
  | addTask | removeTask | rerollRejected | reroll => exact hmem
  | fire => exact List.mem_cons_of_mem _ hmem
  | tick | rebuild => exact List.mem_append_left _ (List.mem_cons_of_mem _ hmem)

/-! ## The invariant -/

/-- The pending entries of each trigger are ahead of the events sent for it. -/
structure Ahead (trace : List (Action × List Output)) (sch : Schedule) : Prop where
  increasing : ∀ id tr, (emitted id tr (Machine.outputs trace)).Pairwise (· < ·)
  passed : ∀ id tr, ∀ x ∈ emitted id tr (Machine.outputs trace),
    ∃ reading ∈ trace.flatMap clockReadings, x ≤ reading
  pending : ∀ e ∈ sch.pending, ∀ x ∈ emitted e.taskId e.triggerId (Machine.outputs trace),
    x < e.nextFireAt

theorem Ahead.init (registered : TaskId → Option Task) : Ahead [] ⟨registered, 0⟩ :=
  ⟨fun _ _ => List.Pairwise.nil, fun _ _ _ hx => by simp [emitted] at hx, fun _ he => by simp at he⟩

variable {env : Env} {sch sch' : Schedule} {trace : List (Action × List Output)} {a : Action}
  {o : List Output}

/-- An entry that a step adds is after every event sent before the step. -/
theorem Ahead.lt_evaluated (hi : Ahead trace sch) (h : sch.Step env a sch' o)
    (hclock : ∀ r ∈ trace.flatMap clockReadings, ∀ r' ∈ clockReadings (a, o), r ≤ r')
    (heval : ∀ ev ∈ evaluations o, ∀ x, ev.result = some x → ev.after < x) {e : Entry}
    (he : e ∈ entriesOf (evaluations o)) {x : DateTime}
    (hx : x ∈ emitted e.taskId e.triggerId (Machine.outputs trace)) : x < e.nextFireAt := by
  obtain ⟨ev, hev, -, hresult⟩ := mem_entriesOf.mp he
  obtain ⟨r, hr, hxr⟩ := hi.passed _ _ x hx
  calc x ≤ r := hxr
    _ ≤ ev.after := hclock r hr _ (after_mem_clockReadings h hev)
    _ < e.nextFireAt := heval ev hev _ hresult

theorem Ahead.step (hi : Ahead trace sch) (hu : sch.UniqueKeys) (h : sch.Step env a sch' o)
    (hclock : ∀ r ∈ trace.flatMap clockReadings, ∀ r' ∈ clockReadings (a, o), r ≤ r')
    (hstep : (clockReadings (a, o)).Pairwise (· ≤ ·))
    (heval : ∀ ev ∈ evaluations o, ∀ x, ev.result = some x → ev.after < x)
    (hdue : ∀ wake reading, a = .fire wake reading → ∀ e ∈ sch.pending,
      (∀ e' ∈ sch.pending, e.nextFireAt ≤ e'.nextFireAt) → e.nextFireAt ≤ wake) :
    Ahead (trace ++ [(a, o)]) sch' := by
  have hnew := fun {e} he {x} hx => hi.lt_evaluated h hclock heval (e := e) he (x := x) hx
  rcases h.emitted_cases with hnone | ⟨wake, reading, e, rest, rfl, hpend, hearliest, hpend', hem⟩
  · -- no scheduled event
    have hout : ∀ id tr, emitted id tr (Machine.outputs (trace ++ [(a, o)])) =
        emitted id tr (Machine.outputs trace) := by
      intro id tr
      simp [hnone]
    refine ⟨fun id tr => hout id tr ▸ hi.increasing id tr, ?_, ?_⟩
    · intro id tr x hx
      obtain ⟨r, hr, hxr⟩ := hi.passed id tr x (hout id tr ▸ hx)
      exact ⟨r, by rw [List.flatMap_append]; exact List.mem_append_left _ hr, hxr⟩
    · intro e he x hx
      rw [hout] at hx
      obtain ⟨kept, hle, hpend, -⟩ := h.pending
      rcases Multiset.mem_add.mp (hpend ▸ he) with he | he
      · exact hi.pending e (Multiset.mem_of_le hle he) x hx
      · exact hnew he hx
  · -- the entry `e` fires
    have hmem : e ∈ sch.pending := hpend ▸ Multiset.mem_cons_self _ _
    have hwake : e.nextFireAt ≤ wake := hdue wake reading rfl e hmem hearliest
    have hwake_mem : wake ∈ clockReadings (Action.fire wake reading, o) := List.mem_cons_self
    have hout : ∀ id tr, emitted id tr (Machine.outputs (trace ++ [(.fire wake reading, o)])) =
        emitted id tr (Machine.outputs trace) ++
          if e.key = (id, tr) then [e.nextFireAt] else [] := by
      intro id tr
      simp [hem]
    refine ⟨?_, ?_, ?_⟩
    · intro id tr
      rw [hout]
      split_ifs with hkey
      · obtain ⟨rfl, rfl⟩ := Prod.mk.inj hkey
        refine List.pairwise_append.mpr ⟨hi.increasing _ _, List.pairwise_singleton _ _, ?_⟩
        intro x hx y hy
        rw [List.mem_singleton.mp hy]
        exact hi.pending e hmem x hx
      · rw [List.append_nil]
        exact hi.increasing id tr
    · intro id tr x hx
      rw [hout] at hx
      rw [List.flatMap_append]
      rcases List.mem_append.mp hx with hx | hx
      · obtain ⟨r, hr, hxr⟩ := hi.passed id tr x hx
        exact ⟨r, List.mem_append_left _ hr, hxr⟩
      · refine ⟨wake, List.mem_append_right _ (by simpa using hwake_mem), ?_⟩
        split_ifs at hx
        · rw [List.mem_singleton.mp hx]
          exact hwake
        · cases hx
    · intro e' he' x hx
      rw [hout] at hx
      rw [hpend'] at he'
      rcases List.mem_append.mp hx with hx | hx
      · rcases Multiset.mem_add.mp he' with he' | he'
        · exact hi.pending e' (hpend ▸ Multiset.mem_cons_of_mem he') x hx
        · exact hnew he' hx
      · -- the event just sent: its trigger has no other entry, and a new one is later
        split_ifs at hx with hkey
        · rw [List.mem_singleton.mp hx]
          rcases Multiset.mem_add.mp he' with he' | he'
          · have hu' : ((e ::ₘ rest).map Entry.key).Nodup := hpend ▸ hu
            rw [Multiset.map_cons, Multiset.nodup_cons] at hu'
            exact absurd (Multiset.mem_map.mpr ⟨e', he', hkey.symm⟩) hu'.1
          · obtain ⟨ev, hev, -, hresult⟩ := mem_entriesOf.mp he'
            have hafter : wake ≤ ev.after :=
              (List.pairwise_cons.mp hstep).1 _ (List.mem_map_of_mem hev)
            calc e.nextFireAt ≤ wake := hwake
              _ ≤ ev.after := hafter
              _ < e'.nextFireAt := heval ev hev _ hresult
        · cases hx

/-! ## Runs of the loop -/

/-- A timer branch that is taken when due fires an entry that the clock has reached. -/
theorem fire_due {s s' : SchedulerState} {wake : DateTime} {reading : Reading}
    (hst : schedulerStep env s (.fire wake reading) = some (s', o))
    (hdue : FiresWhenDue s (.fire wake reading)) {e : Entry}
    (hearliest : ∀ e' ∈ s.pending, e.nextFireAt ≤ e'.nextFireAt) : e.nextFireAt ≤ wake := by
  unfold schedulerStep at hst
  dsimp only at hst
  split_ifs at hst with hsome
  obtain ⟨item, hitem⟩ := Option.isSome_iff_exists.mp hsome
  obtain ⟨hmem, -⟩ := ScheduleQueue.peekValid_some (Prod.ext hitem rfl : s.queue.peekValid = (_, _))
  exact (hearliest _ hmem).trans (hdue item hitem)

/-- In every run whose clock readings are nondecreasing, that fires only what is
    due, and whose evaluations are strictly after the instant they start from, the
    times of the events sent for a trigger are strictly increasing. -/
theorem scheduled_at_increasing {wall : DateTime} {mono : ℤ} {s : SchedulerState}
    (h : (scheduler env wall mono).Run (fun s a => a.AddsDistinct ∧ FiresWhenDue s a)
      (scheduler env wall mono).init trace s)
    (hclock : (trace.flatMap clockReadings).Pairwise (· ≤ ·))
    (heval : ∀ ev ∈ evaluations (Machine.outputs trace), ∀ x, ev.result = some x → ev.after < x) :
    ∀ id tr, (emitted id tr (Machine.outputs trace)).Pairwise (· < ·) := by
  have hahead : Ahead trace s.schedule := by
    refine h.history (I := fun trace s => (trace.flatMap clockReadings).Pairwise (· ≤ ·) →
      (∀ ev ∈ evaluations (Machine.outputs trace), ∀ x, ev.result = some x → ev.after < x) →
      Ahead trace s.schedule) (fun _ _ => Ahead.init _) ?_ hclock heval
    intro trace t a u o hrun ih hok hst hclock heval
    rw [List.flatMap_append, List.pairwise_append] at hclock
    rw [Machine.outputs_append, evaluations_append] at heval
    have hi := ih hclock.1 fun ev hev => heval ev (List.mem_append_left _ hev)
    refine hi.step (run_uniqueKeys (hrun.mono fun _ _ h => h.1)) (schedulerStep_refines hst)
      (by simpa using hclock.2.2) (by simpa using hclock.2.1)
      (fun ev hev => heval ev (List.mem_append_right _ (by simpa using hev))) ?_
    rintro wake reading rfl e - hearliest
    exact fire_due hst hok.2 hearliest
  exact hahead.increasing

/-- The two events of the hourly task in its run are one hour apart. -/
theorem scheduled_at_increasing_hourly :
    emitted ⟨1⟩ ⟨7⟩ (Machine.outputs hourlyTrace) = [3600 * nanosPerSec, 7200 * nanosPerSec] ∧
      (emitted ⟨1⟩ ⟨7⟩ (Machine.outputs hourlyTrace)).Pairwise (· < ·) :=
  ⟨by decide, scheduled_at_increasing hourlyRun (by decide) (by decide) ⟨1⟩ ⟨7⟩⟩

end EasyJob.Scheduler
