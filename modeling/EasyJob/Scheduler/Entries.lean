import EasyJob.Scheduler.Safety

/-!
# One entry for each trigger

No trigger has two valid entries, and none is lost: the entry of an enabled
trigger of a registered enabled task is there as long as its evaluations have
all given a time. An Interval trigger never evaluates to nothing, so it always
has its entry.

The first half is that the keys of the pending entries are pairwise distinct.
The second is `Schedule.Step.entry_kept`: a step either evaluates the trigger or
leaves its entry alone.
-/

namespace EasyJob.Scheduler

open EasyJob.Chrono EasyJob.Domain Transition

/-! ## Well-formed registries -/

/-- Every task is registered under its own id and its triggers have distinct ids. -/
def Schedule.WellFormed (sch : Schedule) : Prop :=
  ∀ id task, sch.registered id = some task → task.id = id ∧ task.DistinctTriggerIds

theorem Schedule.Step.wellFormed {env : Env} {sch sch' : Schedule} {a : Action} {o : List Output}
    (h : sch.Step env a sch' o) (ha : a.AddsDistinct) (hw : sch.WellFormed) : sch'.WellFormed := by
  intro id task hreg
  rw [h.registered] at hreg
  unfold Action.register at hreg
  split at hreg
  · rename_i added readings
    split_ifs at hreg with hid
    · cases hreg
      exact ⟨hid.symm, ha⟩
    · exact hw id task hreg
  · split_ifs at hreg
    exact hw id task hreg
  · exact hw id task hreg

/-! ## No trigger has two entries -/

/-- The pending entries have pairwise distinct keys. -/
def Schedule.UniqueKeys (sch : Schedule) : Prop := (sch.pending.map Entry.key).Nodup

/-- With unique keys, a key has at most one entry. -/
theorem Schedule.UniqueKeys.card_key_le {sch : Schedule} (hu : sch.UniqueKeys)
    (key : TaskId × TriggerId) : Multiset.card (sch.pending.filter (·.key = key)) ≤ 1 := by
  have hcount := Multiset.nodup_iff_count_le_one.mp hu key
  rw [Multiset.count_map] at hcount
  simpa [eq_comm] using hcount

theorem entriesOf_keys_sublist (es : List Evaluation) :
    ((es.filterMap Evaluation.entry).map Entry.key).Sublist (es.map Evaluation.key) := by
  induction es with
  | nil => exact List.Sublist.refl _
  | cons ev es ih =>
    obtain ⟨taskId, triggerId, after, result⟩ := ev
    cases result with
    | none => simpa [List.filterMap_cons, Evaluation.entry] using ih.cons _
    | some next => simpa [List.filterMap_cons, Evaluation.entry, Evaluation.key, Entry.key] using ih

/-- The entries of evaluations for distinct keys have distinct keys. -/
theorem nodup_entriesOf {es : List Evaluation} (h : (es.map Evaluation.key).Nodup) :
    ((entriesOf es).map Entry.key).Nodup :=
  Multiset.coe_nodup.mpr (h.sublist (entriesOf_keys_sublist es))

theorem key_mem_of_entriesOf {es : List Evaluation} {k : TaskId × TriggerId}
    (h : k ∈ (entriesOf es).map Entry.key) : k ∈ es.map Evaluation.key :=
  (entriesOf_keys_sublist es).subset h

/-- Entries with distinct keys stay so when those of some evaluations are added,
    if these are for distinct keys and none of them is there. -/
theorem nodup_add_entriesOf {kept : Multiset Entry} {es : List Evaluation}
    (hkept : (kept.map Entry.key).Nodup) (hes : (es.map Evaluation.key).Nodup)
    (hdisj : ∀ e ∈ kept, e.key ∉ es.map Evaluation.key) :
    ((kept + entriesOf es).map Entry.key).Nodup := by
  rw [Multiset.map_add, Multiset.nodup_add]
  refine ⟨hkept, nodup_entriesOf hes, ?_⟩
  rw [Multiset.disjoint_left]
  intro k hk hk'
  obtain ⟨e, he, rfl⟩ := Multiset.mem_map.mp hk
  exact hdisj e he (key_mem_of_entriesOf hk')

theorem nodup_keys_of_le {p q : Multiset Entry} (h : p ≤ q) (hq : (q.map Entry.key).Nodup) :
    (p.map Entry.key).Nodup :=
  Multiset.nodup_of_le (Multiset.map_le_map h) hq

/-- The keys that the registered tasks ask for are distinct. -/
theorem Schedule.AllKeys.nodup {sch : Schedule} {keys : List (TaskId × TriggerId)}
    (h : sch.AllKeys keys) (hw : sch.WellFormed) : keys.Nodup := by
  obtain ⟨tasks, hids, htasks, rfl⟩ := h
  refine List.nodup_flatMap.mpr ⟨?_, ?_⟩
  · intro task htask
    exact nodup_taskKeys (hw _ _ ((htasks task).mp htask)).2
  · have hpair : tasks.Pairwise fun a b => a.id ≠ b.id := List.pairwise_map.mp hids
    refine hpair.imp fun {a b} hab => ?_
    intro k ha hb
    obtain ⟨t, -, rfl⟩ := List.mem_map.mp ha
    obtain ⟨t', -, heq⟩ := List.mem_map.mp hb
    exact hab (Prod.mk.inj heq).1.symm

theorem Schedule.Step.uniqueKeys {env : Env} {sch sch' : Schedule} {a : Action} {o : List Output}
    (h : sch.Step env a sch' o) (hw : sch'.WellFormed) (hu : sch.UniqueKeys) : sch'.UniqueKeys := by
  cases h with
  | addTask task readings es registered hreg hkeys hes =>
    have htask : task.DistinctTriggerIds := (hw task.id task ((hreg _).trans (if_pos rfl))).2
    refine nodup_add_entriesOf (nodup_keys_of_le (Multiset.filter_le _ _) hu)
      (hkeys ▸ nodup_taskKeys htask) ?_
    intro e he hmem
    rw [hkeys] at hmem
    obtain ⟨t, -, hkey⟩ := List.mem_map.mp hmem
    exact (Multiset.mem_filter.mp he).2 (Prod.mk.inj hkey).1.symm
  | removeTask removed readings registered hreg =>
    exact nodup_keys_of_le (Multiset.filter_le _ _) hu
  | triggerNow | rerollRejected | tick => exact hu
  | reroll taskId triggerId readings es next hlen hkey hes hnext =>
    -- the target has at most one entry, so it is evaluated once
    have hcard := hu.card_key_le (taskId, triggerId)
    have hone : es.length = 1 := by omega
    obtain ⟨ev, rfl⟩ := List.length_eq_one_iff.mp hone
    refine nodup_add_entriesOf (nodup_keys_of_le (Multiset.filter_le _ _) hu) (by simp) ?_
    intro e he hmem
    rw [List.map_singleton, List.mem_singleton, hkey ev (List.mem_singleton_self _)] at hmem
    exact (Multiset.mem_filter.mp he).2 hmem
  | fire wake reading e rest es hpending hearliest hkeys hes =>
    have hu' : ((e ::ₘ rest).map Entry.key).Nodup := hpending ▸ hu
    rw [Multiset.map_cons, Multiset.nodup_cons] at hu'
    have hsub : es.map Evaluation.key ⊆ [e.key] := by
      rw [hkeys]
      split_ifs <;> simp
    refine nodup_add_entriesOf hu'.2 (by rw [hkeys]; split_ifs <;> simp) ?_
    intro e' he' hmem
    have heq : e'.key = e.key := by simpa using hsub hmem
    exact hu'.1 (heq ▸ Multiset.mem_map_of_mem _ he')
  | rebuild wall mono now draws newWall newMono es hkeys hes =>
    exact nodup_entriesOf (hkeys.nodup hw)

/-! ## No entry is lost -/

/-- The action registers a version of the task. -/
def Action.Adds (id : TaskId) : Action → Prop
  | .command (.AddTask task) _ => task.id = id
  | _ => False

/-- A wanted trigger of a well-formed task is the one to renew. -/
theorem Schedule.triggerToRenew_isSome {sch : Schedule} {e : Entry} (hw : sch.WellFormed)
    (h : sch.Wants e.taskId e.triggerId) : (sch.triggerToRenew e).isSome := by
  obtain ⟨task, hreg, hen, trigger, htr, hid, hten⟩ := h
  have hfind := (hw _ _ hreg).2.find htr
  rw [hid] at hfind
  simp [triggerToRenew, hreg, hen, hfind, hten]

/-- A step evaluates a wanted trigger, or leaves the task registered as it was
    and the entries of the trigger pending. -/
theorem Schedule.Step.evaluates_or_keeps {env : Env} {sch sch' : Schedule} {a : Action}
    {o : List Output} (h : sch.Step env a sch' o) (hw : sch'.WellFormed) {id : TaskId}
    {tr : TriggerId} {task : Task} (hreg : sch'.registered id = some task)
    (hsch : task.Schedules tr) :
    (∃ ev ∈ evaluations o, ev.key = (id, tr)) ∨
      ¬a.Adds id ∧ sch.registered id = some task ∧
        ∀ e ∈ sch.pending, e.key = (id, tr) → e ∈ sch'.pending := by
  cases h with
  | addTask added readings es registered hadd hkeys hes =>
    change registered id = some task at hreg
    rw [hadd] at hreg
    by_cases hid : id = added.id
    · rw [if_pos hid] at hreg
      cases hreg
      have hmem : (id, tr) ∈ es.map Evaluation.key := by
        rw [hkeys, hid]
        exact List.mem_map_of_mem (mem_scheduledTriggers.mpr hsch)
      obtain ⟨ev, hev, hkey⟩ := List.mem_map.mp hmem
      exact .inl ⟨ev, by simpa using hev, hkey⟩
    · right
      rw [if_neg hid] at hreg
      refine ⟨fun heq => hid heq.symm, hreg, ?_⟩
      intro e he hkey
      refine Multiset.mem_add.mpr (.inl (Multiset.mem_filter.mpr ⟨he, ?_⟩))
      rw [(Prod.mk.inj hkey).1]
      exact hid
  | removeTask removed readings registered hrem =>
    right
    change registered id = some task at hreg
    rw [hrem] at hreg
    split_ifs at hreg with hid
    refine ⟨not_false, hreg, ?_⟩
    intro e he hkey
    refine Multiset.mem_filter.mpr ⟨he, ?_⟩
    rw [(Prod.mk.inj hkey).1]
    exact hid
  | triggerNow | rerollRejected | tick =>
    exact .inr ⟨not_false, hreg, fun _ he _ => he⟩
  | reroll taskId triggerId readings es next hlen hkey hes hnext =>
    by_cases htarget : (id, tr) = (taskId, triggerId)
    · obtain ⟨ev, hev⟩ := List.exists_mem_of_length_pos (l := es) (by omega)
      exact .inl ⟨ev, by simpa using hev, by rw [hkey ev hev, htarget]⟩
    · refine .inr ⟨not_false, hreg, ?_⟩
      intro e he hk
      exact Multiset.mem_add.mpr (.inl (Multiset.mem_filter.mpr ⟨he, hk ▸ htarget⟩))
  | fire wake reading e rest es hpending hearliest hkeys hes =>
    by_cases hfired : e.key = (id, tr)
    · have hwants : sch.Wants e.taskId e.triggerId := by
        obtain ⟨h1, h2⟩ := Prod.mk.inj hfired
        rw [h1, h2]
        exact ⟨task, hreg, hsch⟩
      have hw' : sch.WellFormed := hw
      rw [if_pos (Schedule.triggerToRenew_isSome hw' hwants)] at hkeys
      have hmem : (id, tr) ∈ es.map Evaluation.key := by rw [hkeys, hfired]; simp
      obtain ⟨ev, hev, hkey⟩ := List.mem_map.mp hmem
      exact .inl ⟨ev, by simpa using hev, hkey⟩
    · refine .inr ⟨not_false, hreg, ?_⟩
      intro e' he' hk
      rw [hpending] at he'
      rcases Multiset.mem_cons.mp he' with rfl | he'
      · exact absurd hk hfired
      · exact Multiset.mem_add.mpr (.inl he')
  | rebuild wall mono now draws newWall newMono es hkeys hes =>
    obtain ⟨tasks, -, htasks, hflat⟩ := hkeys
    obtain ⟨hid, -⟩ := hw id task hreg
    have hmem : (id, tr) ∈ es.map Evaluation.key := by
      rw [hflat, ← hid]
      exact List.mem_flatMap.mpr ⟨task, (htasks task).mpr (hid ▸ hreg),
        List.mem_map_of_mem (mem_scheduledTriggers.mpr hsch)⟩
    obtain ⟨ev, hev, hkey⟩ := List.mem_map.mp hmem
    exact .inl ⟨ev, by simpa using hev, hkey⟩

/-- A wanted trigger has an entry after a step if all its evaluations in the step
    give a time, and it had one before in case the task was not added. -/
theorem Schedule.Step.entry_kept {env : Env} {sch sch' : Schedule} {a : Action}
    {o : List Output} (h : sch.Step env a sch' o) (hw : sch'.WellFormed) {id : TaskId}
    {tr : TriggerId} {task : Task} (hreg : sch'.registered id = some task)
    (hsch : task.Schedules tr)
    (hsome : ∀ ev ∈ evaluations o, ev.key = (id, tr) → ev.result ≠ none)
    (hold : ¬a.Adds id → sch.registered id = some task → (id, tr) ∈ sch.pending.map Entry.key) :
    (id, tr) ∈ sch'.pending.map Entry.key := by
  rcases h.evaluates_or_keeps hw hreg hsch with ⟨ev, hev, hkey⟩ | ⟨hadds, hreg', hkeep⟩
  · obtain ⟨next, hnext⟩ := Option.ne_none_iff_exists'.mp (hsome ev hev hkey)
    obtain ⟨kept, -, hpend, -⟩ := h.pending
    refine Multiset.mem_map.mpr ⟨⟨id, tr, next⟩, ?_, rfl⟩
    rw [hpend]
    exact Multiset.mem_add.mpr (.inr (mem_entriesOf.mpr ⟨ev, hev, hkey, hnext⟩))
  · obtain ⟨e, he, hkey⟩ := Multiset.mem_map.mp (hold hadds hreg')
    exact Multiset.mem_map.mpr ⟨e, hkeep e he hkey, hkey⟩

/-! ## Runs of the loop -/

/-- Every evaluation of the trigger that gave nothing is followed by an `AddTask`
    of its task: since the task was last added, all gave a time. -/
def SomeSinceAdded (id : TaskId) (tr : TriggerId) (trace : List (Action × List Output)) : Prop :=
  ∀ pre a o post, trace = pre ++ (a, o) :: post →
    (∃ ev ∈ evaluations o, ev.key = (id, tr) ∧ ev.result = none) → ∃ x ∈ post, x.1.Adds id

theorem SomeSinceAdded.last {id : TaskId} {tr : TriggerId} {trace : List (Action × List Output)}
    {a : Action} {o : List Output} (h : SomeSinceAdded id tr (trace ++ [(a, o)])) :
    ∀ ev ∈ evaluations o, ev.key = (id, tr) → ev.result ≠ none := by
  intro ev hev hkey hnone
  obtain ⟨x, hx, -⟩ := h trace a o [] rfl ⟨ev, hev, hkey, hnone⟩
  cases hx

theorem SomeSinceAdded.init {id : TaskId} {tr : TriggerId} {trace : List (Action × List Output)}
    {a : Action} {o : List Output} (h : SomeSinceAdded id tr (trace ++ [(a, o)]))
    (ha : ¬a.Adds id) : SomeSinceAdded id tr trace := by
  rintro pre a' o' post rfl hnone
  obtain ⟨x, hx, hadds⟩ := h pre a' o' (post ++ [(a, o)]) (by simp) hnone
  rcases List.mem_append.mp hx with hx | hx
  · exact ⟨x, hx, hadds⟩
  · rw [List.mem_singleton.mp hx] at hadds
    exact absurd hadds ha

/-- The kind never evaluates to nothing. -/
def NeverNone (env : Env) (kind : TriggerKind) : Prop :=
  ∀ after draws, evaluateNextOccurrence env kind after draws ≠ .ok none

theorem neverNone_interval (env : Env) {secs : ℕ} (hs : secs ≠ 0) (startAt : Option DateTime) :
    NeverNone env (.Interval secs startAt) :=
  fun after _ => evaluateInterval_ne_none hs startAt after

section Runs

variable {env : Env} {wall : DateTime} {mono : ℤ} {s : SchedulerState}
  {trace : List (Action × List Output)}

/-- The runs in which all tasks that are added have distinct trigger ids. -/
def DistinctRun (env : Env) (wall : DateTime) (mono : ℤ) (trace : List (Action × List Output))
    (s : SchedulerState) : Prop :=
  (scheduler env wall mono).Run (fun _ a => a.AddsDistinct) (scheduler env wall mono).init trace s

theorem run_wellFormed (h : DistinctRun env wall mono trace s) : s.schedule.WellFormed := by
  apply (scheduler_refines env wall mono).invariant (I := Schedule.WellFormed) h
  · intro id task hreg
    cases hreg
  · intro _ _ _ _ hw ha hstep
    exact hstep.wellFormed ha hw

theorem run_uniqueKeys (h : DistinctRun env wall mono trace s) : s.schedule.UniqueKeys := by
  have hinv : s.schedule.WellFormed ∧ s.schedule.UniqueKeys := by
    apply (scheduler_refines env wall mono).invariant
      (I := fun sch => sch.WellFormed ∧ sch.UniqueKeys) h
    · refine ⟨?_, Multiset.nodup_zero⟩
      intro id task hreg
      cases hreg
    · intro _ _ _ _ hi ha hstep
      have hw := hstep.wellFormed ha hi.1
      exact ⟨hw, hstep.uniqueKeys hw hi.2⟩
  exact hinv.2

/-- A wanted trigger whose evaluations have given a time since its task was last
    added has an entry. -/
theorem run_entry (h : DistinctRun env wall mono trace s) {id : TaskId} {tr : TriggerId}
    {task : Task} (hreg : s.registeredTasks.get id = some task) (hsch : task.Schedules tr)
    (hsome : SomeSinceAdded id tr trace) : (id, tr) ∈ s.pending.map Entry.key := by
  refine Machine.Run.history (I := fun trace s => ∀ task, s.registeredTasks.get id = some task →
    task.Schedules tr → SomeSinceAdded id tr trace → (id, tr) ∈ s.pending.map Entry.key) h
    (fun _ hreg => by cases hreg) ?_ task hreg hsch hsome
  intro trace t a u o hrun ih ha hst task hreg hsch hsome
  have hstep := schedulerStep_refines hst
  exact hstep.entry_kept (hstep.wellFormed ha (run_wellFormed hrun)) hreg hsch hsome.last
    fun hadds hreg' => ih task hreg' hsch (hsome.init hadds)

/-- A wanted trigger of a kind that never evaluates to nothing has an entry. -/
theorem run_entry_neverNone (h : DistinctRun env wall mono trace s) {task : Task}
    (hreg : s.registeredTasks.get task.id = some task) (hen : task.enabled = true)
    {trigger : Trigger} (htr : trigger ∈ task.triggers) (hten : trigger.enabled = true)
    (hkind : NeverNone env trigger.kind) : (task.id, trigger.id) ∈ s.pending.map Entry.key := by
  refine Machine.Run.history (I := fun _ s => s.registeredTasks.get task.id = some task →
    (task.id, trigger.id) ∈ s.pending.map Entry.key) h (fun hreg => by cases hreg) ?_ hreg
  intro trace t a u o hrun ih ha hst hreg
  have hstep := schedulerStep_refines hst
  have hw := hstep.wellFormed ha (run_wellFormed hrun)
  refine hstep.entry_kept hw hreg ⟨hen, trigger, htr, rfl, hten⟩ ?_ fun _ hreg' => ih hreg'
  intro ev hev hkey hnone
  -- the evaluated trigger is this one: ids are distinct
  obtain ⟨task', hreg', -, trigger', htr', hid', -, draws, heval⟩ := hstep.isOf ev hev
  obtain ⟨h1, h2⟩ := Prod.mk.inj hkey
  rw [h1] at hreg'
  obtain rfl : task' = task := Option.some.inj (hreg'.symm.trans hreg)
  obtain rfl : trigger' = trigger := (hw _ _ hreg).2.eq_of_id htr' htr (hid'.trans h2)
  rw [hnone] at heval
  exact hkind _ _ heval

end Runs

/-- The valid items in the queue for a trigger. -/
def SchedulerState.validItemsOf (s : SchedulerState) (id : TaskId) (tr : TriggerId) :
    List ScheduledItem :=
  s.queue.validItems.filter fun item => item.taskId = id ∧ item.triggerId = tr

theorem length_validItemsOf (s : SchedulerState) (id : TaskId) (tr : TriggerId) :
    (s.validItemsOf id tr).length = (s.pending.map Entry.key).count (id, tr) := by
  rw [SchedulerState.pending, ScheduleQueue.pending, Multiset.map_coe, List.map_map,
    ← Multiset.map_coe, Multiset.count_map, Multiset.filter_coe, Multiset.coe_card]
  refine congrArg List.length (List.filter_congr fun item _ => ?_)
  simp [Entry.key, eq_comm]

/-- No run of the scheduler duplicates or loses an entry. A trigger has at most
    one valid item; it has exactly one if it is enabled in a registered enabled
    task and its evaluations since the task was last added have all given a time,
    and always if it is an Interval trigger. -/
theorem scheduler_one_entry {env : Env} {wall : DateTime} {mono : ℤ}
    {trace : List (Action × List Output)} {s : SchedulerState}
    (h : DistinctRun env wall mono trace s) :
    (∀ id tr, (s.validItemsOf id tr).length ≤ 1) ∧
    (∀ id tr task, s.registeredTasks.get id = some task → task.Schedules tr →
      SomeSinceAdded id tr trace → (s.validItemsOf id tr).length = 1) ∧
    (∀ id task trigger secs startAt, s.registeredTasks.get id = some task → task.enabled = true →
      trigger ∈ task.triggers → trigger.enabled = true → trigger.kind = .Interval secs startAt →
      secs ≠ 0 → (s.validItemsOf id trigger.id).length = 1) := by
  have hunique := run_uniqueKeys h
  refine ⟨?_, ?_, ?_⟩
  · intro id tr
    rw [length_validItemsOf]
    exact Multiset.nodup_iff_count_le_one.mp hunique _
  · intro id tr task hreg hsch hsome
    rw [length_validItemsOf]
    exact Multiset.count_eq_one_of_mem hunique (run_entry h hreg hsch hsome)
  · intro id task trigger secs startAt hreg hen htr hten hkind hsecs
    obtain rfl := Registry.get_id hreg
    rw [length_validItemsOf]
    refine Multiset.count_eq_one_of_mem hunique (run_entry_neverNone h hreg hen htr hten ?_)
    rw [hkind]
    exact neverNone_interval env hsecs startAt

/-- The trigger of the hourly task has one valid item. -/
theorem scheduler_one_entry_hourly : (hourlyState.validItemsOf ⟨1⟩ ⟨7⟩).length = 1 :=
  (scheduler_one_entry (hourlyRun.mono fun _ _ h => h.1)).2.2 ⟨1⟩ hourlyTask _ 3600 none rfl rfl
    List.mem_cons_self rfl rfl (by decide)

end EasyJob.Scheduler
