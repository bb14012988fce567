import EasyJob.Domain.JsonForms

/-!
# Written tasks are read back

`Task.toJson` writes a document that `Task.ofJson` reads, for every task whose
numbers have the widths of the source and whose texts `uuid` and `chrono` read as
they were written.

* `Task.form_toJson`: the written document is one of those that stand for the task.
* `Task.inRange_of_ofJson`: a task that was accepted from any document fits the types of
  the source.
* `Task.accepted_rewritten`: so it survives being written and read again.
-/

namespace EasyJob.Domain

open EasyJob.Chrono

/-! ## Ranges -/

/-- `u32` and `u64`. -/
structure RetryPolicy.InRange (p : RetryPolicy) : Prop where
  maxRetries : p.maxRetries < 2 ^ 32
  delaySecs : p.delaySecs < 2 ^ 64

/-- The days are a `u32`. -/
def LogRetentionPolicy.InRange : LogRetentionPolicy → Prop
  | .SystemDefault => True
  | .KeepDays days => days < 2 ^ 32
  | .Permanent => True

/-- The numbers of the policy fit the types of the source. -/
structure ExecutionPolicy.InRange (p : ExecutionPolicy) : Prop where
  retryPolicy : p.retryPolicy.InRange
  timeoutSecs : ∀ secs, p.timeoutSecs = some secs → secs < 2 ^ 64
  logRetention : p.logRetention.InRange

/-- The seconds of an Interval are a `u64`. -/
def TriggerKind.InRange : TriggerKind → Prop
  | .Interval intervalSecs _ => intervalSecs < 2 ^ 64
  | _ => True

/-- The numbers of the task fit the types of the source. -/
structure Task.InRange (t : Task) : Prop where
  triggers : ∀ trigger ∈ t.triggers, trigger.kind.InRange
  actions : ∀ action ∈ t.actions, action.sequence < 2 ^ 32
  executionPolicy : t.executionPolicy.InRange
  version : -2 ^ 63 ≤ t.version ∧ t.version < 2 ^ 63

/-! ## Texts -/

section Written

variable (readers : Readers) (texts : ChronoTexts)

/-- What `chrono` writes for the days it reads back. -/
def FuzzyPeriod.Written : FuzzyPeriod → Prop
  | .Weekly daysOfWeek => ∀ day ∈ daysOfWeek, Text readers.weekday day (weekdayToJson day)
  | _ => True

/-- What `chrono` writes for the instants, times and days of the trigger it reads back. -/
def TriggerKind.Written : TriggerKind → Prop
  | .Once fireAt => Text readers.dateTime fireAt (dateTimeToJson texts fireAt)
  | .Daily time _ => Text readers.naiveTime time (naiveTimeToJson texts time)
  | .Weekly daysOfWeek time _ =>
    (∀ day ∈ daysOfWeek, Text readers.weekday day (weekdayToJson day)) ∧
      Text readers.naiveTime time (naiveTimeToJson texts time)
  | .Interval _ startAt =>
    ∀ t, startAt = some t → Text readers.dateTime t (dateTimeToJson texts t)
  | .AgentStarted => True
  | .Cron _ _ => True
  | .Fuzzy period windowStart windowEnd _ =>
    period.Written readers ∧
      Text readers.naiveTime windowStart (naiveTimeToJson texts windowStart) ∧
      Text readers.naiveTime windowEnd (naiveTimeToJson texts windowEnd)
  | .Network _ _ => True

/-- What `uuid` and `chrono` write for the trigger they read back. -/
structure Trigger.Written (t : Trigger) : Prop where
  id : Text readers.uuid t.id.uuid (uuidToJson t.id.uuid)
  taskId : Text readers.uuid t.taskId.uuid (uuidToJson t.taskId.uuid)
  kind : t.kind.Written readers texts
  createdAt : Text readers.dateTime t.createdAt (dateTimeToJson texts t.createdAt)
  updatedAt : Text readers.dateTime t.updatedAt (dateTimeToJson texts t.updatedAt)

/-- What `uuid` writes for the action it reads back. -/
structure Action.Written (a : Action) : Prop where
  id : Text readers.uuid a.id.uuid (uuidToJson a.id.uuid)
  taskId : Text readers.uuid a.taskId.uuid (uuidToJson a.taskId.uuid)

/-- What `uuid` and `chrono` write for the task they read back. -/
structure Task.Written (t : Task) : Prop where
  id : Text readers.uuid t.id.uuid (uuidToJson t.id.uuid)
  triggers : ∀ trigger ∈ t.triggers, trigger.Written readers texts
  actions : ∀ action ∈ t.actions, action.Written readers
  createdAt : Text readers.dateTime t.createdAt (dateTimeToJson texts t.createdAt)
  updatedAt : Text readers.dateTime t.updatedAt (dateTimeToJson texts t.updatedAt)

end Written

variable {readers : Readers} {texts : ChronoTexts}

/-! ## Written documents -/

theorem u32OfJson_natToJson {n : ℕ} (h : n < 2 ^ 32) : u32OfJson (natToJson n) = some n :=
  Json.unsigned?_natural (by norm_num) h

theorem u64OfJson_natToJson {n : ℕ} (h : n < 2 ^ 64) : u64OfJson (natToJson n) = some n :=
  Json.unsigned?_natural (by norm_num) h

/-- A list is written element by element. -/
theorem elements_map {α : Type} {describes : α → Json → Prop} {toJson : α → Json} {xs : List α}
    (h : ∀ x ∈ xs, describes x (toJson x)) :
    Json.Elements describes xs (.arr (xs.map toJson)) := by
  show List.Forall₂ describes xs (xs.map toJson)
  rw [List.forall₂_map_right_iff, List.forall₂_same]
  exact h

/-- A missing value is written as `null`. -/
theorem givenOption_optionToJson {α : Type} {describes : α → Json → Prop} {toJson : α → Json}
    (x : Option α) (h : ∀ y, x = some y → describes y (toJson y)) :
    Json.GivenOption describes x (some (optionToJson toJson x)) := by
  cases x with
  | none => exact .inr rfl
  | some x => exact ⟨_, rfl, h x rfl⟩

theorem RetryPolicy.form_toJson {p : RetryPolicy} (h : p.InRange) : p.Form p.toJson := by
  refine ⟨by simp only [List.map_cons, List.map_nil]; decide, ?_⟩
  simp only [Json.Holds, List.lookup_cons, String.reduceBEq]
  exact ⟨⟨_, rfl, u32OfJson_natToJson h.maxRetries⟩, ⟨_, rfl, u64OfJson_natToJson h.delaySecs⟩⟩

theorem LogRetentionPolicy.form_toJson {p : LogRetentionPolicy} (h : p.InRange) :
    p.Form p.toJson := by
  cases p with
  | SystemDefault | Permanent =>
    refine ⟨by simp only [List.map_cons, List.map_nil]; decide, ?_⟩
    simp only [Json.Holds, List.lookup_cons, String.reduceBEq]
    exact ⟨⟨_, rfl, rfl⟩, .inl rfl⟩
  | KeepDays days =>
    refine ⟨by simp only [List.map_cons, List.map_nil]; decide, ?_⟩
    simp only [Json.Holds, List.lookup_cons, String.reduceBEq]
    exact ⟨⟨_, rfl, rfl⟩, ⟨_, rfl, u32OfJson_natToJson h⟩⟩

theorem TaskNotificationPolicy.form_toJson (p : TaskNotificationPolicy) : p.Form p.toJson := by
  cases p with
  | None | OnlySuccess | OnlyFailure | All => exact .inl rfl

theorem ConcurrencyPolicy.form_toJson (p : ConcurrencyPolicy) : p.Form p.toJson := by
  cases p with
  | AllowParallel | SkipIfRunning | QueueOne => exact .inl rfl

theorem MissedRunPolicy.form_toJson (p : MissedRunPolicy) : p.Form p.toJson := by
  cases p with
  | RunOnce | Skip => exact .inl rfl

theorem ExecutionPolicy.form_toJson {p : ExecutionPolicy} (h : p.InRange) : p.Form p.toJson := by
  have htimeout : Json.GivenOption (fun n doc => u64OfJson doc = some n) p.timeoutSecs
      (some (optionToJson natToJson p.timeoutSecs)) :=
    givenOption_optionToJson _ fun secs hsecs => u64OfJson_natToJson (h.timeoutSecs secs hsecs)
  refine ⟨by simp only [List.map_cons, List.map_nil]; decide, ?_⟩
  simp only [Json.Holds, List.lookup_cons, String.reduceBEq]
  exact ⟨⟨_, rfl, p.concurrencyPolicy.form_toJson⟩, ⟨_, rfl, p.missedRunPolicy.form_toJson⟩,
    ⟨_, rfl, RetryPolicy.form_toJson h.retryPolicy⟩, htimeout,
    .inr ⟨_, rfl, p.notification.form_toJson⟩,
    .inr ⟨_, rfl, LogRetentionPolicy.form_toJson h.logRetention⟩⟩

theorem FuzzyPeriod.form_toJson {p : FuzzyPeriod} (h : p.Written readers) :
    p.Form readers p.toJson := by
  cases p with
  | Daily | Weekdays | Weekends => exact .inl rfl
  | Weekly daysOfWeek =>
    refine ⟨_, rfl, by simp only [List.map_cons, List.map_nil]; decide, ?_⟩
    simp only [Json.Holds, List.lookup_cons, String.reduceBEq]
    exact ⟨_, rfl, elements_map h⟩

theorem NetworkEventKind.form_toJson (k : NetworkEventKind) : k.Form k.toJson := by
  cases k with
  | Connect | Disconnect | Online => exact .inl rfl

/-- The written trigger kind is a document for it, for each of the eight kinds. -/
theorem TriggerKind.form_toJson {k : TriggerKind} (hrange : k.InRange)
    (hwritten : k.Written readers texts) : k.Form readers (k.toJson texts) := by
  cases k with
  | AgentStarted => exact .inl rfl
  | Once fireAt =>
    refine ⟨_, rfl, by simp only [List.map_cons, List.map_nil]; decide, ?_⟩
    simp only [Json.Holds, List.lookup_cons, String.reduceBEq]
    exact ⟨_, rfl, hwritten⟩
  | Daily time timezone =>
    refine ⟨_, rfl, by simp only [List.map_cons, List.map_nil]; decide, ?_⟩
    simp only [Json.Holds, List.lookup_cons, String.reduceBEq]
    exact ⟨⟨_, rfl, hwritten⟩, ⟨_, rfl, rfl⟩⟩
  | Weekly daysOfWeek time timezone =>
    refine ⟨_, rfl, by simp only [List.map_cons, List.map_nil]; decide, ?_⟩
    simp only [Json.Holds, List.lookup_cons, String.reduceBEq]
    exact ⟨⟨_, rfl, elements_map hwritten.1⟩, ⟨_, rfl, hwritten.2⟩, ⟨_, rfl, rfl⟩⟩
  | Interval intervalSecs startAt =>
    refine ⟨_, rfl, by simp only [List.map_cons, List.map_nil]; decide, ?_⟩
    simp only [Json.Holds, List.lookup_cons, String.reduceBEq]
    exact ⟨⟨_, rfl, u64OfJson_natToJson hrange⟩, givenOption_optionToJson _ hwritten⟩
  | Cron expression timezone =>
    refine ⟨_, rfl, by simp only [List.map_cons, List.map_nil]; decide, ?_⟩
    simp only [Json.Holds, List.lookup_cons, String.reduceBEq]
    exact ⟨⟨_, rfl, rfl⟩, ⟨_, rfl, rfl⟩⟩
  | Fuzzy period windowStart windowEnd timezone =>
    obtain ⟨hperiod, hstart, hend⟩ := hwritten
    refine ⟨_, rfl, by simp only [List.map_cons, List.map_nil]; decide, ?_⟩
    simp only [Json.Holds, List.lookup_cons, String.reduceBEq]
    exact ⟨⟨_, rfl, FuzzyPeriod.form_toJson hperiod⟩, ⟨_, rfl, hstart⟩, ⟨_, rfl, hend⟩,
      ⟨_, rfl, rfl⟩⟩
  | Network events networkName =>
    refine ⟨_, rfl, by simp only [List.map_cons, List.map_nil]; decide, ?_⟩
    simp only [Json.Holds, List.lookup_cons, String.reduceBEq]
    exact ⟨⟨_, rfl, elements_map fun k _ => k.form_toJson⟩,
      givenOption_optionToJson _ fun _ _ => rfl⟩

/-- The written trigger is a document for it. -/
theorem Trigger.form_toJson {t : Trigger} (hrange : t.kind.InRange)
    (hwritten : t.Written readers texts) : t.Form readers (t.toJson texts) := by
  refine ⟨by simp only [List.map_cons, List.map_nil]; decide, ?_⟩
  simp only [Json.Holds, List.lookup_cons, String.reduceBEq]
  exact ⟨⟨_, rfl, hwritten.id⟩, ⟨_, rfl, hwritten.taskId⟩, ⟨_, rfl, rfl⟩,
    ⟨_, rfl, TriggerKind.form_toJson hrange hwritten.kind⟩, ⟨_, rfl, hwritten.createdAt⟩,
    ⟨_, rfl, hwritten.updatedAt⟩⟩

theorem ScriptEncoding.form_toJson (e : ScriptEncoding) : e.Form e.toJson := by
  cases e with
  | Utf8 | Gbk => exact .inl rfl

/-- The written action kind is a document for it. -/
theorem ActionKind.form_toJson (k : ActionKind) : k.Form k.toJson := by
  cases k with
  | ExecuteProgram program args =>
    refine ⟨_, rfl, by simp only [List.map_cons, List.map_nil]; decide, ?_⟩
    simp only [Json.Holds, List.lookup_cons, String.reduceBEq]
    exact ⟨⟨_, rfl, rfl⟩, ⟨_, rfl, elements_map fun _ _ => rfl⟩⟩
  | ExecuteShell command =>
    refine ⟨_, rfl, by simp only [List.map_cons, List.map_nil]; decide, ?_⟩
    simp only [Json.Holds, List.lookup_cons, String.reduceBEq]
    exact ⟨_, rfl, rfl⟩
  | ExecutePowerShell script noProfile encoding =>
    -- The encoding is written only when there is one.
    cases encoding with
    | none =>
      refine ⟨_, rfl, by simp only [encodingMember, List.nil_append, List.map_cons, List.map_nil]
                         decide, ?_⟩
      simp only [encodingMember, List.nil_append, Json.Holds, List.lookup_cons, String.reduceBEq]
      exact ⟨⟨_, rfl, rfl⟩, ⟨_, rfl, rfl⟩, .inl rfl⟩
    | some e =>
      refine ⟨_, rfl, by simp only [encodingMember, List.cons_append, List.nil_append,
                           List.map_cons, List.map_nil]
                         decide, ?_⟩
      simp only [encodingMember, List.cons_append, List.nil_append, Json.Holds, List.lookup_cons,
        String.reduceBEq]
      exact ⟨⟨_, rfl, rfl⟩, ⟨_, rfl, rfl⟩, ⟨_, rfl, e.form_toJson⟩⟩
  | ExecuteCmd command encoding =>
    cases encoding with
    | none =>
      refine ⟨_, rfl, by simp only [encodingMember, List.map_cons, List.map_nil]; decide, ?_⟩
      simp only [encodingMember, Json.Holds, List.lookup_cons, String.reduceBEq]
      exact ⟨⟨_, rfl, rfl⟩, .inl rfl⟩
    | some e =>
      refine ⟨_, rfl, by simp only [encodingMember, List.map_cons, List.map_nil]; decide, ?_⟩
      simp only [encodingMember, Json.Holds, List.lookup_cons, String.reduceBEq]
      exact ⟨⟨_, rfl, rfl⟩, ⟨_, rfl, e.form_toJson⟩⟩

/-- The written action is a document for it. -/
theorem Action.form_toJson {a : Action} (hrange : a.sequence < 2 ^ 32)
    (hwritten : a.Written readers) : a.Form readers a.toJson := by
  refine ⟨by simp only [List.map_cons, List.map_nil]; decide, ?_⟩
  simp only [Json.Holds, List.lookup_cons, String.reduceBEq]
  exact ⟨⟨_, rfl, hwritten.id⟩, ⟨_, rfl, hwritten.taskId⟩, ⟨_, rfl, u32OfJson_natToJson hrange⟩,
    ⟨_, rfl, rfl⟩, ⟨_, rfl, a.kind.form_toJson⟩⟩

/-! ## Written environments -/

/-- The variables of `environmentToJson`, in the order of their names. -/
def sortedEntries (env : HashMap String String) : List (String × String) :=
  (env.entries.map fun e => (e.1, e.2)).insertionSort fun a b => a.1 ≤ b.1

theorem nodup_sortedEntries (env : HashMap String String) :
    ((sortedEntries env).map Prod.fst).Nodup := by
  have hperm := (List.perm_insertionSort (fun a b : String × String => a.1 ≤ b.1)
    (env.entries.map fun e => (e.1, e.2))).map Prod.fst
  have hkeys : (env.entries.map fun e => (e.1, e.2)).map Prod.fst = env.keys := by
    rw [List.map_map]
    rfl
  rw [sortedEntries, hperm.nodup_iff, hkeys]
  exact env.nodupKeys

theorem mem_sortedEntries {env : HashMap String String} {name value : String} :
    (name, value) ∈ sortedEntries env ↔ env.lookup name = some value := by
  rw [sortedEntries, List.mem_insertionSort, List.mem_map]
  constructor
  · rintro ⟨e, he, heq⟩
    obtain ⟨rfl, rfl⟩ := Prod.mk.inj heq
    exact AList.mem_lookup_iff.mpr he
  · intro hlookup
    exact ⟨⟨name, value⟩, AList.mem_lookup_iff.mp hlookup, rfl⟩

/-- The written environment has each variable once. -/
theorem environmentForm_toJson (env : HashMap String String) :
    EnvironmentForm env (environmentToJson env) := by
  show ((((sortedEntries env).map fun e => (e.1, Json.str e.2)).map Prod.fst).Nodup ∧
    ∀ name, ((sortedEntries env).map fun e => (e.1, Json.str e.2)).lookup name =
      (env.lookup name).map Json.str)
  have hnodup : (((sortedEntries env).map fun e => (e.1, Json.str e.2)).map Prod.fst).Nodup := by
    rw [List.map_map]
    exact nodup_sortedEntries env
  refine ⟨hnodup, fun name => ?_⟩
  cases hvalue : env.lookup name with
  | none =>
    rw [Option.map_none, List.lookup_eq_none_iff]
    intro member hmember
    obtain ⟨⟨name', value⟩, hentry, rfl⟩ := List.mem_map.mp hmember
    have hentry' := mem_sortedEntries.mp hentry
    have hne : name ≠ name' := by
      rintro rfl
      rw [hvalue] at hentry'
      cases hentry'
    simpa using hne
  | some value =>
    rw [Option.map_some]
    exact Json.lookup_of_mem hnodup (List.mem_map_of_mem (mem_sortedEntries.mpr hvalue))

/-- The written document is one of those that stand for the task. -/
theorem Task.form_toJson {t : Task} (hrange : t.InRange) (hwritten : t.Written readers texts) :
    t.Form readers (t.toJson texts) := by
  have htriggers := elements_map fun trigger htrigger =>
    Trigger.form_toJson (hrange.triggers trigger htrigger) (hwritten.triggers trigger htrigger)
  have hactions := elements_map fun action haction =>
    Action.form_toJson (hrange.actions action haction) (hwritten.actions action haction)
  have hversion : i64OfJson (intToJson t.version) = some t.version :=
    Json.signed?_integer (by norm_num) hrange.version.1 hrange.version.2
  refine ⟨by simp only [List.map_cons, List.map_nil]; decide, ?_⟩
  simp only [Json.Holds, List.lookup_cons, String.reduceBEq]
  exact ⟨⟨_, rfl, hwritten.id⟩, ⟨_, rfl, rfl⟩, givenOption_optionToJson _ fun _ _ => rfl,
    ⟨_, rfl, rfl⟩, ⟨_, rfl, htriggers⟩, ⟨_, rfl, hactions⟩,
    ⟨_, rfl, ExecutionPolicy.form_toJson hrange.executionPolicy⟩,
    givenOption_optionToJson _ fun _ _ => rfl, ⟨_, rfl, environmentForm_toJson t.environment⟩,
    ⟨_, rfl, hversion⟩, ⟨_, rfl, hwritten.createdAt⟩, ⟨_, rfl, hwritten.updatedAt⟩⟩

/-! ## Accepted values -/

/-- Numbers that are too large are refused. -/
theorem RetryPolicy.inRange_of_ofJson {p : RetryPolicy} {doc : Json}
    (h : RetryPolicy.ofJson doc = some p) : p.InRange := by
  simp only [RetryPolicy.ofJson, Option.bind_eq_bind, Option.bind_eq_some_iff, Option.pure_def,
    Option.some.injEq] at h
  obtain ⟨f, -, maxRetries, hretries, delaySecs, hdelay, rfl⟩ := h
  obtain ⟨_, hretries⟩ := Json.exists_read_of_required hretries
  obtain ⟨_, hdelay⟩ := Json.exists_read_of_required hdelay
  exact ⟨Json.unsigned?_lt hretries, Json.unsigned?_lt hdelay⟩

theorem LogRetentionPolicy.inRange_of_ofJson {p : LogRetentionPolicy} {doc : Json}
    (h : LogRetentionPolicy.ofJson doc = some p) : p.InRange := by
  obtain ⟨⟨mode, days⟩, -, hmode⟩ := Option.bind_eq_some_iff.mp h
  dsimp only at hmode
  split at hmode
  · obtain ⟨_, -, rfl⟩ := Option.map_eq_some_iff.mp hmode
    trivial
  · obtain ⟨n, hn, rfl⟩ := Option.map_eq_some_iff.mp hmode
    obtain ⟨_, -, hread⟩ := Option.bind_eq_some_iff.mp hn
    exact Json.unsigned?_lt hread
  · obtain ⟨_, -, rfl⟩ := Option.map_eq_some_iff.mp hmode
    trivial
  · cases hmode

theorem ExecutionPolicy.inRange_of_ofJson {p : ExecutionPolicy} {doc : Json}
    (h : ExecutionPolicy.ofJson doc = some p) : p.InRange := by
  simp only [ExecutionPolicy.ofJson, Option.bind_eq_bind, Option.bind_eq_some_iff, Option.pure_def,
    Option.some.injEq] at h
  obtain ⟨f, -, _, -, _, -, retryPolicy, hretry, timeoutSecs, htimeout, _, -, logRetention,
    hretention, rfl⟩ := h
  refine ⟨?_, ?_, ?_⟩
  · obtain ⟨_, hretry⟩ := Json.exists_read_of_required hretry
    exact RetryPolicy.inRange_of_ofJson hretry
  · rintro secs rfl
    obtain ⟨_, hread⟩ := Json.exists_read_of_optional htimeout
    exact Json.unsigned?_lt hread
  · rcases Json.default_or_exists_read hretention with rfl | ⟨_, hread⟩
    · trivial
    · exact LogRetentionPolicy.inRange_of_ofJson hread

theorem TriggerKind.inRange_of_ofJson {k : TriggerKind} {doc : Json}
    (h : TriggerKind.ofJson readers doc = some k) : k.InRange := by
  cases k with
  | Interval intervalSecs startAt =>
    obtain ⟨⟨name, content⟩, -, hname⟩ := Option.bind_eq_some_iff.mp h
    dsimp only at hname
    split at hname
    all_goals
      simp only [Option.bind_eq_bind, Option.bind_eq_some_iff, Option.pure_def, Option.some.injEq,
        reduceCtorEq, and_false, exists_false, Option.map_eq_some_iff,
        TriggerKind.Interval.injEq] at hname
    obtain ⟨f, -, secs, hsecs, _, -, rfl, -⟩ := hname
    obtain ⟨_, hread⟩ := Json.exists_read_of_required hsecs
    exact Json.unsigned?_lt hread
  | Once | Daily | Weekly | AgentStarted | Cron | Fuzzy | Network => trivial

theorem Trigger.inRange_of_ofJson {t : Trigger} {doc : Json}
    (h : Trigger.ofJson readers doc = some t) : t.kind.InRange := by
  simp only [Trigger.ofJson, Option.bind_eq_bind, Option.bind_eq_some_iff, Option.pure_def,
    Option.some.injEq] at h
  obtain ⟨f, -, _, -, _, -, _, -, kind, hkind, _, -, _, -, rfl⟩ := h
  obtain ⟨_, hread⟩ := Json.exists_read_of_required hkind
  exact TriggerKind.inRange_of_ofJson hread

theorem Action.inRange_of_ofJson {a : Action} {doc : Json}
    (h : Action.ofJson readers doc = some a) : a.sequence < 2 ^ 32 := by
  simp only [Action.ofJson, Option.bind_eq_bind, Option.bind_eq_some_iff, Option.pure_def,
    Option.some.injEq] at h
  obtain ⟨f, -, _, -, _, -, sequence, hsequence, _, -, _, -, rfl⟩ := h
  obtain ⟨_, hread⟩ := Json.exists_read_of_required hsequence
  exact Json.unsigned?_lt hread

/-- The numbers of an accepted task fit the types of the source. -/
theorem Task.inRange_of_ofJson {t : Task} {doc : Json} (h : Task.ofJson readers doc = some t) :
    t.InRange := by
  obtain ⟨f, -, h⟩ := Option.bind_eq_some_iff.mp h
  obtain ⟨_, -, h⟩ := Option.bind_eq_some_iff.mp h
  obtain ⟨_, -, h⟩ := Option.bind_eq_some_iff.mp h
  obtain ⟨_, -, h⟩ := Option.bind_eq_some_iff.mp h
  obtain ⟨_, -, h⟩ := Option.bind_eq_some_iff.mp h
  obtain ⟨triggers, htriggers, h⟩ := Option.bind_eq_some_iff.mp h
  obtain ⟨actions, hactions, h⟩ := Option.bind_eq_some_iff.mp h
  obtain ⟨policy, hpolicy, h⟩ := Option.bind_eq_some_iff.mp h
  obtain ⟨_, -, h⟩ := Option.bind_eq_some_iff.mp h
  obtain ⟨_, -, h⟩ := Option.bind_eq_some_iff.mp h
  obtain ⟨version, hversion, h⟩ := Option.bind_eq_some_iff.mp h
  obtain ⟨_, -, h⟩ := Option.bind_eq_some_iff.mp h
  obtain ⟨_, -, h⟩ := Option.bind_eq_some_iff.mp h
  cases h
  obtain ⟨_, htriggers⟩ := Json.exists_read_of_required htriggers
  obtain ⟨_, hactions⟩ := Json.exists_read_of_required hactions
  obtain ⟨_, hpolicy⟩ := Json.exists_read_of_required hpolicy
  obtain ⟨_, hversion⟩ := Json.exists_read_of_required hversion
  refine ⟨?_, ?_, ExecutionPolicy.inRange_of_ofJson hpolicy, Json.signed?_bounds hversion⟩
  · intro trigger htrigger
    obtain ⟨_, hread⟩ := Json.exists_read_of_elements htriggers trigger htrigger
    exact Trigger.inRange_of_ofJson hread
  · intro action haction
    obtain ⟨_, hread⟩ := Json.exists_read_of_elements hactions action haction
    exact Action.inRange_of_ofJson hread

/-- A task that was accepted, from whatever document, is read back from what is written for it,
    as long as `uuid` and `chrono` read their own texts; its variables may be listed in another
    order. The document need not be the written one: its members may stand in any order, next
    to unknown ones, and what has no value may be missing. -/
theorem Task.accepted_rewritten (readers : Readers) (texts : ChronoTexts) (t : Task) :
    (∀ doc, t.Form readers doc → ∃ env, (∀ name, env.lookup name = t.environment.lookup name) ∧
      Task.ofJson readers doc = some { t with environment := env }) ∧
    (t.Written readers texts → ∀ doc, Task.ofJson readers doc = some t →
      ∃ env, (∀ name, env.lookup name = t.environment.lookup name) ∧
        Task.ofJson readers (t.toJson texts) = some { t with environment := env }) := by
  refine ⟨fun doc hform => Task.ofJson_of_form hform, fun hwritten doc h => ?_⟩
  exact Task.ofJson_of_form (Task.form_toJson (Task.inRange_of_ofJson h) hwritten)

/-! ## A task in another order -/

/-- The texts of 1970-01-01 and of half past nine. -/
def epochTexts : ChronoTexts := ⟨fun _ => "1970-01-01T00:00:00Z", fun _ => "09:30:00"⟩

def epochReaders : Readers where
  uuid := parseDisplay
  dateTime text := if text = "1970-01-01T00:00:00Z" then some 0 else none
  naiveTime text := if text = "09:30:00" then some (570 * nanosPerMinute) else none
  weekday text := List.lookup text [("Mon", Weekday.Mon), ("Tue", .Tue), ("Wed", .Wed),
    ("Thu", .Thu), ("Fri", .Fri), ("Sat", .Sat), ("Sun", .Sun)]

/-- A task that lists a directory twice a week. -/
def listingTask : Task where
  id := ⟨1⟩
  name := "listing"
  description := none
  enabled := true
  triggers := [⟨⟨2⟩, ⟨1⟩, true, .Weekly [.Mon, .Fri] (570 * nanosPerMinute) "Europe/Berlin", 0, 0⟩]
  actions := [⟨⟨3⟩, ⟨1⟩, 0, true, .ExecuteCmd "dir" (some .Gbk)⟩]
  executionPolicy := { timeoutSecs := some 60, logRetention := .KeepDays 30 }
  workingDirectory := some "C:\\jobs"
  environment := (∅ : HashMap String String).insert "LANG" "C"
  version := 3
  createdAt := 0
  updatedAt := 0

/-- A document for it in which the members stand in another order, the description and the
    notification are missing and one member is unknown. -/
def listingDocument : Json :=
  .obj [("name", .str "listing"), ("id", uuidToJson 1), ("comment", .null),
    ("enabled", .bool true), ("version", .num "3"),
    ("environment", .obj [("LANG", .str "C")]), ("working_directory", .str "C:\\jobs"),
    ("created_at", .str "1970-01-01T00:00:00Z"), ("updated_at", .str "1970-01-01T00:00:00Z"),
    ("triggers", .arr [.obj [("kind", .obj [("Weekly", .obj [("timezone", .str "Europe/Berlin"),
        ("time", .str "09:30:00"), ("days_of_week", .arr [.str "Mon", .str "Fri"])])]),
      ("enabled", .bool true), ("task_id", uuidToJson 1), ("id", uuidToJson 2),
      ("created_at", .str "1970-01-01T00:00:00Z"), ("updated_at", .str "1970-01-01T00:00:00Z")]]),
    ("actions", .arr [.obj [("sequence", .num "0"), ("enabled", .bool true), ("id", uuidToJson 3),
      ("task_id", uuidToJson 1),
      ("kind", .obj [("ExecuteCmd", .obj [("encoding", .str "gbk"), ("command", .str "dir")])])]]),
    ("execution_policy", .obj [("log_retention", .obj [("days", .num "30"),
        ("mode", .str "KeepDays")]),
      ("timeout_secs", .num "60"), ("missed_run_policy", .str "RunOnce"),
      ("concurrency_policy", .str "SkipIfRunning"),
      ("retry_policy", .obj [("delay_secs", .num "0"), ("max_retries", .num "0")])])]

theorem listing_read : Task.ofJson epochReaders listingDocument = some listingTask := by
  rfl

theorem epochReaders_uuid {id : Uuid} (hid : id.InRange) :
    Text epochReaders.uuid id (uuidToJson id) := by
  simp only [Text, epochReaders, uuidToJson, Json.toString?, Option.bind_some]
  exact parseDisplay_displayUuid hid

theorem epochReaders_weekday (day : Weekday) :
    Text epochReaders.weekday day (weekdayToJson day) := by
  cases day <;> rfl

theorem listing_written : listingTask.Written epochReaders epochTexts := by
  refine ⟨epochReaders_uuid ⟨by decide⟩, ?_, ?_, rfl, rfl⟩
  · intro trigger htrigger
    obtain rfl := List.mem_singleton.mp htrigger
    exact ⟨epochReaders_uuid ⟨by decide⟩, epochReaders_uuid ⟨by decide⟩,
      ⟨fun day _ => epochReaders_weekday day, rfl⟩, rfl, rfl⟩
  · intro action haction
    obtain rfl := List.mem_singleton.mp haction
    exact ⟨epochReaders_uuid ⟨by decide⟩, epochReaders_uuid ⟨by decide⟩⟩

theorem Task.accepted_rewritten_listing :
    Task.ofJson epochReaders listingDocument = some listingTask ∧
      ∃ env, (∀ name, env.lookup name = listingTask.environment.lookup name) ∧
        Task.ofJson epochReaders (listingTask.toJson epochTexts) =
          some { listingTask with environment := env } :=
  ⟨listing_read,
    (Task.accepted_rewritten epochReaders epochTexts listingTask).2 listing_written listingDocument
      listing_read⟩

end EasyJob.Domain
