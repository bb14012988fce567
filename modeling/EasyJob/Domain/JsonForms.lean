import EasyJob.Domain.Deserialize

/-!
# The documents of a task

Which documents stand for a task, member by member and whatever the order of the
members, and that `Task.ofJson` reads them.
-/

namespace EasyJob.Domain

open EasyJob.Chrono

variable (readers : Readers)

/-! ## Documents that carry a value -/

/-- A text that `read` takes for `x`. -/
def Text {α : Type} (read : String → Option α) (x : α) (doc : Json) : Prop :=
  doc.toString?.bind read = some x

/-- The documents for a policy; a variant without fields may have the content `null`. -/
def TaskNotificationPolicy.Form : TaskNotificationPolicy → Json → Prop
  | .None => Json.Tag "None"
  | .OnlySuccess => Json.Tag "OnlySuccess"
  | .OnlyFailure => Json.Tag "OnlyFailure"
  | .All => Json.Tag "All"

def ConcurrencyPolicy.Form : ConcurrencyPolicy → Json → Prop
  | .AllowParallel => Json.Tag "AllowParallel"
  | .SkipIfRunning => Json.Tag "SkipIfRunning"
  | .QueueOne => Json.Tag "QueueOne"

def MissedRunPolicy.Form : MissedRunPolicy → Json → Prop
  | .RunOnce => Json.Tag "RunOnce"
  | .Skip => Json.Tag "Skip"

/-- The documents for a retry policy. -/
def RetryPolicy.Form (p : RetryPolicy) : Json → Prop :=
  Json.Record [("max_retries", Json.Given (u32OfJson · = some p.maxRetries)),
    ("delay_secs", Json.Given (u64OfJson · = some p.delaySecs))]

/-- `mode` and `days`, which may be missing where the mode has none. -/
def LogRetentionPolicy.Form : LogRetentionPolicy → Json → Prop
  | .SystemDefault => Json.Adjacent "mode" "days" "SystemDefault" Json.NoContent
  | .KeepDays days =>
    Json.Adjacent "mode" "days" "KeepDays" (Json.Given (u32OfJson · = some days))
  | .Permanent => Json.Adjacent "mode" "days" "Permanent" Json.NoContent

/-- `notification` and `log_retention` may be missing when they have their defaults. -/
def ExecutionPolicy.Form (p : ExecutionPolicy) : Json → Prop :=
  Json.Record [("concurrency_policy", Json.Given p.concurrencyPolicy.Form),
    ("missed_run_policy", Json.Given p.missedRunPolicy.Form),
    ("retry_policy", Json.Given p.retryPolicy.Form),
    ("timeout_secs", Json.GivenOption (fun n doc => u64OfJson doc = some n) p.timeoutSecs),
    ("notification", Json.GivenOr (p.notification = .None) p.notification.Form),
    ("log_retention", Json.GivenOr (p.logRetention = .SystemDefault) p.logRetention.Form)]

/-- The documents for a period. -/
def FuzzyPeriod.Form : FuzzyPeriod → Json → Prop
  | .Daily => Json.Tag "Daily"
  | .Weekdays => Json.Tag "Weekdays"
  | .Weekends => Json.Tag "Weekends"
  | .Weekly daysOfWeek => Json.Variant "Weekly"
    [("days_of_week", Json.Given (Json.Elements (Text readers.weekday) daysOfWeek))]

def NetworkEventKind.Form : NetworkEventKind → Json → Prop
  | .Connect => Json.Tag "Connect"
  | .Disconnect => Json.Tag "Disconnect"
  | .Online => Json.Tag "Online"

/-- The documents for a trigger kind: its name, or an object with the name as its only member. -/
def TriggerKind.Form : TriggerKind → Json → Prop
  | .Once fireAt => Json.Variant "Once" [("fire_at", Json.Given (Text readers.dateTime fireAt))]
  | .Daily time timezone => Json.Variant "Daily"
    [("time", Json.Given (Text readers.naiveTime time)),
      ("timezone", Json.Given (· = .str timezone))]
  | .Weekly daysOfWeek time timezone => Json.Variant "Weekly"
    [("days_of_week", Json.Given (Json.Elements (Text readers.weekday) daysOfWeek)),
      ("time", Json.Given (Text readers.naiveTime time)),
      ("timezone", Json.Given (· = .str timezone))]
  | .Interval intervalSecs startAt => Json.Variant "Interval"
    [("interval_secs", Json.Given (u64OfJson · = some intervalSecs)),
      ("start_at", Json.GivenOption (Text readers.dateTime) startAt)]
  | .AgentStarted => Json.Tag "AgentStarted"
  | .Cron expression timezone => Json.Variant "Cron"
    [("expression", Json.Given (· = .str expression)), ("timezone", Json.Given (· = .str timezone))]
  | .Fuzzy period windowStart windowEnd timezone => Json.Variant "Fuzzy"
    [("period", Json.Given (period.Form readers)),
      ("window_start", Json.Given (Text readers.naiveTime windowStart)),
      ("window_end", Json.Given (Text readers.naiveTime windowEnd)),
      ("timezone", Json.Given (· = .str timezone))]
  | .Network events networkName => Json.Variant "Network"
    [("events", Json.Given (Json.Elements NetworkEventKind.Form events)),
      ("network_name", Json.GivenOption (fun name doc => doc = .str name) networkName)]

/-- The documents for a trigger. -/
def Trigger.Form (t : Trigger) : Json → Prop :=
  Json.Record [("id", Json.Given (Text readers.uuid t.id.uuid)),
    ("task_id", Json.Given (Text readers.uuid t.taskId.uuid)),
    ("enabled", Json.Given (· = .bool t.enabled)),
    ("kind", Json.Given (t.kind.Form readers)),
    ("created_at", Json.Given (Text readers.dateTime t.createdAt)),
    ("updated_at", Json.Given (Text readers.dateTime t.updatedAt))]

def ScriptEncoding.Form : ScriptEncoding → Json → Prop
  | .Utf8 => Json.Tag "utf8"
  | .Gbk => Json.Tag "gbk"

/-- The documents for an action kind; `encoding` may be missing. -/
def ActionKind.Form : ActionKind → Json → Prop
  | .ExecuteProgram program args => Json.Variant "ExecuteProgram"
    [("program", Json.Given (· = .str program)),
      ("args", Json.Given (Json.Elements (fun arg doc => doc = .str arg) args))]
  | .ExecuteShell command => Json.Variant "ExecuteShell"
    [("command", Json.Given (· = .str command))]
  | .ExecutePowerShell script noProfile encoding => Json.Variant "ExecutePowerShell"
    [("script", Json.Given (· = .str script)), ("no_profile", Json.Given (· = .bool noProfile)),
      ("encoding", Json.GivenOption ScriptEncoding.Form encoding)]
  | .ExecuteCmd command encoding => Json.Variant "ExecuteCmd"
    [("command", Json.Given (· = .str command)),
      ("encoding", Json.GivenOption ScriptEncoding.Form encoding)]

/-- The documents for an action. -/
def Action.Form (a : Action) : Json → Prop :=
  Json.Record [("id", Json.Given (Text readers.uuid a.id.uuid)),
    ("task_id", Json.Given (Text readers.uuid a.taskId.uuid)),
    ("sequence", Json.Given (u32OfJson · = some a.sequence)),
    ("enabled", Json.Given (· = .bool a.enabled)),
    ("kind", Json.Given a.kind.Form)]

/-- An object with the variables as its members. -/
def EnvironmentForm (env : HashMap String String) : Json → Prop
  | .obj members => (members.map Prod.fst).Nodup ∧
    ∀ name, members.lookup name = (env.lookup name).map Json.str
  | _ => False

/-- A document for the task: its members in any order, next to unknown ones; what has no value
    or its default may be missing. -/
def Task.Form (t : Task) : Json → Prop :=
  Json.Record [("id", Json.Given (Text readers.uuid t.id.uuid)),
    ("name", Json.Given (· = .str t.name)),
    ("description", Json.GivenOption (fun text doc => doc = .str text) t.description),
    ("enabled", Json.Given (· = .bool t.enabled)),
    ("triggers", Json.Given (Json.Elements (Trigger.Form readers) t.triggers)),
    ("actions", Json.Given (Json.Elements (Action.Form readers) t.actions)),
    ("execution_policy", Json.Given t.executionPolicy.Form),
    ("working_directory", Json.GivenOption (fun path doc => doc = .str path) t.workingDirectory),
    ("environment", Json.Given (EnvironmentForm t.environment)),
    ("version", Json.Given (i64OfJson · = some t.version)),
    ("created_at", Json.Given (Text readers.dateTime t.createdAt)),
    ("updated_at", Json.Given (Text readers.dateTime t.updatedAt))]

/-! ## Reading a form -/

variable {readers}

section Policies

theorem TaskNotificationPolicy.ofJson_of_form (p : TaskNotificationPolicy) (doc : Json)
    (h : p.Form doc) : TaskNotificationPolicy.ofJson doc = some p := by
  cases p with
  | None | OnlySuccess | OnlyFailure | All => exact Json.Tag.unitVariant h rfl

theorem ConcurrencyPolicy.ofJson_of_form (p : ConcurrencyPolicy) (doc : Json) (h : p.Form doc) :
    ConcurrencyPolicy.ofJson doc = some p := by
  cases p with
  | AllowParallel | SkipIfRunning | QueueOne => exact Json.Tag.unitVariant h rfl

theorem MissedRunPolicy.ofJson_of_form (p : MissedRunPolicy) (doc : Json) (h : p.Form doc) :
    MissedRunPolicy.ofJson doc = some p := by
  cases p with
  | RunOnce | Skip => exact Json.Tag.unitVariant h rfl

theorem RetryPolicy.ofJson_of_form (p : RetryPolicy) (doc : Json) (h : p.Form doc) :
    RetryPolicy.ofJson doc = some p := by
  obtain ⟨f, hfields, -, hspec⟩ := Json.Record.fields h ["max_retries", "delay_secs"]
  obtain ⟨hretries, hdelay⟩ := hspec
  have hretries' := Json.Fields.required_of_given hretries fun doc hdoc => hdoc
  have hdelay' := Json.Fields.required_of_given hdelay fun doc hdoc => hdoc
  simp only [RetryPolicy.ofJson, hfields, hretries', hdelay', Option.bind_eq_bind, Option.bind_some,
    Option.pure_def]

theorem LogRetentionPolicy.ofJson_of_form (p : LogRetentionPolicy) (doc : Json) (h : p.Form doc) :
    LogRetentionPolicy.ofJson doc = some p := by
  cases p with
  | SystemDefault =>
    obtain ⟨days, hread, hnone⟩ := Json.Adjacent.adjacent h
    simp only [LogRetentionPolicy.ofJson, hread, Option.bind_eq_bind, Option.bind_some,
      Json.unit?_of_noContent hnone, Option.map_some]
  | KeepDays days =>
    obtain ⟨_, hread, doc, rfl, hdays⟩ := Json.Adjacent.adjacent h
    simp only [LogRetentionPolicy.ofJson, hread, Option.bind_eq_bind, Option.bind_some, hdays,
      Option.map_some]
  | Permanent =>
    obtain ⟨days, hread, hnone⟩ := Json.Adjacent.adjacent h
    simp only [LogRetentionPolicy.ofJson, hread, Option.bind_eq_bind, Option.bind_some,
      Json.unit?_of_noContent hnone, Option.map_some]

/-- A document for a policy is read as the policy. -/
theorem ExecutionPolicy.ofJson_of_form (p : ExecutionPolicy) (doc : Json) (h : p.Form doc) :
    ExecutionPolicy.ofJson doc = some p := by
  obtain ⟨f, hfields, hby, hspec⟩ := Json.Record.fields h ["concurrency_policy",
    "missed_run_policy", "retry_policy", "timeout_secs", "notification", "log_retention"]
  obtain ⟨hconcurrency, hmissed, hretry, htimeout, hnotification, hretention⟩ := hspec
  have hconcurrency' :=
    Json.Fields.required_of_given hconcurrency (ConcurrencyPolicy.ofJson_of_form _)
  have hmissed' := Json.Fields.required_of_given hmissed (MissedRunPolicy.ofJson_of_form _)
  have hretry' := Json.Fields.required_of_given hretry (RetryPolicy.ofJson_of_form _)
  have htimeout' := Json.Fields.optional_of_given htimeout hby rfl fun _ _ hdoc => hdoc
  have hnotification' := Json.Fields.defaulted_of_given hnotification Eq.symm
    (TaskNotificationPolicy.ofJson_of_form _)
  have hretention' := Json.Fields.defaulted_of_given hretention Eq.symm
    (LogRetentionPolicy.ofJson_of_form _)
  simp only [ExecutionPolicy.ofJson, hfields, hconcurrency', hmissed', hretry', htimeout',
    hnotification', hretention', Option.bind_eq_bind, Option.bind_some, Option.pure_def]

end Policies

/-! ## Texts -/

theorem toString?_of_eq {text : String} (doc : Json) (h : doc = .str text) :
    doc.toString? = some text := by
  rw [h]
  rfl

theorem toBool?_of_eq {b : Bool} (doc : Json) (h : doc = .bool b) : doc.toBool? = some b := by
  rw [h]
  rfl

theorem elements?_of_strings {texts : List String} (doc : Json)
    (h : Json.Elements (fun text doc => doc = .str text) texts doc) :
    Json.elements? Json.toString? doc = some texts :=
  Json.Elements.read (fun _ => toString?_of_eq) h

theorem taskIdOfJson_of_text {id : TaskId} (doc : Json) (h : Text readers.uuid id.uuid doc) :
    taskIdOfJson readers doc = some id :=
  congrArg (Option.map TaskId.mk) h

theorem triggerIdOfJson_of_text {id : TriggerId} (doc : Json) (h : Text readers.uuid id.uuid doc) :
    triggerIdOfJson readers doc = some id :=
  congrArg (Option.map TriggerId.mk) h

theorem actionIdOfJson_of_text {id : ActionId} (doc : Json) (h : Text readers.uuid id.uuid doc) :
    actionIdOfJson readers doc = some id :=
  congrArg (Option.map ActionId.mk) h

theorem dateTimeOfJson_of_text {t : DateTime} (doc : Json) (h : Text readers.dateTime t doc) :
    dateTimeOfJson readers doc = some t := h

theorem naiveTimeOfJson_of_text {t : NaiveTime} (doc : Json) (h : Text readers.naiveTime t doc) :
    naiveTimeOfJson readers doc = some t := h

theorem weekdays_of_texts {days : List Weekday} (doc : Json)
    (h : Json.Elements (Text readers.weekday) days doc) :
    Json.elements? (weekdayOfJson readers) doc = some days :=
  Json.Elements.read (fun _ _ hday => hday) h

/-! ## Triggers -/

theorem FuzzyPeriod.ofJson_of_form (p : FuzzyPeriod) (doc : Json) (h : p.Form readers doc) :
    FuzzyPeriod.ofJson readers doc = some p := by
  cases p with
  | Daily | Weekdays | Weekends => rcases h with rfl | rfl <;> rfl
  | Weekly daysOfWeek =>
    obtain ⟨content, rfl, hrecord⟩ := h
    obtain ⟨f, hfields, -, hspec⟩ := Json.Record.variantFields hrecord ["days_of_week"]
    have hdays := Json.Fields.required_of_given hspec weekdays_of_texts
    simp only [FuzzyPeriod.ofJson, Json.variant, hfields, hdays, Option.bind_eq_bind,
      Option.bind_some, Option.pure_def]

theorem NetworkEventKind.ofJson_of_form (k : NetworkEventKind) (doc : Json) (h : k.Form doc) :
    NetworkEventKind.ofJson doc = some k := by
  cases k with
  | Connect | Disconnect | Online => exact Json.Tag.unitVariant h rfl

/-- A document for a trigger kind is read as it: each name is read with its own fields. -/
theorem TriggerKind.ofJson_of_form (k : TriggerKind) (doc : Json) (h : k.Form readers doc) :
    TriggerKind.ofJson readers doc = some k := by
  cases k with
  | AgentStarted => rcases h with rfl | rfl <;> rfl
  | Once fireAt =>
    obtain ⟨content, rfl, hrecord⟩ := h
    obtain ⟨f, hfields, -, hspec⟩ := Json.Record.variantFields hrecord ["fire_at"]
    have hfireAt := Json.Fields.required_of_given hspec
      dateTimeOfJson_of_text
    simp only [TriggerKind.ofJson, Json.variant, hfields, hfireAt, Option.bind_eq_bind,
      Option.bind_some, Option.pure_def]
  | Daily time timezone =>
    obtain ⟨content, rfl, hrecord⟩ := h
    obtain ⟨f, hfields, -, hspec⟩ := Json.Record.variantFields hrecord ["time", "timezone"]
    have htime := Json.Fields.required_of_given hspec.1 naiveTimeOfJson_of_text
    have htimezone := Json.Fields.required_of_given hspec.2 toString?_of_eq
    simp only [TriggerKind.ofJson, Json.variant, hfields, htime, htimezone, Option.bind_eq_bind,
      Option.bind_some, Option.pure_def]
  | Weekly daysOfWeek time timezone =>
    obtain ⟨content, rfl, hrecord⟩ := h
    obtain ⟨f, hfields, -, hspec⟩ :=
      Json.Record.variantFields hrecord ["days_of_week", "time", "timezone"]
    have hdays := Json.Fields.required_of_given hspec.1 weekdays_of_texts
    have htime := Json.Fields.required_of_given hspec.2.1 naiveTimeOfJson_of_text
    have htimezone := Json.Fields.required_of_given hspec.2.2 toString?_of_eq
    simp only [TriggerKind.ofJson, Json.variant, hfields, hdays, htime, htimezone,
      Option.bind_eq_bind, Option.bind_some, Option.pure_def]
  | Interval intervalSecs startAt =>
    obtain ⟨content, rfl, hrecord⟩ := h
    obtain ⟨f, hfields, hby, hspec⟩ :=
      Json.Record.variantFields hrecord ["interval_secs", "start_at"]
    have hinterval := Json.Fields.required_of_given hspec.1 fun _ hdoc => hdoc
    have hstartAt := Json.Fields.optional_of_given hspec.2 hby rfl fun _ => dateTimeOfJson_of_text
    simp only [TriggerKind.ofJson, Json.variant, hfields, hinterval, hstartAt, Option.bind_eq_bind,
      Option.bind_some, Option.pure_def]
  | Cron expression timezone =>
    obtain ⟨content, rfl, hrecord⟩ := h
    obtain ⟨f, hfields, -, hspec⟩ := Json.Record.variantFields hrecord ["expression", "timezone"]
    have hexpression := Json.Fields.required_of_given hspec.1 toString?_of_eq
    have htimezone := Json.Fields.required_of_given hspec.2 toString?_of_eq
    simp only [TriggerKind.ofJson, Json.variant, hfields, hexpression, htimezone,
      Option.bind_eq_bind, Option.bind_some, Option.pure_def]
  | Fuzzy period windowStart windowEnd timezone =>
    obtain ⟨content, rfl, hrecord⟩ := h
    obtain ⟨f, hfields, -, hspec⟩ :=
      Json.Record.variantFields hrecord ["period", "window_start", "window_end", "timezone"]
    have hperiod := Json.Fields.required_of_given hspec.1 (FuzzyPeriod.ofJson_of_form _)
    have hstart := Json.Fields.required_of_given hspec.2.1 naiveTimeOfJson_of_text
    have hend := Json.Fields.required_of_given hspec.2.2.1 naiveTimeOfJson_of_text
    have htimezone := Json.Fields.required_of_given hspec.2.2.2 toString?_of_eq
    simp only [TriggerKind.ofJson, Json.variant, hfields, hperiod, hstart, hend, htimezone,
      Option.bind_eq_bind, Option.bind_some, Option.pure_def]
  | Network events networkName =>
    obtain ⟨content, rfl, hrecord⟩ := h
    obtain ⟨f, hfields, hby, hspec⟩ :=
      Json.Record.variantFields hrecord ["events", "network_name"]
    have hevents := Json.Fields.required_of_given hspec.1 fun _ hdoc =>
      Json.Elements.read NetworkEventKind.ofJson_of_form hdoc
    have hname := Json.Fields.optional_of_given hspec.2 hby rfl fun _ => toString?_of_eq
    simp only [TriggerKind.ofJson, Json.variant, hfields, hevents, hname, Option.bind_eq_bind,
      Option.bind_some, Option.pure_def]

/-- A document for a trigger is read as the trigger. -/
theorem Trigger.ofJson_of_form (t : Trigger) (doc : Json) (h : t.Form readers doc) :
    Trigger.ofJson readers doc = some t := by
  obtain ⟨f, hfields, -, hspec⟩ := Json.Record.fields h ["id", "task_id", "enabled", "kind",
    "created_at", "updated_at"]
  obtain ⟨hid, htaskId, henabled, hkind, hcreated, hupdated⟩ := hspec
  have hid' := Json.Fields.required_of_given hid triggerIdOfJson_of_text
  have htaskId' := Json.Fields.required_of_given htaskId taskIdOfJson_of_text
  have henabled' := Json.Fields.required_of_given henabled toBool?_of_eq
  have hkind' := Json.Fields.required_of_given hkind (TriggerKind.ofJson_of_form _)
  have hcreated' := Json.Fields.required_of_given hcreated dateTimeOfJson_of_text
  have hupdated' := Json.Fields.required_of_given hupdated dateTimeOfJson_of_text
  simp only [Trigger.ofJson, hfields, hid', htaskId', henabled', hkind', hcreated', hupdated',
    Option.bind_eq_bind, Option.bind_some, Option.pure_def]

/-! ## Actions -/

theorem ScriptEncoding.ofJson_of_form (e : ScriptEncoding) (doc : Json) (h : e.Form doc) :
    ScriptEncoding.ofJson doc = some e := by
  cases e with
  | Utf8 | Gbk => exact Json.Tag.unitVariant h rfl

/-- A document for an action kind is read as it. -/
theorem ActionKind.ofJson_of_form (k : ActionKind) (doc : Json) (h : k.Form doc) :
    ActionKind.ofJson doc = some k := by
  cases k with
  | ExecuteProgram program args =>
    obtain ⟨content, rfl, hrecord⟩ := h
    obtain ⟨f, hfields, -, hspec⟩ := Json.Record.variantFields hrecord ["program", "args"]
    have hprogram := Json.Fields.required_of_given hspec.1 toString?_of_eq
    have hargs := Json.Fields.required_of_given hspec.2 elements?_of_strings
    simp only [ActionKind.ofJson, Json.variant, hfields, hprogram, hargs, Option.bind_eq_bind,
      Option.bind_some, Option.pure_def]
  | ExecuteShell command =>
    obtain ⟨content, rfl, hrecord⟩ := h
    obtain ⟨f, hfields, -, hspec⟩ := Json.Record.variantFields hrecord ["command"]
    have hcommand := Json.Fields.required_of_given hspec toString?_of_eq
    simp only [ActionKind.ofJson, Json.variant, hfields, hcommand, Option.bind_eq_bind,
      Option.bind_some, Option.pure_def]
  | ExecutePowerShell script noProfile encoding =>
    obtain ⟨content, rfl, hrecord⟩ := h
    obtain ⟨f, hfields, -, hspec⟩ :=
      Json.Record.variantFields hrecord ["script", "no_profile", "encoding"]
    have hscript := Json.Fields.required_of_given hspec.1 toString?_of_eq
    have hprofile := Json.Fields.required_of_given hspec.2.1 toBool?_of_eq
    have hencoding := Json.Fields.defaulted_orNull_of_given hspec.2.2 rfl
      ScriptEncoding.ofJson_of_form
    simp only [ActionKind.ofJson, Json.variant, hfields, hscript, hprofile, hencoding,
      Option.bind_eq_bind, Option.bind_some, Option.pure_def]
  | ExecuteCmd command encoding =>
    obtain ⟨content, rfl, hrecord⟩ := h
    obtain ⟨f, hfields, -, hspec⟩ := Json.Record.variantFields hrecord ["command", "encoding"]
    have hcommand := Json.Fields.required_of_given hspec.1 toString?_of_eq
    have hencoding := Json.Fields.defaulted_orNull_of_given hspec.2 rfl
      ScriptEncoding.ofJson_of_form
    simp only [ActionKind.ofJson, Json.variant, hfields, hcommand, hencoding, Option.bind_eq_bind,
      Option.bind_some, Option.pure_def]

/-- A document for an action is read as the action. -/
theorem Action.ofJson_of_form (a : Action) (doc : Json) (h : a.Form readers doc) :
    Action.ofJson readers doc = some a := by
  obtain ⟨f, hfields, -, hspec⟩ := Json.Record.fields h ["id", "task_id", "sequence", "enabled",
    "kind"]
  obtain ⟨hid, htaskId, hsequence, henabled, hkind⟩ := hspec
  have hid' := Json.Fields.required_of_given hid actionIdOfJson_of_text
  have htaskId' := Json.Fields.required_of_given htaskId taskIdOfJson_of_text
  have hsequence' := Json.Fields.required_of_given hsequence fun _ hdoc => hdoc
  have henabled' := Json.Fields.required_of_given henabled toBool?_of_eq
  have hkind' := Json.Fields.required_of_given hkind (ActionKind.ofJson_of_form _)
  simp only [Action.ofJson, hfields, hid', htaskId', hsequence', henabled', hkind',
    Option.bind_eq_bind, Option.bind_some, Option.pure_def]

/-! ## Tasks -/

/-- Members that are all texts are read as texts. -/
theorem mapM_toString? {members : List (String × Json)}
    (h : ∀ member ∈ members, ∃ value, member.2 = .str value) :
    ∃ entries : List (String × String), members = entries.map (fun e => (e.1, Json.str e.2)) ∧
      members.mapM (fun member => member.2.toString?.map fun value => (member.1, value)) =
        some entries := by
  induction members with
  | nil => exact ⟨[], rfl, rfl⟩
  | cons member members ih =>
    obtain ⟨value, hvalue⟩ := h member List.mem_cons_self
    obtain ⟨entries, hmembers, hmapM⟩ := ih fun m hm => h m (List.mem_cons_of_mem _ hm)
    refine ⟨(member.1, value) :: entries, ?_, ?_⟩
    · rw [List.map_cons, ← hmembers, ← hvalue]
    · rw [List.mapM_cons, hvalue, hmapM]
      rfl

/-- Variables in any order are the same variables. -/
theorem environmentOfJson_of_form {env : HashMap String String} {doc : Json}
    (h : EnvironmentForm env doc) :
    ∃ env', environmentOfJson doc = some env' ∧ ∀ name, env'.lookup name = env.lookup name := by
  cases doc with
  | obj members =>
    obtain ⟨hnodup, hlookup⟩ := h
    have hstr : ∀ member ∈ members, ∃ value, member.2 = .str value := by
      intro member hmember
      have hmember' := hlookup member.1
      rw [Json.lookup_of_mem hnodup hmember] at hmember'
      obtain ⟨value, -, hvalue⟩ := Option.map_eq_some_iff.mp hmember'.symm
      exact ⟨value, hvalue.symm⟩
    obtain ⟨entries, rfl, hmapM⟩ := mapM_toString? hstr
    refine ⟨_, by rw [environmentOfJson, hmapM]; rfl, fun name => ?_⟩
    rw [lookup_foldl_insert, AList.lookup_empty, Option.or_none]
    have hname := hlookup name
    cases hvalue : env.lookup name with
    | none =>
      rw [hvalue, Option.map_none, List.lookup_eq_none_iff] at hname
      have hfind : entries.reverse.find? (fun e => decide (e.1 = name)) = none := by
        rw [List.find?_eq_none]
        intro entry hentry heq
        have hne := hname _ (List.mem_map_of_mem (List.mem_reverse.mp hentry))
        simp_all
      rw [hfind, Option.map_none]
    | some value =>
      rw [hvalue, Option.map_some] at hname
      obtain ⟨entry, hentry, heq⟩ := List.mem_map.mp (Json.mem_of_lookup hname)
      obtain ⟨rfl, hstr⟩ := Prod.mk.inj heq
      obtain ⟨rfl⟩ := Json.str.inj hstr
      -- The names are different, so the last entry of the name is the only one.
      have hfind : entries.reverse.find? (fun e => decide (e.1 = entry.1)) = some entry := by
        cases hfind : entries.reverse.find? (fun e => decide (e.1 = entry.1)) with
        | none =>
          have hne := List.find?_eq_none.mp hfind entry (List.mem_reverse.mpr hentry)
          simp at hne
        | some entry' =>
          have hmem := List.mem_reverse.mp (List.mem_of_find?_eq_some hfind)
          have hkey : entry'.1 = entry.1 := by simpa using List.find?_some hfind
          rw [List.map_map] at hnodup
          rw [List.inj_on_of_nodup_map hnodup hmem hentry hkey]
      rw [hfind, Option.map_some]
  | null | bool | num | str | arr => exact h.elim

/-- A document for a task is read as the task; its variables may be listed in another order. -/
theorem Task.ofJson_of_form {t : Task} {doc : Json} (h : t.Form readers doc) :
    ∃ env, (∀ name, env.lookup name = t.environment.lookup name) ∧
      Task.ofJson readers doc = some { t with environment := env } := by
  obtain ⟨f, hfields, hby, hspec⟩ := Json.Record.fields h ["id", "name", "description", "enabled",
    "triggers", "actions", "execution_policy", "working_directory", "environment", "version",
    "created_at", "updated_at"]
  obtain ⟨hid, hname, hdescription, henabled, htriggers, hactions, hpolicy, hdirectory,
    ⟨envDoc, hget, henv⟩, hversion, hcreated, hupdated⟩ := hspec
  obtain ⟨env, hread, hlookup⟩ := environmentOfJson_of_form henv
  have hid' := Json.Fields.required_of_given hid taskIdOfJson_of_text
  have hname' := Json.Fields.required_of_given hname toString?_of_eq
  have hdescription' := Json.Fields.optional_of_given hdescription hby rfl fun _ => toString?_of_eq
  have henabled' := Json.Fields.required_of_given henabled toBool?_of_eq
  have htriggers' := Json.Fields.required_of_given htriggers fun _ =>
    Json.Elements.read Trigger.ofJson_of_form
  have hactions' := Json.Fields.required_of_given hactions fun _ =>
    Json.Elements.read Action.ofJson_of_form
  have hpolicy' := Json.Fields.required_of_given hpolicy (ExecutionPolicy.ofJson_of_form _)
  have hdirectory' := Json.Fields.optional_of_given hdirectory hby rfl fun _ => toString?_of_eq
  have henv' : f.required "environment" environmentOfJson = some env := by
    rw [Json.Fields.required, hget, Option.bind_some, hread]
  have hversion' := Json.Fields.required_of_given hversion fun _ hdoc => hdoc
  have hcreated' := Json.Fields.required_of_given hcreated dateTimeOfJson_of_text
  have hupdated' := Json.Fields.required_of_given hupdated dateTimeOfJson_of_text
  refine ⟨env, hlookup, ?_⟩
  simp only [Task.ofJson, hfields, hid', hname', hdescription', henabled', htriggers', hactions',
    hpolicy', hdirectory', henv', hversion', hcreated', hupdated', Option.bind_eq_bind,
    Option.bind_some, Option.pure_def]

end EasyJob.Domain
