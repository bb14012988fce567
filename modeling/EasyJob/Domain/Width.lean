import EasyJob.Domain.Serde

/-!
# The width of the JSON form

How many bytes the JSON form of a domain type takes, from the values of its fields:
the names and the punctuation are constants, an id takes 38 bytes, and a text
what its escapes make of it.

* `Execution.size_toJson`, `Task.size_toJson`: the width of an execution and of a task.
-/

namespace EasyJob.Domain

open EasyJob.Chrono

variable (texts : ChronoTexts)

/-! ## Values -/

def boolWidth (b : Bool) : ℕ := if b then 4 else 5

/-- The decimal digits. -/
def natWidth (n : ℕ) : ℕ := (Nat.toDigits 10 n).length

def intWidth (n : ℤ) : ℕ := (if n < 0 then 1 else 0) + natWidth n.natAbs

/-- `null` for `None`. -/
def optionWidth {α : Type} (width : α → ℕ) : Option α → ℕ
  | some x => width x
  | none => 4

/-- Two brackets, the elements, and the commas between them. -/
def arrayWidth {α : Type} (width : α → ℕ) (l : List α) : ℕ :=
  2 + (l.map width).sum + (l.length - 1)

def dateTimeWidth (t : DateTime) : ℕ := Json.stringWidth (texts.dateTime t)

def naiveTimeWidth (t : NaiveTime) : ℕ := Json.stringWidth (texts.naiveTime t)

theorem size_str (text : String) : (Json.str text).size = Json.stringWidth text :=
  Json.escapedSize_eq text

theorem size_obj (members : List (String × Json)) :
    (Json.obj members).size = 2 + Json.sizeMembers members := by
  rw [Json.size]

theorem size_bool (b : Bool) : (Json.bool b).size = boolWidth b := by
  cases b <;> rfl

theorem size_option {α : Type} {toJson : α → Json} {width : α → ℕ}
    (h : ∀ x, (toJson x).size = width x) (x : Option α) :
    (optionToJson toJson x).size = optionWidth width x := by
  cases x with
  | none => rfl
  | some x => exact h x

theorem size_array {α : Type} {toJson : α → Json} {width : α → ℕ}
    (h : ∀ x, (toJson x).size = width x) (l : List α) :
    (Json.arr (l.map toJson)).size = arrayWidth width l := by
  have hsizes : Json.sizeElems (l.map toJson) = (l.map width).sum + (l.length - 1) := by
    induction l with
    | nil => rfl
    | cons x l ih =>
      cases l with
      | nil => simp [Json.sizeElems, h]
      | cons y l =>
        rw [List.map_cons, List.map_cons, Json.sizeElems, ← List.map_cons, ih, h]
        · simp only [List.map_cons, List.sum_cons, List.length_cons]
          omega
        · simp
  rw [Json.size, hsizes, arrayWidth]
  omega

theorem utf8Size_toDigits (n : ℕ) : Json.utf8Size (Nat.toDigits 10 n) = natWidth n := by
  have hdigit : ∀ d < 10, (Nat.digitChar d).utf8Size = 1 := by decide
  unfold natWidth
  induction n using Nat.strong_induction_on with
  | _ n ih =>
    rcases Nat.lt_or_ge n 10 with hlt | hge
    · rw [Nat.toDigits_of_lt_base hlt]
      simp [hdigit n hlt]
    · rw [Nat.toDigits_of_base_le (by omega) hge, Json.utf8Size_append, ih (n / 10) (by omega),
        List.length_append]
      simp [hdigit _ (Nat.mod_lt n (by omega))]

theorem size_nat (n : ℕ) : (natToJson n).size = natWidth n := by
  have htext : (toString n).toList = Nat.toDigits 10 n := String.toList_ofList
  rw [natToJson, Json.size, htext, utf8Size_toDigits]

theorem size_int (n : ℤ) : (intToJson n).size = intWidth n := by
  cases n with
  | ofNat m => exact (size_nat m).trans (Nat.zero_add _).symm
  | negSucc m =>
    have htext : (toString (Int.negSucc m)).toList = '-' :: Nat.toDigits 10 (m + 1) := by
      show ("-" ++ Nat.repr (m + 1)).toList = _
      rw [String.toList_append, Nat.repr, String.toList_ofList, String.toList_ofList]
      rfl
    have hminus : ('-' : Char).utf8Size = 1 := rfl
    rw [intToJson, Json.size, htext, Json.utf8Size_cons, utf8Size_toDigits, hminus, intWidth,
      if_pos (Int.negSucc_lt_zero m)]
    rfl

theorem size_dateTime (t : DateTime) : (dateTimeToJson texts t).size = dateTimeWidth texts t :=
  size_str _

theorem size_naiveTime (t : NaiveTime) : (naiveTimeToJson texts t).size = naiveTimeWidth texts t :=
  size_str _

/-! ## Ids -/

theorem escapeSize_digitChar : ∀ n < 16, Json.escapeSize (Nat.digitChar n) = 1 := by decide

theorem escapeSize_toDigits (u : Uuid) : ∀ c ∈ Nat.toDigits 16 u, Json.escapeSize c = 1 := by
  induction u using Nat.strong_induction_on with
  | _ u ih =>
    intro c hc
    rcases Nat.lt_or_ge u 16 with hlt | hge
    · rw [Nat.toDigits_of_lt_base hlt, List.mem_singleton] at hc
      rw [hc, escapeSize_digitChar u hlt]
    · rw [Nat.toDigits_of_base_le (by omega) hge, List.mem_append, List.mem_singleton] at hc
      rcases hc with hc | hc
      · exact ih (u / 16) (by omega) c hc
      · rw [hc, escapeSize_digitChar _ (Nat.mod_lt u (by omega))]

/-- The printed form of an id has 36 characters, none of which is escaped. -/
theorem escapedSize_displayUuid (u : Uuid) : Json.escapedSize (displayUuid u) = 36 := by
  set digits := ((List.replicate 32 '0' ++ Nat.toDigits 16 u).reverse.take 32).reverse with hdigits
  have hlength : digits.length = 32 := by simp [hdigits]
  have hone : ∀ c ∈ digits, Json.escapeSize c = 1 := by
    intro c hc
    have hmem := List.mem_reverse.mp (List.mem_of_mem_take (List.mem_reverse.mp hc))
    rcases List.mem_append.mp hmem with h | h
    · rw [(List.mem_replicate.mp h).2]
      rfl
    · exact escapeSize_toDigits u c h
  have hgroup (k n : ℕ) (h : k + n ≤ 32) :
      (((digits.drop k).take n).map Json.escapeSize).sum = n := by
    have hmap : ((digits.drop k).take n).map Json.escapeSize = List.replicate n 1 := by
      rw [List.eq_replicate_iff]
      refine ⟨by simp; omega, ?_⟩
      intro w hw
      obtain ⟨c, hc, rfl⟩ := List.mem_map.mp hw
      exact hone c (List.mem_of_mem_drop (List.mem_of_mem_take hc))
    rw [hmap]
    simp
  have hhyphen : Json.escapeSize '-' = 1 := rfl
  have htext : (displayUuid u).toList = (digits.drop 0).take 8 ++ ['-'] ++ (digits.drop 8).take 4 ++
      ['-'] ++ (digits.drop 12).take 4 ++ ['-'] ++ (digits.drop 16).take 4 ++ ['-'] ++
      (digits.drop 20).take 12 := by
    rw [displayUuid, String.toList_ofList]
  rw [Json.escapedSize, htext]
  simp only [List.map_append, List.sum_append, List.map_cons, List.map_nil, List.sum_cons,
    List.sum_nil, hhyphen, hgroup 0 8 (by omega), hgroup 8 4 (by omega), hgroup 12 4 (by omega),
    hgroup 16 4 (by omega), hgroup 20 12 (by omega)]
  rfl

/-- An id: 36 characters and two quotes. -/
theorem size_uuid (u : Uuid) : (uuidToJson u).size = 38 := by
  rw [uuidToJson, Json.size, escapedSize_displayUuid]

/-! ## Policies -/

/-- The quoted names of the variants. -/
def TaskNotificationPolicy.width : TaskNotificationPolicy → ℕ
  | .None => 6
  | .OnlySuccess => 13
  | .OnlyFailure => 13
  | .All => 5

def ConcurrencyPolicy.width : ConcurrencyPolicy → ℕ
  | .AllowParallel => 15
  | .SkipIfRunning => 15
  | .QueueOne => 10

def MissedRunPolicy.width : MissedRunPolicy → ℕ
  | .RunOnce => 9
  | .Skip => 6

def RetryPolicy.width (p : RetryPolicy) : ℕ := 30 + natWidth p.delaySecs + natWidth p.maxRetries

def LogRetentionPolicy.width : LogRetentionPolicy → ℕ
  | .SystemDefault => 24
  | .KeepDays days => 27 + natWidth days
  | .Permanent => 20

def ExecutionPolicy.width (p : ExecutionPolicy) : ℕ :=
  109 + p.concurrencyPolicy.width + p.logRetention.width + p.missedRunPolicy.width +
    p.notification.width + p.retryPolicy.width + optionWidth natWidth p.timeoutSecs

theorem TaskNotificationPolicy.size_toJson (p : TaskNotificationPolicy) :
    p.toJson.size = p.width := by
  cases p <;> decide

theorem ConcurrencyPolicy.size_toJson (p : ConcurrencyPolicy) : p.toJson.size = p.width := by
  cases p <;> decide

theorem MissedRunPolicy.size_toJson (p : MissedRunPolicy) : p.toJson.size = p.width := by
  cases p <;> decide

theorem RetryPolicy.size_toJson (p : RetryPolicy) : p.toJson.size = p.width := by
  have hnames : Json.escapedSize "delay_secs" = 10 ∧ Json.escapedSize "max_retries" = 11 := by
    decide
  simp only [toJson, size_obj, Json.sizeMembers, size_nat, hnames]
  unfold width
  omega

theorem LogRetentionPolicy.size_toJson (p : LogRetentionPolicy) : p.toJson.size = p.width := by
  have hnames : Json.escapedSize "days" = 4 ∧ Json.escapedSize "mode" = 4 ∧
      (Json.str "KeepDays").size = 10 := by decide
  cases p with
  | SystemDefault | Permanent => decide
  | KeepDays days =>
    simp only [toJson, size_obj, Json.sizeMembers, size_nat, hnames]
    unfold width
    dsimp only
    omega

theorem ExecutionPolicy.size_toJson (p : ExecutionPolicy) : p.toJson.size = p.width := by
  have hnames : Json.escapedSize "concurrency_policy" = 18 ∧ Json.escapedSize "log_retention" = 13 ∧
      Json.escapedSize "missed_run_policy" = 17 ∧ Json.escapedSize "notification" = 12 ∧
      Json.escapedSize "retry_policy" = 12 ∧ Json.escapedSize "timeout_secs" = 12 := by decide
  simp only [toJson, size_obj, Json.sizeMembers, hnames, p.concurrencyPolicy.size_toJson,
    p.logRetention.size_toJson, p.missedRunPolicy.size_toJson, p.notification.size_toJson,
    p.retryPolicy.size_toJson, size_option size_nat]
  unfold width
  omega

/-! ## Triggers and actions -/

/-- The days of a week take five bytes each. -/
def FuzzyPeriod.width : FuzzyPeriod → ℕ
  | .Daily => 7
  | .Weekdays => 10
  | .Weekends => 10
  | .Weekly daysOfWeek => 28 + arrayWidth (fun _ => 5) daysOfWeek

def NetworkEventKind.width : NetworkEventKind → ℕ
  | .Connect => 9
  | .Disconnect => 12
  | .Online => 8

def TriggerKind.width : TriggerKind → ℕ
  | .Once fireAt => 21 + dateTimeWidth texts fireAt
  | .Daily time timezone => 31 + naiveTimeWidth texts time + Json.stringWidth timezone
  | .Weekly daysOfWeek time timezone =>
    48 + arrayWidth (fun _ => 5) daysOfWeek + naiveTimeWidth texts time + Json.stringWidth timezone
  | .Interval intervalSecs startAt =>
    43 + natWidth intervalSecs + optionWidth (dateTimeWidth texts) startAt
  | .AgentStarted => 14
  | .Cron expression timezone => 36 + Json.stringWidth expression + Json.stringWidth timezone
  | .Fuzzy period windowStart windowEnd timezone =>
    63 + period.width + Json.stringWidth timezone + naiveTimeWidth texts windowEnd +
      naiveTimeWidth texts windowStart
  | .Network events networkName =>
    39 + arrayWidth NetworkEventKind.width events + optionWidth Json.stringWidth networkName

/-- Both ids count. -/
def Trigger.width (t : Trigger) : ℕ :=
  141 + dateTimeWidth texts t.createdAt + boolWidth t.enabled + t.kind.width texts +
    dateTimeWidth texts t.updatedAt

def ScriptEncoding.width : ScriptEncoding → ℕ
  | .Utf8 => 6
  | .Gbk => 5

/-- The member with the encoding, if it is there. -/
def encodingWidth : Option ScriptEncoding → ℕ
  | some e => 12 + e.width
  | none => 0

def ActionKind.width : ActionKind → ℕ
  | .ExecuteProgram program args => 39 + arrayWidth Json.stringWidth args + Json.stringWidth program
  | .ExecuteShell command => 29 + Json.stringWidth command
  | .ExecutePowerShell script noProfile encoding =>
    47 + encodingWidth encoding + boolWidth noProfile + Json.stringWidth script
  | .ExecuteCmd command encoding => 27 + Json.stringWidth command + encodingWidth encoding

def Action.width (a : Action) : ℕ :=
  125 + boolWidth a.enabled + a.kind.width + natWidth a.sequence

theorem size_weekday (w : Weekday) : (weekdayToJson w).size = 5 := by
  cases w <;> decide

theorem FuzzyPeriod.size_toJson (p : FuzzyPeriod) : p.toJson.size = p.width := by
  have hnames : Json.escapedSize "Weekly" = 6 ∧ Json.escapedSize "days_of_week" = 12 := by decide
  cases p with
  | Daily | Weekdays | Weekends => decide
  | Weekly daysOfWeek =>
    simp only [toJson, size_obj, Json.sizeMembers, hnames, size_array size_weekday]
    unfold width
    dsimp only
    omega

theorem NetworkEventKind.size_toJson (k : NetworkEventKind) : k.toJson.size = k.width := by
  cases k <;> decide

theorem TriggerKind.size_toJson (k : TriggerKind) : (k.toJson texts).size = k.width texts := by
  have hkinds : Json.escapedSize "Once" = 4 ∧ Json.escapedSize "Daily" = 5 ∧
      Json.escapedSize "Weekly" = 6 ∧ Json.escapedSize "Interval" = 8 ∧
      Json.escapedSize "Cron" = 4 ∧ Json.escapedSize "Fuzzy" = 5 ∧
      Json.escapedSize "Network" = 7 := by decide
  have hnames : Json.escapedSize "fire_at" = 7 ∧ Json.escapedSize "time" = 4 ∧
      Json.escapedSize "timezone" = 8 ∧ Json.escapedSize "days_of_week" = 12 ∧
      Json.escapedSize "interval_secs" = 13 ∧ Json.escapedSize "start_at" = 8 ∧
      Json.escapedSize "expression" = 10 ∧ Json.escapedSize "period" = 6 ∧
      Json.escapedSize "window_end" = 10 ∧ Json.escapedSize "window_start" = 12 ∧
      Json.escapedSize "events" = 6 ∧ Json.escapedSize "network_name" = 12 := by decide
  cases k with
  | AgentStarted => exact size_str "AgentStarted"
  | _ =>
    simp only [toJson, size_obj, Json.sizeMembers, hkinds, hnames, size_str, size_nat,
      size_dateTime, size_naiveTime, size_option (size_dateTime texts), size_option size_str,
      size_array size_weekday, size_array NetworkEventKind.size_toJson, FuzzyPeriod.size_toJson]
    unfold width
    dsimp only
    omega

theorem Trigger.size_toJson (t : Trigger) : (t.toJson texts).size = t.width texts := by
  have hnames : Json.escapedSize "created_at" = 10 ∧ Json.escapedSize "enabled" = 7 ∧
      Json.escapedSize "id" = 2 ∧ Json.escapedSize "kind" = 4 ∧ Json.escapedSize "task_id" = 7 ∧
      Json.escapedSize "updated_at" = 10 := by decide
  simp only [toJson, size_obj, Json.sizeMembers, hnames, size_dateTime, size_bool, size_uuid,
    t.kind.size_toJson texts]
  unfold width
  omega

theorem ScriptEncoding.size_toJson (e : ScriptEncoding) : e.toJson.size = e.width := by
  cases e <;> decide

/-- The member with the encoding stands before another one. -/
theorem sizeMembers_encoding (encoding : Option ScriptEncoding) (member : String × Json)
    (members : List (String × Json)) :
    Json.sizeMembers (encodingMember encoding ++ member :: members) =
      encodingWidth encoding + Json.sizeMembers (member :: members) := by
  have hname : Json.escapedSize "encoding" = 8 := by decide
  cases encoding with
  | none => exact (Nat.zero_add _).symm
  | some e =>
    rw [encodingMember, List.singleton_append, Json.sizeMembers, hname, e.size_toJson,
      encodingWidth]
    simp

theorem ActionKind.size_toJson (k : ActionKind) : k.toJson.size = k.width := by
  have hkinds : Json.escapedSize "ExecuteProgram" = 14 ∧ Json.escapedSize "ExecuteShell" = 12 ∧
      Json.escapedSize "ExecutePowerShell" = 17 ∧ Json.escapedSize "ExecuteCmd" = 10 := by decide
  have hnames : Json.escapedSize "args" = 4 ∧ Json.escapedSize "program" = 7 ∧
      Json.escapedSize "command" = 7 ∧ Json.escapedSize "no_profile" = 10 ∧
      Json.escapedSize "script" = 6 ∧ Json.escapedSize "encoding" = 8 := by decide
  cases k with
  | ExecuteCmd command encoding =>
    cases encoding with
    | none =>
      simp only [toJson, encodingMember, size_obj, Json.sizeMembers, hkinds, hnames, size_str]
      unfold width encodingWidth
      dsimp only
      omega
    | some e =>
      simp only [toJson, encodingMember, size_obj, Json.sizeMembers, hkinds, hnames, size_str,
        e.size_toJson]
      unfold width encodingWidth
      dsimp only
      omega
  | ExecuteProgram | ExecuteShell | ExecutePowerShell =>
    simp only [toJson, size_obj, sizeMembers_encoding, Json.sizeMembers, hkinds, hnames, size_str,
      size_bool, size_array size_str]
    unfold width
    dsimp only
    omega

theorem Action.size_toJson (a : Action) : a.toJson.size = a.width := by
  have hnames : Json.escapedSize "enabled" = 7 ∧ Json.escapedSize "id" = 2 ∧
      Json.escapedSize "kind" = 4 ∧ Json.escapedSize "sequence" = 8 ∧
      Json.escapedSize "task_id" = 7 := by decide
  simp only [toJson, size_obj, Json.sizeMembers, hnames, size_bool, size_nat, size_uuid,
    a.kind.size_toJson]
  unfold width
  omega

/-! ## Tasks and executions -/

/-- Two braces, and for each entry the literals of its key and value and a colon. -/
def environmentWidth (env : HashMap String String) : ℕ :=
  arrayWidth (fun e => Json.stringWidth e.1 + 1 + Json.stringWidth e.2)
    (env.entries.map fun e => (e.1, e.2))

def Task.width (t : Task) : ℕ :=
  197 + arrayWidth Action.width t.actions + dateTimeWidth texts t.createdAt +
    optionWidth Json.stringWidth t.description + boolWidth t.enabled +
    environmentWidth t.environment + t.executionPolicy.width + Json.stringWidth t.name +
    arrayWidth (Trigger.width texts) t.triggers + dateTimeWidth texts t.updatedAt +
    intWidth t.version + optionWidth Json.stringWidth t.workingDirectory

/-- The quoted name. -/
def ExecutionStatus.width : ExecutionStatus → ℕ
  | .Queued => 8
  | .Running => 9
  | .Succeeded => 11
  | .Failed => 8
  | .TimedOut => 10
  | .Cancelled => 11
  | .Skipped => 9
  | .Interrupted => 13

def Execution.width (e : Execution) : ℕ :=
  208 + optionWidth natWidth e.durationMs + optionWidth Json.stringWidth e.errorMessage +
    optionWidth intWidth e.exitCode + optionWidth (dateTimeWidth texts) e.finishedAt +
    optionWidth (dateTimeWidth texts) e.scheduledAt + dateTimeWidth texts e.startedAt +
    e.status.width + optionWidth (fun _ => 38) e.triggerId

/-- An object of texts, member by member. -/
theorem size_texts (members : List (String × String)) :
    (Json.obj (members.map fun e => (e.1, Json.str e.2))).size =
      arrayWidth (fun e => Json.stringWidth e.1 + 1 + Json.stringWidth e.2) members := by
  have hmembers : Json.sizeMembers (members.map fun e => (e.1, Json.str e.2)) =
      (members.map fun e => Json.stringWidth e.1 + 1 + Json.stringWidth e.2).sum +
        (members.length - 1) := by
    induction members with
    | nil => rfl
    | cons e members ih =>
      have hkey := Json.escapedSize_eq e.1
      cases members with
      | nil =>
        simp only [List.map_cons, List.map_nil, Json.sizeMembers, size_str, List.sum_cons,
          List.sum_nil, List.length_cons, List.length_nil]
        omega
      | cons e' members =>
        rw [List.map_cons] at ih
        rw [List.map_cons, List.map_cons, Json.sizeMembers, ih, size_str]
        · simp only [List.map_cons, List.sum_cons, List.length_cons]
          omega
        · simp
  rw [size_obj, hmembers, arrayWidth]
  omega

/-- The width does not depend on the order. -/
theorem size_environment (env : HashMap String String) :
    (environmentToJson env).size = environmentWidth env := by
  have hperm := List.perm_insertionSort (fun a b : String × String => a.1 ≤ b.1)
    (env.entries.map fun e => (e.1, e.2))
  rw [environmentToJson, size_texts, environmentWidth, arrayWidth, arrayWidth, hperm.length_eq,
    (hperm.map _).sum_nat]

theorem Task.size_toJson (t : Task) : (t.toJson texts).size = t.width texts := by
  have hnames : Json.escapedSize "actions" = 7 ∧ Json.escapedSize "created_at" = 10 ∧
      Json.escapedSize "description" = 11 ∧ Json.escapedSize "enabled" = 7 ∧
      Json.escapedSize "environment" = 11 ∧ Json.escapedSize "execution_policy" = 16 ∧
      Json.escapedSize "id" = 2 ∧ Json.escapedSize "name" = 4 ∧ Json.escapedSize "triggers" = 8 ∧
      Json.escapedSize "updated_at" = 10 ∧ Json.escapedSize "version" = 7 ∧
      Json.escapedSize "working_directory" = 17 := by decide
  simp only [toJson, size_obj, Json.sizeMembers, hnames, size_array Action.size_toJson,
    size_dateTime, size_option size_str, size_bool, size_environment,
    t.executionPolicy.size_toJson, size_uuid, size_str, size_array (Trigger.size_toJson texts),
    size_int]
  unfold width
  omega

theorem ExecutionStatus.size_toJson (s : ExecutionStatus) : s.toJson.size = s.width := by
  cases s <;> decide

theorem Execution.size_toJson (e : Execution) : (e.toJson texts).size = e.width texts := by
  have hnames : Json.escapedSize "duration_ms" = 11 ∧ Json.escapedSize "error_message" = 13 ∧
      Json.escapedSize "exit_code" = 9 ∧ Json.escapedSize "finished_at" = 11 ∧
      Json.escapedSize "id" = 2 ∧ Json.escapedSize "scheduled_at" = 12 ∧
      Json.escapedSize "started_at" = 10 ∧ Json.escapedSize "status" = 6 ∧
      Json.escapedSize "task_id" = 7 ∧ Json.escapedSize "trigger_id" = 10 := by decide
  have htrigger (id : TriggerId) : (uuidToJson id.uuid).size = 38 := size_uuid id.uuid
  simp only [toJson, size_obj, Json.sizeMembers, hnames, size_option size_nat,
    size_option size_str, size_option size_int, size_option (size_dateTime texts), size_dateTime,
    size_uuid, e.status.size_toJson, size_option htrigger]
  unfold width
  omega

end EasyJob.Domain
