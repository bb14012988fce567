import EasyJob.Domain.Task
import EasyJob.Lib.Json
import Mathlib.Data.Finset.Insert
import Mathlib.Data.Rat.Defs

/-!
# The comparison of two tasks

Model of `compareTasks` (`utils/taskDiff.ts`), on tasks as the page has them after `JSON.parse`:
a member can be missing or `null`, and the kinds of triggers and actions are any values.

* `mem_diffFields_iff`: which fields differ.
* `diff_iff`: the flag of a section says that one of its fields differs.
* `compareTasks_spec`: nothing differs if and only if the configurations are the same, and the
  order of the two tasks does not matter.
-/

namespace EasyJob.Frontend

open EasyJob.Domain

/-! ## Tasks of the page -/

/-- What `JSON.parse` gives. An object has its members in their order. -/
inductive JsValue
  | null
  | bool (b : Bool)
  | number (n : ℚ)
  | string (text : String)
  | array (elems : List JsValue)
  | object (members : List (String × JsValue))

/-- A member of an object that can be missing or `null`. -/
inductive Maybe (α : Type)
  | undefined
  | null
  | value (a : α)
  deriving DecidableEq

/-- `x || d`, where the values of `x` other than `d` are truthy. -/
def Maybe.or {α : Type} : Maybe α → α → α
  | .value a, _ => a
  | _, d => d

structure TriggerValue where
  id : String
  taskId : String
  enabled : Bool
  kind : JsValue
  createdAt : String
  updatedAt : String

structure ActionValue where
  id : String
  taskId : String
  sequence : ℚ
  enabled : Bool
  kind : JsValue

structure RetryValue where
  maxRetries : ℚ
  delaySecs : ℚ

/-- `logRetention` is an object, of which only the members matter. -/
structure PolicyValue where
  concurrencyPolicy : ConcurrencyPolicy
  missedRunPolicy : MissedRunPolicy
  retryPolicy : RetryValue
  timeoutSecs : Maybe ℚ
  notification : Maybe TaskNotificationPolicy
  logRetention : Maybe (List (String × JsValue))

structure TaskValue where
  id : String
  name : String
  description : Maybe String
  enabled : Bool
  triggers : List TriggerValue
  actions : List ActionValue
  executionPolicy : PolicyValue
  workingDirectory : Maybe String
  environment : Maybe (HashMap String String)
  version : ℚ
  createdAt : String
  updatedAt : String

/-- `{ mode: 'SystemDefault' }`. -/
def systemDefault : List (String × JsValue) := [("mode", .string "SystemDefault")]

/-! ## `compareTasks` -/

@[ext] structure TaskDiffResult where
  hasDiff : Bool
  basicDiff : Bool
  policyDiff : Bool
  triggersDiff : Bool
  actionsDiff : Bool
  envDiff : Bool
  diffFields : Finset String

/-- Model of `normalizeTrigger` (lines 13–18). -/
def normalizeTrigger (tr : TriggerValue) : JsValue :=
  .object [("enabled", .bool tr.enabled), ("kind", tr.kind)]

/-- Model of `normalizeAction` (lines 20–26). -/
def normalizeAction (act : ActionValue) : JsValue :=
  .object [("enabled", .bool act.enabled), ("sequence", .number act.sequence), ("kind", act.kind)]

/-- What every object inherits. -/
def objectPrototypeNames : List String :=
  ["__defineGetter__", "__defineSetter__", "hasOwnProperty", "__lookupGetter__",
    "__lookupSetter__", "isPrototypeOf", "propertyIsEnumerable", "toString", "valueOf",
    "__proto__", "toLocaleString", "constructor"]

/-- What `env[key]` gives: a text, or what is inherited under the name. -/
inductive EnvEntry
  | text (s : String)
  | inherited (name : String)
  | undefined
  deriving DecidableEq, Repr

def envEntry (env : HashMap String String) (key : String) : EnvEntry :=
  match env.lookup key with
  | some s => .text s
  | none => if key ∈ objectPrototypeNames then .inherited key else .undefined

/-- `if (differs) diffFields.add(field)`. -/
def addIf (differs : Bool) (field : String) (diffFields : Finset String) : Finset String :=
  if differs then insert field diffFields else diffFields

section Compare

variable (stringify : JsValue → String)

/-- Lines 31–40. -/
def addBasic (existingTask importedTask : TaskValue) (diffFields : Finset String) :
    Finset String :=
  diffFields
    |> addIf (existingTask.description.or "" != importedTask.description.or "")
      "basic.description"
    |> addIf (existingTask.enabled != importedTask.enabled) "basic.enabled"
    |> addIf (existingTask.workingDirectory.or "" != importedTask.workingDirectory.or "")
      "basic.working_directory"

/-- Lines 47–77. -/
def addPolicy (ep1 ep2 : PolicyValue) (diffFields : Finset String) : Finset String :=
  let n1 := ep1.notification.or .None
  let n2 := ep2.notification.or .None
  let r1 := JsValue.object (ep1.logRetention.or systemDefault)
  let r2 := JsValue.object (ep2.logRetention.or systemDefault)
  diffFields
    |> addIf (ep1.concurrencyPolicy != ep2.concurrencyPolicy) "policy.concurrency_policy"
    |> addIf (ep1.missedRunPolicy != ep2.missedRunPolicy) "policy.missed_run_policy"
    |> addIf (ep1.timeoutSecs != ep2.timeoutSecs) "policy.timeout_secs"
    |> addIf (ep1.retryPolicy.maxRetries != ep2.retryPolicy.maxRetries) "policy.retry_max_retries"
    |> addIf (ep1.retryPolicy.delaySecs != ep2.retryPolicy.delaySecs) "policy.retry_delay_secs"
    |> addIf (n1 != n2) "policy.notification"
    |> addIf (stringify r1 != stringify r2) "policy.log_retention"

/-- The loop of lines 108–113: the fields, and `envDiff`. -/
def addEnv (env1 env2 : HashMap String String) (allEnvKeys : List String)
    (diffFields : Finset String) : Finset String × Bool :=
  allEnvKeys.foldl (fun (diffFields, envDiff) key =>
    if envEntry env1 key != envEntry env2 key then (insert ("env." ++ key) diffFields, true)
    else (diffFields, envDiff)) (diffFields, false)

/-- Model of `compareTasks` (lines 28–127). -/
def compareTasks (existingTask importedTask : TaskValue) : TaskDiffResult :=
  let diffFields := addBasic existingTask importedTask ∅
  let basicDiff := decide ("basic.description" ∈ diffFields) ||
    decide ("basic.enabled" ∈ diffFields) || decide ("basic.working_directory" ∈ diffFields)
  let ep1 := existingTask.executionPolicy
  let ep2 := importedTask.executionPolicy
  let diffFields := addPolicy stringify ep1 ep2 diffFields
  let policyDiff := decide ("policy.concurrency_policy" ∈ diffFields) ||
    decide ("policy.missed_run_policy" ∈ diffFields) ||
    decide ("policy.timeout_secs" ∈ diffFields) ||
    decide ("policy.retry_max_retries" ∈ diffFields) ||
    decide ("policy.retry_delay_secs" ∈ diffFields) ||
    decide ("policy.notification" ∈ diffFields) || decide ("policy.log_retention" ∈ diffFields)
  let normTriggers1 := JsValue.array (existingTask.triggers.map normalizeTrigger)
  let normTriggers2 := JsValue.array (importedTask.triggers.map normalizeTrigger)
  let triggersDiff := stringify normTriggers1 != stringify normTriggers2
  let diffFields := addIf triggersDiff "triggers" diffFields
  let normActions1 := JsValue.array (existingTask.actions.map normalizeAction)
  let normActions2 := JsValue.array (importedTask.actions.map normalizeAction)
  let actionsDiff := stringify normActions1 != stringify normActions2
  let diffFields := addIf actionsDiff "actions" diffFields
  let env1 := existingTask.environment.or ∅
  let env2 := importedTask.environment.or ∅
  let allEnvKeys := (env1.keys ++ env2.keys).dedup
  let (diffFields, envDiff) := addEnv env1 env2 allEnvKeys diffFields
  let hasDiff := basicDiff || policyDiff || triggersDiff || actionsDiff || envDiff
  ⟨hasDiff, basicDiff, policyDiff, triggersDiff, actionsDiff, envDiff, diffFields⟩

end Compare

/-! ## Sections -/

inductive Section
  | basic | policy | triggers | actions | env
  deriving DecidableEq, Repr

/-- The section of a field: what stands before the dot. -/
def sectionOf (field : String) : Option Section :=
  match String.ofList (field.toList.takeWhile (· != '.')) with
  | "basic" => some .basic
  | "policy" => some .policy
  | "triggers" => some .triggers
  | "actions" => some .actions
  | "env" => some .env
  | _ => none

def TaskDiffResult.diff (result : TaskDiffResult) : Section → Bool
  | .basic => result.basicDiff
  | .policy => result.policyDiff
  | .triggers => result.triggersDiff
  | .actions => result.actionsDiff
  | .env => result.envDiff

/-- The section as a text. -/
def Section.name : Section → String
  | .basic => "basic"
  | .policy => "policy"
  | .triggers => "triggers"
  | .actions => "actions"
  | .env => "env"

theorem sectionOf_of_takeWhile {text : List Char} (s : Section)
    (h : String.ofList (text.takeWhile (· != '.')) = s.name) :
    sectionOf (String.ofList text) = some s := by
  rw [sectionOf, String.toList_ofList, h]
  cases s <;> rfl

@[simp] theorem sectionOf_env (key : String) : sectionOf ("env." ++ key) = some .env := by
  have hdot : ("env." ++ key).toList.takeWhile (· != '.') = "env".toList := by
    simp [String.toList_append]
  rw [sectionOf, hdot]
  rfl

@[simp] theorem sectionOf_basic :
    sectionOf "basic.description" = some .basic ∧ sectionOf "basic.enabled" = some .basic ∧
      sectionOf "basic.working_directory" = some .basic :=
  ⟨sectionOf_of_takeWhile .basic rfl, sectionOf_of_takeWhile .basic rfl,
    sectionOf_of_takeWhile .basic rfl⟩

@[simp] theorem sectionOf_policy :
    sectionOf "policy.concurrency_policy" = some .policy ∧
      sectionOf "policy.missed_run_policy" = some .policy ∧
      sectionOf "policy.timeout_secs" = some .policy ∧
      sectionOf "policy.retry_max_retries" = some .policy ∧
      sectionOf "policy.retry_delay_secs" = some .policy ∧
      sectionOf "policy.notification" = some .policy ∧
      sectionOf "policy.log_retention" = some .policy :=
  ⟨sectionOf_of_takeWhile .policy rfl, sectionOf_of_takeWhile .policy rfl,
    sectionOf_of_takeWhile .policy rfl, sectionOf_of_takeWhile .policy rfl,
    sectionOf_of_takeWhile .policy rfl, sectionOf_of_takeWhile .policy rfl,
    sectionOf_of_takeWhile .policy rfl⟩

@[simp] theorem sectionOf_lists :
    sectionOf "triggers" = some .triggers ∧ sectionOf "actions" = some .actions :=
  ⟨sectionOf_of_takeWhile .triggers rfl, sectionOf_of_takeWhile .actions rfl⟩

/-! ## Which fields differ -/

@[simp] theorem mem_addIf {differs : Bool} {field f : String} {diffFields : Finset String} :
    f ∈ addIf differs field diffFields ↔ (differs = true ∧ f = field) ∨ f ∈ diffFields := by
  unfold addIf
  split_ifs with h
  · simp [h]
  · simp [h]

theorem addEnv_spec (env1 env2 : HashMap String String) (allEnvKeys : List String)
    (diffFields : Finset String) :
    (∀ f, f ∈ (addEnv env1 env2 allEnvKeys diffFields).1 ↔ f ∈ diffFields ∨
      ∃ key ∈ allEnvKeys, envEntry env1 key ≠ envEntry env2 key ∧ f = "env." ++ key) ∧
    ((addEnv env1 env2 allEnvKeys diffFields).2 = true ↔
      ∃ key ∈ allEnvKeys, envEntry env1 key ≠ envEntry env2 key) := by
  -- The keys are taken from the end, so that the state before a key is that of the loop so far.
  induction allEnvKeys using List.reverseRecOn with
  | nil => simp [addEnv]
  | append_singleton keys key ih =>
    have hstep : addEnv env1 env2 (keys ++ [key]) diffFields =
        if envEntry env1 key != envEntry env2 key then
          (insert ("env." ++ key) (addEnv env1 env2 keys diffFields).1, true)
        else addEnv env1 env2 keys diffFields := by
      simp [addEnv, List.foldl_append]
    rw [hstep]
    obtain ⟨hfields, hdiff⟩ := ih
    split_ifs with h
    · have hne : envEntry env1 key ≠ envEntry env2 key := by simpa using h
      constructor
      · intro f
        simp only [Finset.mem_insert, hfields, List.mem_append, List.mem_singleton]
        constructor
        · rintro (rfl | hf | ⟨k, hk, hrest⟩)
          · exact .inr ⟨key, .inr rfl, hne, rfl⟩
          · exact .inl hf
          · exact .inr ⟨k, .inl hk, hrest⟩
        · rintro (hf | ⟨k, hk | rfl, hrest⟩)
          · exact .inr (.inl hf)
          · exact .inr (.inr ⟨k, hk, hrest⟩)
          · exact .inl hrest.2
      · simp only [true_iff]
        exact ⟨key, by simp, hne⟩
    · have heq : envEntry env1 key = envEntry env2 key := by simpa using h
      have hkeys : ∀ P : String → Prop,
          (∃ k ∈ keys ++ [key], envEntry env1 k ≠ envEntry env2 k ∧ P k) ↔
            ∃ k ∈ keys, envEntry env1 k ≠ envEntry env2 k ∧ P k := by
        intro P
        simp [or_and_right, exists_or, heq]
      exact ⟨fun f => by rw [hfields, hkeys], by simpa [hdiff] using (hkeys fun _ => True).symm⟩

theorem envEntry_ne_iff (env1 env2 : HashMap String String) (key : String) :
    (key ∈ (env1.keys ++ env2.keys).dedup ∧ envEntry env1 key ≠ envEntry env2 key) ↔
      env1.lookup key ≠ env2.lookup key := by
  have hkeys : key ∈ (env1.keys ++ env2.keys).dedup ↔ key ∈ env1 ∨ key ∈ env2 := by
    rw [List.mem_dedup, List.mem_append, AList.mem_keys, AList.mem_keys]
  rw [hkeys, ← AList.lookup_isSome, ← AList.lookup_isSome]
  unfold envEntry
  -- A text is never what is inherited.
  cases env1.lookup key with
  | none =>
    cases env2.lookup key with
    | none => simp
    | some s => by_cases hname : key ∈ objectPrototypeNames <;> simp [hname]
  | some s =>
    cases env2.lookup key with
    | none => by_cases hname : key ∈ objectPrototypeNames <;> simp [hname]
    | some s' => simp

section Spec

variable (stringify : JsValue → String) (a b : TaskValue)

def TaskValue.env (t : TaskValue) : HashMap String String := t.environment.or ∅

def TaskValue.retention (t : TaskValue) : JsValue :=
  .object (t.executionPolicy.logRetention.or systemDefault)

def TaskValue.normTriggers (t : TaskValue) : JsValue := .array (t.triggers.map normalizeTrigger)

def TaskValue.normActions (t : TaskValue) : JsValue := .array (t.actions.map normalizeAction)

/-- The fields in which two tasks differ. -/
inductive FieldDiffers : String → Prop
  | description (h : a.description.or "" ≠ b.description.or "") : FieldDiffers "basic.description"
  | enabled (h : a.enabled ≠ b.enabled) : FieldDiffers "basic.enabled"
  | workingDirectory (h : a.workingDirectory.or "" ≠ b.workingDirectory.or "") :
    FieldDiffers "basic.working_directory"
  | concurrencyPolicy
    (h : a.executionPolicy.concurrencyPolicy ≠ b.executionPolicy.concurrencyPolicy) :
    FieldDiffers "policy.concurrency_policy"
  | missedRunPolicy (h : a.executionPolicy.missedRunPolicy ≠ b.executionPolicy.missedRunPolicy) :
    FieldDiffers "policy.missed_run_policy"
  | timeoutSecs (h : a.executionPolicy.timeoutSecs ≠ b.executionPolicy.timeoutSecs) :
    FieldDiffers "policy.timeout_secs"
  | maxRetries
    (h : a.executionPolicy.retryPolicy.maxRetries ≠ b.executionPolicy.retryPolicy.maxRetries) :
    FieldDiffers "policy.retry_max_retries"
  | delaySecs
    (h : a.executionPolicy.retryPolicy.delaySecs ≠ b.executionPolicy.retryPolicy.delaySecs) :
    FieldDiffers "policy.retry_delay_secs"
  | notification
    (h : a.executionPolicy.notification.or .None ≠ b.executionPolicy.notification.or .None) :
    FieldDiffers "policy.notification"
  | logRetention (h : stringify a.retention ≠ stringify b.retention) :
    FieldDiffers "policy.log_retention"
  | triggers (h : stringify a.normTriggers ≠ stringify b.normTriggers) : FieldDiffers "triggers"
  | actions (h : stringify a.normActions ≠ stringify b.normActions) : FieldDiffers "actions"
  | env {key : String} (h : a.env.lookup key ≠ b.env.lookup key) : FieldDiffers ("env." ++ key)

variable {stringify a b}

theorem FieldDiffers.symm {f : String} (h : FieldDiffers stringify a b f) :
    FieldDiffers stringify b a f := by
  cases h with
  | description h => exact .description h.symm
  | enabled h => exact .enabled h.symm
  | workingDirectory h => exact .workingDirectory h.symm
  | concurrencyPolicy h => exact .concurrencyPolicy h.symm
  | missedRunPolicy h => exact .missedRunPolicy h.symm
  | timeoutSecs h => exact .timeoutSecs h.symm
  | maxRetries h => exact .maxRetries h.symm
  | delaySecs h => exact .delaySecs h.symm
  | notification h => exact .notification h.symm
  | logRetention h => exact .logRetention h.symm
  | triggers h => exact .triggers h.symm
  | actions h => exact .actions h.symm
  | env h => exact .env h.symm

variable (stringify a b)

theorem mem_addBasic_iff (f : String) : f ∈ addBasic a b ∅ ↔
    FieldDiffers stringify a b f ∧ sectionOf f = some .basic := by
  simp only [addBasic, mem_addIf, bne_iff_ne, Finset.notMem_empty, or_false]
  constructor
  · rintro (⟨h, rfl⟩ | ⟨h, rfl⟩ | ⟨h, rfl⟩)
    · exact ⟨.workingDirectory h, by simp⟩
    · exact ⟨.enabled h, by simp⟩
    · exact ⟨.description h, by simp⟩
  · rintro ⟨hdiffers, hsection⟩
    cases hdiffers with
    | description h => simp [h]
    | enabled h => simp [h]
    | workingDirectory h => simp [h]
    | env h => simp at hsection
    | _ => simp at hsection

theorem mem_addPolicy_iff (f : String) (diffFields : Finset String) :
    f ∈ addPolicy stringify a.executionPolicy b.executionPolicy diffFields ↔
      (FieldDiffers stringify a b f ∧ sectionOf f = some .policy) ∨ f ∈ diffFields := by
  simp only [addPolicy, mem_addIf, bne_iff_ne]
  constructor
  · rintro (⟨h, rfl⟩ | ⟨h, rfl⟩ | ⟨h, rfl⟩ | ⟨h, rfl⟩ | ⟨h, rfl⟩ | ⟨h, rfl⟩ | ⟨h, rfl⟩ | h)
    · exact .inl ⟨.logRetention h, by simp⟩
    · exact .inl ⟨.notification h, by simp⟩
    · exact .inl ⟨.delaySecs h, by simp⟩
    · exact .inl ⟨.maxRetries h, by simp⟩
    · exact .inl ⟨.timeoutSecs h, by simp⟩
    · exact .inl ⟨.missedRunPolicy h, by simp⟩
    · exact .inl ⟨.concurrencyPolicy h, by simp⟩
    · exact .inr h
  · rintro (⟨hdiffers, hsection⟩ | h)
    · cases hdiffers with
      | concurrencyPolicy h => simp [h]
      | missedRunPolicy h => simp [h]
      | timeoutSecs h => simp [h]
      | maxRetries h => simp [h]
      | delaySecs h => simp [h]
      | notification h => simp [h]
      | logRetention h => exact .inl ⟨h, rfl⟩
      | env h => simp at hsection
      | _ => simp at hsection
    · simp [h]

theorem mem_addEnv_iff (f : String) (diffFields : Finset String) :
    f ∈ (addEnv a.env b.env (a.env.keys ++ b.env.keys).dedup diffFields).1 ↔
      (∃ key, a.env.lookup key ≠ b.env.lookup key ∧ f = "env." ++ key) ∨ f ∈ diffFields := by
  rw [(addEnv_spec _ _ _ _).1, or_comm]
  simp only [← envEntry_ne_iff, and_assoc]

theorem addEnv_envDiff_iff (diffFields : Finset String) :
    (addEnv a.env b.env (a.env.keys ++ b.env.keys).dedup diffFields).2 = true ↔
      ∃ key, a.env.lookup key ≠ b.env.lookup key := by
  rw [(addEnv_spec _ _ _ _).2]
  simp only [← envEntry_ne_iff]

theorem mem_diffFields_iff (f : String) :
    f ∈ (compareTasks stringify a b).diffFields ↔ FieldDiffers stringify a b f := by
  have hfields : f ∈ (compareTasks stringify a b).diffFields ↔
      (∃ key, a.env.lookup key ≠ b.env.lookup key ∧ f = "env." ++ key) ∨
      (stringify a.normActions ≠ stringify b.normActions ∧ f = "actions") ∨
      (stringify a.normTriggers ≠ stringify b.normTriggers ∧ f = "triggers") ∨
      (FieldDiffers stringify a b f ∧ sectionOf f = some .policy) ∨
      (FieldDiffers stringify a b f ∧ sectionOf f = some .basic) := by
    show f ∈ (addEnv a.env b.env (a.env.keys ++ b.env.keys).dedup _).1 ↔ _
    rw [mem_addEnv_iff, mem_addIf, mem_addIf, mem_addPolicy_iff, mem_addBasic_iff stringify,
      bne_iff_ne, bne_iff_ne]
    rfl
  rw [hfields]
  constructor
  · rintro (⟨key, h, rfl⟩ | ⟨h, rfl⟩ | ⟨h, rfl⟩ | h | h)
    · exact .env h
    · exact .actions h
    · exact .triggers h
    · exact h.1
    · exact h.1
  · intro h
    cases h with
    | env h => exact .inl ⟨_, h, rfl⟩
    | actions h => exact .inr (.inl ⟨h, rfl⟩)
    | triggers h => exact .inr (.inr (.inl ⟨h, rfl⟩))
    | description h => exact .inr (.inr (.inr (.inr ⟨.description h, rfl⟩)))
    | enabled h => exact .inr (.inr (.inr (.inr ⟨.enabled h, rfl⟩)))
    | workingDirectory h => exact .inr (.inr (.inr (.inr ⟨.workingDirectory h, rfl⟩)))
    | concurrencyPolicy h => exact .inr (.inr (.inr (.inl ⟨.concurrencyPolicy h, by simp⟩)))
    | missedRunPolicy h => exact .inr (.inr (.inr (.inl ⟨.missedRunPolicy h, by simp⟩)))
    | timeoutSecs h => exact .inr (.inr (.inr (.inl ⟨.timeoutSecs h, by simp⟩)))
    | maxRetries h => exact .inr (.inr (.inr (.inl ⟨.maxRetries h, by simp⟩)))
    | delaySecs h => exact .inr (.inr (.inr (.inl ⟨.delaySecs h, by simp⟩)))
    | notification h => exact .inr (.inr (.inr (.inl ⟨.notification h, by simp⟩)))
    | logRetention h => exact .inr (.inr (.inr (.inl ⟨.logRetention h, by simp⟩)))

/-! ## The flags -/

variable {stringify a b}

theorem FieldDiffers.eq_of_basic {f : String} (h : FieldDiffers stringify a b f)
    (hsection : sectionOf f = some .basic) :
    f = "basic.description" ∨ f = "basic.enabled" ∨ f = "basic.working_directory" := by
  cases h with
  | description => exact .inl rfl
  | enabled => exact .inr (.inl rfl)
  | workingDirectory => exact .inr (.inr rfl)
  | env => simp at hsection
  | _ => simp at hsection

theorem FieldDiffers.eq_of_policy {f : String} (h : FieldDiffers stringify a b f)
    (hsection : sectionOf f = some .policy) :
    f = "policy.concurrency_policy" ∨ f = "policy.missed_run_policy" ∨
      f = "policy.timeout_secs" ∨ f = "policy.retry_max_retries" ∨
      f = "policy.retry_delay_secs" ∨ f = "policy.notification" ∨ f = "policy.log_retention" := by
  cases h with
  | env => simp at hsection
  | description | enabled | workingDirectory | triggers | actions => simp at hsection
  | _ => simp

variable (stringify a b)

theorem basicDiff_iff : (compareTasks stringify a b).basicDiff = true ↔
    ∃ f, FieldDiffers stringify a b f ∧ sectionOf f = some .basic := by
  have hflag : (compareTasks stringify a b).basicDiff = true ↔
      "basic.description" ∈ addBasic a b ∅ ∨ "basic.enabled" ∈ addBasic a b ∅ ∨
        "basic.working_directory" ∈ addBasic a b ∅ := by
    simp only [compareTasks, Bool.or_eq_true, decide_eq_true_eq, or_assoc]
  rw [hflag]
  simp only [mem_addBasic_iff stringify]
  constructor
  · rintro (h | h | h)
    · exact ⟨_, h⟩
    · exact ⟨_, h⟩
    · exact ⟨_, h⟩
  · rintro ⟨f, hdiffers, hsection⟩
    rcases hdiffers.eq_of_basic hsection with rfl | rfl | rfl
    · exact .inl ⟨hdiffers, hsection⟩
    · exact .inr (.inl ⟨hdiffers, hsection⟩)
    · exact .inr (.inr ⟨hdiffers, hsection⟩)

theorem policyDiff_iff : (compareTasks stringify a b).policyDiff = true ↔
    ∃ f, FieldDiffers stringify a b f ∧ sectionOf f = some .policy := by
  have hmem : ∀ f, sectionOf f = some .policy →
      (f ∈ addPolicy stringify a.executionPolicy b.executionPolicy (addBasic a b ∅) ↔
        FieldDiffers stringify a b f) := by
    intro f hsection
    rw [mem_addPolicy_iff, mem_addBasic_iff stringify, hsection]
    simp
  have hflag : (compareTasks stringify a b).policyDiff = true ↔
      FieldDiffers stringify a b "policy.concurrency_policy" ∨
      FieldDiffers stringify a b "policy.missed_run_policy" ∨
      FieldDiffers stringify a b "policy.timeout_secs" ∨
      FieldDiffers stringify a b "policy.retry_max_retries" ∨
      FieldDiffers stringify a b "policy.retry_delay_secs" ∨
      FieldDiffers stringify a b "policy.notification" ∨
      FieldDiffers stringify a b "policy.log_retention" := by
    simp only [compareTasks, Bool.or_eq_true, decide_eq_true_eq, or_assoc]
    simp only [hmem, sectionOf_policy]
  rw [hflag]
  constructor
  · rintro (h | h | h | h | h | h | h) <;> exact ⟨_, h, by simp⟩
  · rintro ⟨f, hdiffers, hsection⟩
    rcases hdiffers.eq_of_policy hsection with rfl | rfl | rfl | rfl | rfl | rfl | rfl <;>
      simp [hdiffers]

/-- The flag of a section is set if and only if one of its fields differs. -/
theorem diff_iff (s : Section) : (compareTasks stringify a b).diff s = true ↔
    ∃ f ∈ (compareTasks stringify a b).diffFields, sectionOf f = some s := by
  simp only [mem_diffFields_iff]
  cases s with
  | basic => exact basicDiff_iff stringify a b
  | policy => exact policyDiff_iff stringify a b
  | triggers =>
    have hflag : (compareTasks stringify a b).triggersDiff = true ↔
        stringify a.normTriggers ≠ stringify b.normTriggers := bne_iff_ne
    rw [TaskDiffResult.diff, hflag]
    constructor
    · exact fun h => ⟨_, .triggers h, by simp⟩
    · rintro ⟨f, hdiffers, hsection⟩
      cases hdiffers with
      | triggers h => exact h
      | env => simp at hsection
      | _ => simp at hsection
  | actions =>
    have hflag : (compareTasks stringify a b).actionsDiff = true ↔
        stringify a.normActions ≠ stringify b.normActions := bne_iff_ne
    rw [TaskDiffResult.diff, hflag]
    constructor
    · exact fun h => ⟨_, .actions h, by simp⟩
    · rintro ⟨f, hdiffers, hsection⟩
      cases hdiffers with
      | actions h => exact h
      | env => simp at hsection
      | _ => simp at hsection
  | env =>
    have hflag : (compareTasks stringify a b).envDiff = true ↔
        ∃ key, a.env.lookup key ≠ b.env.lookup key := addEnv_envDiff_iff a b _
    rw [TaskDiffResult.diff, hflag]
    constructor
    · exact fun ⟨key, h⟩ => ⟨_, .env h, sectionOf_env key⟩
    · rintro ⟨f, hdiffers, hsection⟩
      cases hdiffers with
      | env h => exact ⟨_, h⟩
      | _ => simp at hsection

theorem hasDiff_iff_diff : (compareTasks stringify a b).hasDiff = true ↔
    ∃ s, (compareTasks stringify a b).diff s = true := by
  have hflag : (compareTasks stringify a b).hasDiff =
      ((compareTasks stringify a b).diff .basic || (compareTasks stringify a b).diff .policy ||
        (compareTasks stringify a b).diff .triggers || (compareTasks stringify a b).diff .actions ||
        (compareTasks stringify a b).diff .env) := rfl
  rw [hflag]
  simp only [Bool.or_eq_true, or_assoc]
  constructor
  · rintro (h | h | h | h | h) <;> exact ⟨_, h⟩
  · rintro ⟨s, h⟩
    cases s <;> simp [h]

/-- Every field belongs to a section. -/
theorem hasDiff_iff : (compareTasks stringify a b).hasDiff = true ↔
    ∃ f, FieldDiffers stringify a b f := by
  rw [hasDiff_iff_diff]
  constructor
  · rintro ⟨s, hs⟩
    obtain ⟨f, hf, -⟩ := (diff_iff stringify a b s).mp hs
    exact ⟨f, (mem_diffFields_iff stringify a b f).mp hf⟩
  · rintro ⟨f, hf⟩
    have hsection : ∃ s, sectionOf f = some s := by
      cases hf with
      | env => exact ⟨_, sectionOf_env _⟩
      | _ => simp
    obtain ⟨s, hs⟩ := hsection
    exact ⟨s, (diff_iff stringify a b s).mpr ⟨f, (mem_diffFields_iff stringify a b f).mpr hf, hs⟩⟩

theorem compareTasks_comm : compareTasks stringify b a = compareTasks stringify a b := by
  have hfields :
      (compareTasks stringify b a).diffFields = (compareTasks stringify a b).diffFields := by
    ext f
    rw [mem_diffFields_iff, mem_diffFields_iff]
    exact ⟨.symm, .symm⟩
  have hdiff : ∀ s, (compareTasks stringify b a).diff s = (compareTasks stringify a b).diff s := by
    intro s
    rw [Bool.eq_iff_iff, diff_iff, diff_iff, hfields]
  have hhas : (compareTasks stringify b a).hasDiff = (compareTasks stringify a b).hasDiff := by
    rw [Bool.eq_iff_iff, hasDiff_iff_diff, hasDiff_iff_diff]
    simp only [hdiff]
  exact TaskDiffResult.ext hhas (hdiff .basic) (hdiff .policy) (hdiff .triggers) (hdiff .actions)
    (hdiff .env) hfields

end Spec

/-! ## Configurations -/

/-- The configuration of a task, with its defaults filled in. -/
@[ext] structure ComparedConfig where
  description : String
  enabled : Bool
  workingDirectory : String
  concurrencyPolicy : ConcurrencyPolicy
  missedRunPolicy : MissedRunPolicy
  timeoutSecs : Maybe ℚ
  maxRetries : ℚ
  delaySecs : ℚ
  notification : TaskNotificationPolicy
  logRetention : List (String × JsValue)
  triggers : List (Bool × JsValue)
  actions : List (Bool × ℚ × JsValue)
  environment : String → Option String

def TaskValue.comparedConfig (t : TaskValue) : ComparedConfig where
  description := t.description.or ""
  enabled := t.enabled
  workingDirectory := t.workingDirectory.or ""
  concurrencyPolicy := t.executionPolicy.concurrencyPolicy
  missedRunPolicy := t.executionPolicy.missedRunPolicy
  timeoutSecs := t.executionPolicy.timeoutSecs
  maxRetries := t.executionPolicy.retryPolicy.maxRetries
  delaySecs := t.executionPolicy.retryPolicy.delaySecs
  notification := t.executionPolicy.notification.or .None
  logRetention := t.executionPolicy.logRetention.or systemDefault
  triggers := t.triggers.map fun tr => (tr.enabled, tr.kind)
  actions := t.actions.map fun act => (act.enabled, act.sequence, act.kind)
  environment := fun key => (t.environment.or ∅).lookup key

/-- `JSON.stringify` is injective on the values of two tasks that are compared through it. -/
structure StringifyInjective (stringify : JsValue → String) (a b : TaskValue) : Prop where
  logRetention : stringify a.retention = stringify b.retention → a.retention = b.retention
  triggers : stringify a.normTriggers = stringify b.normTriggers → a.normTriggers = b.normTriggers
  actions : stringify a.normActions = stringify b.normActions → a.normActions = b.normActions

theorem normTriggers_eq_iff (a b : TaskValue) :
    a.normTriggers = b.normTriggers ↔ a.comparedConfig.triggers = b.comparedConfig.triggers := by
  have hnorm : ∀ t : TaskValue, t.normTriggers = .array (t.comparedConfig.triggers.map
      fun (enabled, kind) => .object [("enabled", .bool enabled), ("kind", kind)]) := by
    intro t
    simp [TaskValue.normTriggers, TaskValue.comparedConfig, normalizeTrigger, Function.comp_def]
  have hinj : Function.Injective fun ((enabled, kind) : Bool × JsValue) =>
      JsValue.object [("enabled", .bool enabled), ("kind", kind)] := by
    rintro ⟨enabled, kind⟩ ⟨enabled', kind'⟩ h
    simpa using h
  rw [hnorm, hnorm, JsValue.array.injEq, hinj.list_map.eq_iff]

theorem normActions_eq_iff (a b : TaskValue) :
    a.normActions = b.normActions ↔ a.comparedConfig.actions = b.comparedConfig.actions := by
  have hnorm : ∀ t : TaskValue, t.normActions = .array (t.comparedConfig.actions.map
      fun (enabled, sequence, kind) => .object
        [("enabled", .bool enabled), ("sequence", .number sequence), ("kind", kind)]) := by
    intro t
    simp [TaskValue.normActions, TaskValue.comparedConfig, normalizeAction, Function.comp_def]
  have hinj : Function.Injective fun ((enabled, sequence, kind) : Bool × ℚ × JsValue) =>
      JsValue.object
        [("enabled", .bool enabled), ("sequence", .number sequence), ("kind", kind)] := by
    rintro ⟨enabled, sequence, kind⟩ ⟨enabled', sequence', kind'⟩ h
    simpa using h
  rw [hnorm, hnorm, JsValue.array.injEq, hinj.list_map.eq_iff]

/-- Where a field differs, the configurations do. -/
theorem FieldDiffers.config_ne {stringify : JsValue → String} {a b : TaskValue} {f : String}
    (hf : FieldDiffers stringify a b f) : a.comparedConfig ≠ b.comparedConfig := by
  intro h
  cases hf with
  | description hne => exact hne (congrArg ComparedConfig.description h)
  | enabled hne => exact hne (congrArg ComparedConfig.enabled h)
  | workingDirectory hne => exact hne (congrArg ComparedConfig.workingDirectory h)
  | concurrencyPolicy hne => exact hne (congrArg ComparedConfig.concurrencyPolicy h)
  | missedRunPolicy hne => exact hne (congrArg ComparedConfig.missedRunPolicy h)
  | timeoutSecs hne => exact hne (congrArg ComparedConfig.timeoutSecs h)
  | maxRetries hne => exact hne (congrArg ComparedConfig.maxRetries h)
  | delaySecs hne => exact hne (congrArg ComparedConfig.delaySecs h)
  | notification hne => exact hne (congrArg ComparedConfig.notification h)
  | logRetention hne =>
    have hsame : a.retention = b.retention :=
      congrArg JsValue.object (congrArg ComparedConfig.logRetention h)
    exact hne (congrArg stringify hsame)
  | triggers hne =>
    exact hne (congrArg stringify
      ((normTriggers_eq_iff a b).mpr (congrArg ComparedConfig.triggers h)))
  | actions hne =>
    exact hne (congrArg stringify
      ((normActions_eq_iff a b).mpr (congrArg ComparedConfig.actions h)))
  | env hne => exact hne (congrFun (congrArg ComparedConfig.environment h) _)

theorem hasDiff_eq_false_of_config_eq {stringify : JsValue → String} {a b : TaskValue}
    (h : a.comparedConfig = b.comparedConfig) : (compareTasks stringify a b).hasDiff = false := by
  rw [← Bool.not_eq_true, hasDiff_iff]
  exact fun ⟨_, hf⟩ => hf.config_ne h

/-- No field differs if and only if the configurations are the same. -/
theorem comparedConfig_eq_iff {stringify : JsValue → String} {a b : TaskValue}
    (hinj : StringifyInjective stringify a b) :
    a.comparedConfig = b.comparedConfig ↔ ¬∃ f, FieldDiffers stringify a b f := by
  constructor
  · exact fun h ⟨_, hf⟩ => hf.config_ne h
  · intro h
    have hsame : ∀ {f : String} {P : Prop}, (¬P → FieldDiffers stringify a b f) → P :=
      fun hP => by_contra fun hne => h ⟨_, hP hne⟩
    apply ComparedConfig.ext
    · exact hsame .description
    · exact hsame .enabled
    · exact hsame .workingDirectory
    · exact hsame .concurrencyPolicy
    · exact hsame .missedRunPolicy
    · exact hsame .timeoutSecs
    · exact hsame .maxRetries
    · exact hsame .delaySecs
    · exact hsame .notification
    · exact JsValue.object.inj (hinj.logRetention (hsame .logRetention))
    · exact (normTriggers_eq_iff a b).mp (hinj.triggers (hsame .triggers))
    · exact (normActions_eq_iff a b).mp (hinj.actions (hsame .actions))
    · funext key
      exact hsame .env

/-- Is the comparison right? Nothing differs if and only if the configurations are the same; the
    flag of a section is set if and only if one of its fields differs; the variables that differ
    are those whose values differ or that one side lacks; and the order of the tasks does not
    matter. -/
theorem compareTasks_spec {stringify : JsValue → String} {a b : TaskValue}
    (hinj : StringifyInjective stringify a b) :
    ((compareTasks stringify a b).hasDiff = false ↔ a.comparedConfig = b.comparedConfig) ∧
    (∀ s, (compareTasks stringify a b).diff s = true ↔
      ∃ f ∈ (compareTasks stringify a b).diffFields, sectionOf f = some s) ∧
    (∀ key, "env." ++ key ∈ (compareTasks stringify a b).diffFields ↔
      a.comparedConfig.environment key ≠ b.comparedConfig.environment key) ∧
    compareTasks stringify b a = compareTasks stringify a b := by
  refine ⟨?_, diff_iff stringify a b, ?_, compareTasks_comm stringify a b⟩
  · rw [comparedConfig_eq_iff hinj, ← hasDiff_iff, Bool.not_eq_true]
  · intro key
    rw [mem_diffFields_iff]
    constructor
    · intro h
      generalize hf : "env." ++ key = f at h
      cases h with
      | env h =>
        obtain rfl : key = _ := by simpa using hf
        exact h
      | _ => exact absurd (congrArg sectionOf hf) (by rw [sectionOf_env]; decide)
    · exact .env

/-! ## Two tasks -/

mutual

/-- A value whose numbers are integers, as `JSON.stringify` writes it. -/
def JsValue.toJson : JsValue → Json
  | .null => .null
  | .bool b => .bool b
  | .number n => .num (toString n.num)
  | .string text => .str text
  | .array elems => .arr (JsValue.toJsons elems)
  | .object members => .obj (JsValue.toMembers members)

def JsValue.toJsons : List JsValue → List Json
  | [] => []
  | v :: vs => v.toJson :: JsValue.toJsons vs

def JsValue.toMembers : List (String × JsValue) → List (String × Json)
  | [] => []
  | (name, v) :: members => (name, v.toJson) :: JsValue.toMembers members

end

def stringifyIntegers (v : JsValue) : String := String.ofList v.toJson.render

/-- A task as the agent sends it. -/
def existingTask : TaskValue where
  id := "1"
  name := "backup"
  description := .null
  enabled := true
  triggers := [⟨"2", "1", true, .string "AgentStarted", "", ""⟩]
  actions := [⟨"3", "1", 1, true, .object [("ExecuteShell", .object [("command", .string "x")])]⟩]
  executionPolicy :=
    ⟨.SkipIfRunning, .RunOnce, ⟨0, 0⟩, .value 3600, .value .None, .value systemDefault⟩
  workingDirectory := .null
  environment := .value (AList.singleton "LANG" "C")
  version := 1
  createdAt := ""
  updatedAt := ""

/-- The same in an older file, with another variable and another number of the action. -/
def olderTask : TaskValue :=
  { existingTask with
    description := .value ""
    actions := [⟨"3", "1", 2, true, .object [("ExecuteShell", .object [("command", .string "x")])]⟩]
    executionPolicy := { existingTask.executionPolicy with
      notification := .undefined
      logRetention := .undefined }
    environment := .value (AList.singleton "constructor" "C") }

theorem compareTasks_spec_older :
    ((compareTasks stringifyIntegers existingTask olderTask).hasDiff = false ↔
      existingTask.comparedConfig = olderTask.comparedConfig) ∧
    (∀ s, (compareTasks stringifyIntegers existingTask olderTask).diff s = true ↔
      ∃ f ∈ (compareTasks stringifyIntegers existingTask olderTask).diffFields,
        sectionOf f = some s) ∧
    (∀ key, "env." ++ key ∈ (compareTasks stringifyIntegers existingTask olderTask).diffFields ↔
      existingTask.comparedConfig.environment key ≠ olderTask.comparedConfig.environment key) ∧
    compareTasks stringifyIntegers olderTask existingTask =
      compareTasks stringifyIntegers existingTask olderTask :=
  compareTasks_spec ⟨fun _ => rfl, fun _ => rfl, fun h => absurd h (by decide +kernel)⟩

example : (compareTasks stringifyIntegers existingTask olderTask).diffFields =
    {"actions", "env.LANG", "env.constructor"} := by decide +kernel

end EasyJob.Frontend
