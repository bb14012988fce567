import EasyJob.Frontend.TaskDiff
import EasyJob.Lib.ObjectStore
import EasyJob.Lib.Transition

/-!
# Merging two tasks by sections

Model of `components/task/TaskMergeModal.vue` (lines 23–115): the merged task starts as a copy of
the imported one, its sections are taken from either side, and the user edits it in place.

Tasks are objects of the page. An object of a store stands for all that lies below it: a list of
triggers with its triggers and their kinds, which `JSON.parse` makes anew as a whole.

* `setSection_keeps`: a new content for a section of one task leaves every other task alone.
* `Separate.step`: the merged task shares no object with the two sides.
* `taskMerge_iff`: when every section is that of the side it was last taken from.
-/

namespace EasyJob.Frontend

open EasyJob.Domain Transition

/-! ## Tasks as objects -/

/-- A task, with the references of the objects in it. -/
structure TaskObject where
  id : String
  name : String
  description : Maybe String
  enabled : Bool
  triggers : ℕ
  actions : ℕ
  executionPolicy : ℕ
  workingDirectory : Maybe String
  environment : Maybe ℕ
  version : ℚ
  createdAt : String
  updatedAt : String

/-- The objects of the page. -/
structure Objects where
  tasks : Store TaskObject
  triggers : Store (List TriggerValue)
  actions : Store (List ActionValue)
  policies : Store PolicyValue
  environments : Store (HashMap String String)

def Maybe.map {α β : Type} (f : α → β) : Maybe α → Maybe β
  | .undefined => .undefined
  | .null => .null
  | .value a => .value (f a)

/-- The task under a reference. -/
def Objects.task (p : Objects) (r : ℕ) : TaskValue :=
  let obj := p.tasks.content r
  { id := obj.id
    name := obj.name
    description := obj.description
    enabled := obj.enabled
    triggers := p.triggers.content obj.triggers
    actions := p.actions.content obj.actions
    executionPolicy := p.policies.content obj.executionPolicy
    workingDirectory := obj.workingDirectory
    environment := obj.environment.map p.environments.content
    version := obj.version
    createdAt := obj.createdAt
    updatedAt := obj.updatedAt }

/-- `JSON.parse` of the text of a task: all of its objects are new. -/
def Objects.parse (p : Objects) (t : TaskValue) : Objects × ℕ :=
  let (triggers, triggersRef) := p.triggers.alloc t.triggers
  let (actions, actionsRef) := p.actions.alloc t.actions
  let (policies, policyRef) := p.policies.alloc t.executionPolicy
  let (environments, environment) := match t.environment with
    | .value env =>
      let (environments, ref) := p.environments.alloc env
      (environments, Maybe.value ref)
    | .null => (p.environments, .null)
    | .undefined => (p.environments, .undefined)
  let (tasks, ref) := p.tasks.alloc
    { id := t.id
      name := t.name
      description := t.description
      enabled := t.enabled
      triggers := triggersRef
      actions := actionsRef
      executionPolicy := policyRef
      workingDirectory := t.workingDirectory
      environment := environment
      version := t.version
      createdAt := t.createdAt
      updatedAt := t.updatedAt }
  (⟨tasks, triggers, actions, policies, environments⟩, ref)

/-- A member of a task is assigned. -/
def Objects.assign (p : Objects) (r : ℕ) (f : TaskObject → TaskObject) : Objects :=
  { p with tasks := p.tasks.set r (f (p.tasks.content r)) }

/-! ## The merge -/

/-- `if (!policy.log_retention) policy.log_retention = { mode: 'SystemDefault' }`. -/
def PolicyValue.fillLogRetention (p : PolicyValue) : PolicyValue :=
  { p with logRetention := .value (p.logRetention.or systemDefault) }

def Objects.fillLogRetention (p : Objects) (r : ℕ) : Objects :=
  let ref := (p.tasks.content r).executionPolicy
  { p with policies := p.policies.set ref (p.policies.content ref).fillLogRetention }

/-- The page with its three tasks. -/
structure Modal where
  page : Objects
  existingTask : ℕ
  importedTask : ℕ
  mergedTask : ℕ

/-- The body of `copyExistingSection` and `restoreImportedSection` (lines 56–72 and 81–97), with
    the reference of `src`. -/
def Modal.takeSection (m : Modal) (src : ℕ) : Section → Modal
  | .basic =>
    let obj := m.page.tasks.content src
    { m with page := m.page.assign m.mergedTask fun dst =>
        { dst with
          description := obj.description
          enabled := obj.enabled
          workingDirectory := obj.workingDirectory } }
  | .policy =>
    let (policies, ref) := m.page.policies.alloc (m.page.task src).executionPolicy
    let page := { m.page with policies := policies }.assign m.mergedTask fun dst =>
      { dst with executionPolicy := ref }
    { m with page := page.fillLogRetention m.mergedTask }
  | .triggers =>
    let (triggers, ref) := m.page.triggers.alloc (m.page.task src).triggers
    { m with page := { m.page with triggers := triggers }.assign m.mergedTask fun dst =>
        { dst with triggers := ref } }
  | .actions =>
    let (actions, ref) := m.page.actions.alloc (m.page.task src).actions
    { m with page := { m.page with actions := actions }.assign m.mergedTask fun dst =>
        { dst with actions := ref } }
  | .env =>
    let (environments, ref) := m.page.environments.alloc ((m.page.task src).environment.or ∅)
    { m with page := { m.page with environments := environments }.assign m.mergedTask fun dst =>
        { dst with environment := .value ref } }

/-- Model of `copyExistingSection` (lines 52–74). -/
def Modal.copyExistingSection (m : Modal) (s : Section) : Modal := m.takeSection m.existingTask s

/-- Model of `restoreImportedSection` (lines 77–99). -/
def Modal.restoreImportedSection (m : Modal) (s : Section) : Modal :=
  m.takeSection m.importedTask s

/-- A copy of the whole task becomes the merged one (lines 27–30, 103–106 and 111–114). -/
def Modal.takeAll (m : Modal) (src : ℕ) : Modal :=
  let (page, ref) := m.page.parse (m.page.task src)
  { m with page := page.fillLogRetention ref, mergedTask := ref }

/-- Model of `handleAdoptAllExisting` (lines 101–107). -/
def Modal.handleAdoptAllExisting (m : Modal) : Modal := m.takeAll m.existingTask

/-- Model of `handleRestoreAllImported` (lines 109–115). -/
def Modal.handleRestoreAllImported (m : Modal) : Modal := m.takeAll m.importedTask

/-- A section of the task `dst` becomes that of `v`: the members of its object are assigned in
    place, or a new object is. -/
def Objects.setSection (p : Objects) (dst : ℕ) (fresh : Bool) (v : TaskValue) : Section → Objects
  | .basic => p.assign dst fun obj =>
      { obj with
        description := v.description
        enabled := v.enabled
        workingDirectory := v.workingDirectory }
  | .policy =>
    let (policies, ref) :=
      p.policies.put fresh (p.tasks.content dst).executionPolicy v.executionPolicy
    { p with policies := policies }.assign dst fun obj => { obj with executionPolicy := ref }
  | .triggers =>
    let (triggers, ref) := p.triggers.put fresh (p.tasks.content dst).triggers v.triggers
    { p with triggers := triggers }.assign dst fun obj => { obj with triggers := ref }
  | .actions =>
    let (actions, ref) := p.actions.put fresh (p.tasks.content dst).actions v.actions
    { p with actions := actions }.assign dst fun obj => { obj with actions := ref }
  | .env =>
    let (environments, ref) := match (p.tasks.content dst).environment with
      | .value ref => p.environments.put fresh ref v.env
      | _ => p.environments.alloc v.env
    { p with environments := environments }.assign dst fun obj =>
      { obj with environment := .value ref }

/-- What happens in the modal. An edit gives a section of the merged task any content. -/
inductive MergeAction
  | copyExistingSection (s : Section)
  | restoreImportedSection (s : Section)
  | handleAdoptAllExisting
  | handleRestoreAllImported
  | edit (s : Section) (fresh : Bool) (v : TaskValue)

def Modal.act (m : Modal) : MergeAction → Modal
  | .copyExistingSection s => m.copyExistingSection s
  | .restoreImportedSection s => m.restoreImportedSection s
  | .handleAdoptAllExisting => m.handleAdoptAllExisting
  | .handleRestoreAllImported => m.handleRestoreAllImported
  | .edit s fresh v => { m with page := m.page.setSection m.mergedTask fresh v s }

/-- The objects of the task `r` exist. -/
structure Objects.Has (p : Objects) (r : ℕ) : Prop where
  task : r < p.tasks.next
  triggers : (p.tasks.content r).triggers < p.triggers.next
  actions : (p.tasks.content r).actions < p.actions.next
  policy : (p.tasks.content r).executionPolicy < p.policies.next
  environment : ∀ ref, (p.tasks.content r).environment = .value ref → ref < p.environments.next

/-- What the modal is opened with. -/
structure Sources where
  page : Objects
  existingTask : ℕ
  importedTask : ℕ
  has_existing : page.Has existingTask
  has_imported : page.Has importedTask

/-- The modal after the `watch` of lines 23–34; the merged task is new. -/
def Sources.opened (src : Sources) : Modal :=
  Modal.takeAll ⟨src.page, src.existingTask, src.importedTask, src.importedTask⟩ src.importedTask

def mergeModal (src : Sources) : Machine Modal MergeAction Modal where
  init := src.opened
  step m a := some (m.act a, [])

/-! ## Taking and setting a section -/

/-- The task with the two defaults filled in. -/
def TaskValue.filled (t : TaskValue) : TaskValue :=
  { t with
    executionPolicy := t.executionPolicy.fillLogRetention
    environment := .value t.env }

/-- The content of one section is the same. -/
def SameSection (a b : TaskValue) : Section → Prop
  | .basic => a.description = b.description ∧ a.enabled = b.enabled ∧
      a.workingDirectory = b.workingDirectory
  | .policy => a.executionPolicy = b.executionPolicy
  | .triggers => a.triggers = b.triggers
  | .actions => a.actions = b.actions
  | .env => a.environment = b.environment

theorem takeSection_eq (m : Modal) (src : ℕ) (s : Section) : m.takeSection src s =
    { m with page := m.page.setSection m.mergedTask true (m.page.task src).filled s } := by
  cases s with
  | basic => rfl
  | policy =>
    simp [Modal.takeSection, Objects.setSection, Objects.fillLogRetention, Objects.assign,
      TaskValue.filled, Store.set, Store.alloc, Function.update_idem]
  | triggers => rfl
  | actions => rfl
  | env =>
    cases henv : (m.page.tasks.content m.mergedTask).environment with
    | value ref => simp [Modal.takeSection, Objects.setSection, henv]; rfl
    | null => simp [Modal.takeSection, Objects.setSection, henv]; rfl
    | undefined => simp [Modal.takeSection, Objects.setSection, henv]; rfl

theorem fillLogRetention_eq (p : Objects) (r : ℕ) :
    p.fillLogRetention r = p.setSection r false (p.task r).filled .policy := by
  simp [Objects.fillLogRetention, Objects.setSection, Objects.assign, TaskValue.filled,
    Objects.task, Store.set, Function.update_eq_self]

section SetSection

variable {p : Objects} {r dst : ℕ}

/-- The objects of the task `r` are the same in `p'`. -/
structure Objects.Keeps (p p' : Objects) (r : ℕ) : Prop where
  task : p'.tasks.content r = p.tasks.content r
  triggers : p'.triggers.content (p.tasks.content r).triggers =
    p.triggers.content (p.tasks.content r).triggers
  actions : p'.actions.content (p.tasks.content r).actions =
    p.actions.content (p.tasks.content r).actions
  policy : p'.policies.content (p.tasks.content r).executionPolicy =
    p.policies.content (p.tasks.content r).executionPolicy
  environment : ∀ ref, (p.tasks.content r).environment = .value ref →
    p'.environments.content ref = p.environments.content ref

theorem Objects.Keeps.task_eq {p' : Objects} (h : p.Keeps p' r) : p'.task r = p.task r := by
  have henv : (p.tasks.content r).environment.map p'.environments.content =
      (p.tasks.content r).environment.map p.environments.content := by
    cases hr : (p.tasks.content r).environment with
    | value ref => exact congrArg Maybe.value (h.environment ref hr)
    | null => rfl
    | undefined => rfl
  simp only [Objects.task, h.task, h.triggers, h.actions, h.policy, henv]

/-- The tasks `r` and `dst` share no object. -/
structure Objects.Apart (p : Objects) (r dst : ℕ) : Prop where
  task : r ≠ dst
  triggers : (p.tasks.content r).triggers ≠ (p.tasks.content dst).triggers
  actions : (p.tasks.content r).actions ≠ (p.tasks.content dst).actions
  policy : (p.tasks.content r).executionPolicy ≠ (p.tasks.content dst).executionPolicy
  environment : ∀ ref ref', (p.tasks.content r).environment = .value ref →
    (p.tasks.content dst).environment = .value ref' → ref ≠ ref'

theorem Objects.assign_content_self (f : TaskObject → TaskObject) :
    (p.assign dst f).tasks.content dst = f (p.tasks.content dst) :=
  Store.content_set_self _ _ _

theorem Objects.assign_content_of_ne (f : TaskObject → TaskObject) (h : r ≠ dst) :
    (p.assign dst f).tasks.content r = p.tasks.content r :=
  Store.content_set_of_ne _ _ h

/-- A new content for a section of one task leaves every other task alone. -/
theorem setSection_keeps (hr : p.Has r) (hapart : p.Apart r dst) (fresh : Bool) (v : TaskValue)
    (s : Section) : p.Keeps (p.setSection dst fresh v s) r := by
  cases s with
  | basic => exact ⟨Objects.assign_content_of_ne _ hapart.task, rfl, rfl, rfl, fun _ _ => rfl⟩
  | policy =>
    exact ⟨Objects.assign_content_of_ne _ hapart.task, rfl, rfl,
      Store.content_put_of_ne _ _ _ hr.policy hapart.policy, fun _ _ => rfl⟩
  | triggers =>
    exact ⟨Objects.assign_content_of_ne _ hapart.task,
      Store.content_put_of_ne _ _ _ hr.triggers hapart.triggers, rfl, rfl, fun _ _ => rfl⟩
  | actions =>
    exact ⟨Objects.assign_content_of_ne _ hapart.task, rfl,
      Store.content_put_of_ne _ _ _ hr.actions hapart.actions, rfl, fun _ _ => rfl⟩
  | env =>
    refine ⟨Objects.assign_content_of_ne _ hapart.task, rfl, rfl, rfl, ?_⟩
    intro ref href
    have hlt := hr.environment ref href
    simp only [Objects.setSection, Objects.assign]
    split
    · rename_i ref' href'
      exact Store.content_put_of_ne _ _ _ hlt (hapart.environment ref ref' href href')
    · exact Store.content_alloc_of_lt _ _ hlt

theorem setSection_content_of_ne (hne : r ≠ dst) (fresh : Bool) (v : TaskValue) (s : Section) :
    (p.setSection dst fresh v s).tasks.content r = p.tasks.content r := by
  cases s <;> exact Objects.assign_content_of_ne _ hne

/-- References that exist in `p` exist in `p'`. -/
structure Objects.Grows (p p' : Objects) : Prop where
  tasks : p.tasks.next ≤ p'.tasks.next
  triggers : p.triggers.next ≤ p'.triggers.next
  actions : p.actions.next ≤ p'.actions.next
  policies : p.policies.next ≤ p'.policies.next
  environments : p.environments.next ≤ p'.environments.next

theorem Objects.Has.of_grows {p' : Objects} (hr : p.Has r) (hgrows : p.Grows p')
    (hobj : p'.tasks.content r = p.tasks.content r) : p'.Has r where
  task := hr.task.trans_le hgrows.tasks
  triggers := hobj ▸ hr.triggers.trans_le hgrows.triggers
  actions := hobj ▸ hr.actions.trans_le hgrows.actions
  policy := hobj ▸ hr.policy.trans_le hgrows.policies
  environment ref href := (hr.environment ref (hobj ▸ href)).trans_le hgrows.environments

theorem setSection_grows (fresh : Bool) (v : TaskValue) (s : Section) :
    p.Grows (p.setSection dst fresh v s) := by
  cases s with
  | basic => exact ⟨le_rfl, le_rfl, le_rfl, le_rfl, le_rfl⟩
  | policy => exact ⟨le_rfl, le_rfl, le_rfl, Store.next_le_next_put _ _ _ _, le_rfl⟩
  | triggers => exact ⟨le_rfl, Store.next_le_next_put _ _ _ _, le_rfl, le_rfl, le_rfl⟩
  | actions => exact ⟨le_rfl, le_rfl, Store.next_le_next_put _ _ _ _, le_rfl, le_rfl⟩
  | env =>
    refine ⟨le_rfl, le_rfl, le_rfl, le_rfl, ?_⟩
    simp only [Objects.setSection, Objects.assign]
    split
    · exact Store.next_le_next_put _ _ _ _
    · exact Nat.le_succ _

theorem setSection_has (hdst : p.Has dst) (fresh : Bool) (v : TaskValue) (s : Section) :
    (p.setSection dst fresh v s).Has dst := by
  cases s with
  | basic =>
    constructor <;> simp only [Objects.setSection, Objects.assign_content_self]
    · exact hdst.task
    · exact hdst.triggers
    · exact hdst.actions
    · exact hdst.policy
    · exact hdst.environment
  | policy =>
    constructor <;> simp only [Objects.setSection, Objects.assign_content_self]
    · exact hdst.task
    · exact hdst.triggers
    · exact hdst.actions
    · exact Store.ref_put_lt _ _ _ fun _ => hdst.policy
    · exact hdst.environment
  | triggers =>
    constructor <;> simp only [Objects.setSection, Objects.assign_content_self]
    · exact hdst.task
    · exact Store.ref_put_lt _ _ _ fun _ => hdst.triggers
    · exact hdst.actions
    · exact hdst.policy
    · exact hdst.environment
  | actions =>
    constructor <;> simp only [Objects.setSection, Objects.assign_content_self]
    · exact hdst.task
    · exact hdst.triggers
    · exact Store.ref_put_lt _ _ _ fun _ => hdst.actions
    · exact hdst.policy
    · exact hdst.environment
  | env =>
    constructor <;> simp only [Objects.setSection, Objects.assign_content_self]
    · exact hdst.task
    · exact hdst.triggers
    · exact hdst.actions
    · exact hdst.policy
    · intro ref href
      obtain rfl := Maybe.value.inj href
      simp only [Objects.assign]
      split
      · rename_i ref' href'
        exact Store.ref_put_lt _ _ _ fun _ => hdst.environment ref' href'
      · exact Nat.lt_succ_self _

theorem setSection_apart (hr : p.Has r) (hapart : p.Apart r dst) (fresh : Bool) (v : TaskValue)
    (s : Section) : (p.setSection dst fresh v s).Apart r dst := by
  cases s with
  | basic =>
    refine ⟨hapart.task, ?_, ?_, ?_, ?_⟩ <;> rw [setSection_content_of_ne hapart.task] <;>
      simp only [Objects.setSection, Objects.assign_content_self]
    · exact hapart.triggers
    · exact hapart.actions
    · exact hapart.policy
    · exact hapart.environment
  | policy =>
    refine ⟨hapart.task, ?_, ?_, ?_, ?_⟩ <;> rw [setSection_content_of_ne hapart.task] <;>
      simp only [Objects.setSection, Objects.assign_content_self]
    · exact hapart.triggers
    · exact hapart.actions
    · exact Store.ref_put_ne _ _ _ hr.policy hapart.policy
    · exact hapart.environment
  | triggers =>
    refine ⟨hapart.task, ?_, ?_, ?_, ?_⟩ <;> rw [setSection_content_of_ne hapart.task] <;>
      simp only [Objects.setSection, Objects.assign_content_self]
    · exact Store.ref_put_ne _ _ _ hr.triggers hapart.triggers
    · exact hapart.actions
    · exact hapart.policy
    · exact hapart.environment
  | actions =>
    refine ⟨hapart.task, ?_, ?_, ?_, ?_⟩ <;> rw [setSection_content_of_ne hapart.task] <;>
      simp only [Objects.setSection, Objects.assign_content_self]
    · exact hapart.triggers
    · exact Store.ref_put_ne _ _ _ hr.actions hapart.actions
    · exact hapart.policy
    · exact hapart.environment
  | env =>
    refine ⟨hapart.task, ?_, ?_, ?_, ?_⟩ <;> rw [setSection_content_of_ne hapart.task] <;>
      simp only [Objects.setSection, Objects.assign_content_self]
    · exact hapart.triggers
    · exact hapart.actions
    · exact hapart.policy
    · intro ref ref' href href'
      obtain rfl := Maybe.value.inj href'
      have hlt := hr.environment ref href
      split
      · rename_i ref' href'
        exact Store.ref_put_ne _ _ _ hlt (hapart.environment ref ref' href href')
      · exact Nat.ne_of_lt hlt

/-- The section that was set. -/
theorem setSection_same (p : Objects) (dst : ℕ) (fresh : Bool) (v : TaskValue) (s : Section) :
    SameSection ((p.setSection dst fresh v s).task dst)
      { v with environment := .value v.env } s := by
  cases s with
  | basic => simp [SameSection, Objects.task, Objects.setSection, Objects.assign_content_self]
  | policy =>
    simp only [SameSection, Objects.task, Objects.setSection, Objects.assign_content_self]
    exact Store.content_put _ _ _ _
  | triggers =>
    simp only [SameSection, Objects.task, Objects.setSection, Objects.assign_content_self]
    exact Store.content_put _ _ _ _
  | actions =>
    simp only [SameSection, Objects.task, Objects.setSection, Objects.assign_content_self]
    exact Store.content_put _ _ _ _
  | env =>
    simp only [SameSection, Objects.task, Objects.setSection, Objects.assign_content_self,
      Maybe.map]
    refine congrArg Maybe.value ?_
    simp only [Objects.assign]
    split
    · exact Store.content_put _ _ _ _
    · exact Store.content_alloc_self _ _

/-- The other sections stay. -/
theorem setSection_other (p : Objects) (dst : ℕ) (fresh : Bool) (v : TaskValue) {s s' : Section}
    (hne : s' ≠ s) : SameSection ((p.setSection dst fresh v s).task dst) (p.task dst) s' := by
  cases s <;> cases s' <;> first
    | exact absurd rfl hne
    | simp [SameSection, Objects.task, Objects.setSection, Objects.assign]

end SetSection

/-! ## A copy of a whole task -/

theorem parse_task (p : Objects) (t : TaskValue) : (p.parse t).1.task (p.parse t).2 = t := by
  unfold Objects.parse Objects.task
  cases henv : t.environment <;> simp [Maybe.map, ← henv]

theorem parse_grows (p : Objects) (t : TaskValue) : p.Grows (p.parse t).1 := by
  unfold Objects.parse
  cases henv : t.environment <;> constructor <;> simp

theorem parse_has (p : Objects) (t : TaskValue) : (p.parse t).1.Has (p.parse t).2 := by
  unfold Objects.parse
  cases henv : t.environment <;> constructor <;> simp

section Parse

variable {p : Objects} {r : ℕ} (hr : p.Has r) (t : TaskValue)

include hr

theorem parse_content : (p.parse t).1.tasks.content r = p.tasks.content r :=
  Store.content_alloc_of_lt _ _ hr.task

theorem parse_keeps : p.Keeps (p.parse t).1 r where
  task := parse_content hr t
  triggers := Store.content_alloc_of_lt _ _ hr.triggers
  actions := Store.content_alloc_of_lt _ _ hr.actions
  policy := Store.content_alloc_of_lt _ _ hr.policy
  environment ref href := by
    have hlt := hr.environment ref href
    unfold Objects.parse
    cases t.environment with
    | value env => exact Store.content_alloc_of_lt _ _ hlt
    | null => rfl
    | undefined => rfl

theorem parse_apart : (p.parse t).1.Apart r (p.parse t).2 := by
  refine ⟨Nat.ne_of_lt hr.task, ?_, ?_, ?_, ?_⟩ <;> rw [parse_content hr t]
  · have hnew : ((p.parse t).1.tasks.content (p.parse t).2).triggers = p.triggers.next := by
      simp [Objects.parse]
    exact hnew ▸ Nat.ne_of_lt hr.triggers
  · have hnew : ((p.parse t).1.tasks.content (p.parse t).2).actions = p.actions.next := by
      simp [Objects.parse]
    exact hnew ▸ Nat.ne_of_lt hr.actions
  · have hnew : ((p.parse t).1.tasks.content (p.parse t).2).executionPolicy = p.policies.next := by
      simp [Objects.parse]
    exact hnew ▸ Nat.ne_of_lt hr.policy
  · intro ref ref' href href'
    have hnew : ref' = p.environments.next := by
      cases henv : t.environment <;> simp [Objects.parse, henv] at href'
      exact href'.symm
    exact hnew ▸ Nat.ne_of_lt (hr.environment ref href)

end Parse

/-! ## Runs of the modal -/

inductive Side
  | existing | imported
  deriving DecidableEq, Repr

def Sources.ref (src : Sources) : Side → ℕ
  | .existing => src.existingTask
  | .imported => src.importedTask

/-- The task of a side, as it was when the modal was opened. -/
def Sources.task (src : Sources) (side : Side) : TaskValue := src.page.task (src.ref side)

theorem Sources.has (src : Sources) (side : Side) : src.page.Has (src.ref side) := by
  cases side with
  | existing => exact src.has_existing
  | imported => exact src.has_imported

def Modal.ref (m : Modal) : Side → ℕ
  | .existing => m.existingTask
  | .imported => m.importedTask

def Modal.merged (m : Modal) : TaskValue := m.page.task m.mergedTask

/-- Where a section comes from: a side, by a copy of the whole task or of the section. -/
structure Taken where
  side : Side
  whole : Bool
  deriving DecidableEq, Repr

def takenAfter (taken : Section → Option Taken) : MergeAction → Section → Option Taken
  | .copyExistingSection s => Function.update taken s (some ⟨.existing, false⟩)
  | .restoreImportedSection s => Function.update taken s (some ⟨.imported, false⟩)
  | .handleAdoptAllExisting => fun _ => some ⟨.existing, true⟩
  | .handleRestoreAllImported => fun _ => some ⟨.imported, true⟩
  | .edit s _ _ => Function.update taken s none

/-- Where a section was last taken from, if it has not been edited since. -/
def lastTaken (acts : List MergeAction) : Section → Option Taken :=
  acts.foldl takenAfter fun _ => some ⟨.imported, true⟩

/-- What a section is taken from: a copy of the whole task lacks an environment that the side
    lacks. -/
def Taken.task (src : Sources) (k : Taken) : TaskValue :=
  if k.whole then
    { src.task k.side with executionPolicy := (src.task k.side).executionPolicy.fillLogRetention }
  else (src.task k.side).filled

/-- The two sides are what they were and share nothing with the merged task. -/
structure Separate (src : Sources) (m : Modal) : Prop where
  ref : ∀ side, m.ref side = src.ref side
  has : ∀ side, m.page.Has (src.ref side)
  merged : m.page.Has m.mergedTask
  apart : ∀ side, m.page.Apart (src.ref side) m.mergedTask
  task : ∀ side, m.page.task (src.ref side) = src.task side

/-- Every section that was taken is there. -/
def HasTaken (src : Sources) (taken : Section → Option Taken) (m : Modal) : Prop :=
  ∀ s k, taken s = some k → SameSection m.merged (k.task src) s

section Steps

variable {src : Sources} {m : Modal} {taken : Section → Option Taken}

theorem SameSection.trans {a b c : TaskValue} {s : Section} (h : SameSection a b s)
    (h' : SameSection b c s) : SameSection a c s := by
  cases s with
  | basic => exact ⟨h.1.trans h'.1, h.2.1.trans h'.2.1, h.2.2.trans h'.2.2⟩
  | _ => exact Eq.trans h h'

theorem Separate.setSection (h : Separate src m) (fresh : Bool) (v : TaskValue) (s : Section) :
    Separate src { m with page := m.page.setSection m.mergedTask fresh v s } where
  ref side := by
    cases side with
    | existing => exact h.ref .existing
    | imported => exact h.ref .imported
  has side := (h.has side).of_grows (setSection_grows fresh v s)
    (setSection_content_of_ne (h.apart side).task fresh v s)
  merged := setSection_has h.merged fresh v s
  apart side := setSection_apart (h.has side) (h.apart side) fresh v s
  task side := (setSection_keeps (h.has side) (h.apart side) fresh v s).task_eq.trans (h.task side)

theorem takeAll_eq (m : Modal) (from_ : ℕ) : m.takeAll from_ =
    { m with
      page := (m.page.parse (m.page.task from_)).1.setSection
        (m.page.parse (m.page.task from_)).2 false (m.page.task from_).filled .policy
      mergedTask := (m.page.parse (m.page.task from_)).2 } := by
  show ({ m with
      page := (m.page.parse (m.page.task from_)).1.fillLogRetention
        (m.page.parse (m.page.task from_)).2
      mergedTask := (m.page.parse (m.page.task from_)).2 } : Modal) = _
  rw [fillLogRetention_eq, parse_task]

/-- A copy of a whole task shares nothing with what was there. -/
theorem separate_takeAll (href : ∀ side, m.ref side = src.ref side)
    (hhas : ∀ side, m.page.Has (src.ref side))
    (htask : ∀ side, m.page.task (src.ref side) = src.task side) (from_ : ℕ) :
    Separate src (m.takeAll from_) := by
  have hparsed : Separate src { m with
      page := (m.page.parse (m.page.task from_)).1
      mergedTask := (m.page.parse (m.page.task from_)).2 } := by
    constructor
    · intro side
      cases side with
      | existing => exact href .existing
      | imported => exact href .imported
    · exact fun side => (hhas side).of_grows (parse_grows _ _) (parse_content (hhas side) _)
    · exact parse_has _ _
    · exact fun side => parse_apart (hhas side) _
    · exact fun side => (parse_keeps (hhas side) _).task_eq.trans (htask side)
  rw [takeAll_eq]
  exact hparsed.setSection false (m.page.task from_).filled .policy

theorem takeAll_merged (m : Modal) (from_ : ℕ) (s : Section) :
    SameSection (m.takeAll from_).merged
      { m.page.task from_ with
        executionPolicy := (m.page.task from_).executionPolicy.fillLogRetention } s := by
  have hparse := parse_task m.page (m.page.task from_)
  rw [takeAll_eq]
  by_cases hs : s = .policy
  · subst hs
    exact setSection_same _ _ false (m.page.task from_).filled .policy
  · have hother := setSection_other (m.page.parse (m.page.task from_)).1
      (m.page.parse (m.page.task from_)).2 false (m.page.task from_).filled hs
    rw [hparse] at hother
    cases s with
    | policy => exact absurd rfl hs
    | _ => exact hother

theorem HasTaken.setSection (h : HasTaken src taken m) (fresh : Bool) (v : TaskValue) (s : Section)
    {k : Option Taken} (hk : ∀ k', k = some k' →
      SameSection { v with environment := .value v.env } (k'.task src) s) :
    HasTaken src (Function.update taken s k)
      { m with page := m.page.setSection m.mergedTask fresh v s } := by
  intro s' k' htaken
  by_cases hs : s' = s
  · subst hs
    rw [Function.update_self] at htaken
    exact (setSection_same m.page m.mergedTask fresh v s').trans (hk k' htaken)
  · rw [Function.update_of_ne hs] at htaken
    exact (setSection_other m.page m.mergedTask fresh v hs).trans (h s' k' htaken)

theorem HasTaken.takeSection (h : HasTaken src taken m) (hsep : Separate src m) (side : Side)
    (s : Section) :
    HasTaken src (Function.update taken s (some ⟨side, false⟩)) (m.takeSection (m.ref side) s) := by
  rw [takeSection_eq]
  apply h.setSection
  rintro k' hk'
  obtain rfl := Option.some.inj hk'
  have htask : m.page.task (m.ref side) = src.task side := by rw [hsep.ref, hsep.task]
  rw [htask]
  cases s with
  | basic => exact ⟨rfl, rfl, rfl⟩
  | _ => rfl

theorem hasTaken_takeAll (side : Side) (htask : m.page.task (m.ref side) = src.task side) :
    HasTaken src (fun _ => some ⟨side, true⟩) (m.takeAll (m.ref side)) := by
  intro s k hk
  obtain rfl := Option.some.inj hk
  have hmerged := takeAll_merged m (m.ref side) s
  rw [htask] at hmerged
  exact hmerged

/-- The step lemma. -/
theorem Separate.step (h : Separate src m) (htaken : HasTaken src taken m) (a : MergeAction) :
    Separate src (m.act a) ∧ HasTaken src (takenAfter taken a) (m.act a) := by
  have href : ∀ side, m.page.task (m.ref side) = src.task side := by
    intro side
    rw [h.ref, h.task]
  cases a with
  | copyExistingSection s =>
    refine ⟨?_, htaken.takeSection h .existing s⟩
    rw [Modal.act, Modal.copyExistingSection, takeSection_eq]
    exact h.setSection _ _ _
  | restoreImportedSection s =>
    refine ⟨?_, htaken.takeSection h .imported s⟩
    rw [Modal.act, Modal.restoreImportedSection, takeSection_eq]
    exact h.setSection _ _ _
  | handleAdoptAllExisting =>
    exact ⟨separate_takeAll h.ref h.has h.task _, hasTaken_takeAll .existing (href .existing)⟩
  | handleRestoreAllImported =>
    exact ⟨separate_takeAll h.ref h.has h.task _, hasTaken_takeAll .imported (href .imported)⟩
  | edit s fresh v =>
    exact ⟨h.setSection fresh v s, htaken.setSection fresh v s fun _ hk => by cases hk⟩

theorem opened_spec (src : Sources) :
    Separate src src.opened ∧ HasTaken src (lastTaken []) src.opened := by
  constructor
  · apply separate_takeAll
    · intro side
      cases side <;> rfl
    · exact src.has
    · exact fun _ => rfl
  · exact hasTaken_takeAll (m := ⟨src.page, src.existingTask, src.importedTask, src.importedTask⟩)
      .imported rfl

theorem run_spec {tr : List (MergeAction × List Modal)}
    (h : (mergeModal src).Run Machine.anyStep src.opened tr m) :
    Separate src m ∧ HasTaken src (lastTaken (tr.map Prod.fst)) m := by
  induction h with
  | nil => exact opened_spec src
  | @snoc t u tr a o _ _ hst ih =>
    obtain rfl : t.act a = u := by
      simp only [mergeModal, Option.some.injEq, Prod.mk.injEq] at hst
      exact hst.1
    have hlast : lastTaken ((tr ++ [(a, o)]).map Prod.fst) =
        takenAfter (lastTaken (tr.map Prod.fst)) a := by
      simp [lastTaken, List.foldl_append]
    rw [hlast]
    exact ih.1.step ih.2 a

end Steps

/-! ## Sections and sides -/

/-- The section that a step is about, if it is about one. -/
def MergeAction.onSection : MergeAction → Option Section
  | .copyExistingSection s => some s
  | .restoreImportedSection s => some s
  | .handleAdoptAllExisting => none
  | .handleRestoreAllImported => none
  | .edit s _ _ => some s

theorem act_other (m : Modal) {a : MergeAction} {s s' : Section} (ha : a.onSection = some s)
    (hne : s' ≠ s) : SameSection (m.act a).merged m.merged s' := by
  cases a with
  | copyExistingSection s₁ =>
    obtain rfl := Option.some.inj ha
    rw [Modal.act, Modal.copyExistingSection, takeSection_eq]
    exact setSection_other _ _ _ _ hne
  | restoreImportedSection s₁ =>
    obtain rfl := Option.some.inj ha
    rw [Modal.act, Modal.restoreImportedSection, takeSection_eq]
    exact setSection_other _ _ _ _ hne
  | handleAdoptAllExisting => cases ha
  | handleRestoreAllImported => cases ha
  | edit s₁ fresh v =>
    obtain rfl := Option.some.inj ha
    exact setSection_other _ _ _ _ hne

/-- The merge after the steps `acts`: every section is that of the side it was last taken from,
    with the defaults filled in; a step on one section leaves the others; the two sides are as they
    were, whatever is edited; and where all sections were last taken from one side, the
    comparison with it finds nothing. -/
structure Merges (stringify : JsValue → String) (src : Sources) (acts : List MergeAction)
    (m : Modal) : Prop where
  sections : ∀ s k, lastTaken acts s = some k → SameSection m.merged (src.task k.side).filled s
  others : ∀ a s s', a.onSection = some s → s' ≠ s → SameSection (m.act a).merged m.merged s'
  sides : ∀ side, m.page.task (m.ref side) = src.task side
  compare : ∀ side, (∀ s, ∃ k, lastTaken acts s = some k ∧ k.side = side) →
    (compareTasks stringify (src.task side) m.merged).hasDiff = false

/-- The environment was not last taken with a whole task that lacks one. -/
def TakesEnvironment (src : Sources) (acts : List MergeAction) : Prop :=
  ∀ k, lastTaken acts .env = some k → k.whole = true →
    ∃ env, (src.task k.side).environment = .value env

theorem Taken.same_of_ne_env (src : Sources) (k : Taken) {s : Section} (hs : s ≠ .env) :
    SameSection (k.task src) (src.task k.side).filled s := by
  unfold Taken.task
  split_ifs
  · cases s with
    | env => exact absurd rfl hs
    | basic => exact ⟨rfl, rfl, rfl⟩
    | _ => rfl
  · cases s with
    | basic => exact ⟨rfl, rfl, rfl⟩
    | _ => rfl

theorem Taken.environment_eq_iff (src : Sources) (k : Taken) :
    (k.task src).environment = (src.task k.side).filled.environment ↔
      (k.whole = true → ∃ env, (src.task k.side).environment = .value env) := by
  have hfilled : (src.task k.side).filled.environment = .value (src.task k.side).env := rfl
  by_cases hwhole : k.whole = true
  · have htask : (k.task src).environment = (src.task k.side).environment := by
      rw [Taken.task, if_pos hwhole]
    rw [htask, hfilled]
    constructor
    · exact fun h _ => ⟨_, h⟩
    · intro h
      obtain ⟨env, henv⟩ := h hwhole
      rw [TaskValue.env, henv]
      rfl
  · have htask : k.task src = (src.task k.side).filled := if_neg hwhole
    rw [htask]
    simp [hwhole]

/-- A task all of whose sections were taken from one side compares as that side. -/
theorem comparedConfig_of_taken {src : Sources} {taken : Section → Option Taken} {m : Modal}
    (h : HasTaken src taken m) {side : Side} (hall : ∀ s, ∃ k, taken s = some k ∧ k.side = side) :
    (src.task side).comparedConfig = m.merged.comparedConfig := by
  have hsame : ∀ s, s ≠ .env → SameSection m.merged (src.task side).filled s := by
    intro s hs
    obtain ⟨k, hk, rfl⟩ := hall s
    exact (h s k hk).trans (k.same_of_ne_env src hs)
  have hbasic := hsame .basic (by decide)
  have hpolicy : m.merged.executionPolicy = (src.task side).executionPolicy.fillLogRetention :=
    hsame .policy (by decide)
  have htriggers : m.merged.triggers = (src.task side).triggers := hsame .triggers (by decide)
  have hactions : m.merged.actions = (src.task side).actions := hsame .actions (by decide)
  have henv : m.merged.environment.or ∅ = (src.task side).environment.or ∅ := by
    obtain ⟨k, hk, rfl⟩ := hall .env
    have hmerged : m.merged.environment = (k.task src).environment := h .env k hk
    rw [hmerged, Taken.task]
    split_ifs <;> rfl
  obtain ⟨hdescription, henabled, hworking⟩ := hbasic
  simp only [TaskValue.comparedConfig, hdescription, henabled, hworking, hpolicy, htriggers,
    hactions, henv]
  rfl

/-- When does the merge keep to its sides? After every sequence of steps, each section is that
    of the side it was last taken from, with all else that a merge promises, if and only if the
    environment was not last taken with a whole task that lacks one. -/
theorem taskMerge_iff (stringify : JsValue → String) {src : Sources} {m : Modal}
    {tr : List (MergeAction × List Modal)}
    (h : (mergeModal src).Run Machine.anyStep src.opened tr m) :
    Merges stringify src (tr.map Prod.fst) m ↔ TakesEnvironment src (tr.map Prod.fst) := by
  obtain ⟨hsep, htaken⟩ := run_spec h
  constructor
  · intro hmerges k hk
    have hsame : m.merged.environment = (src.task k.side).filled.environment :=
      hmerges.sections .env k hk
    have hmerged : m.merged.environment = (k.task src).environment := htaken .env k hk
    exact (k.environment_eq_iff src).mp (hmerged.symm.trans hsame)
  · intro htakes
    constructor
    · intro s k hk
      by_cases hs : s = .env
      · subst hs
        have hmerged : m.merged.environment = (k.task src).environment := htaken .env k hk
        exact hmerged.trans ((k.environment_eq_iff src).mpr (htakes k hk))
      · exact (htaken s k hk).trans (k.same_of_ne_env src hs)
    · exact fun _ _ _ ha hne => act_other m ha hne
    · intro side
      rw [hsep.ref, hsep.task]
    · exact fun side hall => hasDiff_eq_false_of_config_eq (comparedConfig_of_taken htaken hall)

/-! ## A task without environment -/

/-- The task of the agent at 0 and the imported one at 1. -/
def twoTasks (existing imported : TaskValue) : Objects :=
  let empty : Objects := ⟨⟨fun _ => ⟨"", "", .null, true, 0, 0, 0, .null, .null, 0, "", ""⟩, 0⟩,
    ⟨fun _ => [], 0⟩, ⟨fun _ => [], 0⟩, ⟨fun _ => existing.executionPolicy, 0⟩, ⟨fun _ => ∅, 0⟩⟩
  ((empty.parse existing).1.parse imported).1

theorem twoTasks_has (existing imported : TaskValue) :
    (twoTasks existing imported).Has 0 ∧ (twoTasks existing imported).Has 1 := by
  unfold twoTasks
  have hfirst := fun p : Objects => parse_has p existing
  exact ⟨(hfirst _).of_grows (parse_grows _ _) (parse_content (hfirst _) _), parse_has _ _⟩

def sourcesOf (existing imported : TaskValue) : Sources where
  page := twoTasks existing imported
  existingTask := 0
  importedTask := 1
  has_existing := (twoTasks_has existing imported).1
  has_imported := (twoTasks_has existing imported).2

/-- All sections of the existing task, the last of them after an edit. -/
def takesAllExisting : List MergeAction :=
  [.copyExistingSection .basic, .handleAdoptAllExisting, .edit .env false olderTask,
    .copyExistingSection .env]

theorem takesAllExisting_possible (src : Sources) :
    ((mergeModal src).exec Machine.anyStep src.opened takesAllExisting).isSome = true := rfl

def takesAllExistingRun (src : Sources) : List (MergeAction × List Modal) × Modal :=
  ((mergeModal src).exec Machine.anyStep src.opened takesAllExisting).get
    (takesAllExisting_possible src)

theorem taskMerge_iff_existing :
    Merges stringifyIntegers (sourcesOf existingTask olderTask)
        ((takesAllExistingRun (sourcesOf existingTask olderTask)).1.map Prod.fst)
        (takesAllExistingRun (sourcesOf existingTask olderTask)).2 ↔
      TakesEnvironment (sourcesOf existingTask olderTask)
        ((takesAllExistingRun (sourcesOf existingTask olderTask)).1.map Prod.fst) :=
  taskMerge_iff stringifyIntegers (Machine.exec_get_run (takesAllExisting_possible _))

/-- The older task without its environment. -/
def bareTask : TaskValue := { olderTask with environment := .undefined }

/-- The modal is opened, and the merged task has no environment. -/
theorem taskMerge_lacks_environment :
    (mergeModal (sourcesOf existingTask bareTask)).Run Machine.anyStep
        (sourcesOf existingTask bareTask).opened [] (sourcesOf existingTask bareTask).opened ∧
      (sourcesOf existingTask bareTask).opened.merged.environment = .undefined ∧
      ¬Merges stringifyIntegers (sourcesOf existingTask bareTask) []
        (sourcesOf existingTask bareTask).opened := by
  have hnone : (sourcesOf existingTask bareTask).opened.merged.environment = .undefined := rfl
  refine ⟨.nil _, hnone, ?_⟩
  intro hmerges
  have hsame := hmerges.sections .env ⟨.imported, true⟩ rfl
  have hvalue : (sourcesOf existingTask bareTask).opened.merged.environment =
      .value ((sourcesOf existingTask bareTask).task .imported).env := hsame
  rw [hnone] at hvalue
  cases hvalue

end EasyJob.Frontend
