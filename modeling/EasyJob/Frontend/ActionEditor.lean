import EasyJob.Lib.Transition
import EasyJob.Persistence.SaveLoad

/-!
# The order of actions in the editor and in the database

Model of `addAction` and `removeAction` (`components/task/ActionEditor.vue` lines 65–86). The
editor shows the actions in the order of the list; `save` writes their `sequence`, and
`find_by_id` sorts by it.

* `actionEditor_renumbered`, `actionEditor_appended`: the numbers after a sequence of edits, with
  a removal and without one.
* `save_edited_iff`: when the edited actions are loaded in the order that was shown.
-/

namespace EasyJob.Frontend

open EasyJob.Chrono EasyJob.Domain EasyJob.Persistence EasyJob.Persistence.Sqlite Transition

/-! ## Edits -/

/-- The kind of a new action. -/
def defaultActionKind (isWindows : Bool) : ActionKind :=
  if isWindows then .ExecuteCmd "" none else .ExecuteShell ""

/-- Model of `addAction` (lines 65–77). `id` is what `crypto.randomUUID()` gives. -/
def addAction (isWindows : Bool) (taskId : TaskId) (actions : List Action) (id : ActionId) :
    List Action :=
  actions ++ [⟨id, taskId, actions.length + 1, true, defaultActionKind isWindows⟩]

/-- Model of `removeAction` (lines 79–86). -/
def removeAction (actions : List Action) (index : ℕ) : List Action :=
  (actions.eraseIdx index).mapIdx fun idx act => { act with sequence := idx + 1 }

inductive ActionEdit
  | add (id : ActionId)
  | remove (index : ℕ)
  deriving DecidableEq, Repr

def ActionEdit.isRemove : ActionEdit → Bool
  | .add _ => false
  | .remove _ => true

/-- The editor, opened on the actions of `task`; every edit shows the actions after it. -/
def actionEditor (isWindows : Bool) (task : Task) :
    Machine (List Action) ActionEdit (List Action) where
  init := task.actions
  step actions
    | .add id =>
      let next := addAction isWindows task.id actions id
      some (next, [next])
    | .remove index =>
      if index < actions.length then
        let next := removeAction actions index
        some (next, [next])
      else none

/-! ## The numbers after the edits -/

def InOrder (actions : List Action) : Prop :=
  actions.Pairwise fun a b => a.sequence ≤ b.sequence

instance (actions : List Action) : Decidable (InOrder actions) :=
  inferInstanceAs (Decidable (List.Pairwise _ actions))

/-- The numbers of the actions count from `n`. -/
def CountsFrom (n : ℕ) (actions : List Action) : Prop :=
  actions.map Action.sequence = List.range' n actions.length

theorem InOrder.of_countsFrom {n : ℕ} {actions : List Action} (h : CountsFrom n actions) :
    InOrder actions := by
  have hsorted : (actions.map Action.sequence).Pairwise (· ≤ ·) := by
    rw [h]
    exact List.pairwise_le_range'
  exact List.pairwise_map.mp hsorted

theorem CountsFrom.le {n : ℕ} {actions : List Action} (h : CountsFrom n actions) {act : Action}
    (hact : act ∈ actions) : n ≤ act.sequence := by
  have hmem : act.sequence ∈ List.range' n actions.length := h ▸ List.mem_map_of_mem hact
  exact (List.mem_range'_1.mp hmem).1

/-- Numbers that count on from `n` fit behind a last number up to `n`. -/
theorem InOrder.append_iff {actions added : List Action} (hactions : InOrder actions) {n : ℕ}
    (hadded : CountsFrom n added) :
    InOrder (actions ++ added) ↔ added = [] ∨ ∀ last ∈ actions.getLast?, last.sequence ≤ n := by
  rw [InOrder, List.pairwise_append]
  constructor
  · rintro ⟨-, -, hle⟩
    cases added with
    | nil => exact .inl rfl
    | cons act added =>
      right
      intro last hlast
      have hfirst : act.sequence = n := by
        rw [CountsFrom, List.map_cons, List.length_cons, List.range'_succ] at hadded
        exact (List.cons.inj hadded).1
      rw [← hfirst]
      exact hle last (List.mem_of_getLast? hlast) act List.mem_cons_self
  · intro h
    refine ⟨hactions, InOrder.of_countsFrom hadded, ?_⟩
    rcases h with rfl | h
    · simp
    · intro a ha b hb
      rcases List.eq_nil_or_concat actions with rfl | ⟨before, last, rfl⟩
      · cases ha
      · rw [List.concat_eq_append] at *
        have hlast : a.sequence ≤ last.sequence := by
          rcases List.mem_append.mp ha with ha | ha
          · exact (List.pairwise_append.mp hactions).2.2 a ha last (List.mem_singleton.mpr rfl)
          · rw [List.mem_singleton.mp ha]
        exact hlast.trans ((h last (by simp)).trans (hadded.le hb))

theorem sortBySequence_eq_iff (actions : List Action) :
    sortBySequence actions = actions ↔ InOrder actions := by
  constructor
  · intro h
    rw [← h]
    exact List.pairwise_insertionSort _ _
  · exact List.Pairwise.insertionSort_eq

theorem CountsFrom.append {n : ℕ} {actions : List Action} (h : CountsFrom n actions)
    (act : Action) (hact : act.sequence = n + actions.length) :
    CountsFrom n (actions ++ [act]) := by
  unfold CountsFrom at *
  rw [List.map_append, h, List.length_append, List.length_singleton, List.range'_concat]
  simp [hact]

theorem countsFrom_removeAction (actions : List Action) (index : ℕ) :
    CountsFrom 1 (removeAction actions index) := by
  unfold CountsFrom removeAction
  apply List.ext_getElem
  · simp
  · intro i hi hi'
    simp [Nat.add_comm]

section Runs

variable {isWindows : Bool} {task : Task} {start actions : List Action}
  {tr : List (ActionEdit × List (List Action))}

/-- From the first removal on the numbers are 1, 2, 3 and so on. -/
theorem actionEditor_renumbered
    (h : (actionEditor isWindows task).Run Machine.anyStep start tr actions)
    (hremove : ∃ e ∈ tr.map Prod.fst, e.isRemove = true) : CountsFrom 1 actions := by
  induction h with
  | nil => simp at hremove
  | @snoc t u tr e o hr _ hst ih =>
    cases e with
    | add id =>
      obtain rfl : addAction isWindows task.id t id = u := by
        simp only [actionEditor, Option.some.injEq, Prod.mk.injEq] at hst
        exact hst.1
      have hbefore : ∃ e ∈ tr.map Prod.fst, e.isRemove = true := by
        obtain ⟨e, he, hisRemove⟩ := hremove
        rw [List.map_append, List.mem_append] at he
        rcases he with he | he
        · exact ⟨e, he, hisRemove⟩
        · rw [List.mem_singleton.mp he] at hisRemove
          cases hisRemove
      exact (ih hbefore).append _ (Nat.add_comm _ _)
    | remove index =>
      obtain rfl : removeAction t index = u := by
        simp only [actionEditor, Option.ite_none_right_eq_some, Option.some.injEq,
          Prod.mk.injEq] at hst
        exact hst.2.1
      exact countsFrom_removeAction t index

/-- Without a removal the numbers of the added actions count on from the number of actions. -/
theorem actionEditor_appended
    (h : (actionEditor isWindows task).Run Machine.anyStep start tr actions)
    (hremove : ¬∃ e ∈ tr.map Prod.fst, e.isRemove = true) :
    ∃ added, actions = start ++ added ∧ CountsFrom (start.length + 1) added ∧
      added.length = tr.length := by
  induction h with
  | nil => exact ⟨[], by simp, rfl, rfl⟩
  | @snoc t u tr e o hr _ hst ih =>
    have hnone : ∀ e' ∈ tr.map Prod.fst ++ [e], e'.isRemove ≠ true := by
      intro e' he' hisRemove
      exact hremove ⟨e', by simpa using he', hisRemove⟩
    cases e with
    | add id =>
      obtain rfl : addAction isWindows task.id t id = u := by
        simp only [actionEditor, Option.some.injEq, Prod.mk.injEq] at hst
        exact hst.1
      obtain ⟨added, rfl, hcounts, hlength⟩ := ih fun ⟨e', he', hisRemove⟩ =>
        hnone e' (List.mem_append_left _ he') hisRemove
      refine ⟨_, List.append_assoc _ _ _, hcounts.append _ ?_, ?_⟩
      · simp only [List.length_append]
        omega
      · simp [hlength]
    | remove index => exact absurd rfl (hnone (.remove index) (by simp))

/-- The edits keep the order: one of them removes an action, or there are none, or the last number
    at the start is at most the next position. -/
def KeepsOrder (start : List Action) (edits : List ActionEdit) : Prop :=
  (∃ e ∈ edits, e.isRemove = true) ∨ edits = [] ∨
    ∀ last ∈ start.getLast?, last.sequence ≤ start.length + 1

theorem inOrder_iff (hstart : InOrder start)
    (h : (actionEditor isWindows task).Run Machine.anyStep start tr actions) :
    InOrder actions ↔ KeepsOrder start (tr.map Prod.fst) := by
  unfold KeepsOrder
  by_cases hremove : ∃ e ∈ tr.map Prod.fst, e.isRemove = true
  · have horder := InOrder.of_countsFrom (actionEditor_renumbered h hremove)
    simp only [horder, hremove, true_or]
  · obtain ⟨added, rfl, hcounts, hlength⟩ := actionEditor_appended h hremove
    have hnil : added = [] ↔ tr.map Prod.fst = [] := by
      rw [List.map_eq_nil_iff, ← List.length_eq_zero_iff, hlength, List.length_eq_zero_iff]
    rw [hstart.append_iff hcounts, hnil, or_iff_right hremove]

end Runs

/-! ## Saving and loading -/

theorem actions_of_findById {texts : Texts} {task loaded : Task} {db db' : Sqlite.Database}
    (hround : texts.RoundTrips task) (hsaved : Saved texts task db db') {now₁ now₂ : DateTime}
    (h : Sqlite.findById texts now₁ now₂ db' task.id = .ok (some loaded)) :
    loaded.actions = sortBySequence task.actions := by
  have hactions : (db'.actionTexts (TaskId.text task.id)).mapM texts.action.read =
      .ok (sortBySequence task.actions) := hsaved.mapM_actionTexts hround
  unfold Sqlite.findById at h
  split at h
  · cases h
  · simp only [hactions, bind, Except.bind] at h
    repeat' split at h
    all_goals cases h
    rfl

/-- When does the order of the actions survive saving? After every sequence of edits of actions
    that are in order, what is loaded after the save are the actions as they were shown if and only
    if the edits keep the order; and the task is loaded. -/
theorem save_edited_iff {isWindows : Bool} {texts : Texts} {task : Task} {actions : List Action}
    {tr : List (ActionEdit × List (List Action))} {fails : ℕ → Bool} {db db' : Sqlite.Database}
    (horder : InOrder task.actions)
    (hrun : (actionEditor isWindows task).Run Machine.anyStep task.actions tr actions)
    (hround : texts.RoundTrips { task with actions := actions })
    (hsave : Sqlite.save texts fails db { task with actions := actions } = (.ok (), db'))
    (now₁ now₂ : DateTime) :
    (∀ loaded, Sqlite.findById texts now₁ now₂ db' task.id = .ok (some loaded) →
      (loaded.actions = actions ↔ KeepsOrder task.actions (tr.map Prod.fst))) ∧
    ((∀ row, db.tasks.find (TaskId.text task.id) = some row →
        ∃ n < i64Max, row.version = .integer n) →
      ∃ loaded, Sqlite.findById texts now₁ now₂ db' task.id = .ok (some loaded)) := by
  have hsaved := saved_of_executeAll (transaction_ok hsave)
  constructor
  · intro loaded hload
    rw [actions_of_findById hround hsaved hload, sortBySequence_eq_iff, inOrder_iff horder hrun]
  · intro hversion
    exact ⟨_, hsaved.findById hround hversion now₁ now₂⟩

/-! ## Numbers with a gap -/

/-- Two actions with the numbers 1 and 10. -/
def gapTask : Task := { twoActions with actions := [shellAction 3 1, shellAction 4 10] }

/-- The new action that is added to them. -/
def thirdAction : Action := ⟨⟨5⟩, ⟨1⟩, 3, true, .ExecuteShell ""⟩

def gapEdited : List Action := [shellAction 3 1, shellAction 4 10, thirdAction]

def gapTexts : Texts := { twoActionsTexts with action := .among actionText gapEdited }

theorem gapEdited_roundTrips : gapTexts.RoundTrips { gapTask with actions := gapEdited } where
  triggers := by
    intro t ht
    cases List.mem_singleton.mp ht
    exact Codec.among_head _ _ _
  actions := Codec.among_actionText (by decide) (by decide)
  executionPolicy := Codec.among_head _ _ _
  environment := Codec.among_head _ _ _
  createdAt := Codec.among_head _ _ _
  updatedAt := Codec.among_head _ _ _

theorem gapEdited_run : (actionEditor false gapTask).Run Machine.anyStep gapTask.actions
    [(.add ⟨5⟩, [gapEdited])] gapEdited :=
  .single trivial rfl

/-- The database after the save of the three actions. -/
def gapSaved : Sqlite.Database :=
  (Sqlite.save gapTexts (fun _ => false) .empty { gapTask with actions := gapEdited }).2

theorem gapSaved_ok :
    Sqlite.save gapTexts (fun _ => false) .empty { gapTask with actions := gapEdited } =
      (.ok (), gapSaved) := by
  have hok : (Sqlite.save gapTexts (fun _ => false) .empty
      { gapTask with actions := gapEdited }).1 = .ok () := by
    decide +kernel
  exact Prod.ext hok rfl

theorem save_edited_iff_gap :
    (∀ loaded, Sqlite.findById gapTexts 0 0 gapSaved gapTask.id = .ok (some loaded) →
      (loaded.actions = gapEdited ↔ KeepsOrder gapTask.actions [.add ⟨5⟩])) ∧
    ∃ loaded, Sqlite.findById gapTexts 0 0 gapSaved gapTask.id = .ok (some loaded) :=
  (save_edited_iff (by decide) gapEdited_run gapEdited_roundTrips gapSaved_ok 0 0).imp_right
    fun hloads => hloads fun _ hrow => by cases hrow

/-- The new action is shown last and loaded between the two. -/
theorem save_edited_reorders :
    InOrder gapTask.actions ∧
      (actionEditor false gapTask).Run Machine.anyStep gapTask.actions
        [(.add ⟨5⟩, [gapEdited])] gapEdited ∧
      ∃ loaded, Sqlite.findById gapTexts 0 0 gapSaved gapTask.id = .ok (some loaded) ∧
        loaded.actions = [shellAction 3 1, thirdAction, shellAction 4 10] ∧
        loaded.actions ≠ gapEdited := by
  have hsaved := saved_of_executeAll (transaction_ok gapSaved_ok)
  have hload := hsaved.findById gapEdited_roundTrips (fun _ hrow => by cases hrow) 0 0
  refine ⟨by decide, gapEdited_run, _, hload, ?_⟩
  have hsorted : sortBySequence gapEdited = [shellAction 3 1, thirdAction, shellAction 4 10] := by
    decide
  have hactions := actions_of_findById gapEdited_roundTrips hsaved hload
  rw [hactions, hsorted]
  exact ⟨rfl, by decide⟩

end EasyJob.Frontend
