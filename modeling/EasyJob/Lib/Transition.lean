import Mathlib.Data.List.Basic
import Mathlib.Tactic.Common

/-!
# Machines with outputs

A machine is a partial step function on states. Everything that a program
reads from outside (messages, clock readings, random draws) is part of the
action, so a step is a function of the state and the action and can be run.

* `Machine.Run`: finite runs whose steps all satisfy a side condition, with
  the trace of actions and outputs.
* `Run.invariant`, `Run.history`: the induction rules for state and history
  invariants.
* `Machine.Refines`: refinement of an abstract step relation, with its run rule.
* `Machine.exec`: running a list of actions, for closed examples.
-/

namespace Transition

/-- `step s a` is the next state with the outputs of the step, or `none` when
    the action `a` is not possible in the state `s`. -/
structure Machine (σ α ε : Type*) where
  init : σ
  step : σ → α → Option (σ × List ε)

namespace Machine

variable {σ τ α ε : Type*} {m : Machine σ α ε} {ok ok' : σ → α → Prop}

/-- The side condition that allows every step. -/
def anyStep : σ → α → Prop := fun _ _ => True

/-- `m.Run ok s tr t`: a run from `s` to `t` in which every action is taken in
    a state where `ok` holds; `tr` lists the actions with their outputs. -/
inductive Run (m : Machine σ α ε) (ok : σ → α → Prop) : σ → List (α × List ε) → σ → Prop
  | nil (s : σ) : Run m ok s [] s
  | snoc {s t u : σ} {tr : List (α × List ε)} {a : α} {o : List ε} :
      Run m ok s tr t → ok t a → m.step t a = some (u, o) → Run m ok s (tr ++ [(a, o)]) u

/-- The states that some run from the initial state ends in. -/
def Reachable (m : Machine σ α ε) (ok : σ → α → Prop) (s : σ) : Prop :=
  ∃ tr, m.Run ok m.init tr s

/-- The outputs of a trace, in order. -/
def outputs (tr : List (α × List ε)) : List ε := tr.flatMap Prod.snd

@[simp] theorem outputs_nil : outputs ([] : List (α × List ε)) = [] := rfl

@[simp] theorem outputs_append (tr tr' : List (α × List ε)) :
    outputs (tr ++ tr') = outputs tr ++ outputs tr' := by
  simp [outputs]

@[simp] theorem outputs_singleton (a : α) (o : List ε) : outputs [(a, o)] = o := by
  simp [outputs]

@[simp] theorem outputs_cons (a : α) (o : List ε) (tr : List (α × List ε)) :
    outputs ((a, o) :: tr) = o ++ outputs tr := by
  simp [outputs]

namespace Run

theorem single {s t : σ} {a : α} {o : List ε} (hok : ok s a) (h : m.step s a = some (t, o)) :
    m.Run ok s [(a, o)] t :=
  (Run.nil s).snoc hok h

theorem append {s t u : σ} {tr tr' : List (α × List ε)} (h : m.Run ok s tr t)
    (h' : m.Run ok t tr' u) : m.Run ok s (tr ++ tr') u := by
  induction h' with
  | nil => simpa using h
  | snoc _ hok hst ih =>
    rw [← List.append_assoc]
    exact ih.snoc hok hst

theorem cons {s t u : σ} {tr : List (α × List ε)} {a : α} {o : List ε} (hok : ok s a)
    (hst : m.step s a = some (t, o)) (h : m.Run ok t tr u) : m.Run ok s ((a, o) :: tr) u :=
  (single hok hst).append h

theorem mono (himp : ∀ s a, ok s a → ok' s a) {s t : σ} {tr : List (α × List ε)}
    (h : m.Run ok s tr t) : m.Run ok' s tr t := by
  induction h with
  | nil => exact Run.nil _
  | snoc _ hok hst ih => exact ih.snoc (himp _ _ hok) hst

/-- A condition on actions that holds of all actions of a run can be added to its side
    condition. -/
theorem restrict {P : α → Prop} {s t : σ} {tr : List (α × List ε)} (h : m.Run ok s tr t)
    (hP : ∀ a ∈ tr.map Prod.fst, P a) : m.Run (fun s a => ok s a ∧ P a) s tr t := by
  induction h with
  | nil => exact Run.nil _
  | snoc _ hok hst ih =>
    rw [List.map_append, List.forall_mem_append] at hP
    exact (ih hP.1).snoc ⟨hok, hP.2 _ (List.mem_singleton_self _)⟩ hst

/-- The last step of a run. -/
theorem snoc_inv {s u : σ} {tr : List (α × List ε)} {a : α} {o : List ε}
    (h : m.Run ok s (tr ++ [(a, o)]) u) :
    ∃ t, m.Run ok s tr t ∧ ok t a ∧ m.step t a = some (u, o) := by
  generalize htr : tr ++ [(a, o)] = tr' at h
  cases h with
  | nil => simp at htr
  | snoc hr hok hst =>
    obtain ⟨rfl, hlast⟩ := List.append_inj' htr rfl
    cases hlast
    exact ⟨_, hr, hok, hst⟩

/-- The trace determines the state at the end. -/
theorem unique {s t t' : σ} {tr : List (α × List ε)} (h : m.Run ok s tr t)
    (h' : m.Run ok' s tr t') : t = t' := by
  induction h generalizing t' with
  | nil =>
    generalize htr : ([] : List (α × List ε)) = tr' at h'
    cases h' with
    | nil => rfl
    | snoc => simp at htr
  | snoc _ _ hst ih =>
    obtain ⟨u, hr, _, hst'⟩ := h'.snoc_inv
    rw [← ih hr, hst] at hst'
    cases hst'
    rfl

/-- The run rule: a property that every step keeps holds at the end. -/
theorem invariant {I : σ → Prop} {s t : σ} {tr : List (α × List ε)} (h : m.Run ok s tr t)
    (h0 : I s) (hstep : ∀ s a t o, I s → ok s a → m.step s a = some (t, o) → I t) : I t := by
  induction h with
  | nil => exact h0
  | snoc _ hok hst ih => exact hstep _ _ _ _ ih hok hst

/-- The run rule for history invariants, which relate the trace so far to the
    state reached. -/
theorem history {I : List (α × List ε) → σ → Prop} {s t : σ} {tr : List (α × List ε)}
    (h : m.Run ok s tr t) (h0 : I [] s)
    (hstep : ∀ tr t a u o, m.Run ok s tr t → I tr t → ok t a → m.step t a = some (u, o) →
      I (tr ++ [(a, o)]) u) : I tr t := by
  induction h with
  | nil => exact h0
  | snoc hr hok hst ih => exact hstep _ _ _ _ _ hr ih hok hst

end Run

theorem Reachable.init : m.Reachable ok m.init := ⟨[], Run.nil _⟩

theorem Reachable.mono (himp : ∀ s a, ok s a → ok' s a) {s : σ} (h : m.Reachable ok s) :
    m.Reachable ok' s := by
  obtain ⟨tr, hr⟩ := h
  exact ⟨tr, hr.mono himp⟩

theorem Reachable.step {s t : σ} {a : α} {o : List ε} (h : m.Reachable ok s) (hok : ok s a)
    (hst : m.step s a = some (t, o)) : m.Reachable ok t := by
  obtain ⟨tr, hr⟩ := h
  exact ⟨_, hr.snoc hok hst⟩

theorem Reachable.invariant {I : σ → Prop} {s : σ} (h : m.Reachable ok s) (h0 : I m.init)
    (hstep : ∀ s a t o, I s → ok s a → m.step s a = some (t, o) → I t) : I s := by
  obtain ⟨tr, hr⟩ := h
  exact hr.invariant h0 hstep

/-! ## Refinement -/

/-- Through the abstraction function `abs`, every step of the machine is a step of
    the relation `Step` with the same action and the same outputs. -/
def Refines (m : Machine σ α ε) (abs : σ → τ) (Step : τ → α → τ → List ε → Prop) : Prop :=
  ∀ ⦃s a t o⦄, m.step s a = some (t, o) → Step (abs s) a (abs t) o

/-- The run rule through a refinement: what the abstract steps keep holds of the
    abstraction at the end. -/
theorem Refines.invariant {abs : σ → τ} {Step : τ → α → τ → List ε → Prop}
    (href : m.Refines abs Step) {I : τ → Prop} {s t : σ} {tr : List (α × List ε)}
    (h : m.Run ok s tr t) (h0 : I (abs s))
    (hstep : ∀ ⦃s a x o⦄, I (abs s) → ok s a → Step (abs s) a x o → I x) : I (abs t) :=
  h.invariant (I := fun s => I (abs s)) h0 fun _ _ _ _ hi hok hst => hstep hi hok (href hst)

/-! ## Executing a list of actions -/

instance (s : σ) (a : α) : Decidable (anyStep s a) := isTrue trivial

/-- The trace and the final state of the actions `as` from `s`, if all of them are
    possible and satisfy `ok`. -/
def exec (m : Machine σ α ε) (ok : σ → α → Prop) [∀ s a, Decidable (ok s a)] :
    σ → List α → Option (List (α × List ε) × σ)
  | s, [] => some ([], s)
  | s, a :: as =>
    if ok s a then
      match m.step s a with
      | none => none
      | some (t, o) => (exec m ok t as).map fun r => ((a, o) :: r.1, r.2)
    else none

theorem exec_run [∀ s a, Decidable (ok s a)] {s t : σ} {as : List α} {tr : List (α × List ε)}
    (h : m.exec ok s as = some (tr, t)) : m.Run ok s tr t := by
  induction as generalizing s tr with
  | nil => cases h; exact Run.nil _
  | cons a as ih =>
    rw [exec] at h
    split_ifs at h with hok
    split at h
    · cases h
    · rename_i t' o hst
      obtain ⟨r, hr, heq⟩ := Option.map_eq_some_iff.mp h
      cases heq
      exact Run.cons hok hst (ih hr)

theorem exec_actions [∀ s a, Decidable (ok s a)] {s t : σ} {as : List α} {tr : List (α × List ε)}
    (h : m.exec ok s as = some (tr, t)) : tr.map Prod.fst = as := by
  induction as generalizing s tr with
  | nil => cases h; rfl
  | cons a as ih =>
    rw [exec] at h
    split_ifs at h
    split at h
    · cases h
    · obtain ⟨r, hr, heq⟩ := Option.map_eq_some_iff.mp h
      cases heq
      rw [List.map_cons, ih hr]

theorem exec_get_run [∀ s a, Decidable (ok s a)] {s : σ} {as : List α}
    (h : (m.exec ok s as).isSome) :
    m.Run ok s ((m.exec ok s as).get h).1 ((m.exec ok s as).get h).2 :=
  exec_run (Option.eq_some_of_isSome h)

theorem exec_get_actions [∀ s a, Decidable (ok s a)] {s : σ} {as : List α}
    (h : (m.exec ok s as).isSome) : ((m.exec ok s as).get h).1.map Prod.fst = as :=
  exec_actions (Option.eq_some_of_isSome h)

end Machine

end Transition
