import EasyJob.Lib.Transition
import Mathlib.Tactic.Common

/-!
# Switching the startup mode

Model of `apps/desktop/src/services/startupMode.ts` (lines 12–86): a startup mode is
carried by the system service or by the login item, and `setStartupMode` switches
between them by calls that can fail. A failing call rejects with a message and
leaves what it is about as it was.

* `switched_exclusive_iff`: a switch ends in its target or is rolled back, except where a
  later call fails after the first one has changed the service.
* `startupMode_iff`: the same for every sequence of switches.
* `setStartupMode_fails`: a failing `prepare_data_dir` on the way from `boot` to
  `disabled` leaves the service uninstalled.
-/

namespace EasyJob.Frontend

open Transition

/-! ## The carriers -/

inductive StartupMode
  | boot
  | login
  | disabled
  deriving DecidableEq, Repr

/-- `ServiceStatus`, without the data directory that nothing here reads. -/
structure ServiceStatus where
  installed : Bool
  running : Bool
  deriving DecidableEq, Repr

/-- Model of `deriveMode` (lines 12–20). -/
def deriveMode (svc : ServiceStatus) (login : Bool) : StartupMode :=
  if svc.installed || svc.running then .boot
  else if login then .login
  else .disabled

/-- The system service and the login item as they are. -/
structure Startup where
  svc : ServiceStatus
  login : Bool
  deriving DecidableEq, Repr

def Startup.mode (s : Startup) : StartupMode := deriveMode s.svc s.login

/-- Both carriers are present. -/
def Startup.both (s : Startup) : Bool := (s.svc.installed || s.svc.running) && s.login

/-! ## The calls -/

/-- An answer of `service_status`, and the milliseconds since the wait began. -/
structure Poll where
  status : Except String ServiceStatus
  elapsed : ℕ

/-- The loop of `waitServiceRunning` (lines 36–45) over the polls so far; `none` while it
    has not ended. -/
def pollServiceRunning : List Poll → Option (Except String ServiceStatus)
  | [] => none
  | poll :: polls =>
    match poll.status with
    | .error e => some (.error ("查询系统服务状态失败: " ++ e))
    | .ok st =>
      if st.running then some (.ok st)
      else if 15000 < poll.elapsed then
        some (.error "系统服务安装成功，但未能在 15 秒内进入运行状态，请检查系统服务管理器")
      else pollServiceRunning polls

/-- What the calls of one switch answer: `none`, or the message they reject with. -/
structure Calls where
  serviceInstall : Option String
  serviceUninstall : Option String
  prepareDataDir : Option String
  enable : Option String
  disable : Option String
  polls : { polls : List Poll // (pollServiceRunning polls).isSome }

/-- A promise: it changes the carriers and resolves or rejects. -/
abbrev Promise := ExceptT String (StateM Startup)

/-- How the promise settles from `s`, and the carriers after it. -/
def Promise.settle {α : Type} (p : Promise α) (s : Startup) : Except String α × Startup :=
  (p.run.run s).run

/-- A call that has the effect `f` unless it rejects. -/
def call (answer : Option String) (f : Startup → Startup) : Promise Unit :=
  match answer with
  | some e => throw e
  | none => modify f

namespace Calls

variable (calls : Calls)

/-- `invoke('service_install')`. -/
def invokeServiceInstall : Promise Unit :=
  call calls.serviceInstall fun s => { s with svc := { s.svc with installed := true } }

/-- `invoke('service_uninstall')`. -/
def invokeServiceUninstall : Promise Unit :=
  call calls.serviceUninstall fun s => { s with svc := ⟨false, false⟩ }

/-- `invoke('prepare_data_dir')`. -/
def invokePrepareDataDir : Promise Unit := call calls.prepareDataDir id

/-- `enable()` of the autostart plugin. -/
def invokeEnable : Promise Unit := call calls.enable fun s => { s with login := true }

/-- `disable()` of the autostart plugin. -/
def invokeDisable : Promise Unit := call calls.disable fun s => { s with login := false }

/-- How `waitServiceRunning` ends. -/
def waitResult : Except String ServiceStatus := (pollServiceRunning calls.polls.1).get calls.polls.2

/-- `waitServiceRunning()`: when it resolves, the service has come to run. -/
def waitServiceRunning : Promise Unit :=
  match calls.waitResult with
  | .error e => throw e
  | .ok _ => modify fun s => { s with svc := { s.svc with running := true } }

end Calls

/-- The second `try` block of `setStartupMode` (lines 54–58). -/
def bootOnceInstalled (calls : Calls) : Promise StartupMode := do
  calls.waitServiceRunning
  calls.invokePrepareDataDir
  calls.invokeDisable
  return .boot

/-- Model of `setStartupMode` (lines 47–86). -/
def setStartupMode (mode : StartupMode) (calls : Calls) : Promise StartupMode :=
  match mode with
  | .boot => do
    calls.invokeServiceInstall
    tryCatch (bootOnceInstalled calls) fun e => do
      -- the rollback is best effort
      tryCatch calls.invokeServiceUninstall fun _ => pure ()
      throw e
  | .login => do
    calls.invokeServiceUninstall
    calls.invokePrepareDataDir
    calls.invokeEnable
    return .login
  | .disabled => do
    calls.invokeServiceUninstall
    calls.invokePrepareDataDir
    calls.invokeDisable
    return .disabled

/-- The result of a switch from `s`, and the carriers after it. -/
def switch (s : Startup) (mode : StartupMode) (calls : Calls) :
    Except String StartupMode × Startup :=
  (setStartupMode mode calls).settle s

/-! ## What a switch does -/

namespace Promise

variable {α β : Type} (s : Startup)

@[simp] theorem settle_pure (a : α) : settle (pure a) s = (.ok a, s) := rfl

@[simp] theorem settle_throw (e : String) : settle (throw e : Promise α) s = (.error e, s) := rfl

theorem settle_bind (p : Promise α) (f : α → Promise β) :
    settle (p >>= f) s =
      match p.settle s with
      | (.ok a, t) => (f a).settle t
      | (.error e, t) => (.error e, t) := by
  rcases h : p.settle s with ⟨r, t⟩
  have hrun : p.run.run s = (r, t) := h
  unfold settle
  rw [ExceptT.run_bind, StateT.run_bind, hrun]
  cases r <;> rfl

theorem settle_tryCatch (p : Promise α) (f : String → Promise α) :
    settle (tryCatch p f) s =
      match p.settle s with
      | (.ok a, t) => (.ok a, t)
      | (.error e, t) => (f e).settle t := by
  rcases h : p.settle s with ⟨r, t⟩
  have hrun : p.run.run s = (r, t) := h
  unfold settle
  rw [ExceptT.run_tryCatch, StateT.run_bind, hrun]
  cases r <;> rfl

theorem settle_call_none (f : Startup → Startup) : settle (call none f) s = (.ok (), f s) := rfl

theorem settle_call_some (e : String) (f : Startup → Startup) :
    settle (call (some e) f) s = (.error e, s) := rfl

end Promise

/-- The call that changes the service has its effect. -/
def Calls.changesService (calls : Calls) : StartupMode → Bool
  | .boot => calls.serviceInstall.isNone
  | .login | .disabled => calls.serviceUninstall.isNone

/-- The wait ends without having seen the service run. -/
def Calls.waitFails (calls : Calls) : Bool :=
  match calls.waitResult with
  | .ok _ => false
  | .error _ => true

/-- A call after the one that changes the service rejects. -/
def Calls.laterFails (calls : Calls) : StartupMode → Bool
  | .boot => calls.waitFails || calls.prepareDataDir.isSome || calls.disable.isSome
  | .login => calls.prepareDataDir.isSome || calls.enable.isSome
  | .disabled => calls.prepareDataDir.isSome || calls.disable.isSome

/-- The service after the call that changes it and, for `boot`, after the rollback. -/
def Calls.serviceLeft (calls : Calls) : StartupMode → Bool
  | .boot => calls.serviceUninstall.isSome
  | .login | .disabled => false

section Switch

variable {s : Startup} {calls : Calls}

open Promise in
/-- How a switch to `boot` goes on after the installation. -/
theorem settle_waitServiceRunning :
    calls.waitServiceRunning.settle s =
      match calls.waitResult with
      | .ok _ => (.ok (), { s with svc := { s.svc with running := true } })
      | .error e => (.error e, s) := by
  unfold Calls.waitServiceRunning
  cases calls.waitResult <;> rfl

open Promise in
/-- If its first call rejects, a switch rejects and changes nothing. -/
theorem switch_refused {mode : StartupMode} (h : calls.changesService mode = false) :
    ∃ e, switch s mode calls = (.error e, s) := by
  have hsome {answer : Option String} (h : answer.isNone = false) : ∃ e, answer = some e := by
    cases answer with
    | none => cases h
    | some e => exact ⟨e, rfl⟩
  cases mode with
  | boot =>
    obtain ⟨e, he⟩ := hsome h
    exact ⟨e, by simp only [switch, setStartupMode, Calls.invokeServiceInstall, he, settle_bind,
      settle_call_some]⟩
  | login | disabled =>
    obtain ⟨e, he⟩ := hsome h
    exact ⟨e, by simp only [switch, setStartupMode, Calls.invokeServiceUninstall, he, settle_bind,
      settle_call_some]⟩

open Promise in
/-- If all its calls resolve, a switch resolves with its target. -/
theorem switch_resolved {mode : StartupMode} (h : calls.changesService mode = true)
    (hlater : calls.laterFails mode = false) :
    ∃ t, switch s mode calls = (.ok mode, t) ∧ t.mode = mode ∧ t.both = false := by
  cases mode with
  | boot =>
    simp only [Calls.changesService, Calls.laterFails, Bool.or_eq_false_iff,
      Option.isNone_iff_eq_none, Option.isSome_eq_false_iff, Calls.waitFails] at h hlater
    obtain ⟨⟨hwait, hprepare⟩, hdisable⟩ := hlater
    split at hwait
    · rename_i st hst
      refine ⟨⟨⟨true, true⟩, false⟩, ?_, rfl, rfl⟩
      simp only [switch, setStartupMode, bootOnceInstalled, Calls.invokeServiceInstall,
        Calls.invokePrepareDataDir, Calls.invokeDisable, h, hprepare, hdisable, settle_bind,
        settle_tryCatch, settle_waitServiceRunning, hst, settle_call_none, settle_pure, id_eq]
    · cases hwait
  | login =>
    simp only [Calls.changesService, Calls.laterFails, Bool.or_eq_false_iff,
      Option.isNone_iff_eq_none, Option.isSome_eq_false_iff] at h hlater
    refine ⟨⟨⟨false, false⟩, true⟩, ?_, rfl, rfl⟩
    simp only [switch, setStartupMode, Calls.invokeServiceUninstall, Calls.invokePrepareDataDir,
      Calls.invokeEnable, h, hlater, settle_bind, settle_call_none, settle_pure, id_eq]
  | disabled =>
    simp only [Calls.changesService, Calls.laterFails, Bool.or_eq_false_iff,
      Option.isNone_iff_eq_none, Option.isSome_eq_false_iff] at h hlater
    refine ⟨⟨⟨false, false⟩, false⟩, ?_, rfl, rfl⟩
    simp only [switch, setStartupMode, Calls.invokeServiceUninstall, Calls.invokePrepareDataDir,
      Calls.invokeDisable, h, hlater, settle_bind, settle_call_none, settle_pure, id_eq]

open Promise in
/-- If a later call rejects, a switch to `boot` rejects; the service stays if the rollback
    rejects too. -/
theorem switch_boot_failed (h : calls.changesService .boot = true)
    (hlater : calls.laterFails .boot = true) :
    ∃ e t, switch s .boot calls = (.error e, t) ∧ t.login = s.login ∧
      (t.svc.installed || t.svc.running) = calls.serviceLeft .boot := by
  have hinstall : calls.serviceInstall = none := Option.isNone_iff_eq_none.mp h
  -- the body of the `try` rejects with the service installed
  obtain ⟨e, running, hbody⟩ : ∃ e running,
      (bootOnceInstalled calls).settle { s with svc := { s.svc with installed := true } } =
        (.error e, { s with svc := ⟨true, running⟩ }) := by
    simp only [Calls.laterFails, Calls.waitFails, Bool.or_eq_true] at hlater
    simp only [bootOnceInstalled, settle_bind, settle_waitServiceRunning,
      Calls.invokePrepareDataDir, Calls.invokeDisable]
    cases hwait : calls.waitResult with
    | error e => exact ⟨e, s.svc.running, rfl⟩
    | ok st =>
      cases hprepare : calls.prepareDataDir with
      | some e => exact ⟨e, true, rfl⟩
      | none =>
        cases hdisable : calls.disable with
        | some e => exact ⟨e, true, rfl⟩
        | none => simp [hwait, hprepare, hdisable] at hlater
  cases huninstall : calls.serviceUninstall with
  | none =>
    refine ⟨e, { s with svc := ⟨false, false⟩ }, ?_, rfl, by simp [Calls.serviceLeft, huninstall]⟩
    simp only [switch, setStartupMode, Calls.invokeServiceInstall, Calls.invokeServiceUninstall,
      hinstall, huninstall, settle_bind, settle_call_none, settle_tryCatch, hbody, settle_throw]
  | some e' =>
    refine ⟨e, { s with svc := ⟨true, running⟩ }, ?_, rfl, by simp [Calls.serviceLeft, huninstall]⟩
    simp only [switch, setStartupMode, Calls.invokeServiceInstall, Calls.invokeServiceUninstall,
      hinstall, huninstall, settle_bind, settle_call_none, settle_call_some, settle_tryCatch,
      hbody, settle_throw, settle_pure]

open Promise in
/-- If a later call rejects, a switch to `login` or `disabled` rejects, and the service is
    gone. -/
theorem switch_failed {mode : StartupMode} (hmode : mode ≠ .boot)
    (h : calls.changesService mode = true) (hlater : calls.laterFails mode = true) :
    ∃ e, switch s mode calls = (.error e, { s with svc := ⟨false, false⟩ }) := by
  cases mode with
  | boot => exact absurd rfl hmode
  | login =>
    have huninstall : calls.serviceUninstall = none := Option.isNone_iff_eq_none.mp h
    simp only [switch, setStartupMode, Calls.invokeServiceUninstall, Calls.invokePrepareDataDir,
      Calls.invokeEnable, huninstall, settle_bind, settle_call_none]
    cases hprepare : calls.prepareDataDir with
    | some e => exact ⟨e, rfl⟩
    | none =>
      cases henable : calls.enable with
      | some e => exact ⟨e, rfl⟩
      | none => simp [Calls.laterFails, hprepare, henable] at hlater
  | disabled =>
    have huninstall : calls.serviceUninstall = none := Option.isNone_iff_eq_none.mp h
    simp only [switch, setStartupMode, Calls.invokeServiceUninstall, Calls.invokePrepareDataDir,
      Calls.invokeDisable, huninstall, settle_bind, settle_call_none]
    cases hprepare : calls.prepareDataDir with
    | some e => exact ⟨e, rfl⟩
    | none =>
      cases hdisable : calls.disable with
      | some e => exact ⟨e, rfl⟩
      | none => simp [Calls.laterFails, hprepare, hdisable] at hlater

end Switch

/-! ## Exclusive, or rolled back -/

/-- A switch that has settled. -/
structure Switched where
  before : Startup
  target : StartupMode
  result : Except String StartupMode
  after : Startup

/-- Either the switch has resolved with its target, and then that is the mode and not both
    carriers are present; or it has rejected, and then the mode is the one before. -/
def Switched.Exclusive (e : Switched) : Prop :=
  match e.result with
  | .ok mode => mode = e.target ∧ e.after.mode = e.target ∧ e.after.both = false
  | .error _ => e.after.mode = e.before.mode

def switched (s : Startup) (mode : StartupMode) (calls : Calls) : Switched where
  before := s
  target := mode
  result := (switch s mode calls).1
  after := (switch s mode calls).2

/-- If a later call of the switch rejects after the first one has changed the service, the
    service ends up as it was: a switch to `boot` uninstalls it again exactly if it was not
    there, and another switch does not start with the service. -/
def RollsBack (s : Startup) (a : StartupMode × Calls) : Prop :=
  a.2.changesService a.1 = true → a.2.laterFails a.1 = true →
    (s.mode = .boot ↔ a.2.serviceLeft a.1 = true)

instance (s : Startup) (a : StartupMode × Calls) : Decidable (RollsBack s a) :=
  inferInstanceAs (Decidable (_ → _ → _))

/-- With the login item as it was, the mode is the one before exactly if the service is
    there or not as before. -/
theorem Startup.mode_eq_iff {s t : Startup} (hlogin : t.login = s.login) :
    t.mode = s.mode ↔ (s.mode = .boot ↔ (t.svc.installed || t.svc.running) = true) := by
  unfold Startup.mode deriveMode
  rw [hlogin]
  cases s.svc.installed || s.svc.running <;> cases t.svc.installed || t.svc.running <;>
    cases s.login <;> simp

/-- The step lemma: one switch is exclusive exactly if it rolls back where it has to. -/
theorem switched_exclusive_iff (s : Startup) (mode : StartupMode) (calls : Calls) :
    (switched s mode calls).Exclusive ↔ RollsBack s (mode, calls) := by
  unfold RollsBack
  cases hchanges : calls.changesService mode with
  | false =>
    obtain ⟨e, he⟩ := switch_refused (s := s) hchanges
    simp [Switched.Exclusive, switched, he]
  | true =>
    cases hlater : calls.laterFails mode with
    | false =>
      obtain ⟨t, ht, hmode, hboth⟩ := switch_resolved (s := s) hchanges hlater
      simp [Switched.Exclusive, switched, ht, hmode, hboth]
    | true =>
      simp only [forall_const]
      by_cases hboot : mode = .boot
      · subst hboot
        obtain ⟨e, t, ht, hlogin, hleft⟩ := switch_boot_failed (s := s) hchanges hlater
        rw [Switched.Exclusive, switched, ht, ← hleft]
        exact Startup.mode_eq_iff hlogin
      · obtain ⟨e, he⟩ := switch_failed (s := s) hboot hchanges hlater
        have hleft : calls.serviceLeft mode = false := by
          cases mode with
          | boot => exact absurd rfl hboot
          | login | disabled => rfl
        rw [Switched.Exclusive, switched, he, hleft]
        exact Startup.mode_eq_iff rfl

/-! ## Sequences of switches -/

/-- One switch after the other, from the carriers `s`. -/
def startup (s : Startup) : Machine Startup (StartupMode × Calls) Switched where
  init := s
  step s a := some ((switch s a.1 a.2).2, [switched s a.1 a.2])

/-- The target of the last switch that has resolved, or else the mode at the start. -/
def lastResolved (mode : StartupMode) (events : List Switched) : StartupMode :=
  events.foldl (fun mode e =>
    match e.result with
    | .ok target => target
    | .error _ => mode) mode

theorem lastResolved_append (mode : StartupMode) (events : List Switched) (e : Switched) :
    lastResolved mode (events ++ [e]) =
      match e.result with
      | .ok target => target
      | .error _ => lastResolved mode events := by
  rw [lastResolved, List.foldl_append]
  rfl

section Runs

variable {s t : Startup} {tr : List ((StartupMode × Calls) × List Switched)}

/-- When is switching exclusive, with a rollback of what fails? In every sequence of
    switches from any carriers, all of them are exclusive if and only if each of them rolls
    back where it has to; and then the mode at the end is the target of the last switch
    that has resolved. -/
theorem startupMode_iff (h : (startup s).Run Machine.anyStep s tr t) :
    ((∀ e ∈ Machine.outputs tr, e.Exclusive) ↔ (startup s).Run RollsBack s tr t) ∧
      ((startup s).Run RollsBack s tr t → t.mode = lastResolved s.mode (Machine.outputs tr)) := by
  induction h with
  | nil => exact ⟨⟨fun _ => .nil _, fun _ => by simp⟩, fun _ => rfl⟩
  | @snoc t u tr a o hr _ hst ih =>
    obtain ⟨mode, calls⟩ := a
    have ho : o = [switched t mode calls] := by
      cases hst
      rfl
    have hu : u = (switched t mode calls).after := by
      cases hst
      rfl
    have hstep := switched_exclusive_iff t mode calls
    rw [Machine.outputs_append, Machine.outputs_singleton, ho]
    refine ⟨⟨?_, ?_⟩, ?_⟩
    · intro hall
      have hbefore := ih.1.mp fun e he => hall e (List.mem_append_left _ he)
      have hnow := hstep.mp (hall _ (List.mem_append_right _ (List.mem_singleton.mpr rfl)))
      exact ho ▸ hbefore.snoc hnow hst
    · intro hrun e he
      obtain ⟨t', hbefore, hnow, -⟩ := hrun.snoc_inv
      obtain rfl := hr.unique hbefore
      rcases List.mem_append.mp he with he | he
      · exact ih.1.mpr hbefore e he
      · rw [List.mem_singleton.mp he]
        exact hstep.mpr hnow
    · intro hrun
      obtain ⟨t', hbefore, hnow, -⟩ := hrun.snoc_inv
      obtain rfl := hr.unique hbefore
      have hmode := ih.2 hbefore
      have hexclusive := hstep.mpr hnow
      rw [lastResolved_append, ← hmode, hu]
      unfold Switched.Exclusive at hexclusive
      split at hexclusive
      · exact hexclusive.2.1.trans hexclusive.1.symm
      · exact hexclusive

end Runs

/-! ## A data directory that cannot be prepared -/

/-- The service runs at the first poll, and every call resolves. -/
def quietCalls : Calls where
  serviceInstall := none
  serviceUninstall := none
  prepareDataDir := none
  enable := none
  disable := none
  polls := ⟨[⟨.ok ⟨true, true⟩, 0⟩], rfl⟩

/-- `prepare_data_dir` rejects. -/
def unpreparedCalls : Calls := { quietCalls with prepareDataDir := some "permission denied" }

/-- No carrier, then the service. -/
def noCarrier : Startup := ⟨⟨false, false⟩, false⟩

def serviceOnly : Startup := ⟨⟨true, true⟩, false⟩

/-- To `boot`, to `login` (rolled back, as nothing has changed yet), and to `disabled`. -/
def switchesBack : List (StartupMode × Calls) :=
  [(.boot, quietCalls), (.login, { quietCalls with serviceUninstall := some "cancelled" }),
   (.disabled, quietCalls)]

theorem switchesBack_possible :
    ((startup noCarrier).exec Machine.anyStep noCarrier switchesBack).isSome = true := by decide

def switchesBackRun : List ((StartupMode × Calls) × List Switched) × Startup :=
  ((startup noCarrier).exec Machine.anyStep noCarrier switchesBack).get switchesBack_possible

theorem startupMode_iff_switchesBack :
    ((∀ e ∈ Machine.outputs switchesBackRun.1, e.Exclusive) ↔
        (startup noCarrier).Run RollsBack noCarrier switchesBackRun.1 switchesBackRun.2) ∧
      ((startup noCarrier).Run RollsBack noCarrier switchesBackRun.1 switchesBackRun.2 →
        switchesBackRun.2.mode =
          lastResolved noCarrier.mode (Machine.outputs switchesBackRun.1)) :=
  startupMode_iff (Machine.exec_get_run switchesBack_possible)

/-- A switch from the service to `disabled` whose `prepare_data_dir` fails rejects, and the
    service is gone; one to `boot`, where the service is already, does the same. -/
theorem setStartupMode_fails :
    serviceOnly.mode = .boot ∧
      switch serviceOnly .disabled unpreparedCalls = (.error "permission denied", noCarrier) ∧
      switch serviceOnly .boot unpreparedCalls = (.error "permission denied", noCarrier) ∧
      noCarrier.mode = .disabled ∧
      ¬(switched serviceOnly .disabled unpreparedCalls).Exclusive ∧
      ¬(switched serviceOnly .boot unpreparedCalls).Exclusive := by
  refine ⟨rfl, rfl, rfl, rfl, ?_, ?_⟩
  · rw [switched_exclusive_iff]
    decide
  · rw [switched_exclusive_iff]
    decide

end EasyJob.Frontend
