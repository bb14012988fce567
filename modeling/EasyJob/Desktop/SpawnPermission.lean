import EasyJob.Desktop.Session

/-!
# The permission to spawn an agent

`run` derives the permission from the state of the system service once, at
start-up; `service_install` and `service_uninstall` leave it as it is.

* `spawnPermission_iff`: a session spawns only while the service is not installed
  and refuses only while it is, if and only if at each of its steps that spawns or
  refuses the service is in the state that the query at start-up has found.
* `spawnPermission_fails`: after a switch of the startup mode it does neither.
-/

namespace EasyJob.Desktop

open Transition

variable {κ : Type}

/-! ## Lawful events -/

/-- The answer says that this session must not spawn an agent. -/
def Forbidden (result : Except String Unit) : Prop :=
  result = .error serviceNotRunning ∨ result = .error restartThroughService

/-- Agents are spawned only while the service is not installed, and spawning is refused
    only while it is. -/
def SessionEvent.Lawful : SessionEvent → Prop
  | .spawned installed => installed = false
  | .answered result installed => Forbidden result → installed = true

/-- The step spawns an agent or finds that spawning is not allowed. -/
def UsesPermission (s : Session κ) (a : SessionAction κ) : Prop :=
  match a with
  | .spawn _ (.ok ()) => True
  | .decide _ => s.allowSpawn = false
  | _ => False

/-- At the steps that use the permission, the service is in the state that the query at
    start-up has found. -/
def AsAtStartup (found : Bool) (s : Session κ) (a : SessionAction κ) : Prop :=
  UsesPermission s a → s.installed = found

/-- The other answers are not taken for refusals. -/
theorem not_forbidden_ok : ¬Forbidden (.ok ()) := by simp [Forbidden]

theorem not_forbidden_connect :
    ¬Forbidden (.error "Failed to connect to easyjob-agent daemon") := by
  simp [Forbidden, serviceNotRunning, restartThroughService]

theorem not_forbidden_spawn (e : String) : ¬Forbidden (.error ("Spawn process error: " ++ e)) := by
  have hspawn : "Spawn process error: ".toList = 'S' :: _ := String.toList_ofList
  have hhead (text : List Char) (h : text.head? ≠ some 'S') :
      "Spawn process error: " ++ e ≠ String.ofList text := by
    intro heq
    apply h
    rw [← String.toList_ofList (l := text), ← heq, String.toList_append, hspawn]
    rfl
  intro h
  rcases h with h | h
  · exact hhead _ (by decide) (Except.error.inj h)
  · exact hhead _ (by decide) (Except.error.inj h)

/-! ## The invariant -/

/-- The call has read `allow_spawn` as true. -/
def Proc.Permitted : Proc κ → Prop
  | .ensure phase caller => phase = .spawning ∨ caller ≠ .client
  | .restartShutdown _ | .restartDisconnect | .restartSpawn => True
  | .restartCheck | .returned => False

/-- The permission is what start-up has made it, and calls go past the check only with
    it. -/
structure SessionInv (found : Bool) (s : Session κ) : Prop where
  allowSpawn : s.allowSpawn = !found
  permitted : ∀ p ∈ s.procs, p.Permitted → found = false

variable {found : Bool} {s s' : Session κ}

/-- Whoever reads the permission learns what was found at start-up. -/
theorem SessionInv.found_eq (h : SessionInv found s) : found = !s.allowSpawn := by
  rw [h.allowSpawn, Bool.not_not]

theorem SessionInv.setProc (h : SessionInv found s) (i : ℕ) {p : Proc κ}
    (hp : p.Permitted → found = false) : SessionInv found (s.setProc i p) := by
  refine ⟨h.allowSpawn, fun q hq hperm => ?_⟩
  rcases List.mem_or_eq_of_mem_set hq with hq | rfl
  · exact h.permitted q hq hperm
  · exact hp hperm

theorem SessionInv.addProc (h : SessionInv found s) {p : Proc κ} (hp : ¬p.Permitted) :
    SessionInv found { s with procs := s.procs ++ [p] } := by
  refine ⟨h.allowSpawn, fun q hq hperm => ?_⟩
  rcases List.mem_append.mp hq with hq | hq
  · exact h.permitted q hq hperm
  · rw [List.mem_singleton.mp hq] at hperm
    exact absurd hperm hp

theorem SessionInv.of_getElem? (h : SessionInv found s) {i : ℕ} {p : Proc κ}
    (hget : s.procs[i]? = some p) (hp : p.Permitted) : found = false :=
  h.permitted p (List.mem_of_getElem? hget) hp

/-- A call inside `restart_agent` has the permission in every phase. -/
theorem SessionInv.caller (h : SessionInv found s) {i : ℕ} {phase : EnsurePhase}
    {caller : EnsureCaller} (hget : s.procs[i]? = some (.ensure phase caller))
    (hc : caller ≠ .client) : found = false :=
  h.of_getElem? hget (.inr hc)

theorem SessionInv.ensureReturn (h : SessionInv found s) {i : ℕ} {caller : EnsureCaller}
    (hc : caller ≠ .client → found = false) {result : Except String κ}
    {r : Session κ × List SessionEvent} (hr : ensureReturn s i caller result = r) :
    SessionInv found r.1 := by
  have hs (lock : Option ℕ) : SessionInv found { s with connectLock := lock } :=
    ⟨h.allowSpawn, h.permitted⟩
  rw [← hr]
  cases caller with
  | client => exact (hs _).setProc i fun hperm => hperm.elim
  | restart =>
    cases result with
    | ok _ => exact (hs _).setProc i fun _ => hc (by simp)
    | error _ => exact (hs _).setProc i fun _ => hc (by simp)
  | restarted => exact (hs _).setProc i fun hperm => hperm.elim

/-- The events at the end of `ensure_connected` are its answer. -/
theorem mem_ensureReturn {i : ℕ} {caller : EnsureCaller} {result : Except String κ}
    {r : Session κ × List SessionEvent} (hr : ensureReturn s i caller result = r) :
    .answered (result.map fun _ => ()) s.installed ∈ r.2 ∧
      ∀ e ∈ r.2, e = .answered (result.map fun _ => ()) s.installed := by
  rw [← hr]
  cases caller <;> cases result <;> simp [EasyJob.Desktop.ensureReturn]

/-! ## The step lemma -/

/-- What a step does: it keeps the invariant, and its events are lawful if and only if
    the service is as it was at start-up or the step does not use the permission. -/
structure StepSpec (found : Bool) (s : Session κ) (a : SessionAction κ) (s' : Session κ)
    (o : List SessionEvent) : Prop where
  inv : SessionInv found s'
  lawful : (∀ e ∈ o, e.Lawful) ↔ AsAtStartup found s a

namespace StepSpec

variable {a : SessionAction κ} {o : List SessionEvent}

/-- A step that does not use the permission, with lawful events. -/
theorem of_unused (h : SessionInv found s') (ha : ¬UsesPermission s a)
    (hlawful : ∀ e ∈ o, e.Lawful) : StepSpec found s a s' o :=
  ⟨h, fun _ hu => absurd hu ha, fun _ => hlawful⟩

theorem silent (h : SessionInv found s') (ha : ¬UsesPermission s a) : StepSpec found s a s' [] :=
  of_unused h ha (by simp)

/-- A phase change of call `i` inside `ensure_connected`, with the rest of the state as
    `t` has it. -/
theorem ensure {t : Session κ} (h : SessionInv found t) {i : ℕ} {phase phase' : EnsurePhase}
    {caller : EnsureCaller} (hget : t.procs[i]? = some (.ensure phase caller))
    (hphase : phase' ≠ .spawning) (ha : ¬UsesPermission s a) :
    StepSpec found s a (t.setProc i (.ensure phase' caller)) [] :=
  silent (h.setProc i fun hperm => h.caller hget (hperm.resolve_left hphase)) ha

/-- The end of `ensure_connected` with an answer that is no refusal. -/
theorem answered {t : Session κ} (h : SessionInv found t) {i : ℕ} {phase : EnsurePhase}
    {caller : EnsureCaller} (hget : t.procs[i]? = some (.ensure phase caller))
    {result : Except String κ} (hr : ensureReturn t i caller result = (s', o))
    (hno : ¬Forbidden (result.map fun _ => ())) (ha : ¬UsesPermission s a) :
    StepSpec found s a s' o := by
  apply of_unused (h.ensureReturn (h.caller hget) hr) ha
  intro e he
  rw [(mem_ensureReturn hr).2 e he]
  exact fun hf => absurd hf hno

/-- A refusal, with at least one answer that says so. -/
theorem refused (h : SessionInv found s) (hs' : SessionInv found s') (ha : UsesPermission s a)
    (hallow : s.allowSpawn = false) {result : Except String Unit} (hf : Forbidden result)
    (hmem : .answered result s.installed ∈ o)
    (hall : ∀ e ∈ o, e = .answered result s.installed) : StepSpec found s a s' o := by
  have hfound : found = true := by rw [h.found_eq, hallow, Bool.not_false]
  refine ⟨hs', ?_, ?_⟩
  · intro hlawful _
    rw [hfound]
    exact hlawful _ hmem hf
  · intro hstart e he
    rw [hall e he]
    intro _
    rw [hstart ha, hfound]

/-- A spawn. -/
theorem spawned (hs' : SessionInv found s') (ha : UsesPermission s a) (hfound : found = false) :
    StepSpec found s a s' [.spawned s.installed] := by
  refine ⟨hs', ?_, ?_⟩
  · intro hlawful _
    rw [hfound]
    exact hlawful _ (List.mem_singleton.mpr rfl)
  · intro hstart e he
    rw [List.mem_singleton.mp he]
    exact (hstart ha).trans hfound

end StepSpec

/-- Calls read the permission (lines 104 and 165). -/
theorem SessionInv.decide {i : ℕ} {o : List SessionEvent} (h : SessionInv found s)
    (hst : sessionStep s (.decide i) = some (s', o)) : StepSpec found s (.decide i) s' o := by
  cases hallow : s.allowSpawn with
  | true =>
    have hfound : found = false := by rw [h.found_eq, hallow, Bool.not_true]
    have ha : ¬UsesPermission s (.decide i) := by simp [UsesPermission, hallow]
    simp only [sessionStep, hallow, if_true] at hst
    split at hst
    · cases hst
      exact .silent (h.setProc i fun _ => hfound) ha
    · cases hst
      exact .silent (h.setProc i fun _ => hfound) ha
    · cases hst
  | false =>
    simp only [sessionStep, hallow, Bool.false_eq_true, if_false] at hst
    split at hst
    · rename_i hget
      have hr := Option.some.inj hst
      obtain ⟨hmem, hall⟩ := mem_ensureReturn hr
      exact .refused h (h.ensureReturn (h.caller hget) hr) hallow hallow (.inl rfl) hmem hall
    · cases hst
      exact .refused h (h.setProc i fun hperm => hperm.elim) hallow hallow (.inr rfl)
        (List.mem_singleton.mpr rfl) fun e he => List.mem_singleton.mp he
    · cases hst

/-- Calls spawn an agent (lines 110 and 174). -/
theorem SessionInv.spawn {i : ℕ} {result : Except String Unit} {o : List SessionEvent}
    (h : SessionInv found s) (hst : sessionStep s (.spawn i result) = some (s', o)) :
    StepSpec found s (.spawn i result) s' o := by
  cases result with
  | ok _ =>
    simp only [sessionStep] at hst
    split at hst
    · rename_i hget
      have hfound := h.of_getElem? hget (.inl rfl)
      have hs : SessionInv found { s with spawnedByUs := true } := ⟨h.allowSpawn, h.permitted⟩
      cases hst
      exact .spawned (hs.setProc i fun _ => hfound) trivial hfound
    · rename_i hget
      have hfound := h.of_getElem? hget trivial
      cases hst
      exact .spawned (h.setProc i fun _ => hfound) trivial hfound
    · cases hst
  | error e =>
    have ha : ¬UsesPermission s (.spawn i (.error e)) := by simp [UsesPermission]
    simp only [sessionStep] at hst
    split at hst
    · rename_i hget
      cases hst
      exact .silent (h.setProc i fun _ => h.of_getElem? hget (.inl rfl)) ha
    · cases hst
      apply StepSpec.of_unused (h.setProc i (p := .returned) fun hperm => hperm.elim) ha
      intro e' he'
      rw [List.mem_singleton.mp he']
      exact fun hf => absurd hf (not_forbidden_spawn e)
    · cases hst

/-- `IpcClient::connect` returns (lines 85 and 119). -/
theorem SessionInv.connect {i : ℕ} {result : Option κ} {o : List SessionEvent}
    (h : SessionInv found s) (hst : sessionStep s (.connect i result) = some (s', o)) :
    StepSpec found s (.connect i result) s' o := by
  have ha : ¬UsesPermission s (.connect i result) := by simp [UsesPermission]
  cases result with
  | some client =>
    have hs : SessionInv found { s with client := some client } := ⟨h.allowSpawn, h.permitted⟩
    simp only [sessionStep] at hst
    split at hst
    · rename_i hget
      exact .answered hs hget (Option.some.inj hst) not_forbidden_ok ha
    · rename_i hget
      exact .answered hs hget (Option.some.inj hst) not_forbidden_ok ha
    · cases hst
  | none =>
    simp only [sessionStep] at hst
    split at hst
    · rename_i hget
      cases hst
      exact .ensure h hget (by simp) ha
    · rename_i hget
      split_ifs at hst
      · cases hst
        exact .ensure h hget (by simp) ha
      · exact .answered h hget (Option.some.inj hst) not_forbidden_connect ha
    · cases hst

theorem SessionInv.step {a : SessionAction κ} {o : List SessionEvent} (h : SessionInv found s)
    (hst : sessionStep s a = some (s', o)) : StepSpec found s a s' o := by
  cases a with
  | ensureConnected | restartAgent =>
    cases hst
    exact .silent (h.addProc (by simp [Proc.Permitted])) (by simp [UsesPermission])
  | disconnect | serviceInstall _ | serviceUninstall _ =>
    cases hst
    exact .silent ⟨h.allowSpawn, h.permitted⟩ (by simp [UsesPermission])
  | check i =>
    have ha : ¬UsesPermission s (.check i) := by simp [UsesPermission]
    simp only [sessionStep] at hst
    split at hst
    · rename_i hget _
      exact .answered h hget (Option.some.inj hst) not_forbidden_ok ha
    · rename_i hget _
      exact .answered h hget (Option.some.inj hst) not_forbidden_ok ha
    · rename_i hget _
      cases hst
      exact .ensure h hget (by simp) ha
    · rename_i hget _
      cases hst
      exact .ensure h hget (by simp) ha
    · cases hst
  | lock i =>
    have hs : SessionInv found { s with connectLock := some i } := ⟨h.allowSpawn, h.permitted⟩
    simp only [sessionStep] at hst
    split at hst
    · rename_i hget _
      cases hst
      exact .ensure hs hget (by simp) (by simp [UsesPermission])
    · cases hst
  | connect i result => exact h.connect hst
  | cooldown i now =>
    have ha : ¬UsesPermission s (.cooldown i now) := by simp [UsesPermission]
    have hs : SessionInv found { s with lastSpawnAttempt := some now } :=
      ⟨h.allowSpawn, h.permitted⟩
    simp only [sessionStep] at hst
    split at hst
    · rename_i hget
      split_ifs at hst
      · cases hst
        exact .ensure h hget (by simp) ha
      · cases hst
        exact .ensure hs hget (by simp) ha
    · cases hst
  | decide i => exact h.decide hst
  | spawn i result => exact h.spawn hst
  | shutdown i =>
    simp only [sessionStep] at hst
    split at hst
    · rename_i hget
      cases hst
      exact .silent (h.setProc i fun _ => h.of_getElem? hget trivial) (by simp [UsesPermission])
    · cases hst
  | dropClient i =>
    have hs : SessionInv found { s with client := none } := ⟨h.allowSpawn, h.permitted⟩
    simp only [sessionStep] at hst
    split at hst
    · rename_i hget
      cases hst
      exact .silent (hs.setProc i fun _ => h.of_getElem? hget trivial) (by simp [UsesPermission])
    · cases hst

/-! ## Whole sessions -/

section Runs

variable {installed : Bool} {query : Except String ServiceStatus}
  {tr : List (SessionAction κ × List SessionEvent)}

/-- The answer of the query at start-up. -/
def foundAtStartup (query : Except String ServiceStatus) : Bool :=
  (serviceStatusSyncFallback query).installed

theorem session_inv (h : (session κ installed query).Run Machine.anyStep
    (session κ installed query).init tr s) : SessionInv (foundAtStartup query) s :=
  h.invariant (I := SessionInv (foundAtStartup query)) ⟨rfl, by intro p hp; cases hp⟩
    fun _ _ _ _ hi _ hst => (hi.step hst).inv

/-- Does the permission follow the service? In every run of a session, an agent is
    spawned only while the service is not installed and spawning is refused only while
    it is, if and only if at every step of the run that spawns or refuses the service is
    in the state that the query at start-up has found. -/
theorem spawnPermission_iff (h : (session κ installed query).Run Machine.anyStep
    (session κ installed query).init tr s) :
    (∀ e ∈ Machine.outputs tr, e.Lawful) ↔
      (session κ installed query).Run (AsAtStartup (foundAtStartup query))
        (session κ installed query).init tr s := by
  induction h with
  | nil => exact ⟨fun _ => .nil _, fun _ => by simp⟩
  | snoc hr _ hst ih =>
    have hstep := (session_inv hr).step hst
    rw [Machine.outputs_append, Machine.outputs_singleton]
    constructor
    · intro hlawful
      have hbefore := ih.mp fun e he => hlawful e (List.mem_append_left _ he)
      have hnow := hstep.lawful.mp fun e he => hlawful e (List.mem_append_right _ he)
      exact hbefore.snoc hnow hst
    · intro hrun e he
      obtain ⟨t, hbefore, hnow, _⟩ := hrun.snoc_inv
      obtain rfl := hr.unique hbefore
      rcases List.mem_append.mp he with he | he
      · exact ih.mpr hbefore e he
      · exact hstep.lawful.mpr hnow e he

end Runs

/-- The startup mode is switched to the system service, and the agent is restarted. -/
def installActions : List (SessionAction Unit) :=
  [.serviceInstall true, .restartAgent, .decide 0, .check 0, .lock 0, .check 0,
   .connect 0 (some ()), .shutdown 0, .dropClient 0, .spawn 0 (.ok ())]

/-- It is switched back in a session that has found the service at start-up. -/
def uninstallActions : List (SessionAction Unit) :=
  [.serviceUninstall false, .restartAgent, .decide 0]

/-- Each of these steps is possible. -/
theorem installActions_possible :
    ((session Unit false (.ok ⟨false⟩)).exec Machine.anyStep
      (session Unit false (.ok ⟨false⟩)).init installActions).isSome = true := by decide

theorem uninstallActions_possible :
    ((session Unit true (.ok ⟨true⟩)).exec Machine.anyStep
      (session Unit true (.ok ⟨true⟩)).init uninstallActions).isSome = true := by decide

instance (s : Session κ) : DecidablePred (UsesPermission s)
  | .decide _ => inferInstanceAs (Decidable (s.allowSpawn = false))
  | .spawn _ (.ok ()) => isTrue trivial
  | .spawn _ (.error _) | .ensureConnected | .restartAgent | .disconnect | .serviceInstall _
  | .serviceUninstall _ | .check _ | .lock _ | .connect _ _ | .cooldown _ _ | .shutdown _
  | .dropClient _ => isFalse not_false

instance (found : Bool) (s : Session κ) (a : SessionAction κ) : Decidable (AsAtStartup found s a) :=
  inferInstanceAs (Decidable (_ → _))

def installRun : List (SessionAction Unit × List SessionEvent) × Session Unit :=
  ((session Unit false (.ok ⟨false⟩)).exec Machine.anyStep
    (session Unit false (.ok ⟨false⟩)).init installActions).get installActions_possible

/-- The agent is restarted before the startup mode is switched. -/
def earlyRestartActions : List (SessionAction Unit) :=
  installActions.tail ++ [.serviceInstall true]

theorem earlyRestart_possible :
    ((session Unit false (.ok ⟨false⟩)).exec (AsAtStartup false)
      (session Unit false (.ok ⟨false⟩)).init earlyRestartActions).isSome = true := by
  decide +kernel

def earlyRestartRun : List (SessionAction Unit × List SessionEvent) × Session Unit :=
  ((session Unit false (.ok ⟨false⟩)).exec (AsAtStartup false)
    (session Unit false (.ok ⟨false⟩)).init earlyRestartActions).get earlyRestart_possible

/-- Both sides of the equivalence are false for the first session, and both are true for it when
    the agent is restarted earlier. -/
theorem spawnPermission_iff_install :
    ((∀ e ∈ Machine.outputs installRun.1, e.Lawful) ↔
      (session Unit false (.ok ⟨false⟩)).Run (AsAtStartup (foundAtStartup (.ok ⟨false⟩)))
        (session Unit false (.ok ⟨false⟩)).init installRun.1 installRun.2) ∧
      .spawned false ∈ Machine.outputs earlyRestartRun.1 ∧
        ∀ e ∈ Machine.outputs earlyRestartRun.1, e.Lawful := by
  refine ⟨spawnPermission_iff (Machine.exec_get_run installActions_possible), by decide +kernel, ?_⟩
  have hrun := Machine.exec_get_run earlyRestart_possible
  exact (spawnPermission_iff (hrun.mono fun _ _ _ => trivial)).mpr hrun

/-- The first session spawns an agent beside the service; the second refuses to spawn one
    for a service that is not there. -/
theorem spawnPermission_fails :
    (∃ tr s, (session Unit false (.ok ⟨false⟩)).Run Machine.anyStep
        (session Unit false (.ok ⟨false⟩)).init tr s ∧
        ∃ e ∈ Machine.outputs tr, e = .spawned true ∧ ¬e.Lawful) ∧
      ∃ tr s, (session Unit true (.ok ⟨true⟩)).Run Machine.anyStep
        (session Unit true (.ok ⟨true⟩)).init tr s ∧
        ∃ e ∈ Machine.outputs tr, e = .answered (.error restartThroughService) false ∧
          ¬e.Lawful := by
  refine ⟨⟨_, _, Machine.exec_get_run installActions_possible, .spawned true, ?_, rfl, ?_⟩,
    ⟨_, _, Machine.exec_get_run uninstallActions_possible,
      .answered (.error restartThroughService) false, ?_, rfl, ?_⟩⟩
  · decide
  · simp [SessionEvent.Lawful]
  · decide
  · exact fun h => absurd (h (.inr rfl)) (by simp)

end EasyJob.Desktop
