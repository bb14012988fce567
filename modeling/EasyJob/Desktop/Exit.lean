import EasyJob.Desktop.Session

/-!
# Closing the desktop application

Model of the `ExitRequested` branch of `run` (`lib.rs` lines 131–144) and of
`shutdown_agent` (`agent_manager.rs` lines 151–162), in a session (`Desktop.Session`)
together with the agents that come and go on the IPC path while it lasts. An agent
answers there from the moment it has taken the instance lock until it ends; a
child of the session that finds the lock taken exits.

* `exit_stops_own_agent`: in a session whose steps keep `spawned_by_us` true to the
  agent that answers, the request on exit goes to that agent exactly if this session
  has spawned it; any other step breaks this.
* `exit_stops_others`: a spawn that finds the lock taken lets the session shut down
  the agent of another session or the system service, and an agent spawned by
  `restart_agent` is left running.
-/

namespace EasyJob.Desktop

open Transition

/-! ## Agents -/

/-- Who has started an agent process. -/
inductive Owner
  | thisSession
  | otherSession
  | service
  deriving DecidableEq, Repr

/-- The owners of an agent that runs before the session. -/
abbrev Foreign := { owner : Owner // owner ≠ .thisSession }

/-- An agent process that has answered on the IPC path. -/
structure Agent where
  owner : Owner
  id : ℕ
  deriving DecidableEq, Repr

structure World where
  /-- The desktop session; a connection is named by the agent at its other end. -/
  session : Session Agent
  /-- The agent that holds the instance lock and answers on the IPC path. -/
  answering : Option Agent
  /-- The children of this session that have not reached the lock yet. -/
  starting : ℕ
  nextId : ℕ
  deriving DecidableEq, Repr

/-! ## The exit -/

/-- A request over a connection: the agent that gets it, unless that one has ended. -/
def World.sendOver (w : World) (client : Agent) : Option Agent :=
  if w.answering = some client then some client else none

/-- Model of `shutdown_agent` (lines 151–162): the agent that gets the request. -/
def shutdownAgent (w : World) : Option Agent :=
  match w.session.client with
  | some client => w.sendOver client
  -- `IpcClient::connect` reaches whichever agent answers.
  | none => w.answering

/-- Model of the `ExitRequested` branch (`lib.rs` lines 131–144). -/
def exitRequested (w : World) : Option Agent :=
  if !w.session.spawnedByUs then none else shutdownAgent w

/-- On exit, the request goes to the agent that answers if this session has spawned it,
    and to no other. -/
def World.Lawful (w : World) : Prop :=
  ∀ agent, exitRequested w = some agent ↔
    w.answering = some agent ∧ agent.owner = .thisSession

/-! ## Steps -/

inductive WorldAction
  | session (a : SessionAction Agent)
  /-- An agent process takes the instance lock and begins to answer. -/
  | agentStarts (owner : Owner)
  /-- A child of this session exits without having answered. -/
  | childExits
  /-- The agent that answers ends: it crashes, is stopped or is shut down. -/
  | agentEnds

/-- An agent of this owner can be on its way to the lock. -/
def World.canStart (w : World) : Owner → Bool
  | .thisSession => 0 < w.starting
  | .otherSession => true
  | .service => w.session.installed

/-- The agent connected to is the one that answers. -/
def World.reaches (w : World) : SessionAction Agent → Bool
  | .connect _ (some client) => w.answering = some client
  | _ => true

/-- How many children a step of the session starts. -/
def children : SessionAction Agent → ℕ
  | .spawn _ (.ok ()) => 1
  | _ => 0

/-- One step of the session or of an agent. -/
def worldStep (w : World) (a : WorldAction) : Option (World × List SessionEvent) :=
  match a with
  | .session a =>
    if w.reaches a then
      (sessionStep w.session a).map fun r =>
        ({ w with session := r.1, starting := w.starting + children a }, r.2)
    else none
  | .agentStarts owner =>
    if w.answering = none ∧ w.canStart owner then
      some ({ w with
        answering := some ⟨owner, w.nextId⟩
        starting := if owner = .thisSession then w.starting - 1 else w.starting
        nextId := w.nextId + 1 }, [])
    else none
  | .childExits => if 0 < w.starting then some ({ w with starting := w.starting - 1 }, []) else none
  | .agentEnds => some ({ w with answering := none }, [])

/-- A session that starts when `answering` is the agent on the IPC path. -/
def world (installed : Bool) (query : Except String ServiceStatus) (answering : Option Foreign) :
    Machine World WorldAction SessionEvent where
  init :=
    { session := (session Agent installed query).init
      answering := answering.map fun owner => ⟨owner.1, 0⟩
      starting := 0
      nextId := 1 }
  step := worldStep

/-! ## What a step of the session does to the flag and the connection -/

/-- The step is the spawn of `ensure_connected` (line 110), which sets the flag. -/
def setsFlag (s : Session Agent) : SessionAction Agent → Bool
  | .spawn i (.ok ()) =>
    match s.procs[i]? with
    | some (.ensure .spawning _) => true
    | _ => false
  | _ => false

/-- The connection held after the step. -/
def clientAfter (s : Session Agent) : SessionAction Agent → Option Agent
  | .disconnect | .dropClient _ => none
  | .connect _ (some client) => some client
  | _ => s.client

@[simp] theorem ensureReturn_client {κ : Type} (s : Session κ) (i : ℕ) (caller : EnsureCaller)
    (result : Except String κ) : (ensureReturn s i caller result).1.client = s.client := by
  cases caller <;> cases result <;> rfl

@[simp] theorem ensureReturn_spawnedByUs {κ : Type} (s : Session κ) (i : ℕ)
    (caller : EnsureCaller) (result : Except String κ) :
    (ensureReturn s i caller result).1.spawnedByUs = s.spawnedByUs := by
  cases caller <;> cases result <;> rfl

/-- Every exit of `ensure_connected` gives back the lock and changes nothing else. -/
theorem of_ensureReturn {t s' : Session Agent} {i : ℕ} {caller : EnsureCaller}
    {result : Except String Agent} {o : List SessionEvent}
    (h : ensureReturn t i caller result = (s', o)) :
    s'.client = t.client ∧ s'.spawnedByUs = t.spawnedByUs := by
  have hfst : s' = (ensureReturn t i caller result).1 := by rw [h]
  rw [hfst]
  simp

theorem sessionStep_ownership {s s' : Session Agent} {a : SessionAction Agent}
    {o : List SessionEvent} (hst : sessionStep s a = some (s', o)) :
    s'.client = clientAfter s a ∧ s'.spawnedByUs = (s.spawnedByUs || setsFlag s a) := by
  cases a with
  | ensureConnected | restartAgent | disconnect | serviceInstall _ | serviceUninstall _ =>
    cases hst
    simp [clientAfter, setsFlag]
  | check i | lock i | cooldown i now | decide i | shutdown i | dropClient i =>
    simp only [sessionStep] at hst
    simp only [clientAfter, setsFlag, Bool.or_false]
    split at hst
    all_goals first
      | exact of_ensureReturn (Option.some.inj hst)
      | split_ifs at hst
        all_goals first
          | exact of_ensureReturn (Option.some.inj hst)
          | cases hst; exact ⟨rfl, rfl⟩
      | cases hst; exact ⟨rfl, rfl⟩
      | cases hst
  | connect i result =>
    cases result with
    | some client =>
      simp only [sessionStep] at hst
      simp only [clientAfter, setsFlag, Bool.or_false]
      split at hst
      · exact of_ensureReturn (Option.some.inj hst)
      · exact of_ensureReturn (Option.some.inj hst)
      · cases hst
    | none =>
      simp only [sessionStep] at hst
      simp only [clientAfter, setsFlag, Bool.or_false]
      split at hst
      · cases hst
        exact ⟨rfl, rfl⟩
      · split_ifs at hst
        · cases hst
          exact ⟨rfl, rfl⟩
        · exact of_ensureReturn (Option.some.inj hst)
      · cases hst
  | spawn i result =>
    cases result with
    | ok _ =>
      simp only [sessionStep] at hst
      simp only [clientAfter, setsFlag]
      split at hst
      · rename_i hget
        cases hst
        simp [hget, Session.setProc]
      · rename_i hget
        cases hst
        simp [hget, Session.setProc]
      · cases hst
    | error e =>
      simp only [sessionStep] at hst
      simp only [clientAfter, setsFlag, Bool.or_false]
      split at hst
      all_goals cases hst
      all_goals exact ⟨rfl, rfl⟩

/-! ## The step lemma -/

/-- The step keeps `spawned_by_us` true to the agent that answers. -/
def KeepsOwnership (w : World) : WorldAction → Prop
  -- Our agent answers only when the flag is set and no old connection is held.
  | .agentStarts .thisSession => w.session.spawnedByUs = true ∧ w.session.client = none
  -- Another agent answers only when the flag is not set or an old connection is held.
  | .agentStarts _ => w.session.spawnedByUs = true → w.session.client ≠ none
  | .session (.connect _ (some client)) =>
    w.session.spawnedByUs = true → client.owner = .thisSession
  | .session .disconnect | .session (.dropClient _) =>
    w.session.spawnedByUs = true → ∀ agent ∈ w.answering, agent.owner = .thisSession
  -- The flag is set only while no agent answers, or while an old connection is held.
  | .session (.spawn i (.ok ())) =>
    setsFlag w.session (.spawn i (.ok ())) = true → w.session.spawnedByUs = false →
      ∀ agent ∈ w.answering, w.session.client ≠ none ∧ w.session.client ≠ some agent
  | _ => True

instance (w : World) : DecidablePred (KeepsOwnership w)
  | .agentStarts .thisSession => inferInstanceAs (Decidable (_ ∧ _))
  | .agentStarts .otherSession | .agentStarts .service => inferInstanceAs (Decidable (_ → _))
  | .session (.connect _ (some _)) => inferInstanceAs (Decidable (_ → _))
  | .session .disconnect | .session (.dropClient _) => inferInstanceAs (Decidable (_ → _))
  | .session (.spawn _ (.ok ())) => inferInstanceAs (Decidable (_ → _ → _))
  | .session (.connect _ none) | .session (.spawn _ (.error _)) | .session .ensureConnected
  | .session .restartAgent | .session (.serviceInstall _) | .session (.serviceUninstall _)
  | .session (.check _) | .session (.lock _) | .session (.cooldown _ _) | .session (.decide _)
  | .session (.shutdown _) | .childExits | .agentEnds => isTrue trivial

/-- Which agent gets the request, in terms of the flag and the connection. -/
theorem exitRequested_eq_some {w : World} {agent : Agent} :
    exitRequested w = some agent ↔ w.answering = some agent ∧ w.session.spawnedByUs = true ∧
      (w.session.client = none ∨ w.session.client = some agent) := by
  unfold exitRequested shutdownAgent World.sendOver
  cases w.session.spawnedByUs with
  | false => simp
  | true =>
    cases w.session.client with
    | none => simp
    | some client =>
      by_cases hans : w.answering = some client
      · simp [hans]
      · have hne : w.answering = some agent → client ≠ agent := fun h he => hans (he ▸ h)
        simpa [hans] using hne

theorem World.lawful_iff {w : World} : w.Lawful ↔ ∀ agent, w.answering = some agent →
    ((w.session.spawnedByUs = true ∧
      (w.session.client = none ∨ w.session.client = some agent)) ↔
        agent.owner = .thisSession) := by
  unfold World.Lawful
  constructor
  · intro h agent hans
    have hagent := h agent
    rw [exitRequested_eq_some] at hagent
    simpa [hans] using hagent
  · intro h agent
    rw [exitRequested_eq_some]
    constructor
    · rintro ⟨hans, hsent⟩
      exact ⟨hans, (h agent hans).mp hsent⟩
    · rintro ⟨hans, hours⟩
      exact ⟨hans, (h agent hans).mpr hours⟩

/-- The identifiers of agents are used once. -/
structure WorldInv (w : World) : Prop where
  client : ∀ agent, w.session.client = some agent → agent.id < w.nextId
  answering : ∀ agent, w.answering = some agent → agent.id < w.nextId

section Steps

variable {w w' : World} {o : List SessionEvent}

/-- A step of the session, taken apart. -/
theorem worldStep_session {a : SessionAction Agent}
    (hst : worldStep w (.session a) = some (w', o)) :
    w.reaches a = true ∧ w'.answering = w.answering ∧ w'.nextId = w.nextId ∧
      w'.session.client = clientAfter w.session a ∧
      w'.session.spawnedByUs = (w.session.spawnedByUs || setsFlag w.session a) := by
  simp only [worldStep] at hst
  split_ifs at hst with hreach
  obtain ⟨⟨s', o'⟩, hsession, heq⟩ := Option.map_eq_some_iff.mp hst
  cases heq
  exact ⟨hreach, rfl, rfl, sessionStep_ownership hsession⟩

/-- The start of an agent, taken apart. -/
theorem worldStep_agentStarts {owner : Owner}
    (hst : worldStep w (.agentStarts owner) = some (w', o)) :
    w.answering = none ∧ w'.answering = some ⟨owner, w.nextId⟩ ∧ w'.session = w.session ∧
      w'.nextId = w.nextId + 1 := by
  simp only [worldStep] at hst
  split_ifs at hst with hstart
  all_goals cases hst
  all_goals exact ⟨hstart.1, rfl, rfl, rfl⟩

theorem WorldInv.step {a : WorldAction} (h : WorldInv w)
    (hst : worldStep w a = some (w', o)) : WorldInv w' := by
  cases a with
  | session a =>
    obtain ⟨hreach, hans, hnext, hclient, -⟩ := worldStep_session hst
    refine ⟨?_, ?_⟩
    · intro agent hagent
      rw [hnext]
      rw [hclient] at hagent
      unfold clientAfter at hagent
      split at hagent
      · cases hagent
      · cases hagent
      · cases hagent
        exact h.answering _ (by simpa [World.reaches] using hreach)
      · exact h.client agent hagent
    · rw [hans, hnext]
      exact h.answering
  | agentStarts owner =>
    obtain ⟨-, hans, hsession, hnext⟩ := worldStep_agentStarts hst
    refine ⟨?_, ?_⟩
    · rw [hsession, hnext]
      exact fun agent hagent => Nat.lt_succ_of_lt (h.client agent hagent)
    · rw [hans, hnext]
      intro agent hagent
      cases hagent
      exact Nat.lt_succ_self _
  | childExits =>
    simp only [worldStep] at hst
    split_ifs at hst
    cases hst
    exact ⟨h.client, h.answering⟩
  | agentEnds =>
    cases hst
    exact ⟨h.client, by simp⟩

/-- A step of the session keeps the state lawful exactly if it keeps the ownership. -/
theorem lawful_session_iff {a : SessionAction Agent} (hl : w.Lawful)
    (hst : worldStep w (.session a) = some (w', o)) :
    w'.Lawful ↔ KeepsOwnership w (.session a) := by
  obtain ⟨hreach, hans, -, hclient, hflag⟩ := worldStep_session hst
  rw [World.lawful_iff] at hl ⊢
  rw [hans, hclient, hflag]
  -- Without a change of the flag or the connection nothing changes.
  cases a with
  | connect i result =>
    cases result with
    | none => simpa [clientAfter, setsFlag, KeepsOwnership] using hl
    | some client =>
      have hanswers : w.answering = some client := by simpa [World.reaches] using hreach
      have hclient := hl client hanswers
      simp only [hanswers, clientAfter, setsFlag, Bool.or_false, KeepsOwnership]
      constructor
      · intro h hset
        exact (h client rfl).mp ⟨hset, .inr rfl⟩
      · rintro h agent ⟨⟩
        exact ⟨fun hsent => h hsent.1, fun hours => ⟨(hclient.mpr hours).1, .inr rfl⟩⟩
  | disconnect | dropClient i =>
    simp only [clientAfter, setsFlag, Bool.or_false, KeepsOwnership]
    constructor
    · intro h hset agent hagent
      exact (h agent hagent).mp ⟨hset, .inl trivial⟩
    · intro h agent hagent
      have hours := hl agent hagent
      exact ⟨fun hsent => h hsent.1 agent hagent, fun ho => ⟨(hours.mpr ho).1, .inl trivial⟩⟩
  | spawn i result =>
    cases result with
    | error e => simpa [clientAfter, setsFlag, KeepsOwnership] using hl
    | ok _ =>
      simp only [clientAfter, KeepsOwnership]
      cases hset : setsFlag w.session (.spawn i (.ok ())) with
      | false => simpa using hl
      | true =>
        cases hspawned : w.session.spawnedByUs with
        | true => simpa [hspawned] using hl
        | false =>
          -- before the step nothing was sent, so that the agent that answers is not ours
          have hnot : ∀ agent, w.answering = some agent → agent.owner ≠ .thisSession := by
            intro agent hagent hours
            have hsent := ((hl agent hagent).mpr hours).1
            rw [hspawned] at hsent
            cases hsent
          simp only [Bool.false_or, true_and, forall_const]
          constructor
          · intro h agent hagent
            have hunsent := mt (h agent hagent).mp (hnot agent hagent)
            exact not_or.mp hunsent
          · intro h agent hagent
            have hunsent := not_or.mpr (h agent hagent)
            exact ⟨fun hsent => absurd hsent hunsent, fun hours => absurd hours (hnot agent hagent)⟩
  | _ => simpa [clientAfter, setsFlag, KeepsOwnership] using hl

/-- The step lemma: a step keeps the state lawful exactly if it keeps the ownership. -/
theorem lawful_step_iff {a : WorldAction} (h : WorldInv w) (hl : w.Lawful)
    (hst : worldStep w a = some (w', o)) : w'.Lawful ↔ KeepsOwnership w a := by
  cases a with
  | session a => exact lawful_session_iff hl hst
  | agentStarts owner =>
    obtain ⟨-, hans, hsession, -⟩ := worldStep_agentStarts hst
    -- the connection held is to an older agent
    have hold : w.session.client ≠ some ⟨owner, w.nextId⟩ :=
      fun hc => absurd (h.client _ hc) (Nat.lt_irrefl _)
    rw [World.lawful_iff, hans, hsession]
    cases owner <;> simp [KeepsOwnership, hold]
  | childExits =>
    simp only [worldStep] at hst
    split_ifs at hst
    cases hst
    exact ⟨fun _ => trivial, fun _ => hl⟩
  | agentEnds =>
    cases hst
    refine ⟨fun _ => trivial, fun _ => ?_⟩
    rw [World.lawful_iff]
    simp

end Steps

/-! ## Whole sessions -/

section Runs

variable {installed : Bool} {query : Except String ServiceStatus} {answering : Option Foreign}
  {ok : World → WorldAction → Prop} {w : World}

theorem world_inv (h : (world installed query answering).Reachable ok w) : WorldInv w := by
  refine h.invariant ⟨?_, ?_⟩ fun _ _ _ _ hi _ hst => hi.step hst
  · simp [world, EasyJob.Desktop.session]
  · intro agent hagent
    obtain ⟨_, -, rfl⟩ := Option.map_eq_some_iff.mp hagent
    exact Nat.zero_lt_one

/-- When does the exit stop the session's own agent and no other? In every session that
    takes only steps that keep the ownership, the shutdown request on exit goes at every
    moment to the agent that answers if this session has spawned it, and to no other
    agent. And the first step that does not keep the ownership leads to a state in which
    this is false. -/
theorem exit_stops_own_agent
    (h : (world installed query answering).Reachable KeepsOwnership w) :
    w.Lawful ∧ ∀ a w' o, worldStep w a = some (w', o) → (w'.Lawful ↔ KeepsOwnership w a) := by
  have hlawful : w.Lawful := by
    obtain ⟨tr, hr⟩ := h
    refine hr.history (I := fun _ w => w.Lawful) ?_ ?_
    · rw [World.lawful_iff]
      intro agent hagent
      obtain ⟨⟨owner, hforeign⟩, -, rfl⟩ := Option.map_eq_some_iff.mp hagent
      simp [world, EasyJob.Desktop.session, hforeign]
    · intro tr t a u o hrun ht hok hst
      exact (lawful_step_iff (world_inv ⟨tr, hrun⟩) ht hst).mpr hok
  exact ⟨hlawful, fun a w' o hst => lawful_step_iff (world_inv h) hlawful hst⟩

end Runs

/-! ## Sessions that start without an agent -/

/-- Call `i` of `ensure_connected` finds no agent and starts one at the time `now`. -/
def ensureSpawns (i now : ℕ) : List WorldAction :=
  [.session .ensureConnected, .session (.check i), .session (.lock i), .session (.check i),
   .session (.connect i none), .session (.cooldown i now), .session (.decide i),
   .session (.spawn i (.ok ()))]

/-- The child answers, and the call connects to it. -/
def ownActions : List WorldAction :=
  ensureSpawns 0 0 ++
    [.agentStarts .thisSession, .session (.connect 0 (some ⟨.thisSession, 1⟩))]

/-- The agent of another session takes the lock first. -/
def refusedActions : List WorldAction :=
  ensureSpawns 0 0 ++
    [.agentStarts .otherSession, .childExits, .session (.connect 0 (some ⟨.otherSession, 1⟩))]

/-- The startup mode is switched to the system service, and its agent takes the place of
    the session's own. -/
def switchActions : List WorldAction :=
  ownActions ++
    [.session (.serviceInstall true), .agentEnds, .agentStarts .service, .session .disconnect,
     .session .ensureConnected, .session (.check 1), .session (.lock 1), .session (.check 1),
     .session (.connect 1 (some ⟨.service, 2⟩))]

/-- `restart_agent` replaces the agent of another session. -/
def restartActions : List WorldAction :=
  [.session .restartAgent, .session (.decide 0), .session (.check 0), .session (.lock 0),
   .session (.check 0), .session (.connect 0 (some ⟨.otherSession, 0⟩)), .session (.shutdown 0),
   .agentEnds, .session (.dropClient 0), .session (.spawn 0 (.ok ())), .agentStarts .thisSession,
   .session (.check 0), .session (.lock 0), .session (.check 0),
   .session (.connect 0 (some ⟨.thisSession, 1⟩))]

/-- A session without system service, and one that finds the agent of another session. -/
def aloneWorld : Machine World WorldAction SessionEvent := world false (.ok ⟨false⟩) none

def sharedWorld : Machine World WorldAction SessionEvent :=
  world false (.ok ⟨false⟩) (some ⟨.otherSession, by decide⟩)

theorem ownActions_possible :
    (aloneWorld.exec KeepsOwnership aloneWorld.init ownActions).isSome = true := by decide

/-- The session that starts its own agent shuts down that one. -/
theorem exit_stops_own_agent_spawned :
    exitRequested ((aloneWorld.exec KeepsOwnership aloneWorld.init ownActions).get
      ownActions_possible).2 = some ⟨.thisSession, 1⟩ :=
  ((exit_stops_own_agent ⟨_, Machine.exec_get_run ownActions_possible⟩).1 ⟨.thisSession, 1⟩).mpr
    ⟨by decide, rfl⟩

theorem refusedActions_possible :
    (aloneWorld.exec Machine.anyStep aloneWorld.init refusedActions).isSome = true := by decide

theorem switchActions_possible :
    (aloneWorld.exec Machine.anyStep aloneWorld.init switchActions).isSome = true := by decide

theorem restartActions_possible :
    (sharedWorld.exec Machine.anyStep sharedWorld.init restartActions).isSome = true := by decide

/-- On exit, a session whose child was refused shuts down the agent of the other session;
    one that was switched to the system service shuts down the service; and one that has
    restarted its agent leaves it running. -/
theorem exit_stops_others :
    (∃ w, aloneWorld.Reachable Machine.anyStep w ∧
        exitRequested w = some ⟨.otherSession, 1⟩ ∧ ¬w.Lawful) ∧
      (∃ w, aloneWorld.Reachable Machine.anyStep w ∧
        exitRequested w = some ⟨.service, 2⟩ ∧ ¬w.Lawful) ∧
      ∃ w, sharedWorld.Reachable Machine.anyStep w ∧ w.answering = some ⟨.thisSession, 1⟩ ∧
        exitRequested w = none ∧ ¬w.Lawful := by
  have hother (w : World) (agent : Agent) (hsent : exitRequested w = some agent)
      (hne : agent.owner ≠ .thisSession) : ¬w.Lawful :=
    fun hlawful => hne ((hlawful agent).mp hsent).2
  refine ⟨⟨_, ⟨_, Machine.exec_get_run refusedActions_possible⟩, by decide,
      hother _ ⟨.otherSession, 1⟩ (by decide) (by decide)⟩,
    ⟨_, ⟨_, Machine.exec_get_run switchActions_possible⟩, by decide,
      hother _ ⟨.service, 2⟩ (by decide) (by decide)⟩,
    ⟨_, ⟨_, Machine.exec_get_run restartActions_possible⟩, by decide, by decide, ?_⟩⟩
  intro hlawful
  have hsent := (hlawful ⟨.thisSession, 1⟩).mpr ⟨by decide, rfl⟩
  exact absurd hsent (by decide)

end EasyJob.Desktop
