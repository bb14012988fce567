import EasyJob.Lib.Transition
import Mathlib.Tactic.Common

/-!
# A session of the desktop application

Model of `AgentManager` (`apps/desktop/src-tauri/src/agent_manager.rs`, lines
42–128 and 164–177) over one session: any number of concurrent calls of
`ensure_connected` (by `call` and by the event relay) and of `restart_agent`,
with the connect lock, the spawn cooldown and the permission to spawn, which
`run` (`lib.rs` lines 52–57) sets from the state of the system service, and with
the switches of that service (`startup.rs` lines 144–167).

One action is one step of one call between two awaits.
-/

namespace EasyJob.Desktop

open Transition

/-! ## The system service -/

/-- `ServiceStatus`, as far as the permission depends on it. -/
structure ServiceStatus where
  installed : Bool
  deriving DecidableEq, Repr

/-- Model of `service_status_sync_fallback` (`startup.rs` lines 28–34). -/
def serviceStatusSyncFallback (query : Except String ServiceStatus) : ServiceStatus :=
  match query with
  | .ok st => st
  | .error _ => ⟨false⟩

/-! ## States -/

/-- Where a call of `ensure_connected` stands. -/
inductive EnsurePhase
  /-- Before lines 67–72. -/
  | fastPath
  /-- Waits for `connect_lock` (line 75). -/
  | connectLock
  /-- Before lines 78–83. -/
  | doubleCheck
  /-- In the first `IpcClient::connect` (line 85). -/
  | connecting
  /-- Before lines 92–101. -/
  | cooldown
  /-- `should_spawn` holds; before line 104. -/
  | deciding
  /-- Before line 110. -/
  | spawning
  /-- In the loop of lines 117–125, with so many attempts left. -/
  | retrying (left : ℕ)
  deriving DecidableEq, Repr

/-- Who gets the result of `ensure_connected`. -/
inductive EnsureCaller
  /-- `call` or the event relay. -/
  | client
  /-- `restart_agent`, before it asks the agent to shut down (line 169). -/
  | restart
  /-- `restart_agent`, after it has spawned an agent (line 175). -/
  | restarted
  deriving DecidableEq, Repr

/-- A call of `ensure_connected` or of `restart_agent`; `κ` are the connections. -/
inductive Proc (κ : Type)
  | ensure (phase : EnsurePhase) (caller : EnsureCaller)
  /-- Before line 165. -/
  | restartCheck
  /-- In the `agent.shutdown` request (line 170). -/
  | restartShutdown (client : κ)
  /-- Before line 172. -/
  | restartDisconnect
  /-- Before line 174. -/
  | restartSpawn
  | returned
  deriving DecidableEq, Repr

structure Session (κ : Type) where
  /-- The system service is installed. -/
  installed : Bool
  allowSpawn : Bool
  spawnedByUs : Bool
  client : Option κ
  /-- The call that holds `connect_lock`. -/
  connectLock : Option ℕ
  lastSpawnAttempt : Option ℕ
  procs : List (Proc κ)
  deriving DecidableEq, Repr

/-- What a session does for others to see, with whether the system service was
    installed at that moment. -/
inductive SessionEvent
  /-- An agent process has been started. -/
  | spawned (installed : Bool)
  /-- `ensure_connected` or `restart_agent` has returned. -/
  | answered (result : Except String Unit) (installed : Bool)
  deriving DecidableEq

/-! ## Steps -/

/-- The answer of `ensure_connected` when it may not spawn (line 106). -/
def serviceNotRunning : String := "系统服务未运行，请检查开机自启服务状态（桌面端不会另起 Agent）"

/-- The answer of `restart_agent` when it may not spawn (line 166). -/
def restartThroughService : String := "开机自启模式下请通过系统服务管理器重启 Agent"

/-- The cooldown of line 95 in milliseconds. -/
def spawnCooldown : ℕ := 5000

/-- The number of attempts of line 117. -/
def connectRetries : ℕ := 15

variable {κ : Type}

def Session.setProc (s : Session κ) (i : ℕ) (p : Proc κ) : Session κ :=
  { s with procs := s.procs.set i p }

/-- `ensure_connected` returns: its guard of `connect_lock` is dropped and its caller
    goes on. -/
def ensureReturn (s : Session κ) (i : ℕ) (caller : EnsureCaller) (result : Except String κ) :
    Session κ × List SessionEvent :=
  let s := { s with connectLock := if s.connectLock = some i then none else s.connectLock }
  let answer := SessionEvent.answered (result.map fun _ => ()) s.installed
  match caller, result with
  | .client, _ => (s.setProc i .returned, [answer])
  | .restart, .ok client => (s.setProc i (.restartShutdown client), [answer])
  | .restart, .error _ => (s.setProc i .restartDisconnect, [answer])
  -- `restart_agent` returns too: the same error, or `true`.
  | .restarted, _ => (s.setProc i .returned, [answer, answer])

/-- `*last` is more recent than the cooldown (line 95). -/
def coolingDown (last : Option ℕ) (now : ℕ) : Bool :=
  match last with
  | some t => now - t < spawnCooldown
  | none => false

inductive SessionAction (κ : Type)
  /-- `call` or the event relay calls `ensure_connected`. -/
  | ensureConnected
  | restartAgent
  /-- `disconnect`, by `call` or by the event relay. -/
  | disconnect
  /-- The elevated installer of `service_install` or `service_uninstall` has run. -/
  | serviceInstall (installed : Bool)
  | serviceUninstall (installed : Bool)
  /-- Call `i` looks for a client (lines 67–72 and 78–83). -/
  | check (i : ℕ)
  | lock (i : ℕ)
  /-- `IpcClient::connect` returns. -/
  | connect (i : ℕ) (result : Option κ)
  | cooldown (i : ℕ) (now : ℕ)
  /-- Call `i` reads `allow_spawn` (lines 104 and 165). -/
  | decide (i : ℕ)
  /-- `spawn_agent_process` (lines 110 and 174). -/
  | spawn (i : ℕ) (result : Except String Unit)
  /-- The `agent.shutdown` request of call `i` returns. -/
  | shutdown (i : ℕ)
  /-- Line 172. -/
  | dropClient (i : ℕ)

/-- One step of the session. -/
def sessionStep (s : Session κ) (a : SessionAction κ) : Option (Session κ × List SessionEvent) :=
  match a with
  | .ensureConnected => some ({ s with procs := s.procs ++ [.ensure .fastPath .client] }, [])
  | .restartAgent => some ({ s with procs := s.procs ++ [.restartCheck] }, [])
  | .disconnect => some ({ s with client := none }, [])
  | .serviceInstall installed | .serviceUninstall installed =>
    some ({ s with installed := installed }, [])
  | .check i =>
    match s.procs[i]?, s.client with
    | some (.ensure .fastPath caller), some client
    | some (.ensure .doubleCheck caller), some client =>
      some (ensureReturn s i caller (.ok client))
    | some (.ensure .fastPath caller), none => some (s.setProc i (.ensure .connectLock caller), [])
    | some (.ensure .doubleCheck caller), none =>
      some (s.setProc i (.ensure .connecting caller), [])
    | _, _ => none
  | .lock i =>
    match s.procs[i]?, s.connectLock with
    | some (.ensure .connectLock caller), none =>
      some ({ s with connectLock := some i }.setProc i (.ensure .doubleCheck caller), [])
    | _, _ => none
  | .connect i (some client) =>
    match s.procs[i]? with
    | some (.ensure .connecting caller) | some (.ensure (.retrying _) caller) =>
      some (ensureReturn { s with client := some client } i caller (.ok client))
    | _ => none
  | .connect i none =>
    match s.procs[i]? with
    | some (.ensure .connecting caller) => some (s.setProc i (.ensure .cooldown caller), [])
    | some (.ensure (.retrying left) caller) =>
      if 1 < left then some (s.setProc i (.ensure (.retrying (left - 1)) caller), [])
      else some (ensureReturn s i caller (.error "Failed to connect to easyjob-agent daemon"))
    | _ => none
  | .cooldown i now =>
    match s.procs[i]? with
    | some (.ensure .cooldown caller) =>
      if coolingDown s.lastSpawnAttempt now then
        some (s.setProc i (.ensure (.retrying connectRetries) caller), [])
      else
        some ({ s with lastSpawnAttempt := some now }.setProc i (.ensure .deciding caller), [])
    | _ => none
  | .decide i =>
    match s.procs[i]? with
    | some (.ensure .deciding caller) =>
      if s.allowSpawn then some (s.setProc i (.ensure .spawning caller), [])
      else some (ensureReturn s i caller (.error serviceNotRunning))
    | some .restartCheck =>
      if s.allowSpawn then some (s.setProc i (.ensure .fastPath .restart), [])
      else
        some (s.setProc i .returned, [.answered (.error restartThroughService) s.installed])
    | _ => none
  | .spawn i (.ok ()) =>
    match s.procs[i]? with
    | some (.ensure .spawning caller) =>
      some ({ s with spawnedByUs := true }.setProc i (.ensure (.retrying connectRetries) caller),
        [.spawned s.installed])
    -- `restart_agent` leaves `spawned_by_us` as it is.
    | some .restartSpawn =>
      some (s.setProc i (.ensure .fastPath .restarted), [.spawned s.installed])
    | _ => none
  | .spawn i (.error e) =>
    match s.procs[i]? with
    | some (.ensure .spawning caller) =>
      some (s.setProc i (.ensure (.retrying connectRetries) caller), [])
    | some .restartSpawn =>
      some (s.setProc i .returned,
        [.answered (.error ("Spawn process error: " ++ e)) s.installed])
    | _ => none
  | .shutdown i =>
    match s.procs[i]? with
    | some (.restartShutdown _) => some (s.setProc i .restartDisconnect, [])
    | _ => none
  | .dropClient i =>
    match s.procs[i]? with
    | some .restartDisconnect => some ({ s with client := none }.setProc i .restartSpawn, [])
    | _ => none

/-- The session that `run` starts, when the service is in the state `installed` and the
    query for it has the result `query`. -/
def session (κ : Type) (installed : Bool) (query : Except String ServiceStatus) :
    Machine (Session κ) (SessionAction κ) SessionEvent where
  init :=
    { installed := installed
      allowSpawn := !(serviceStatusSyncFallback query).installed
      spawnedByUs := false
      client := none
      connectLock := none
      lastSpawnAttempt := none
      procs := [] }
  step := sessionStep

end EasyJob.Desktop
