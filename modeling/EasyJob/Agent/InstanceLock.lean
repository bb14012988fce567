import EasyJob.Lib.Transition
import Mathlib.Data.List.Nodup

/-!
# The single-instance lock on Windows

Model of the two ways in which `apps/agent/src/main.rs` starts an agent: as
daemon (lines 61–83) and as Windows service (`service_main_inner`, lines
289–300), up to `SingleInstanceLock::acquire` (`apps/agent/src/lock.rs` lines
30–60). A file is locked by at most one process.

The daemon locks `agent.lock` in its data directory; the service locks the file
of that name next to the IPC path, which on Windows is a fixed pipe. Windows makes
no file among the pipes, so the service returns at the lock.

* `oneAgent_never`: on no data directory do the two starts lock the same file. At
  most one agent gets past the lock, and it is never the service.
* `oneAgent_fails`: a daemon and a service start on one data directory.
-/

namespace EasyJob.Agent

open Transition

/-! ## The paths -/

/-- A Windows path by its components: prefix, root directory and names. -/
structure WindowsPath where
  pre : String
  root : Bool
  names : List String
  deriving DecidableEq, Repr

namespace WindowsPath

/-- `Path::join` with a file name. -/
def join (p : WindowsPath) (name : String) : WindowsPath := { p with names := p.names ++ [name] }

/-- `Path::parent`. -/
def parent (p : WindowsPath) : Option WindowsPath :=
  if p.names = [] then none else some { p with names := p.names.dropLast }

end WindowsPath

/-- Model of `ipc_path_for_data_dir` on Windows (`crates/ipc/src/transport.rs` lines
    20–25): the pipe `\\.\pipe\easyjob-system` for every data directory. -/
def ipcPathForDataDir (_dataDir : WindowsPath) : WindowsPath :=
  ⟨"\\\\.\\pipe", true, ["easyjob-system"]⟩

inductive StartMode
  /-- `--daemon --data-dir d`. -/
  | daemon
  /-- `--service --data-dir d`. -/
  | service
  deriving DecidableEq, Repr

/-- The lock file of `main` (line 68) and of `service_main_inner` (lines 289–292). -/
def lockPath (mode : StartMode) (dataDir : WindowsPath) : WindowsPath :=
  match mode with
  | .daemon => dataDir.join "agent.lock"
  | .service =>
    match (ipcPathForDataDir dataDir).parent with
    | some dir => dir.join "agent.lock"
    | none => ⟨"", false, ["agent.lock"]⟩

theorem lockPath_service (dataDir : WindowsPath) :
    lockPath .service dataDir = ⟨"\\\\.\\pipe", true, ["agent.lock"]⟩ := rfl

/-- The two paths are the same only for the root of the pipes. -/
theorem lockPath_eq_iff (dataDir : WindowsPath) :
    lockPath .daemon dataDir = lockPath .service dataDir ↔
      dataDir = ⟨"\\\\.\\pipe", true, []⟩ := by
  obtain ⟨pre, root, names⟩ := dataDir
  rw [lockPath_service]
  constructor
  · intro h
    simp only [lockPath, WindowsPath.join, WindowsPath.mk.injEq] at h
    obtain ⟨hpre, hroot, hnames⟩ := h
    have hnil : names = [] := List.append_left_eq_self.mp hnames
    rw [hpre, hroot, hnil]
  · intro h
    rw [h]
    rfl

/-! ## The agents -/

section Agents

variable {File : Type} [DecidableEq File]

inductive LockOutcome
  | Acquired
  | AlreadyRunning
  /-- The directory could not be created or the file not opened. -/
  | Failed
  deriving DecidableEq, Repr

/-- A process past the lock, with the file it has locked. -/
structure Process (File : Type) where
  mode : StartMode
  dataDir : WindowsPath
  file : File
  deriving DecidableEq

inductive AgentAction
  | start (mode : StartMode) (dataDir : WindowsPath)
  /-- The process at this position exits and its lock is released. -/
  | exit (i : ℕ)
  deriving DecidableEq

/-- A start takes the lock or ends; `openLock` is the file behind a path, if it can be
    created and opened. -/
def agentStep (openLock : WindowsPath → Option File) (s : List (Process File)) (a : AgentAction) :
    Option (List (Process File) × List LockOutcome) :=
  match a with
  | .start mode dataDir =>
    match openLock (lockPath mode dataDir) with
    | none => some (s, [.Failed])
    | some file =>
      if s.any (·.file = file) then some (s, [.AlreadyRunning])
      else some (s ++ [⟨mode, dataDir, file⟩], [.Acquired])
  | .exit i => if i < s.length then some (s.eraseIdx i, []) else none

/-- The agents past the lock. -/
def agents (openLock : WindowsPath → Option File) :
    Machine (List (Process File)) AgentAction LockOutcome where
  init := []
  step := agentStep openLock

/-- Every agent past the lock holds the file of its lock path, and no two hold the same. -/
structure LockInv (openLock : WindowsPath → Option File) (s : List (Process File)) : Prop where
  files : (s.map Process.file).Nodup
  path : ∀ p ∈ s, openLock (lockPath p.mode p.dataDir) = some p.file

theorem LockInv.step {openLock : WindowsPath → Option File} {s s' : List (Process File)}
    {a : AgentAction} {o : List LockOutcome} (h : LockInv openLock s)
    (hst : agentStep openLock s a = some (s', o)) : LockInv openLock s' := by
  cases a with
  | start mode dataDir =>
    rw [agentStep] at hst
    split at hst
    · cases hst
      exact h
    · rename_i file hopen
      split_ifs at hst with hlocked
      · cases hst
        exact h
      · cases hst
        have hfree : ∀ p ∈ s, p.file ≠ file := by simpa using hlocked
        refine ⟨?_, ?_⟩
        · rw [List.map_append, List.nodup_append]
          refine ⟨h.files, List.nodup_singleton _, ?_⟩
          intro f hf f' hf' heq
          obtain ⟨p, hp, rfl⟩ := List.mem_map.mp hf
          exact hfree p hp (heq.trans (List.mem_singleton.mp hf'))
        · intro p hp
          rcases List.mem_append.mp hp with hp | hp
          · exact h.path p hp
          · rw [List.mem_singleton.mp hp]
            exact hopen
  | exit i =>
    rw [agentStep] at hst
    split_ifs at hst
    cases hst
    have hsub : (s.eraseIdx i).Sublist s := List.eraseIdx_sublist s i
    exact ⟨h.files.sublist (hsub.map _), fun p hp => h.path p (hsub.subset hp)⟩

theorem reachable_lockInv {openLock : WindowsPath → Option File} {s : List (Process File)}
    (h : (agents openLock).Reachable Machine.anyStep s) : LockInv openLock s :=
  h.invariant (I := LockInv openLock) ⟨List.nodup_nil, by intro p hp; cases hp⟩
    fun _ _ _ _ hi _ hst => hi.step hst

omit [DecidableEq File] in
/-- Agents of one data directory and one mode hold the same file. -/
theorem LockInv.file_eq {openLock : WindowsPath → Option File} {s : List (Process File)}
    (h : LockInv openLock s) {p q : Process File} (hp : p ∈ s) (hq : q ∈ s)
    (hmode : p.mode = q.mode) (hdataDir : p.dataDir = q.dataDir) : p.file = q.file := by
  have hpf := h.path p hp
  rw [hmode, hdataDir, h.path q hq] at hpf
  exact (Option.some.inj hpf).symm

/-- A list without repetitions under `f`, on which `f` is constant, has at most one
    element. -/
private theorem length_le_one {α β : Type} {f : α → β} {l : List α} (hnodup : (l.map f).Nodup)
    (hconst : ∀ x ∈ l, ∀ y ∈ l, f x = f y) : l.length ≤ 1 := by
  match l with
  | [] => exact Nat.zero_le 1
  | [_] => exact Nat.le_refl _
  | x :: y :: rest =>
    have hne : f x ≠ f y := by
      rw [List.map_cons, List.nodup_cons] at hnodup
      intro heq
      exact hnodup.1 (heq ▸ List.mem_cons_self)
    exact absurd (hconst x (by simp) y (by simp)) hne

/-! ## Files among the pipes -/

/-- The root of the named pipes. -/
def WindowsPath.IsPipe (p : WindowsPath) : Prop := p.pre = "\\\\.\\pipe"

/-- Only a server of a pipe makes one, with `CreateNamedPipe`; the file system of the pipes
    neither creates a file nor locks one. -/
def NoPipeFiles (openLock : WindowsPath → Option File) : Prop :=
  ∀ p : WindowsPath, p.IsPipe → openLock p = none

/-- One agent for the data directory: at most one is past the lock at any time, and both
    starts lock the same file. -/
structure OneAgent (openLock : WindowsPath → Option File) (dataDir : WindowsPath) : Prop where
  exclusive : ∀ s, (agents openLock).Reachable Machine.anyStep s →
    (s.filter (·.dataDir = dataDir)).length ≤ 1
  sameFile : ∃ file, openLock (lockPath .daemon dataDir) = some file ∧
    openLock (lockPath .service dataDir) = some file

variable {openLock : WindowsPath → Option File}

omit [DecidableEq File] in
/-- The service cannot open its lock file. -/
theorem NoPipeFiles.service (h : NoPipeFiles openLock) (dataDir : WindowsPath) :
    openLock (lockPath .service dataDir) = none := by
  apply h
  rw [lockPath_service]
  rfl

/-- A start of the service fails and changes nothing. -/
theorem NoPipeFiles.start_service (h : NoPipeFiles openLock) (s : List (Process File))
    (dataDir : WindowsPath) :
    agentStep openLock s (.start .service dataDir) = some (s, [.Failed]) := by
  rw [agentStep, h.service]

omit [DecidableEq File] in
/-- Only daemons are past the lock. -/
theorem NoPipeFiles.daemon (h : NoPipeFiles openLock) {s : List (Process File)}
    (hinv : LockInv openLock s) {p : Process File} (hp : p ∈ s) : p.mode = .daemon := by
  cases hmode : p.mode with
  | daemon => rfl
  | service =>
    have hpath := hinv.path p hp
    rw [hmode, h.service] at hpath
    cases hpath

/-- Is there one agent for a data directory, locked by daemon and service alike? Windows makes
    no file among the pipes, so never: the service locks no file, and each of its starts fails.
    All agents past the lock are daemons, at most one for each directory. As paths the two lock
    files are the same only for the directory `\\.\pipe\`. -/
theorem oneAgent_never (hpipe : NoPipeFiles openLock) (dataDir : WindowsPath) :
    ¬OneAgent openLock dataDir ∧
      (∀ s, (agents openLock).Reachable Machine.anyStep s →
        (s.filter (·.dataDir = dataDir)).length ≤ 1 ∧ (∀ p ∈ s, p.mode = .daemon) ∧
          (agents openLock).step s (.start .service dataDir) = some (s, [.Failed])) ∧
      (lockPath .daemon dataDir = lockPath .service dataDir ↔
        dataDir = ⟨"\\\\.\\pipe", true, []⟩) := by
  refine ⟨?_, ?_, lockPath_eq_iff dataDir⟩
  · rintro ⟨-, file, -, hservice⟩
    rw [hpipe.service] at hservice
    cases hservice
  · intro s hs
    have hinv := reachable_lockInv hs
    refine ⟨?_, fun p hp => hpipe.daemon hinv hp, hpipe.start_service s dataDir⟩
    apply length_le_one (f := Process.file)
    · exact hinv.files.sublist (List.filter_sublist.map _)
    · intro p hp q hq
      obtain ⟨hp, hpd⟩ := List.mem_filter.mp hp
      obtain ⟨hq, hqd⟩ := List.mem_filter.mp hq
      have hmode : p.mode = q.mode := (hpipe.daemon hinv hp).trans (hpipe.daemon hinv hq).symm
      have hdataDir : p.dataDir = q.dataDir := by
        rw [of_decide_eq_true hpd, of_decide_eq_true hqd]
      exact hinv.file_eq hp hq hmode hdataDir

end Agents

/-! ## An installation -/

/-- `C:\Program Files\easyJob\data`, the data directory of an installation. -/
def installDataDir : WindowsPath := ⟨"C:", true, ["Program Files", "easyJob", "data"]⟩

instance : DecidablePred WindowsPath.IsPipe := fun p =>
  inferInstanceAs (Decidable (p.pre = "\\\\.\\pipe"))

/-- A disk on which every path names a file of its own, and the pipes. -/
def windowsLock (p : WindowsPath) : Option WindowsPath := if p.IsPipe then none else some p

theorem windowsLock_noPipeFiles : NoPipeFiles windowsLock := fun _ hp => if_pos hp

theorem oneAgent_never_install :
    NoPipeFiles windowsLock ∧ ¬OneAgent windowsLock installDataDir :=
  ⟨windowsLock_noPipeFiles, (oneAgent_never windowsLock_noPipeFiles installDataDir).1⟩

/-- A daemon starts, and then the service. -/
def installActions : List AgentAction :=
  [.start .daemon installDataDir, .start .service installDataDir]

/-- The daemon gets past the lock of `agent.lock` in its directory and the service fails at
    another path: no file is locked by both starts. -/
theorem oneAgent_fails :
    (agents windowsLock).exec Machine.anyStep [] installActions =
        some ([(.start .daemon installDataDir, [.Acquired]),
            (.start .service installDataDir, [.Failed])],
          [⟨.daemon, installDataDir, ⟨"C:", true, ["Program Files", "easyJob", "data",
            "agent.lock"]⟩⟩]) ∧
      lockPath .daemon installDataDir ≠ lockPath .service installDataDir ∧
      ¬OneAgent windowsLock installDataDir := by
  refine ⟨by decide +kernel, by decide, ?_⟩
  rintro ⟨-, file, -, hservice⟩
  rw [windowsLock_noPipeFiles.service] at hservice
  cases hservice

end EasyJob.Agent
