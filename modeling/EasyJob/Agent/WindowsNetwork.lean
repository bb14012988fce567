import EasyJob.Agent.Network
import EasyJob.Lib.Changes
import EasyJob.Lib.Transition

/-!
# Network events on Windows

Model of `platform_windows` (`apps/agent/src/network.rs` lines 511–785): the task that records a
baseline, the tasks that arbitrate after notifications, and the state they share, which each of
them reads and writes in steps of its own.

* `recorded_step`: what one step does to what is recorded and reported, while no arbitration reads
  the state before the baseline is in it or in the midst of another one.
* `windows_events_eq`: the events of such runs.
* `windows_startup_events`: what happens in others.
-/

namespace EasyJob.Agent

open EasyJob.Domain Transition Changes

/-! ## The watcher -/

/-- The task that records the baseline. -/
inductive Baseline
  | settling
  | probing
  | determined (online : Bool)
  | ended
  deriving DecidableEq

/-- Where the task of an arbitrated event is. -/
inductive ArbitrationPhase
  | settling
  | probing
  /-- It is still the last one, and has not read the state. -/
  | confirmed (reachable : Bool)
  /-- It has read the other state, and not written its own. -/
  | changed (reachable : Bool)
  /-- These events are left. -/
  | reporting (kinds : List NetworkEventKind)
  /-- The debouncer has let an event through, and these are left after it. -/
  | sending (event : NetworkEvent) (kinds : List NetworkEventKind)
  | ended
  deriving DecidableEq

structure Arbitration where
  seq : ℕ
  phase : ArbitrationPhase
  deriving DecidableEq

structure WindowsWatcher where
  edge : EdgeDetector ℕ
  debouncer : Debouncer
  /-- `online_state`: unknown (-1), offline (0) or online (1). -/
  onlineState : Option Bool
  /-- `ARBITRATE_SEQ` -/
  arbitrateSeq : ℕ
  baseline : Baseline
  arbitrations : List Arbitration

inductive WindowsAction
  /-- `ip_callback` with the row of an interface, if there is one. -/
  | interfaceChanged (row : Option (ℕ × Bool)) (deleted : Bool)
  | wlanNotified (relevant : Bool)
  | baselineSettled
  | baselineProbed (online : Bool)
  | baselineRecorded
  /-- Arbitration `i` wakes up. -/
  | settled (i : ℕ)
  /-- `confirm_online` of arbitration `i` returns. -/
  | confirmed (i : ℕ) (reachable : Bool)
  | load (i : ℕ)
  | store (i : ℕ)
  | debounce (i : ℕ) (now : ℕ) (ssid : Option String)
  | send (i : ℕ)
  deriving DecidableEq

/-- What is seen of the watcher: the states it determines, and its events. -/
inductive WindowsOutput
  | determined (online : Bool)
  | event (event : NetworkEvent)
  deriving DecidableEq

/-- The events of a change of the state, in order. -/
def reports (reachable : Bool) : List NetworkEventKind :=
  if reachable then [.Connect, .Online] else [.Disconnect]

/-- An arbitrated event; a disconnected machine has no network name. -/
def arbitratedEvent (kind : NetworkEventKind) (ssid : Option String) : NetworkEvent :=
  match kind with
  | .Connect => .Connect ssid
  | .Disconnect => .Disconnect none
  | .Online => .Online ssid

namespace WindowsWatcher

variable (s : WindowsWatcher)

/-- Model of `spawn_arbitrated_event` (lines 662–672); `hasHandle` tells whether the watcher was
    started inside the runtime. -/
def spawnArbitratedEvent (hasHandle : Bool) : WindowsWatcher :=
  { s with
    arbitrateSeq := s.arbitrateSeq + 1
    arbitrations :=
      if hasHandle then s.arbitrations ++ [⟨s.arbitrateSeq + 1, .settling⟩] else s.arbitrations }

/-- Arbitration `i` goes on in a phase. -/
def setPhase (i : ℕ) (task : Arbitration) (phase : ArbitrationPhase) : WindowsWatcher :=
  { s with arbitrations := s.arbitrations.set i { task with phase } }

end WindowsWatcher

/-- What is left to do after an event. -/
def nextPhase (kinds : List NetworkEventKind) : ArbitrationPhase :=
  if kinds = [] then .ended else .reporting kinds

/-- One step of an arbitration (lines 672–709) or of `emit_arbitrated` in it (lines 729–735). -/
def arbitrationStep (s : WindowsWatcher) (a : WindowsAction) (i : ℕ) (task : Arbitration) :
    Option (WindowsWatcher × List WindowsOutput) :=
  match a, task.phase with
  | .settled _, .settling =>
    some (s.setPhase i task (if s.arbitrateSeq = task.seq then .probing else .ended), [])
  | .confirmed _ reachable, .probing =>
    some (s.setPhase i task
      (if s.arbitrateSeq = task.seq then .confirmed reachable else .ended), [])
  | .load _, .confirmed reachable =>
    some (s.setPhase i task
      (if s.onlineState = some reachable then .ended else .changed reachable),
        [.determined reachable])
  | .store _, .changed reachable =>
    some ({ s with onlineState := some reachable }.setPhase i task
      (.reporting (reports reachable)), [])
  | .debounce _ now ssid, .reporting (kind :: kinds) =>
    let (allowed, debouncer) := s.debouncer.allow kind now
    some ({ s with debouncer }.setPhase i task
      (if allowed then .sending (arbitratedEvent kind ssid) kinds else nextPhase kinds), [])
  | .send _, .sending event kinds => some (s.setPhase i task (nextPhase kinds), [.event event])
  | _, _ => none

/-- One step of a notification (lines 614–646, 764–785), of the baseline (lines 576–583) or of an
    arbitration. -/
def windowsStep (hasHandle : Bool) (s : WindowsWatcher) (a : WindowsAction) :
    Option (WindowsWatcher × List WindowsOutput) :=
  match a with
  | .interfaceChanged none _ => some (s.spawnArbitratedEvent hasHandle, [])
  | .interfaceChanged (some (key, connected)) deleted =>
    let (changed, edge) := s.edge.changed key (!deleted && connected)
    let s' := { s with edge }
    some (if changed then s'.spawnArbitratedEvent hasHandle else s', [])
  | .wlanNotified relevant =>
    some (if relevant then s.spawnArbitratedEvent hasHandle else s, [])
  | .baselineSettled =>
    if s.baseline = .settling then some ({ s with baseline := .probing }, []) else none
  | .baselineProbed online =>
    if s.baseline = .probing then some ({ s with baseline := .determined online }, []) else none
  | .baselineRecorded =>
    match s.baseline with
    | .determined online =>
      -- the exchange fails where the state is known
      if s.onlineState = none then
        some ({ s with baseline := .ended, onlineState := some online }, [.determined online])
      else some ({ s with baseline := .ended }, [])
    | _ => none
  | .settled i | .confirmed i _ | .load i | .store i | .debounce i _ _ | .send i =>
    s.arbitrations[i]?.bind (arbitrationStep s a i)

def windowsMachine (hasHandle : Bool) : Machine WindowsWatcher WindowsAction WindowsOutput where
  init := ⟨.new, .new, none, 0, if hasHandle then .settling else .ended, []⟩
  step := windowsStep hasHandle

/-! ## What is determined and reported -/

def determinations (outputs : List WindowsOutput) : List Bool :=
  outputs.filterMap fun output => match output with | .determined online => some online | _ => none

def eventKinds (outputs : List WindowsOutput) : List NetworkEventKind :=
  outputs.filterMap fun output => match output with | .event event => some event.kind | _ => none

@[simp] theorem determinations_append (outputs outputs' : List WindowsOutput) :
    determinations (outputs ++ outputs') = determinations outputs ++ determinations outputs' :=
  List.filterMap_append

@[simp] theorem eventKinds_append (outputs outputs' : List WindowsOutput) :
    eventKinds (outputs ++ outputs') = eventKinds outputs ++ eventKinds outputs' :=
  List.filterMap_append

/-- An arbitration that has read the other state and is not finished. -/
def ArbitrationPhase.isReporting : ArbitrationPhase → Bool
  | .changed _ | .reporting _ | .sending _ _ => true
  | _ => false

/-- No arbitration is between its read of the state and its end. -/
def NoneReporting (s : WindowsWatcher) : Prop :=
  ∀ task ∈ s.arbitrations, task.phase.isReporting = false

instance (s : WindowsWatcher) : Decidable (NoneReporting s) :=
  inferInstanceAs (Decidable (∀ task ∈ s.arbitrations, task.phase.isReporting = false))

/-- Between its read and its write. -/
def ArbitrationPhase.isChanged : ArbitrationPhase → Bool
  | .changed _ => true
  | _ => false

/-- Arbitration `i` is about to find the state that is recorded. -/
def findsSame (s : WindowsWatcher) (i : ℕ) : Bool :=
  match s.arbitrations[i]? with
  | some ⟨_, .confirmed reachable⟩ => s.onlineState == some reachable
  | _ => false

/-- No arbitration reads the state before the baseline is in it, nor between the read and the write
    of another one; and where it finds the other state, every event before is out. -/
def Undisturbed (s : WindowsWatcher) : WindowsAction → Prop
  | .load i => s.onlineState ≠ none ∧ (∀ task ∈ s.arbitrations, task.phase.isChanged = false) ∧
      (findsSame s i = true ∨ NoneReporting s)
  | _ => True

instance (s : WindowsWatcher) : DecidablePred (Undisturbed s)
  | .load _ => inferInstanceAs (Decidable (_ ∧ _ ∧ _))
  | .interfaceChanged _ _ | .wlanNotified _ | .baselineSettled | .baselineProbed _
  | .baselineRecorded | .settled _ | .confirmed _ _ | .store _ | .debounce _ _ _ | .send _ =>
    inferInstanceAs (Decidable True)

/-! ## The run -/

/-- Arbitration `i` is in a phase, and no other one is reporting. -/
def Only (s : WindowsWatcher) (i : ℕ) (phase : ArbitrationPhase) : Prop :=
  (∃ seq, s.arbitrations[i]? = some ⟨seq, phase⟩) ∧
    ∀ j task, s.arbitrations[j]? = some task → task.phase.isReporting = true → j = i

/-- The events of all changes of what was determined. -/
def expected (dets : List Bool) : List NetworkEventKind := (changes dets).flatMap reports

/-- What was determined and reported against the watcher, by the phase of the arbitration that is
    reporting, if there is one. -/
inductive Recorded (dets : List Bool) (kinds : List NetworkEventKind) (s : WindowsWatcher) : Prop
  | quiet (hquiet : NoneReporting s) (hstate : s.onlineState = dets.getLast?)
      (hkinds : kinds = expected dets)
      (hlast : s.debouncer.lastKind.map Prod.fst = kinds.getLast?)
  | changed (i : ℕ) (reachable : Bool) (honly : Only s i (.changed reachable))
      (hknown : s.onlineState ≠ none) (hdet : dets.getLast? = some reachable)
      (hkinds : kinds ++ reports reachable = expected dets)
      (hlast : s.debouncer.lastKind.map Prod.fst = kinds.getLast?)
  | reporting (i : ℕ) (left : List NetworkEventKind) (honly : Only s i (.reporting left))
      (hknown : s.onlineState ≠ none) (hstate : s.onlineState = dets.getLast?)
      (hkinds : kinds ++ left = expected dets)
      (hlast : s.debouncer.lastKind.map Prod.fst = kinds.getLast?)
  | sending (i : ℕ) (event : NetworkEvent) (left : List NetworkEventKind)
      (honly : Only s i (.sending event left))
      (hknown : s.onlineState ≠ none) (hstate : s.onlineState = dets.getLast?)
      (hkinds : kinds ++ event.kind :: left = expected dets)
      (hlast : s.debouncer.lastKind.map Prod.fst = some event.kind)

theorem noneReporting_iff {s : WindowsWatcher} : NoneReporting s ↔
    ∀ (j : ℕ) (task : Arbitration), s.arbitrations[j]? = some task →
      task.phase.isReporting = false := by
  constructor
  · exact fun h j task hj => h task (List.mem_of_getElem? hj)
  · intro h task htask
    obtain ⟨j, hj⟩ := List.getElem?_of_mem htask
    exact h j task hj

/-- Steps that touch neither the state nor the debouncer nor an arbitration that is reporting. -/
theorem Recorded.frame {dets : List Bool} {kinds : List NetworkEventKind} {s t : WindowsWatcher}
    (h : Recorded dets kinds s) (hstate : t.onlineState = s.onlineState)
    (hdebouncer : t.debouncer = s.debouncer)
    (htasks : ∀ (j : ℕ) (task : Arbitration), task.phase.isReporting = true →
      (t.arbitrations[j]? = some task ↔ s.arbitrations[j]? = some task)) :
    Recorded dets kinds t := by
  have honly : ∀ {i phase}, phase.isReporting = true → Only s i phase → Only t i phase := by
    rintro i phase hphase ⟨⟨seq, hseq⟩, hother⟩
    exact ⟨⟨seq, (htasks i _ hphase).mpr hseq⟩,
      fun j task hj htask => hother j task ((htasks j task htask).mp hj) htask⟩
  cases h with
  | quiet hquiet hstate' hkinds hlast =>
    refine .quiet ?_ (hstate.trans hstate') hkinds (hdebouncer ▸ hlast)
    rw [noneReporting_iff] at hquiet ⊢
    intro j task hj
    by_contra hreporting
    have htask : task.phase.isReporting = true := by simpa using hreporting
    rw [hquiet j task ((htasks j task htask).mp hj)] at htask
    cases htask
  | changed i reachable h' hknown hdet hkinds hlast =>
    exact .changed i reachable (honly rfl h') (hstate ▸ hknown) hdet hkinds (hdebouncer ▸ hlast)
  | reporting i left h' hknown hstate' hkinds hlast =>
    exact .reporting i left (honly rfl h') (hstate ▸ hknown) (hstate.trans hstate') hkinds
      (hdebouncer ▸ hlast)
  | sending i event left h' hknown hstate' hkinds hlast =>
    exact .sending i event left (honly rfl h') (hstate ▸ hknown) (hstate.trans hstate') hkinds
      (hdebouncer ▸ hlast)

/-! ## The events of a list of changes -/

/-- No two events in a row are of one kind. -/
theorem isChain_expected (dets : List Bool) : (expected dets).IsChain (· ≠ ·) := by
  have hreports : ∀ l : List Bool, l.IsChain (· ≠ ·) → (l.flatMap reports).IsChain (· ≠ ·) := by
    intro l hl
    induction l with
    | nil => exact .nil
    | cons a l ih =>
      rw [List.isChain_cons] at hl
      rw [List.flatMap_cons, List.isChain_append]
      refine ⟨by cases a <;> decide, ih hl.2, ?_⟩
      cases l with
      | nil => simp
      | cons b l =>
        have hab : a ≠ b := hl.1 b rfl
        cases a <;> cases b <;> simp_all [reports]
  exact hreports _ (isChain_changes dets)

/-- Connect and Disconnect among them are the changes. -/
theorem direction_expected (dets : List Bool) :
    (expected dets).filterMap direction = changes dets := by
  rw [expected]
  induction changes dets with
  | nil => rfl
  | cons a l ih =>
    rw [List.flatMap_cons, List.filterMap_append, ih]
    cases a <;> rfl

/-! ## One step -/

section Phase

variable {s : WindowsWatcher} {i : ℕ} {task : Arbitration}
  (htask : s.arbitrations[i]? = some task)
include htask

theorem setPhase_get (phase : ArbitrationPhase) (j : ℕ) :
    (s.setPhase i task phase).arbitrations[j]? =
      if j = i then some { task with phase } else s.arbitrations[j]? := by
  have hi : i < s.arbitrations.length := (List.getElem?_eq_some_iff.mp htask).1
  change (s.arbitrations.set i { task with phase })[j]? = _
  rw [List.getElem?_set]
  by_cases hj : i = j
  · simp [hj, hj ▸ hi]
  · rw [if_neg hj, if_neg (Ne.symm hj)]

/-- The arbitration that goes on is the only one that reports. -/
theorem only_setPhase (hother : ∀ (j : ℕ) (task : Arbitration), s.arbitrations[j]? = some task →
      task.phase.isReporting = true → j = i) (phase : ArbitrationPhase) :
    Only (s.setPhase i task phase) i phase := by
  refine ⟨⟨task.seq, ?_⟩, fun j task' hj htask' => ?_⟩
  · rw [setPhase_get htask, if_pos rfl]
  · by_contra hne
    rw [setPhase_get htask, if_neg hne] at hj
    exact hne (hother j task' hj htask')

theorem noneReporting_setPhase (hother : ∀ (j : ℕ) (task : Arbitration),
      s.arbitrations[j]? = some task → task.phase.isReporting = true → j = i)
    {phase : ArbitrationPhase} (hphase : phase.isReporting = false) :
    NoneReporting (s.setPhase i task phase) := by
  rw [noneReporting_iff]
  intro j task' hj
  rw [setPhase_get htask] at hj
  split_ifs at hj with hji
  · cases hj
    exact hphase
  · by_contra hreporting
    exact hji (hother j task' hj (by simpa using hreporting))

/-- An arbitration that is not reporting goes on without. -/
theorem Recorded.setPhase {dets : List Bool} {kinds : List NetworkEventKind}
    (h : Recorded dets kinds s) {phase : ArbitrationPhase}
    (hbefore : task.phase.isReporting = false) (hafter : phase.isReporting = false) :
    Recorded dets kinds (s.setPhase i task phase) := by
  refine h.frame rfl rfl fun j task' htask' => ?_
  rw [setPhase_get htask]
  split_ifs with hji
  · subst hji
    rw [htask]
    constructor <;> intro heq <;> cases heq <;> simp_all
  · exact Iff.rfl

end Phase

theorem Only.not_noneReporting {s : WindowsWatcher} {i : ℕ} {phase : ArbitrationPhase}
    (h : Only s i phase) (hphase : phase.isReporting = true) : ¬NoneReporting s := by
  obtain ⟨⟨seq, hseq⟩, -⟩ := h
  intro hquiet
  have hnot := noneReporting_iff.mp hquiet i _ hseq
  exact absurd (hphase.symm.trans hnot) (by decide)

/-- Only one arbitration reports. -/
theorem Only.unique {s : WindowsWatcher} {i j seq : ℕ} {phase phase' : ArbitrationPhase}
    (h : Only s i phase) (hj : s.arbitrations[j]? = some ⟨seq, phase'⟩)
    (hphase' : phase'.isReporting = true) : j = i ∧ phase' = phase := by
  obtain ⟨⟨seq', hseq'⟩, hother⟩ := h
  obtain rfl := hother j _ hj hphase'
  rw [hj] at hseq'
  cases hseq'
  exact ⟨rfl, rfl⟩

theorem expected_concat {dets : List Bool} (hdets : dets ≠ []) (reachable : Bool) :
    expected (dets ++ [reachable]) =
      expected dets ++ if dets.getLast? = some reachable then [] else reports reachable := by
  rw [expected, changes_concat]
  by_cases hsame : dets.getLast? = some reachable
  · simp [hsame, expected]
  · simp [hsame, hdets, expected]

/-- The debouncer lets the next event through, and is left with it. -/
theorem allow_next {dets : List Bool} {kinds : List NetworkEventKind} {kind : NetworkEventKind}
    {left : List NetworkEventKind} (hkinds : kinds ++ kind :: left = expected dets)
    {debouncer : Debouncer} (hlast : debouncer.lastKind.map Prod.fst = kinds.getLast?) (now : ℕ) :
    debouncer.allow kind now = (true, ⟨some (kind, now)⟩) := by
  refine allow_of_ne (fun instant hsame => ?_) now
  rw [hsame] at hlast
  have hchain := isChain_expected dets
  rw [← hkinds, List.isChain_append] at hchain
  exact hchain.2.2 kind hlast.symm kind rfl rfl

section Arbitration

variable {dets : List Bool} {kinds : List NetworkEventKind} {s : WindowsWatcher} {i seq : ℕ}

/-- The read of the state, which is known and which no other arbitration is about to write. -/
theorem recorded_load {reachable : Bool} (h : Recorded dets kinds s)
    (htask : s.arbitrations[i]? = some ⟨seq, .confirmed reachable⟩)
    (hok : Undisturbed s (.load i)) :
    Recorded (dets ++ [reachable]) kinds (s.setPhase i ⟨seq, .confirmed reachable⟩
      (if s.onlineState = some reachable then .ended else .changed reachable)) := by
  obtain ⟨hknown, hunchanged, hfinds⟩ := hok
  have hdets : s.onlineState = dets.getLast? → dets ≠ [] := by
    rintro hstate rfl
    exact hknown hstate
  have hsame : s.onlineState = dets.getLast? → s.onlineState = some reachable →
      expected (dets ++ [reachable]) = expected dets := by
    intro hstate hreachable
    rw [expected_concat (hdets hstate), ← hstate, if_pos hreachable, List.append_nil]
  have hfindsSame : findsSame s i = true → s.onlineState = some reachable := by
    intro h
    rw [findsSame, htask] at h
    exact beq_iff_eq.mp h
  -- the frame of an arbitration that ends without an event
  have hended : ∀ dets, Recorded dets kinds s →
      Recorded dets kinds (s.setPhase i ⟨seq, .confirmed reachable⟩ .ended) :=
    fun _ h => h.setPhase htask rfl rfl
  cases h with
  | changed j _ honly =>
    obtain ⟨seq', hseq'⟩ := honly.1
    cases hunchanged _ (List.mem_of_getElem? hseq')
  | reporting j left honly _ hstate hkinds hlast =>
    have hreachable := hfindsSame (hfinds.resolve_right (honly.not_noneReporting rfl))
    rw [if_pos hreachable]
    refine hended _ (.reporting j left honly hknown ?_ ?_ hlast)
    · rw [List.getLast?_concat]
      exact hreachable
    · rw [hsame hstate hreachable]
      exact hkinds
  | sending j event left honly _ hstate hkinds hlast =>
    have hreachable := hfindsSame (hfinds.resolve_right (honly.not_noneReporting rfl))
    rw [if_pos hreachable]
    refine hended _ (.sending j event left honly hknown ?_ ?_ hlast)
    · rw [List.getLast?_concat]
      exact hreachable
    · rw [hsame hstate hreachable]
      exact hkinds
  | quiet hquiet hstate hkinds hlast =>
    split_ifs with hreachable
    · refine hended _ (.quiet hquiet ?_ ?_ hlast)
      · rw [List.getLast?_concat]
        exact hreachable
      · rw [hsame hstate hreachable]
        exact hkinds
    · have hother : ∀ (j : ℕ) (task : Arbitration), s.arbitrations[j]? = some task →
          task.phase.isReporting = true → j = i := by
        intro j task hj hreporting
        exact absurd (hreporting.symm.trans (noneReporting_iff.mp hquiet j task hj)) (by decide)
      refine .changed i reachable (only_setPhase htask hother _) hknown List.getLast?_concat
        ?_ hlast
      rw [expected_concat (hdets hstate), ← hstate, if_neg hreachable, hkinds]

theorem recorded_store {reachable : Bool} (h : Recorded dets kinds s)
    (htask : s.arbitrations[i]? = some ⟨seq, .changed reachable⟩) :
    Recorded dets kinds ({ s with onlineState := some reachable }.setPhase i
      ⟨seq, .changed reachable⟩ (.reporting (reports reachable))) := by
  cases h with
  | quiet hquiet => cases noneReporting_iff.mp hquiet i _ htask
  | reporting i' _ honly => cases (honly.unique htask rfl).2
  | sending i' _ _ honly => cases (honly.unique htask rfl).2
  | changed i' reachable' honly hknown hdet hkinds hlast =>
    obtain ⟨rfl, heq⟩ := honly.unique htask rfl
    cases heq
    exact .reporting i (reports reachable) (only_setPhase (s := { s with onlineState := _ })
      htask honly.2 _) (Option.some_ne_none _) hdet.symm hkinds hlast

/-- The debouncer lets every event through. -/
theorem recorded_debounce {kind : NetworkEventKind} {left : List NetworkEventKind}
    (h : Recorded dets kinds s)
    (htask : s.arbitrations[i]? = some ⟨seq, .reporting (kind :: left)⟩) (now : ℕ)
    (ssid : Option String) :
    s.debouncer.allow kind now = (true, ⟨some (kind, now)⟩) ∧
      Recorded dets kinds ({ s with debouncer := ⟨some (kind, now)⟩ }.setPhase i
        ⟨seq, .reporting (kind :: left)⟩ (.sending (arbitratedEvent kind ssid) left)) := by
  cases h with
  | quiet hquiet => cases noneReporting_iff.mp hquiet i _ htask
  | changed i' _ honly => cases (honly.unique htask rfl).2
  | sending i' _ _ honly => cases (honly.unique htask rfl).2
  | reporting i' left' honly hknown hstate hkinds hlast =>
    obtain ⟨rfl, heq⟩ := honly.unique htask rfl
    cases heq
    have hkind : (arbitratedEvent kind ssid).kind = kind := by cases kind <;> rfl
    refine ⟨allow_next hkinds hlast now, .sending i (arbitratedEvent kind ssid) left
      (only_setPhase (s := { s with debouncer := _ }) htask honly.2 _) hknown hstate ?_ ?_⟩
    · rw [hkind]
      exact hkinds
    · rw [hkind]
      rfl

theorem recorded_send {event : NetworkEvent} {left : List NetworkEventKind}
    (h : Recorded dets kinds s)
    (htask : s.arbitrations[i]? = some ⟨seq, .sending event left⟩) :
    Recorded dets (kinds ++ [event.kind])
      (s.setPhase i ⟨seq, .sending event left⟩ (nextPhase left)) := by
  cases h with
  | quiet hquiet => cases noneReporting_iff.mp hquiet i _ htask
  | changed i' _ honly => cases (honly.unique htask rfl).2
  | reporting i' _ honly => cases (honly.unique htask rfl).2
  | sending i' event' left' honly hknown hstate hkinds hlast =>
    obtain ⟨rfl, heq⟩ := honly.unique htask rfl
    cases heq
    rw [List.append_cons] at hkinds
    have hlast' : s.debouncer.lastKind.map Prod.fst = (kinds ++ [event.kind]).getLast? := by
      rw [hlast, List.getLast?_concat]
    rw [nextPhase]
    split_ifs with hleft
    · subst hleft
      rw [List.append_nil] at hkinds
      exact .quiet (noneReporting_setPhase htask honly.2 rfl) hstate hkinds hlast'
    · exact .reporting i left (only_setPhase htask honly.2 _) hknown hstate hkinds hlast'

/-- A step without outputs. -/
theorem Recorded.nil {t : WindowsWatcher} (h : Recorded dets kinds t) :
    Recorded (dets ++ determinations []) (kinds ++ eventKinds []) t := by
  have hdets : determinations [] = [] := rfl
  have hkinds : eventKinds [] = [] := rfl
  rwa [hdets, hkinds, List.append_nil, List.append_nil]

/-- One step of an arbitration. -/
theorem recorded_arbitration {t : WindowsWatcher} (h : Recorded dets kinds s) {a : WindowsAction}
    {task : Arbitration} (htask : s.arbitrations[i]? = some task) (hi : ∀ j, a = .load j → j = i)
    (hok : Undisturbed s a)
    {o : List WindowsOutput} (hst : arbitrationStep s a i task = some (t, o)) :
    Recorded (dets ++ determinations o) (kinds ++ eventKinds o) t := by
  obtain ⟨seq, phase⟩ := task
  unfold arbitrationStep at hst
  dsimp only at hst
  split at hst
  · -- it wakes up
    cases hst
    exact (h.setPhase htask rfl (by split_ifs <;> rfl)).nil
  · -- it knows whether the machine is online
    cases hst
    exact (h.setPhase htask rfl (by split_ifs <;> rfl)).nil
  · -- it reads the state
    rename_i i' reachable
    cases hst
    obtain rfl := hi i' rfl
    show Recorded (dets ++ [reachable]) (kinds ++ []) _
    rw [List.append_nil]
    exact recorded_load h htask hok
  · -- it writes the state
    cases hst
    exact (recorded_store h htask).nil
  · -- it asks the debouncer
    rename_i _ now ssid kind left
    obtain ⟨hallow, hrecorded⟩ := recorded_debounce h htask now ssid
    rw [hallow] at hst
    cases hst
    exact hrecorded.nil
  · -- it sends an event
    rename_i _ event left
    cases hst
    show Recorded (dets ++ []) (kinds ++ [event.kind]) _
    rw [List.append_nil]
    exact recorded_send h htask
  · cases hst

/-- A new arbitration is not reporting. -/
theorem recorded_spawn (hasHandle : Bool) (h : Recorded dets kinds s) :
    Recorded dets kinds (s.spawnArbitratedEvent hasHandle) := by
  refine h.frame rfl rfl fun j task htask => ?_
  rw [WindowsWatcher.spawnArbitratedEvent]
  cases hasHandle with
  | false => exact Iff.rfl
  | true =>
    show (s.arbitrations ++ [⟨s.arbitrateSeq + 1, .settling⟩])[j]? = some task ↔ _
    rw [List.getElem?_append]
    split_ifs with hj
    · exact Iff.rfl
    · rw [List.getElem?_eq_none (Nat.le_of_not_lt hj)]
      constructor
      · intro hnew
        have hmem := List.mem_of_getElem? hnew
        rw [List.mem_singleton] at hmem
        rw [hmem] at htask
        cases htask
      · intro hnone
        cases hnone

/-- The first determination, before anything else is known. -/
theorem recorded_baseline (h : Recorded dets kinds s) (hunknown : s.onlineState = none)
    (online : Bool) : Recorded (dets ++ [online]) kinds
      { s with baseline := .ended, onlineState := some online } := by
  cases h with
  | changed _ _ _ hknown => exact absurd hunknown hknown
  | reporting _ _ _ hknown => exact absurd hunknown hknown
  | sending _ _ _ _ hknown => exact absurd hunknown hknown
  | quiet hquiet hstate hkinds hlast =>
    rw [hunknown] at hstate
    obtain rfl := List.getLast?_eq_none_iff.mp hstate.symm
    exact .quiet hquiet rfl hkinds hlast

/-- One step, while no arbitration disturbs another one or the baseline. -/
theorem recorded_step {hasHandle : Bool} {t : WindowsWatcher} (h : Recorded dets kinds s)
    {a : WindowsAction} (hok : Undisturbed s a) {o : List WindowsOutput}
    (hst : windowsStep hasHandle s a = some (t, o)) :
    Recorded (dets ++ determinations o) (kinds ++ eventKinds o) t := by
  have htask : ∀ i, (∀ j, a = .load j → j = i) →
      s.arbitrations[i]?.bind (arbitrationStep s a i) = some (t, o) →
      Recorded (dets ++ determinations o) (kinds ++ eventKinds o) t := by
    intro i hi hbind
    obtain ⟨task, htask, hstep⟩ := Option.bind_eq_some_iff.mp hbind
    exact recorded_arbitration h htask hi hok hstep
  cases a with
  | interfaceChanged row deleted =>
    cases row with
    | none =>
      cases hst
      exact (recorded_spawn hasHandle h).nil
    | some row =>
      obtain ⟨key, connected⟩ := row
      have hedge : Recorded dets kinds
          { s with edge := (s.edge.changed key (!deleted && connected)).2 } :=
        h.frame rfl rfl fun _ _ _ => Iff.rfl
      cases hst
      refine Recorded.nil ?_
      split_ifs
      · exact recorded_spawn hasHandle hedge
      · exact hedge
  | wlanNotified relevant =>
    cases hst
    refine Recorded.nil ?_
    split_ifs
    · exact recorded_spawn hasHandle h
    · exact h
  | baselineSettled =>
    rw [windowsStep] at hst
    split_ifs at hst
    cases hst
    refine Recorded.nil ?_
    exact h.frame rfl rfl fun _ _ _ => Iff.rfl
  | baselineProbed online =>
    rw [windowsStep] at hst
    split_ifs at hst
    cases hst
    refine Recorded.nil ?_
    exact h.frame rfl rfl fun _ _ _ => Iff.rfl
  | baselineRecorded =>
    rw [windowsStep] at hst
    split at hst
    · rename_i online hbaseline
      split_ifs at hst with hunknown
      · cases hst
        show Recorded (dets ++ [online]) (kinds ++ []) _
        rw [List.append_nil]
        exact recorded_baseline h hunknown online
      · cases hst
        refine Recorded.nil ?_
        exact h.frame rfl rfl fun _ _ _ => Iff.rfl
    · cases hst
  | settled i => exact htask i (fun _ heq => by cases heq) hst
  | confirmed i reachable => exact htask i (fun _ heq => by cases heq) hst
  | load i => exact htask i (fun _ heq => by cases heq; rfl) hst
  | store i => exact htask i (fun _ heq => by cases heq) hst
  | debounce i now ssid => exact htask i (fun _ heq => by cases heq) hst
  | send i => exact htask i (fun _ heq => by cases heq) hst

end Arbitration

/-- The events are those of the changes of what was determined, none for the first
    determination, in every run without disturbance; where no arbitration is reporting, all of
    them are out, and the last determination is recorded. -/
theorem windows_events_eq {hasHandle : Bool} {tr : List (WindowsAction × List WindowsOutput)}
    {s : WindowsWatcher}
    (h : (windowsMachine hasHandle).Run Undisturbed (windowsMachine hasHandle).init tr s) :
    let dets := determinations (Machine.outputs tr)
    let kinds := eventKinds (Machine.outputs tr)
    kinds <+: (changes dets).flatMap reports ∧
      (NoneReporting s → kinds = (changes dets).flatMap reports ∧ s.onlineState = dets.getLast?) ∧
      (dets.length ≤ 1 → kinds = []) ∧
      (kinds.filterMap direction).IsChain (· ≠ ·) := by
  intro dets kinds
  have hrecorded : Recorded dets kinds s := by
    refine h.history (I := fun tr s =>
      Recorded (determinations (Machine.outputs tr)) (eventKinds (Machine.outputs tr)) s) ?_ ?_
    · exact .quiet (fun task htask => absurd htask List.not_mem_nil) rfl rfl rfl
    · intro tr t a u o _ hi hok hst
      rw [Machine.outputs_append, Machine.outputs_singleton, determinations_append,
        eventKinds_append]
      exact recorded_step hi hok hst
  have hpre : kinds <+: expected dets := by
    cases hrecorded with
    | quiet _ _ hkinds => exact hkinds ▸ List.prefix_refl _
    | changed _ _ _ _ _ hkinds => exact hkinds ▸ List.prefix_append _ _
    | reporting _ _ _ _ _ hkinds => exact hkinds ▸ List.prefix_append _ _
    | sending _ _ _ _ _ _ hkinds => exact hkinds ▸ List.prefix_append _ _
  refine ⟨hpre, fun hquiet => ?_, fun hlength => ?_, ?_⟩
  · cases hrecorded with
    | quiet _ hstate hkinds => exact ⟨hkinds, hstate⟩
    | changed _ _ honly => exact absurd hquiet (honly.not_noneReporting rfl)
    | reporting _ _ honly => exact absurd hquiet (honly.not_noneReporting rfl)
    | sending _ _ _ honly => exact absurd hquiet (honly.not_noneReporting rfl)
  · rw [expected, changes_eq_nil hlength] at hpre
    exact List.prefix_nil.mp hpre
  · have hchain := isChain_changes dets
    rw [← direction_expected] at hchain
    obtain ⟨rest, hrest⟩ := hpre
    rw [← hrest, List.filterMap_append] at hchain
    exact hchain.left_of_append

/-- The connection is lost after the baseline was recorded. -/
def lostActions : List WindowsAction :=
  [.baselineSettled, .baselineProbed true, .baselineRecorded,
    .interfaceChanged (some (7, true)) false, .interfaceChanged (some (7, true)) true, .settled 0,
    .confirmed 0 false, .load 0, .store 0, .debounce 0 3000000000 none, .send 0]

def lostRun : List (WindowsAction × List WindowsOutput) × WindowsWatcher :=
  ((windowsMachine true).exec Undisturbed (windowsMachine true).init lostActions).get (by decide)

theorem windows_events_lost :
    let dets := determinations (Machine.outputs lostRun.1)
    let kinds := eventKinds (Machine.outputs lostRun.1)
    kinds <+: (changes dets).flatMap reports ∧
      (NoneReporting lostRun.2 →
        kinds = (changes dets).flatMap reports ∧ lostRun.2.onlineState = dets.getLast?) ∧
      (dets.length ≤ 1 → kinds = []) ∧
      (kinds.filterMap direction).IsChain (· ≠ ·) :=
  windows_events_eq (Machine.exec_get_run (by decide))

/-- A notification in the first two seconds. -/
def startupActions : List WindowsAction :=
  [.wlanNotified true, .settled 0, .confirmed 0 true, .load 0, .store 0, .debounce 0 0 none,
    .send 0, .debounce 0 0 none, .send 0, .baselineSettled, .baselineProbed true,
    .baselineRecorded]

/-- Two arbitrations that read the state before either of them writes it. -/
def overlappingActions : List WindowsAction :=
  [.baselineSettled, .baselineProbed false, .baselineRecorded, .wlanNotified true, .settled 0,
    .confirmed 0 true, .wlanNotified true, .settled 1, .confirmed 1 true, .load 0, .load 1,
    .store 0, .store 1, .debounce 0 0 none, .send 0, .debounce 0 0 none, .send 0,
    .debounce 1 0 none, .send 1]

/-- The first determination is reported where a notification is faster than the baseline, and two
    arbitrations at once report the same change twice. -/
theorem windows_startup_events :
    (∃ tr s, (windowsMachine true).Run Machine.anyStep (windowsMachine true).init tr s ∧
      determinations (Machine.outputs tr) = [true] ∧
      eventKinds (Machine.outputs tr) = [.Connect, .Online]) ∧
    ∃ tr s, (windowsMachine true).Run Machine.anyStep (windowsMachine true).init tr s ∧
      (eventKinds (Machine.outputs tr)).filterMap direction = [true, true] := by
  have hstartup : ((windowsMachine true).exec Machine.anyStep (windowsMachine true).init
      startupActions).isSome := by decide
  have hoverlapping : ((windowsMachine true).exec Machine.anyStep (windowsMachine true).init
      overlappingActions).isSome := by decide
  exact ⟨⟨_, _, Machine.exec_get_run hstartup, rfl, rfl⟩,
    _, _, Machine.exec_get_run hoverlapping, rfl⟩

end EasyJob.Agent
