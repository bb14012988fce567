import EasyJob.Agent.Network
import EasyJob.Lib.Changes
import EasyJob.Lib.Transition
import Mathlib.Data.List.TakeWhile

/-!
# Network events on macOS

Model of `platform_macos` (`apps/agent/src/network.rs` lines 291–481). The handler of path updates
runs on a serial queue, one update at a time, and is cut where it takes the lock of the debouncer
and where it sends its event; the probes run beside it. The clocks read are part of the actions.

* `pathUpdate_spec`: one update against the last known status.
* `macos_events_eq`: the events are the changes of the known status.
-/

namespace EasyJob.Agent

open EasyJob.Domain Transition Changes

/-! ## The watcher -/

/-- The handler on its queue. -/
inductive Callback
  | idle
  /-- Before the debouncer. -/
  | changed (event : NetworkEvent)
  /-- Let through, and not sent yet. -/
  | allowed (event : NetworkEvent)
  deriving DecidableEq

/-- A probe for `Online`. -/
inductive OnlineProbe
  | probing
  | allowed (ssid : Option String)
  | ended
  deriving DecidableEq

structure MacosWatcher where
  running : Bool
  edge : EdgeDetector ℕ
  debouncer : Debouncer
  callback : Callback
  /-- `LAST_PROBE_MS` -/
  lastProbeMs : ℤ
  probes : List OnlineProbe

inductive MacosAction
  /-- The handler is called. -/
  | pathUpdate (status : ℤ) (ssid : Option String)
  /-- The handler asks the debouncer. -/
  | debounce (now : ℕ)
  /-- The handler sends its event. -/
  | report (nowMs : ℤ)
  /-- Probe `i` has its result and asks the debouncer. -/
  | probed (i : ℕ) (online : Bool) (ssid : Option String) (now : ℕ)
  /-- Probe `i` sends its event. -/
  | reportOnline (i : ℕ)
  | stop
  deriving DecidableEq

/-- Model of `status_to_connect_change` (lines 429–435). -/
def statusToConnectChange (status : ℤ) (edge : EdgeDetector ℕ) : Option Bool × EdgeDetector ℕ :=
  if status = 1 then
    (if (edge.changed 0 true).1 then some true else none, (edge.changed 0 true).2)
  else if status = 2 then
    (if (edge.changed 0 false).1 then some false else none, (edge.changed 0 false).2)
  else (none, edge)

/-- Model of `spawn_online_probe` (lines 446–472) up to the probe; `hasHandle` tells whether the
    watcher was started inside the runtime. -/
def spawnOnlineProbe (hasHandle : Bool) (nowMs : ℤ) (s : MacosWatcher) : MacosWatcher :=
  if nowMs - s.lastProbeMs < 10000 then s
  else { s with
    lastProbeMs := nowMs
    probes := if hasHandle then s.probes ++ [.probing] else s.probes }

/-- One step of the handler (lines 361–388), of a probe, or the end of the watcher. -/
def macosStep (hasHandle : Bool) (s : MacosWatcher) (a : MacosAction) :
    Option (MacosWatcher × List NetworkEvent) :=
  match a, s.callback with
  | .pathUpdate status ssid, .idle =>
    if s.running then
      let (change, edge) := statusToConnectChange status s.edge
      match change with
      | some connected =>
        let event := if connected then NetworkEvent.Connect ssid else .Disconnect ssid
        some ({ s with edge, callback := .changed event }, [])
      | none => some ({ s with edge }, [])
    else some (s, [])
  | .debounce now, .changed event =>
    let (allowed, debouncer) := s.debouncer.allow event.kind now
    some ({ s with debouncer, callback := if allowed then .allowed event else .idle }, [])
  | .report nowMs, .allowed event =>
    let s' := { s with callback := .idle }
    some (if event.kind = .Connect then spawnOnlineProbe hasHandle nowMs s' else s', [event])
  | .probed i online ssid now, _ =>
    if s.probes[i]? = some .probing then
      if online then
        let (allowed, debouncer) := s.debouncer.allow .Online now
        some ({ s with
          debouncer
          probes := s.probes.set i (if allowed then .allowed ssid else .ended) }, [])
      else some ({ s with probes := s.probes.set i .ended }, [])
    else none
  | .reportOnline i, _ =>
    match s.probes[i]? with
    | some (.allowed ssid) =>
      some ({ s with probes := s.probes.set i .ended }, [.Online ssid])
    | _ => none
  | .stop, _ => some ({ s with running := false }, [])
  | _, _ => none

def macosMachine (hasHandle : Bool) : Machine MacosWatcher MacosAction NetworkEvent where
  init := ⟨true, .new, .new, .idle, 0, []⟩
  step := macosStep hasHandle

/-! ## The known statuses -/

/-- What a call of the handler says about the connection, if anything. -/
def knownStatus : MacosAction → Option Bool
  | .pathUpdate status _ =>
    if status = 1 then some true else if status = 2 then some false else none
  | _ => none

/-- The known statuses that arrived before the watcher was stopped, in order. -/
def knownStatuses (actions : List MacosAction) : List Bool :=
  (actions.takeWhile (· != .stop)).filterMap knownStatus

/-- The direction of the event that the handler has not sent yet. -/
def Callback.pending : Callback → List Bool
  | .idle => []
  | .changed event | .allowed event => (direction event.kind).toList

/-- The handler has seen a change that the debouncer has not. -/
def Callback.isChanged : Callback → Bool
  | .changed _ => true
  | _ => false

theorem knownStatuses_concat (actions : List MacosAction) (a : MacosAction) :
    knownStatuses (actions ++ [a]) =
      if .stop ∈ actions then knownStatuses actions
      else knownStatuses actions ++ (knownStatus a).toList := by
  have hne : ∀ b : MacosAction, (b != .stop) = true ↔ b ≠ .stop := fun b => bne_iff_ne
  rw [knownStatuses, knownStatuses, List.takeWhile_append]
  by_cases hstop : .stop ∈ actions
  · have hlength : (actions.takeWhile (· != .stop)).length ≠ actions.length := by
      intro hlength
      have hprefix : actions.takeWhile (· != .stop) <+: actions := List.takeWhile_prefix _
      rw [← hprefix.eq_of_length hlength] at hstop
      have hmem : (MacosAction.stop != .stop) = true :=
        List.mem_takeWhile_imp (p := (· != MacosAction.stop)) hstop
      exact (hne _).mp hmem rfl
    rw [if_neg hlength, if_pos hstop]
  · have hall : actions.takeWhile (· != .stop) = actions := by
      rw [List.takeWhile_eq_self_iff]
      intro b hb
      rw [hne]
      rintro rfl
      exact hstop hb
    rw [hall, if_pos rfl, if_neg hstop, List.filterMap_append]
    congr 1
    by_cases ha : a = .stop
    · subst ha
      rfl
    · have htake : [a].takeWhile (· != .stop) = [a] :=
        List.takeWhile_eq_self_iff.mpr (by simpa using ha)
      rw [htake]
      cases hknown : knownStatus a <;> simp [hknown]

/-- One update against the last known status. -/
theorem pathUpdate_spec (status : ℤ) (ssid : Option String) (edge : EdgeDetector ℕ) :
    (statusToConnectChange status edge).2.seen 0 =
      (knownStatus (.pathUpdate status ssid)).or (edge.seen 0) ∧
    (statusToConnectChange status edge).1 =
      (knownStatus (.pathUpdate status ssid)).filter fun value => edge.seen 0 = some !value := by
  unfold statusToConnectChange knownStatus
  split_ifs <;> simp_all [changed_eq, Option.filter]

/-! ## The run -/

/-- What the trace and the watcher have in common: the events so far with the one in hand are the
    changes of the known statuses, the last of which is seen, and the debouncer remembers no event
    in the direction of the one before it. -/
structure Reported (actions : List MacosAction) (events : List NetworkEvent) (s : MacosWatcher) :
    Prop where
  running : s.running = true ↔ .stop ∉ actions
  changes_eq : directions events ++ s.callback.pending = changes (knownStatuses actions)
  seen : s.edge.seen 0 = (knownStatuses actions).getLast?
  event : ∀ event, s.callback = .changed event ∨ s.callback = .allowed event →
    ∃ value, direction event.kind = some value ∧ s.edge.seen 0 = some value
  debouncer : ∀ kind instant, s.debouncer.lastKind = some (kind, instant) →
    ∀ value, direction kind = some value →
      s.edge.seen 0 = some (value ^^ s.callback.isChanged)

/-- The debouncer lets the event of the handler through. -/
theorem Reported.allow {actions : List MacosAction} {events : List NetworkEvent}
    {s : MacosWatcher} (h : Reported actions events s) {event : NetworkEvent}
    (hevent : s.callback = .changed event) (now : ℕ) :
    s.debouncer.allow event.kind now = (true, ⟨some (event.kind, now)⟩) := by
  refine allow_of_ne (fun instant hlast => ?_) now
  obtain ⟨value, hkind, hvalue⟩ := h.event event (.inl hevent)
  have hother := h.debouncer _ _ hlast value hkind
  rw [hevent, hvalue] at hother
  simp [Callback.isChanged] at hother

/-- A value against the last one. -/
theorem changes_concat_seen (known : List Bool) (value : Bool) :
    changes (known ++ [value]) =
      changes known ++ if known.getLast? = some !value then [value] else [] := by
  rw [changes_concat]
  cases hlast : known.getLast? with
  | none => simp [List.getLast?_eq_none_iff.mp hlast]
  | some last =>
    have hne : known ≠ [] := by
      rintro rfl
      cases hlast
    cases last <;> cases value <;> simp [hne]

section Update

variable {actions : List MacosAction} {events : List NetworkEvent} {s : MacosWatcher}
  {a : MacosAction} {edge : EdgeDetector ℕ}

/-- A step that leaves what was said about the connection as it is. -/
theorem Reported.silent (h : Reported actions events s) (hstop : a ≠ .stop)
    (hknown : s.running = true → knownStatus a = none)
    (hseen : edge.seen 0 = s.edge.seen 0) :
    Reported (actions ++ [a]) events { s with edge } := by
  have hconcat : knownStatuses (actions ++ [a]) = knownStatuses actions := by
    rw [knownStatuses_concat]
    split_ifs with hstopped
    · rfl
    · rw [hknown (h.running.mpr hstopped)]
      exact List.append_nil _
  refine ⟨?_, ?_, ?_, ?_, ?_⟩
  · rw [List.mem_append, List.mem_singleton, or_iff_left hstop.symm]
    exact h.running
  · rw [hconcat]
    exact h.changes_eq
  · rw [hconcat]
    exact hseen.trans h.seen
  · intro event hevent
    obtain ⟨value, hkind, hvalue⟩ := h.event event hevent
    exact ⟨value, hkind, hseen.trans hvalue⟩
  · exact fun kind instant hlast value hkind =>
      hseen.trans (h.debouncer kind instant hlast value hkind)

variable (h : Reported actions events s) (hrunning : s.running = true)
  (hidle : s.callback = .idle) {value : Bool} (hknown : knownStatus a = some value)
  (hseen : edge.seen 0 = some value)
include h hrunning hidle hknown hseen

/-- The first known status, or a repeated one. -/
theorem Reported.repeated (hsame : s.edge.seen 0 ≠ some !value) :
    Reported (actions ++ [a]) events { s with edge } := by
  have hstop : a ≠ .stop := by
    rintro rfl
    cases hknown
  have hconcat := knownStatuses_concat actions a
  rw [if_neg (h.running.mp hrunning), hknown, Option.toList_some] at hconcat
  refine ⟨?_, ?_, ?_, ?_, ?_⟩
  · rw [List.mem_append, List.mem_singleton, or_iff_left hstop.symm]
    exact h.running
  · rw [hconcat, changes_concat_seen, ← h.seen, if_neg hsame, List.append_nil]
    exact h.changes_eq
  · rw [hconcat, List.getLast?_concat]
    exact hseen
  · intro event hevent
    rw [hidle] at hevent
    rcases hevent with hevent | hevent <;> cases hevent
  · intro kind instant hlast value' hkind
    have hbefore := h.debouncer kind instant hlast value' hkind
    rw [hidle] at hbefore ⊢
    have hequal : ∀ v v' : Bool, some (v' ^^ false) ≠ some (!v) → v = (v' ^^ false) := by decide
    exact hseen.trans (congrArg some (hequal _ _ fun heq => hsame (hbefore.trans heq)))

/-- The connection has changed. -/
theorem Reported.changed {event : NetworkEvent} (hother : s.edge.seen 0 = some !value)
    (hdirection : direction event.kind = some value) :
    Reported (actions ++ [a]) events { s with edge, callback := .changed event } := by
  have hstop : a ≠ .stop := by
    rintro rfl
    cases hknown
  have hconcat := knownStatuses_concat actions a
  rw [if_neg (h.running.mp hrunning), hknown, Option.toList_some] at hconcat
  have hbefore : directions events = changes (knownStatuses actions) := by
    rw [← h.changes_eq, hidle]
    exact (List.append_nil _).symm
  refine ⟨?_, ?_, ?_, ?_, ?_⟩
  · rw [List.mem_append, List.mem_singleton, or_iff_left hstop.symm]
    exact h.running
  · rw [hconcat, changes_concat_seen, ← h.seen, if_pos hother, hbefore, Callback.pending,
      hdirection, Option.toList_some]
  · rw [hconcat, List.getLast?_concat]
    exact hseen
  · rintro event' (hevent | hevent)
    · cases hevent
      exact ⟨value, hdirection, hseen⟩
    · cases hevent
  · intro kind instant hlast value' hkind
    have hlastSeen := h.debouncer kind instant hlast value' hkind
    rw [hidle] at hlastSeen
    have hopposite : ∀ v v' : Bool, some (!v) = some (v' ^^ false) → v = (v' ^^ true) := by decide
    exact hseen.trans (congrArg some (hopposite _ _ (hother.symm.trans hlastSeen)))

end Update

/-- One call of the handler. -/
theorem reported_pathUpdate {hasHandle : Bool} {actions : List MacosAction}
    {events : List NetworkEvent} {s t : MacosWatcher} (h : Reported actions events s)
    {status : ℤ} {ssid : Option String} {o : List NetworkEvent}
    (hst : macosStep hasHandle s (.pathUpdate status ssid) = some (t, o)) :
    Reported (actions ++ [.pathUpdate status ssid]) (events ++ o) t := by
  have hidle : s.callback = .idle := by
    cases hcallback : s.callback with
    | idle => rfl
    | changed event => simp [macosStep, hcallback] at hst
    | allowed event => simp [macosStep, hcallback] at hst
  have hstop : MacosAction.pathUpdate status ssid ≠ .stop := nofun
  simp only [macosStep, hidle] at hst
  split_ifs at hst with hrunning
  · obtain ⟨hseen, hchange⟩ := pathUpdate_spec status ssid s.edge
    obtain ⟨change, edge, hcall⟩ : ∃ change edge,
        statusToConnectChange status s.edge = (change, edge) := ⟨_, _, rfl⟩
    rw [hcall] at hst hseen hchange
    dsimp only at hst hseen hchange
    cases hknown : knownStatus (.pathUpdate status ssid) with
    | none =>
      -- some other status
      rw [hknown] at hseen hchange
      obtain rfl : change = none := hchange
      cases hst
      rw [List.append_nil, ← hidle]
      exact h.silent hstop (fun _ => hknown) hseen
    | some value =>
      rw [hknown] at hseen hchange
      by_cases hother : s.edge.seen 0 = some !value
      · obtain rfl : change = some value := by
          rw [hchange, Option.filter_some, if_pos (by simpa using hother)]
        cases hst
        rw [List.append_nil]
        exact h.changed hrunning hidle hknown hseen hother (by cases value <;> rfl)
      · obtain rfl : change = none := by
          rw [hchange, Option.filter_some, if_neg (by simpa using hother)]
        cases hst
        rw [List.append_nil, ← hidle]
        exact h.repeated hrunning hidle hknown hseen hother
  · cases hst
    rw [List.append_nil]
    exact h.silent hstop (fun hrun => absurd hrun hrunning) rfl

/-- A probe that starts touches nothing but the probes. -/
theorem spawnOnlineProbe_frame (hasHandle : Bool) (nowMs : ℤ) (s : MacosWatcher) :
    ∃ lastProbeMs probes, spawnOnlineProbe hasHandle nowMs s = { s with lastProbeMs, probes } := by
  unfold spawnOnlineProbe
  split_ifs <;> exact ⟨_, _, rfl⟩

/-- A probe that ends touches the debouncer at most, for an event without direction. -/
theorem probed_frame {hasHandle : Bool} {s t : MacosWatcher} {i : ℕ} {online : Bool}
    {ssid : Option String} {now : ℕ} {o : List NetworkEvent}
    (hst : macosStep hasHandle s (.probed i online ssid now) = some (t, o)) :
    o = [] ∧ t.running = s.running ∧ t.edge = s.edge ∧ t.callback = s.callback ∧
      (t.debouncer.lastKind = s.debouncer.lastKind ∨
        t.debouncer.lastKind = some (.Online, now)) := by
  simp only [macosStep] at hst
  by_cases hprobing : s.probes[i]? = some .probing
  · rw [if_pos hprobing] at hst
    cases online with
    | false =>
      cases hst
      exact ⟨rfl, rfl, rfl, rfl, .inl rfl⟩
    | true =>
      cases hst
      exact ⟨rfl, rfl, rfl, rfl, allow_lastKind s.debouncer .Online now⟩
  · rw [if_neg hprobing] at hst
    cases hst

section Steps

variable {hasHandle : Bool} {actions : List MacosAction} {events o : List NetworkEvent}
  {s t : MacosWatcher}

/-- Only the handler says something about the connection, and only `stop` stops the watcher. -/
theorem quiet_concat (actions : List MacosAction) {a : MacosAction} (hstop : a ≠ .stop)
    (hknown : knownStatus a = none) :
    (.stop ∈ actions ++ [a] ↔ .stop ∈ actions) ∧
      knownStatuses (actions ++ [a]) = knownStatuses actions := by
  refine ⟨by simp [hstop.symm], ?_⟩
  rw [knownStatuses_concat, hknown]
  simp

/-- The handler asks the debouncer. -/
theorem reported_debounce (h : Reported actions events s) {now : ℕ}
    (hst : macosStep hasHandle s (.debounce now) = some (t, o)) :
    Reported (actions ++ [.debounce now]) (events ++ o) t := by
  have hne : MacosAction.debounce now ≠ .stop := nofun
  obtain ⟨hstop, hknown⟩ := quiet_concat actions hne rfl
  cases hcallback : s.callback with
  | idle => simp [macosStep, hcallback] at hst
  | allowed event => simp [macosStep, hcallback] at hst
  | changed event =>
    simp only [macosStep, hcallback, h.allow hcallback now, if_true] at hst
    cases hst
    obtain ⟨value, hkind, hseen⟩ := h.event event (.inl hcallback)
    refine ⟨by rw [hstop]; exact h.running, ?_, by rw [hknown]; exact h.seen, ?_, ?_⟩
    · rw [hknown, ← h.changes_eq, hcallback, List.append_nil]
      rfl
    · rintro event' (hevent | hevent)
      · cases hevent
      · cases hevent
        exact ⟨value, hkind, hseen⟩
    · intro kind instant hlast value' hkind'
      cases hlast
      rw [hkind] at hkind'
      cases hkind'
      rw [hseen]
      simp [Callback.isChanged]

/-- The event of the handler goes out. -/
theorem report_frame {nowMs : ℤ} {event : NetworkEvent} (hcallback : s.callback = .allowed event)
    (hst : macosStep hasHandle s (.report nowMs) = some (t, o)) :
    ∃ lastProbeMs probes, t = { s with callback := .idle, lastProbeMs, probes } ∧ o = [event] := by
  simp only [macosStep, hcallback] at hst
  cases hst
  split_ifs
  · obtain ⟨lastProbeMs, probes, ht⟩ :=
      spawnOnlineProbe_frame hasHandle nowMs { s with callback := .idle }
    exact ⟨lastProbeMs, probes, ht, rfl⟩
  · exact ⟨s.lastProbeMs, s.probes, rfl, rfl⟩

theorem reported_report (h : Reported actions events s) {nowMs : ℤ}
    (hst : macosStep hasHandle s (.report nowMs) = some (t, o)) :
    Reported (actions ++ [.report nowMs]) (events ++ o) t := by
  have hne : MacosAction.report nowMs ≠ .stop := nofun
  obtain ⟨hstop, hknown⟩ := quiet_concat actions hne rfl
  cases hcallback : s.callback with
  | idle => simp [macosStep, hcallback] at hst
  | changed event => simp [macosStep, hcallback] at hst
  | allowed event =>
    obtain ⟨lastProbeMs, probes, rfl, rfl⟩ := report_frame hcallback hst
    obtain ⟨value, hkind, -⟩ := h.event event (.inr hcallback)
    refine ⟨by rw [hstop]; exact h.running, ?_, by rw [hknown]; exact h.seen, ?_, ?_⟩
    · rw [hknown, ← h.changes_eq, hcallback, directions_append, List.append_assoc]
      simp [Callback.pending, directions, hkind]
    · intro event' hevent
      rcases hevent with hevent | hevent <;> cases hevent
    · intro kind instant hlast value' hkind'
      have hbefore := h.debouncer kind instant hlast value' hkind'
      rw [hcallback] at hbefore
      exact hbefore

/-- A probe for `Online` has its result. -/
theorem reported_probed (h : Reported actions events s) {i : ℕ} {online : Bool}
    {ssid : Option String} {now : ℕ}
    (hst : macosStep hasHandle s (.probed i online ssid now) = some (t, o)) :
    Reported (actions ++ [.probed i online ssid now]) (events ++ o) t := by
  have hne : MacosAction.probed i online ssid now ≠ .stop := nofun
  obtain ⟨hstop, hknown⟩ := quiet_concat actions hne rfl
  obtain ⟨rfl, hrunning, hedge, hcallback, hdebouncer⟩ := probed_frame hst
  refine ⟨by rw [hstop, hrunning]; exact h.running, ?_, by rw [hknown, hedge]; exact h.seen,
    ?_, ?_⟩
  · rw [hknown, hcallback, List.append_nil]
    exact h.changes_eq
  · rw [hcallback, hedge]
    exact h.event
  · intro kind instant hlast value hkind
    rw [hcallback, hedge]
    rcases hdebouncer with hsame | honline
    · exact h.debouncer kind instant (hsame ▸ hlast) value hkind
    · rw [honline] at hlast
      cases hlast
      cases hkind

/-- Every step keeps what the trace and the watcher have in common. -/
theorem reported_step (h : Reported actions events s) {a : MacosAction}
    (hst : macosStep hasHandle s a = some (t, o)) :
    Reported (actions ++ [a]) (events ++ o) t := by
  cases a with
  | pathUpdate status ssid => exact reported_pathUpdate h hst
  | debounce now => exact reported_debounce h hst
  | report nowMs => exact reported_report h hst
  | probed i online ssid now => exact reported_probed h hst
  | reportOnline i =>
    have hne : MacosAction.reportOnline i ≠ .stop := nofun
    obtain ⟨hstop, hknown⟩ := quiet_concat actions hne rfl
    have hframe : ∃ probes ssid, t = { s with probes } ∧ o = [.Online ssid] := by
      simp only [macosStep] at hst
      split at hst
      · cases hst
        exact ⟨_, _, rfl, rfl⟩
      · cases hst
    obtain ⟨probes, ssid, rfl, rfl⟩ := hframe
    refine ⟨by rw [hstop]; exact h.running, ?_, by rw [hknown]; exact h.seen, h.event,
      h.debouncer⟩
    rw [hknown, directions_append, ← h.changes_eq]
    simp [directions, direction, NetworkEvent.kind]
  | stop =>
    have hframe : t = { s with running := false } ∧ o = [] := by
      simp only [macosStep] at hst
      cases hst
      exact ⟨rfl, rfl⟩
    obtain ⟨rfl, rfl⟩ := hframe
    have hknown : knownStatuses (actions ++ [.stop]) = knownStatuses actions := by
      rw [knownStatuses_concat]
      simp [knownStatus]
    refine ⟨by simp, ?_, by rw [hknown]; exact h.seen, h.event, h.debouncer⟩
    rw [hknown, List.append_nil]
    exact h.changes_eq

end Steps

/-- In every run the Connect and Disconnect events, with the one the handler has in hand, are the
    changes of the known statuses; they alternate, and the debouncer stops none of them. -/
theorem macos_events_eq {hasHandle : Bool} {tr : List (MacosAction × List NetworkEvent)}
    {s : MacosWatcher}
    (h : (macosMachine hasHandle).Run Machine.anyStep (macosMachine hasHandle).init tr s) :
    directions (Machine.outputs tr) ++ s.callback.pending =
        changes (knownStatuses (tr.map Prod.fst)) ∧
      (directions (Machine.outputs tr)).IsChain (· ≠ ·) ∧
      ∀ event now, s.callback = .changed event → (s.debouncer.allow event.kind now).1 = true := by
  have hreported : Reported (tr.map Prod.fst) (Machine.outputs tr) s := by
    refine h.history (I := fun tr s => Reported (tr.map Prod.fst) (Machine.outputs tr) s) ?_ ?_
    · refine ⟨by simp [macosMachine], rfl, rfl, ?_, ?_⟩
      · intro event hevent
        rcases hevent with hevent | hevent <;> cases hevent
      · intro kind instant hlast
        cases hlast
    · intro tr t a u o _ hi _ hst
      rw [List.map_append, Machine.outputs_append, Machine.outputs_singleton]
      exact reported_step hi hst
  refine ⟨hreported.changes_eq, ?_, fun event now hevent => ?_⟩
  · have hchain := isChain_changes (knownStatuses (tr.map Prod.fst))
    rw [← hreported.changes_eq] at hchain
    exact hchain.left_of_append
  · rw [hreported.allow hevent]

/-- A connection lost and found again within a millisecond, with a probe in between. -/
def flappingActions : List MacosAction :=
  [.pathUpdate 1 none, .pathUpdate 2 none, .debounce 100, .report 20000, .pathUpdate 3 none,
    .pathUpdate 1 (some "office"), .debounce 200, .report 20000, .pathUpdate 2 none,
    .probed 0 true (some "office") 250, .debounce 300, .reportOnline 0, .report 20001]

def flapping : List (MacosAction × List NetworkEvent) × MacosWatcher :=
  ((macosMachine true).exec Machine.anyStep (macosMachine true).init flappingActions).get
    (by decide)

theorem macos_events_flapping :
    directions (Machine.outputs flapping.1) ++ flapping.2.callback.pending =
        changes (knownStatuses (flapping.1.map Prod.fst)) ∧
      (directions (Machine.outputs flapping.1)).IsChain (· ≠ ·) ∧
      ∀ event now, flapping.2.callback = .changed event →
        (flapping.2.debouncer.allow event.kind now).1 = true :=
  macos_events_eq (Machine.exec_get_run (by decide))

example : directions (Machine.outputs flapping.1) = [false, true, false] := by decide

end EasyJob.Agent
