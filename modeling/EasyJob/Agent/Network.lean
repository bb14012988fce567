import EasyJob.Domain.Task
import Mathlib.Logic.Function.Basic

/-!
# Network events and their filters

Model of the filters between the notifications of the platform and the events that the agent
reports (`apps/agent/src/network.rs` lines 10–35 and 222–289). Instants are in nanoseconds.

* `changed_eq`: the edge detector compares with the last value of the key.
* `allow_of_ne`: the debouncer stops nothing of another kind than the last.
-/

namespace EasyJob.Agent

open EasyJob.Domain

inductive NetworkEvent
  | Connect (ssid : Option String)
  | Disconnect (ssid : Option String)
  | Online (ssid : Option String)
  deriving DecidableEq, Repr

/-- Model of `NetworkEvent::kind` (lines 19–25). -/
def NetworkEvent.kind : NetworkEvent → NetworkEventKind
  | .Connect _ => .Connect
  | .Disconnect _ => .Disconnect
  | .Online _ => .Online

/-- Connected or disconnected; `Online` is neither. -/
def direction : NetworkEventKind → Option Bool
  | .Connect => some true
  | .Disconnect => some false
  | .Online => none

/-- The Connect and Disconnect events, in order. -/
def directions (events : List NetworkEvent) : List Bool :=
  events.filterMap fun event => direction event.kind

@[simp] theorem directions_append (events events' : List NetworkEvent) :
    directions (events ++ events') = directions events ++ directions events' :=
  List.filterMap_append

/-! ## `EdgeDetector` -/

/-- The value last seen for each key. -/
structure EdgeDetector (K : Type*) where
  seen : K → Option Bool

def EdgeDetector.new {K : Type*} : EdgeDetector K := ⟨fun _ => none⟩

/-- Model of `EdgeDetector::changed` (lines 253–260). -/
def EdgeDetector.changed {K : Type*} [DecidableEq K] (edge : EdgeDetector K) (key : K)
    (value : Bool) : Bool × EdgeDetector K :=
  (match edge.seen key with
    | none => false
    | some previous => previous != value,
    ⟨Function.update edge.seen key (some value)⟩)

/-- It has changed where the value before was the other one. -/
theorem changed_eq {K : Type*} [DecidableEq K] (edge : EdgeDetector K) (key : K) (value : Bool) :
    (edge.changed key value).1 = (edge.seen key == some !value) := by
  rw [EdgeDetector.changed]
  cases edge.seen key with
  | none => rfl
  | some previous => cases previous <;> cases value <;> rfl

@[simp] theorem changed_seen {K : Type*} [DecidableEq K] (edge : EdgeDetector K) (key : K)
    (value : Bool) : (edge.changed key value).2.seen key = some value :=
  Function.update_self ..

/-! ## `Debouncer` -/

/-- The last event let through, and when. -/
structure Debouncer where
  lastKind : Option (NetworkEventKind × ℕ)

def Debouncer.new : Debouncer := ⟨none⟩

/-- Model of `Debouncer::allow` (lines 276–288); `duration_since` does not go below zero. -/
def Debouncer.allow (debouncer : Debouncer) (kind : NetworkEventKind) (now : ℕ) :
    Bool × Debouncer :=
  match debouncer.lastKind with
  | some (last, instant) =>
    if last = kind ∧ (now - instant) / 1000000 < 500 then (false, debouncer)
    else (true, ⟨some (kind, now)⟩)
  | none => (true, ⟨some (kind, now)⟩)

/-- An event of another kind than the last is let through. -/
theorem allow_of_ne {debouncer : Debouncer} {kind : NetworkEventKind}
    (h : ∀ instant, debouncer.lastKind ≠ some (kind, instant)) (now : ℕ) :
    debouncer.allow kind now = (true, ⟨some (kind, now)⟩) := by
  unfold Debouncer.allow
  split
  · rename_i last instant hlast
    rw [if_neg]
    rintro ⟨rfl, -⟩
    exact h instant hlast
  · rfl

/-- What the debouncer remembers is what it remembered or the event. -/
theorem allow_lastKind (debouncer : Debouncer) (kind : NetworkEventKind) (now : ℕ) :
    (debouncer.allow kind now).2.lastKind = debouncer.lastKind ∨
      (debouncer.allow kind now).2.lastKind = some (kind, now) := by
  unfold Debouncer.allow
  split
  · split_ifs
    · exact .inl rfl
    · exact .inr rfl
  · exact .inr rfl

end EasyJob.Agent
