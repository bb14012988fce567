import EasyJob.Domain.Task
import EasyJob.Frontend.CronEditor
import EasyJob.Lib.Rounding
import EasyJob.Lib.Transition

/-!
# Intervals in the trigger editor

Model of `components/task/TriggerEditor.vue` (lines 48–190): an interval is stored in seconds
and shown as a number of seconds, minutes or hours. The unit is derived from the seconds
unless the user has chosen one, which is remembered for the id of the trigger.

The numbers of the page are binary64 floats, and its products and quotients are rounded.

* `isShownAs_iff`: when the shown number and unit are the stored seconds.
* `shown_step_iff`: which edits keep it so.
* `triggerEditor_iff`: the same for every sequence of edits.
-/

namespace EasyJob.Frontend

open EasyJob.Chrono EasyJob.Domain Transition
open Binary64 (Number IsDouble)

/-! ## Triggers in the editor -/

/-- The kind of a trigger in the editor. An Interval can have its seconds under the old name,
    and they can be missing; `other` is a kind that is no Interval. -/
inductive EditorKind
  | Interval (intervalSecs seconds : Option Number) (startAt : Option DateTime)
  | other (kind : TriggerKind)
  deriving DecidableEq

structure EditorTrigger where
  id : TriggerId
  taskId : TaskId
  enabled : Bool
  kind : EditorKind
  createdAt : DateTime
  updatedAt : DateTime
  deriving DecidableEq

/-- `'Interval' in trigger.kind`. -/
def EditorTrigger.isInterval (t : EditorTrigger) : Bool :=
  match t.kind with
  | .Interval _ _ _ => true
  | .other _ => false

def intervalUnitOptions : List ℕ := [1, 60, 3600]

def oneMinute : Number := .ofNat 60 (by decide)

/-- Model of `getIntervalSecs` (lines 50–55). -/
def getIntervalSecs (t : EditorTrigger) : Number :=
  match t.kind with
  | .Interval intervalSecs seconds _ => (intervalSecs.or seconds).getD oneMinute
  | .other _ => oneMinute

/-- The largest unit that divides the seconds (lines 61–68); `%` is exact, and not a number for
    infinity. -/
def derivedUnit (totalSecs : Number) : ℕ :=
  match totalSecs with
  | .finite q _ =>
    if q ≥ 3600 ∧ (q / 3600).isInt then 3600
    else if q ≥ 60 ∧ (q / 60).isInt then 60
    else 1
  | .infinity => 1

/-- The triggers of the editor and the remembered units. -/
structure Editor where
  taskId : TaskId
  triggers : List EditorTrigger
  intervalUnits : TriggerId → Option ℕ

/-- Model of `getIntervalUnit` (lines 57–69). -/
def Editor.getIntervalUnit (s : Editor) (t : EditorTrigger) : ℕ :=
  let remembered := (s.intervalUnits t.id).getD 0
  if remembered ≠ 0 then remembered else derivedUnit (getIntervalSecs t)

/-- `Math.max(1, value)`. -/
def maxOne (value : ℕ∞) : ℕ∞ := if value ≤ 1 then 1 else value

theorem maxOne_of_le_one {value : ℕ∞} (h : value ≤ 1) : maxOne value = 1 := if_pos h

theorem maxOne_of_one_le {value : ℕ∞} (h : 1 ≤ value) : maxOne value = value := by
  unfold maxOne
  split_ifs with hle
  · exact le_antisymm h hle
  · rfl

theorem one_le_maxOne (value : ℕ∞) : 1 ≤ maxOne value := by
  unfold maxOne
  split_ifs with hle
  · exact le_rfl
  · exact (lt_of_not_ge hle).le

/-- Model of `getDisplayIntervalValue` (lines 71–75). -/
def Editor.getDisplayIntervalValue (s : Editor) (t : EditorTrigger) : ℕ∞ :=
  maxOne ((getIntervalSecs t).div (s.getIntervalUnit t)).roundInt

/-- Model of `setIntervalSecs` (lines 77–84). -/
def setIntervalSecs (t : EditorTrigger) (secs : Number) : EditorTrigger :=
  match t.kind with
  | .Interval _ seconds startAt =>
    { t with kind := .Interval (some secs) (seconds.map fun _ => secs) startAt }
  | .other _ => t

/-! ## Edits -/

/-- The options of the kind of a trigger (lines 21–30). -/
inductive TriggerType
  | Interval | Daily | Weekly | Once | AgentStarted | Cron | Fuzzy | Network
  deriving DecidableEq, Repr

/-- The kind that `changeKindType` sets (lines 121–190) at `now` with the zone of the page. -/
def defaultKind (defaultTz : String) (now : DateTime) : TriggerType → EditorKind
  | .Interval => .Interval (some oneMinute) none none
  | .Daily => .other (.Daily (9 * nanosPerHour) defaultTz)
  | .Weekly =>
    .other (.Weekly [.Mon, .Tue, .Wed, .Thu, .Fri] (9 * nanosPerHour) defaultTz)
  | .Once => .other (.Once (now + nanosPerHour))
  | .AgentStarted => .other .AgentStarted
  | .Cron => .other (.Cron "*/5 * * * *" defaultTz)
  | .Fuzzy => .other (.Fuzzy .Daily (9 * nanosPerHour) (10 * nanosPerHour) defaultTz)
  | .Network => .other (.Network [.Connect] none)

/-- Model of `cronInvalid`, `fuzzyWindowInvalid`, `fuzzyWeeklyDaysInvalid` and
    `networkEventsInvalid` (lines 223–251): what the editor marks. -/
def kindInvalid : EditorKind → Bool
  | .other (.Cron expression _) => !validateCronExpression expression
  | .other (.Fuzzy period windowStart windowEnd _) =>
    decide (windowEnd ≤ windowStart) || decide (period = .Weekly [])
  | .other (.Network events _) => events.isEmpty
  | _ => false

/-- The editor marks no kind that it sets itself. -/
theorem kindInvalid_defaultKind (defaultTz : String) (now : DateTime) (type : TriggerType) :
    kindInvalid (defaultKind defaultTz now type) = false := by
  cases type with
  | Cron =>
    have hcron : validateCronExpression "*/5 * * * *" = true := by decide +kernel
    simp [kindInvalid, defaultKind, hcron]
  | Fuzzy =>
    have hwindow : 9 * nanosPerHour < 10 * nanosPerHour := by decide
    simp [kindInvalid, defaultKind, hwindow]
  | _ => rfl

/-- What the user does: `val` is the number that is entered, if any, and `id` what
    `crypto.randomUUID()` gives. -/
inductive Edit
  | value (index : ℕ) (val : Option ℚ)
  | unit (index : ℕ) (newUnit : ℕ)
  | kind (index : ℕ) (type : TriggerType) (defaultTz : String) (now : DateTime)
  | add (id : TriggerId) (now : DateTime)
  | remove (index : ℕ)

/-- `val && val > 0 ? val : 1`, with `val` read as a float. -/
def inputVal (val : Option ℚ) : Number :=
  match val.map Binary64.round with
  | some (.finite q h) => if 0 < q then .finite q h else .ofNat 1 (by decide)
  | some .infinity => .infinity
  | none => .ofNat 1 (by decide)

/-- Model of `onIntervalValueChange` (lines 86–91). -/
def Editor.onIntervalValueChange (s : Editor) (index : ℕ) (t : EditorTrigger) (val : Option ℚ) :
    Editor :=
  let totalSecs := (inputVal val).mul (s.getIntervalUnit t)
  { s with triggers := s.triggers.set index (setIntervalSecs t totalSecs) }

/-- A displayed number times a unit. -/
def displayMul (displayVal : ℕ∞) (unit : ℕ) : Number :=
  match displayVal with
  | some n => Binary64.round ((n : ℚ) * unit)
  | none => .infinity

/-- Model of `onIntervalUnitChange` (lines 93–98). -/
def Editor.onIntervalUnitChange (s : Editor) (index : ℕ) (t : EditorTrigger) (newUnit : ℕ) :
    Editor :=
  let totalSecs := displayMul (s.getDisplayIntervalValue t) newUnit
  { s with
    triggers := s.triggers.set index (setIntervalSecs t totalSecs)
    intervalUnits := Function.update s.intervalUnits t.id (some newUnit) }

/-- Model of `changeKindType` (lines 121–190). -/
def Editor.changeKindType (s : Editor) (index : ℕ) (t : EditorTrigger) (kind : EditorKind) :
    Editor :=
  { s with triggers := s.triggers.set index { t with kind := kind } }

/-- Model of `addTrigger` (lines 100–110). -/
def Editor.addTrigger (s : Editor) (id : TriggerId) (now : DateTime) : Editor :=
  { s with
    triggers := s.triggers ++
      [⟨id, s.taskId, true, .Interval (some oneMinute) none none, now, now⟩] }

/-- Model of `removeTrigger` (lines 112–116). -/
def Editor.removeTrigger (s : Editor) (index : ℕ) : Editor :=
  { s with triggers := s.triggers.eraseIdx index }

/-- One edit. The number and the unit can be edited where the trigger is an Interval, and the
    unit has three options. -/
def Editor.edit (s : Editor) : Edit → Option Editor
  | .value index val =>
    match s.triggers[index]? with
    | some t => if t.isInterval then some (s.onIntervalValueChange index t val) else none
    | none => none
  | .unit index newUnit =>
    match s.triggers[index]? with
    | some t =>
      if t.isInterval ∧ newUnit ∈ intervalUnitOptions then
        some (s.onIntervalUnitChange index t newUnit)
      else none
    | none => none
  | .kind index type defaultTz now =>
    (s.triggers[index]?).map fun t => s.changeKindType index t (defaultKind defaultTz now type)
  | .add id now => some (s.addTrigger id now)
  | .remove index => if index < s.triggers.length then some (s.removeTrigger index) else none

/-- The editor, opened on `s`; every edit shows the state after it. -/
def triggerEditor (s : Editor) : Machine Editor Edit Editor where
  init := s
  step s e := (s.edit e).map fun t => (t, [t])

/-! ## What is shown -/

/-- `displayVal` units are the number: an equation of integers, or both are infinite. -/
def IsShownAs (displayVal : ℕ∞) (unit : ℕ) : Number → Prop
  | .finite q _ => ∃ n : ℕ, displayVal = n ∧ q = (n * unit : ℕ)
  | .infinity => displayVal = ⊤

/-- The shown number of the shown units is what is stored. -/
def Editor.Shows (s : Editor) (t : EditorTrigger) : Prop :=
  match t.kind with
  | .Interval intervalSecs _ _ =>
    ∃ x, intervalSecs = some x ∧ IsShownAs (s.getDisplayIntervalValue t) (s.getIntervalUnit t) x
  | .other _ => True

/-- It is so for every Interval trigger. -/
def Editor.Shown (s : Editor) : Prop := ∀ t ∈ s.triggers, s.Shows t

/-- Opened on triggers whose `interval_secs` are positive integers. -/
structure Editor.Loaded (s : Editor) : Prop where
  units : ∀ id, s.intervalUnits id = none
  secs : ∀ t ∈ s.triggers, ∀ intervalSecs seconds startAt,
    t.kind = .Interval intervalSecs seconds startAt →
      ∃ (n : ℕ) (h : IsDouble (n : ℚ)), 0 < n ∧ intervalSecs = some (.finite n h)

/-- `x` is a positive multiple of `unit`, or infinite. -/
def IsMultiple (unit : ℕ) : Number → Prop
  | .finite q _ => ∃ k : ℕ, 1 ≤ k ∧ q = (k * unit : ℕ)
  | .infinity => True

/-- The shown number, a rounded quotient that is at least 1, is exact for the positive
    multiples of the unit. -/
theorem isShownAs_iff {unit : ℕ} (hunit : 0 < unit) (x : Number) :
    IsShownAs (maxOne (x.div unit).roundInt) unit x ↔ IsMultiple unit x := by
  cases x with
  | infinity => exact iff_of_true (maxOne_of_one_le le_top) trivial
  | finite q h =>
    constructor
    · rintro ⟨n, hn, hq⟩
      refine ⟨n, ?_, hq⟩
      have hone : (1 : ℕ∞) ≤ n := hn ▸ one_le_maxOne _
      exact_mod_cast hone
    · rintro ⟨k, hk, rfl⟩
      refine ⟨k, ?_, rfl⟩
      rw [Binary64.div_of_mul hunit h, Binary64.roundInt_natCast]
      exact maxOne_of_one_le (by exact_mod_cast hk)

theorem IsMultiple.of_unit {unit : ℕ} {x : Number} (h : IsMultiple unit x) (hunit : 0 < unit) :
    IsMultiple 1 x := by
  cases x with
  | infinity => trivial
  | finite q hq =>
    obtain ⟨k, hk, rfl⟩ := h
    exact ⟨k * unit, Nat.mul_pos hk hunit, by rw [mul_one]⟩

/-- A quotient that is an integer. -/
theorem isMultiple_of_isInt {unit : ℕ} {q : ℚ} (h : IsDouble q) (hunit : 0 < unit)
    (hle : (unit : ℚ) ≤ q) (hint : (q / unit).isInt = true) :
    IsMultiple unit (.finite q h) := by
  have hpos : (0 : ℚ) < unit := by exact_mod_cast hunit
  have hden : (q / unit).den = 1 := by simpa [Rat.isInt] using hint
  have hnum : ((q / unit).num : ℚ) = q / unit := Rat.den_eq_one_iff _ |>.mp hden
  have hx : q = (q / unit).num * unit := by
    rw [hnum, div_mul_cancel₀ _ (ne_of_gt hpos)]
  have hone : 1 ≤ (q / unit).num := by
    have hquot : (1 : ℚ) ≤ q / unit := (one_le_div hpos).mpr hle
    rw [← hnum] at hquot
    exact_mod_cast hquot
  obtain ⟨k, hk⟩ := Int.eq_ofNat_of_zero_le (le_trans zero_le_one hone)
  rw [hk] at hx hone
  exact ⟨k, by exact_mod_cast hone, by exact_mod_cast hx⟩

/-- The derived unit fits the positive integers. -/
theorem derivedUnit_fits (x : Number) : IsMultiple (derivedUnit x) x ↔ IsMultiple 1 x := by
  cases x with
  | infinity => rfl
  | finite q h =>
    unfold derivedUnit
    dsimp only
    split_ifs with hhours hminutes
    · refine ⟨fun hmul => hmul.of_unit (by decide), fun _ => ?_⟩
      exact isMultiple_of_isInt h (by decide) hhours.1 hhours.2
    · refine ⟨fun hmul => hmul.of_unit (by decide), fun _ => ?_⟩
      exact isMultiple_of_isInt h (by decide) hminutes.1 hminutes.2
    · rfl

theorem derivedUnit_pos (x : Number) : 0 < derivedUnit x := by
  unfold derivedUnit
  split
  · split_ifs <;> decide
  · decide

theorem Editor.getIntervalUnit_pos (s : Editor) (t : EditorTrigger) :
    0 < s.getIntervalUnit t := by
  have hderived := derivedUnit_pos (getIntervalSecs t)
  unfold getIntervalUnit
  dsimp only
  split_ifs <;> omega

theorem isMultiple_oneMinute_iff (unit : ℕ) : IsMultiple unit oneMinute ↔ unit ∣ 60 := by
  constructor
  · rintro ⟨k, -, h⟩
    refine ⟨k, ?_⟩
    rw [mul_comm]
    exact_mod_cast h
  · rintro ⟨k, hk⟩
    refine ⟨k, ?_, ?_⟩
    · by_contra hzero
      have hk0 : k = 0 := by omega
      rw [hk0] at hk
      cases hk
    · rw [mul_comm, ← hk]

/-! ### With a remembered unit or without -/

/-- The unit that is remembered for the id, or 0. -/
def Editor.remembered (s : Editor) (id : TriggerId) : ℕ := (s.intervalUnits id).getD 0

/-- The seconds can be shown: they are a positive multiple of the remembered unit, or a
    positive integer where none is remembered. -/
def CanShow (remembered : ℕ) (x : Number) : Prop :=
  IsMultiple (if remembered = 0 then 1 else remembered) x

theorem Editor.shows_iff (s : Editor) {t : EditorTrigger} {intervalSecs seconds : Option Number}
    {startAt : Option DateTime} (hkind : t.kind = .Interval intervalSecs seconds startAt) :
    s.Shows t ↔ ∃ x, intervalSecs = some x ∧ CanShow (s.remembered t.id) x := by
  unfold Shows
  rw [hkind]
  cases intervalSecs with
  | none => simp
  | some x =>
    have hsecs : getIntervalSecs t = x := by simp [getIntervalSecs, hkind]
    have hunit := s.getIntervalUnit_pos t
    have hshow : IsMultiple (s.getIntervalUnit t) x ↔ CanShow (s.remembered t.id) x := by
      unfold getIntervalUnit CanShow remembered
      dsimp only
      by_cases hzero : (s.intervalUnits t.id).getD 0 = 0
      · rw [if_neg (not_not.mpr hzero), if_pos hzero, hsecs, derivedUnit_fits]
      · rw [if_pos hzero, if_neg hzero]
    simp only [Option.some.injEq, exists_eq_left']
    rw [getDisplayIntervalValue, hsecs, isShownAs_iff hunit, hshow]

theorem Editor.shows_congr {s s' : Editor} {t : EditorTrigger}
    (h : s'.intervalUnits t.id = s.intervalUnits t.id) : s'.Shows t ↔ s.Shows t := by
  unfold Shows getDisplayIntervalValue getIntervalUnit
  rw [h]

/-! ## Edits that keep it -/

/-- The edit keeps what is shown in step with what is stored: an entered number times the unit,
    rounded to a float, is a positive multiple of the remembered unit, or a positive integer if
    none is remembered for the trigger; the shown number times a chosen unit, rounded, is a
    multiple of it, and the seconds of the other triggers of the id are; and a trigger becomes an
    Interval of 60 seconds only where no unit is remembered or the unit divides 60. -/
def KeepsShown (s : Editor) : Edit → Prop
  | .value index val => ∀ t, s.triggers[index]? = some t →
    CanShow (s.remembered t.id) ((inputVal val).mul (s.getIntervalUnit t))
  | .unit index newUnit => ∀ t, s.triggers[index]? = some t →
    IsMultiple newUnit (displayMul (s.getDisplayIntervalValue t) newUnit) ∧
    ∀ j t', j ≠ index → s.triggers[j]? = some t' → t'.id = t.id → t'.isInterval = true →
      IsMultiple newUnit (getIntervalSecs t')
  | .kind index type _ _ => type = .Interval → ∀ t, s.triggers[index]? = some t →
    s.remembered t.id = 0 ∨ s.remembered t.id ∣ 60
  | .add id _ => s.remembered id = 0 ∨ s.remembered id ∣ 60
  | .remove _ => True

theorem canShow_oneMinute_iff (remembered : ℕ) :
    CanShow remembered oneMinute ↔ remembered = 0 ∨ remembered ∣ 60 := by
  unfold CanShow
  rw [isMultiple_oneMinute_iff]
  split_ifs with hzero
  · simp [hzero]
  · simp [hzero]

/-- A product below `2 ^ 53` of positive integers is exact. -/
theorem round_mul_natCast {n unit : ℕ} (h : n * unit < 2 ^ 53) :
    Binary64.round ((n : ℚ) * unit) = .ofNat (n * unit) h := by
  have hcast : (n : ℚ) * unit = ((n * unit : ℕ) : ℚ) := (Nat.cast_mul n unit).symm
  rw [hcast, Binary64.round_of_isDouble (.natCast h)]
  rfl

/-- A positive integer can be entered where the seconds are below `2 ^ 53`. -/
theorem keepsShown_value_of_int {s : Editor} {index n : ℕ} (hn : 1 ≤ n)
    (h : ∀ t, s.triggers[index]? = some t → n * s.getIntervalUnit t < 2 ^ 53) :
    KeepsShown s (.value index (some n)) := by
  intro t ht
  have hlt := h t ht
  have hunit := s.getIntervalUnit_pos t
  have hn' : n < 2 ^ 53 := lt_of_le_of_lt (Nat.le_mul_of_pos_right n hunit) hlt
  have hinput : inputVal (some (n : ℚ)) = .ofNat n hn' := by
    have hpos : (0 : ℚ) < n := by exact_mod_cast hn
    rw [inputVal, Option.map_some, Binary64.round_of_isDouble (.natCast hn')]
    exact if_pos hpos
  rw [hinput, Number.ofNat, Number.mul, round_mul_natCast hlt]
  unfold CanShow
  split_ifs with hzero
  · exact ⟨n * s.getIntervalUnit t, Nat.mul_pos hn hunit, by rw [mul_one]⟩
  · have hremembered : s.getIntervalUnit t = s.remembered t.id := if_pos hzero
    exact ⟨n, hn, by rw [hremembered]⟩

section Steps

variable {s s' : Editor} {t t' : EditorTrigger} {index : ℕ}

/-- Where one trigger is replaced, only that one matters. -/
theorem Editor.Shown.set_iff (h : s.Shown) (ht : s.triggers[index]? = some t) :
    Editor.Shown { s with triggers := s.triggers.set index t' } ↔ s.Shows t' := by
  have hlt := (List.getElem?_eq_some_iff.mp ht).1
  constructor
  · exact fun hshown => hshown t' (List.mem_set hlt t')
  · intro hshows u hu
    rcases List.mem_or_eq_of_mem_set hu with hu | rfl
    · exact h u hu
    · exact hshows

theorem shows_setIntervalSecs (hinterval : t.isInterval = true) (secs : Number) :
    s.Shows (setIntervalSecs t secs) ↔ CanShow (s.remembered t.id) secs := by
  unfold setIntervalSecs
  unfold EditorTrigger.isInterval at hinterval
  split at hinterval
  · rename_i intervalSecs seconds startAt hkind
    rw [s.shows_iff rfl]
    simp
  · cases hinterval

/-- What is not an Interval is shown. -/
theorem Editor.shows_of_not_interval (hinterval : t.isInterval ≠ true) : s.Shows t := by
  unfold EditorTrigger.isInterval at hinterval
  unfold Shows
  split
  · rename_i hkind
    rw [hkind] at hinterval
    exact absurd rfl hinterval
  · trivial

theorem Editor.shows_iff_of_interval (hinterval : t.isInterval = true) (h : s.Shows t) :
    s'.Shows t ↔ CanShow (s'.remembered t.id) (getIntervalSecs t) := by
  cases hkind : t.kind with
  | Interval intervalSecs seconds startAt =>
    obtain ⟨x, rfl, -⟩ := (s.shows_iff hkind).mp h
    have hsecs : getIntervalSecs t = x := by simp [getIntervalSecs, hkind]
    rw [s'.shows_iff hkind, hsecs]
    simp
  | other kind => simp [EditorTrigger.isInterval, hkind] at hinterval

/-- A chosen unit matters to the triggers of its id. -/
theorem shown_unit_iff (h : s.Shown) (ht : s.triggers[index]? = some t)
    (hinterval : t.isInterval = true) {newUnit : ℕ} (hunit : newUnit ∈ intervalUnitOptions) :
    (s.onIntervalUnitChange index t newUnit).Shown ↔ KeepsShown s (.unit index newUnit) := by
  have hpos : newUnit ≠ 0 := by
    rintro rfl
    exact absurd hunit (by decide)
  have hlt := (List.getElem?_eq_some_iff.mp ht).1
  have hremembered : (s.onIntervalUnitChange index t newUnit).remembered t.id = newUnit := by
    simp [Editor.onIntervalUnitChange, Editor.remembered]
  have hothers : ∀ u ∈ s.triggers, u.id ≠ t.id →
      (s.onIntervalUnitChange index t newUnit).Shows u := by
    intro u hu hid
    refine (Editor.shows_congr ?_).mpr (h u hu)
    exact Function.update_of_ne hid _ _
  have hsame : ∀ u ∈ s.triggers, u.id = t.id → u.isInterval = true →
      ((s.onIntervalUnitChange index t newUnit).Shows u ↔
        IsMultiple newUnit (getIntervalSecs u)) := by
    intro u hu hid hu'
    rw [Editor.shows_iff_of_interval hu' (h u hu), hid, hremembered, CanShow, if_neg hpos]
  have hself : (s.onIntervalUnitChange index t newUnit).Shows
      (setIntervalSecs t (displayMul (s.getDisplayIntervalValue t) newUnit)) ↔
      IsMultiple newUnit (displayMul (s.getDisplayIntervalValue t) newUnit) := by
    rw [shows_setIntervalSecs hinterval, hremembered, CanShow, if_neg hpos]
  constructor
  · intro hshown u hu
    obtain rfl : t = u := Option.some.inj (ht.symm.trans hu)
    refine ⟨hself.mp (hshown _ (List.mem_set hlt _)), ?_⟩
    intro j t' hj ht' hid hinterval'
    have hafter : (s.onIntervalUnitChange index t newUnit).triggers[j]? = some t' := by
      simp only [Editor.onIntervalUnitChange]
      rw [List.getElem?_set_ne (Ne.symm hj)]
      exact ht'
    exact (hsame t' (List.mem_of_getElem? ht') hid hinterval').mp
      (hshown t' (List.mem_of_getElem? hafter))
  · intro hkeeps u hu
    obtain ⟨hproduct, hkeeps⟩ := hkeeps t ht
    obtain ⟨j, hj⟩ := List.mem_iff_getElem?.mp hu
    simp only [Editor.onIntervalUnitChange] at hj
    by_cases hindex : j = index
    · subst hindex
      rw [List.getElem?_set_self hlt] at hj
      cases hj
      exact hself.mpr hproduct
    · rw [List.getElem?_set_ne (Ne.symm hindex)] at hj
      have hmem := List.mem_of_getElem? hj
      by_cases hid : u.id = t.id
      · by_cases hu' : u.isInterval = true
        · exact (hsame u hmem hid hu').mpr (hkeeps j u hindex hj hid hu')
        · exact Editor.shows_of_not_interval hu'
      · exact hothers u hmem hid

theorem shows_oneMinute_iff {startAt : Option DateTime} {seconds : Option Number}
    (hkind : t.kind = .Interval (some oneMinute) seconds startAt) :
    s.Shows t ↔ s.remembered t.id = 0 ∨ s.remembered t.id ∣ 60 := by
  rw [s.shows_iff hkind]
  simp [canShow_oneMinute_iff]

/-- The step lemma. -/
theorem shown_step_iff {e : Edit} (h : s.Shown) (hedit : s.edit e = some s') :
    s'.Shown ↔ KeepsShown s e := by
  cases e with
  | value index val =>
    cases ht : s.triggers[index]? with
    | none => simp [Editor.edit, ht] at hedit
    | some t =>
      simp only [Editor.edit, ht, Option.ite_none_right_eq_some, Option.some.injEq] at hedit
      obtain ⟨hinterval, rfl⟩ := hedit
      simp only [KeepsShown, ht, Option.some.injEq, forall_eq']
      rw [Editor.onIntervalValueChange, h.set_iff ht, shows_setIntervalSecs hinterval]
  | unit index newUnit =>
    cases ht : s.triggers[index]? with
    | none => simp [Editor.edit, ht] at hedit
    | some t =>
      simp only [Editor.edit, ht, Option.ite_none_right_eq_some, Option.some.injEq] at hedit
      obtain ⟨⟨hinterval, hunit⟩, rfl⟩ := hedit
      exact shown_unit_iff h ht hinterval hunit
  | kind index type defaultTz now =>
    cases ht : s.triggers[index]? with
    | none => simp [Editor.edit, ht] at hedit
    | some t =>
      simp only [Editor.edit, ht, Option.map_some, Option.some.injEq] at hedit
      subst hedit
      simp only [KeepsShown, ht, Option.some.injEq, forall_eq']
      rw [Editor.changeKindType, h.set_iff ht]
      by_cases htype : type = .Interval
      · subst htype
        rw [shows_oneMinute_iff rfl]
        simp
      · have hshows : s.Shows { t with kind := defaultKind defaultTz now type } := by
          apply Editor.shows_of_not_interval
          cases type <;> simp_all [EditorTrigger.isInterval, defaultKind]
        simp [hshows, htype]
  | add id now =>
    simp only [Editor.edit, Option.some.injEq] at hedit
    subst hedit
    have hadded : s.Shows ⟨id, s.taskId, true, .Interval (some oneMinute) none none, now, now⟩ ↔
        s.remembered id = 0 ∨ s.remembered id ∣ 60 := shows_oneMinute_iff rfl
    constructor
    · intro hshown
      have hmem : ⟨id, s.taskId, true, .Interval (some oneMinute) none none, now, now⟩ ∈
          (s.addTrigger id now).triggers := by simp [Editor.addTrigger]
      exact hadded.mp (hshown _ hmem)
    · intro hkeeps u hu
      rcases List.mem_append.mp hu with hu | hu
      · exact h u hu
      · rw [List.mem_singleton.mp hu]
        exact hadded.mpr hkeeps
  | remove index =>
    simp only [Editor.edit, Option.ite_none_right_eq_some, Option.some.injEq] at hedit
    obtain ⟨-, rfl⟩ := hedit
    simp only [KeepsShown, iff_true]
    exact fun u hu => h u (List.mem_of_mem_eraseIdx hu)

theorem Editor.Loaded.shown (h : s.Loaded) : s.Shown := by
  intro t ht
  by_cases hinterval : t.isInterval = true
  · cases hkind : t.kind with
    | Interval intervalSecs seconds startAt =>
      obtain ⟨n, hdouble, hn, hsecs⟩ := h.secs t ht intervalSecs seconds startAt hkind
      rw [s.shows_iff hkind]
      refine ⟨.finite n hdouble, hsecs, ?_⟩
      have hzero : s.remembered t.id = 0 := by simp [remembered, h.units]
      rw [CanShow, if_pos hzero]
      exact ⟨n, hn, by simp⟩
    | other kind => simp [EditorTrigger.isInterval, hkind] at hinterval
  · exact shows_of_not_interval hinterval

end Steps

/-! ## Sequences of edits -/

section Runs

variable {s t : Editor} {tr : List (Edit × List Editor)}

/-- When does the editor show what is stored? In every sequence of edits of positive intervals,
    every state shows every trigger as it is stored if and only if all edits keep it so. -/
theorem triggerEditor_iff (hloaded : s.Loaded) (h : (triggerEditor s).Run Machine.anyStep s tr t) :
    (s.Shown ∧ ∀ e ∈ Machine.outputs tr, e.Shown) ↔ (triggerEditor s).Run KeepsShown s tr t := by
  suffices hrun : ((∀ e ∈ Machine.outputs tr, e.Shown) ↔
      (triggerEditor s).Run KeepsShown s tr t) ∧
      ((triggerEditor s).Run KeepsShown s tr t → t.Shown) by
    simp [hloaded.shown, hrun.1]
  induction h with
  | nil => exact ⟨⟨fun _ => .nil _, fun _ => by simp⟩, fun _ => hloaded.shown⟩
  | @snoc t u tr e o hr _ hst ih =>
    have hedit : t.edit e = some u ∧ o = [u] := by
      simpa [triggerEditor, eq_comm] using hst
    obtain ⟨hedit, rfl⟩ := hedit
    rw [Machine.outputs_append, Machine.outputs_singleton]
    refine ⟨⟨?_, ?_⟩, ?_⟩
    · intro hall
      have hbefore := ih.1.mp fun s' hs' => hall s' (List.mem_append_left _ hs')
      have hnow := hall u (List.mem_append_right _ (List.mem_singleton.mpr rfl))
      exact hbefore.snoc ((shown_step_iff (ih.2 hbefore) hedit).mp hnow) hst
    · intro hrun s' hs'
      obtain ⟨t', hbefore, hkeeps, -⟩ := hrun.snoc_inv
      obtain rfl := hr.unique hbefore
      rcases List.mem_append.mp hs' with hs' | hs'
      · exact ih.1.mpr hbefore s' hs'
      · rw [List.mem_singleton.mp hs']
        exact (shown_step_iff (ih.2 hbefore) hedit).mpr hkeeps
    · intro hrun
      obtain ⟨t', hbefore, hkeeps, -⟩ := hrun.snoc_inv
      obtain rfl := hr.unique hbefore
      exact (shown_step_iff (ih.2 hbefore) hedit).mpr hkeeps

end Runs

/-! ## Hours that are left and come back -/

/-- An interval of `n` seconds. -/
def intervalTrigger (n : ℕ) (h : n < 2 ^ 53) : EditorTrigger :=
  ⟨⟨1⟩, ⟨1⟩, true, .Interval (some (.ofNat n h)) none none, 0, 0⟩

/-- Two hours, with no unit chosen. -/
def twoHours : Editor := ⟨⟨1⟩, [intervalTrigger 7200 (by decide)], fun _ => none⟩

theorem twoHours_loaded : twoHours.Loaded where
  units _ := rfl
  secs := by
    intro t ht intervalSecs seconds startAt hkind
    obtain rfl := List.mem_singleton.mp ht
    refine ⟨7200, .natCast (by decide), by decide, ?_⟩
    simp only [intervalTrigger, EditorKind.Interval.injEq] at hkind
    exact hkind.1.symm

/-- Three hours; 3 minutes; daily and back; another trigger. -/
def keepsMinutes : List Edit :=
  [.value 0 (some 3), .unit 0 60, .kind 0 .Daily "UTC" 0, .kind 0 .Interval "UTC" 0, .add ⟨2⟩ 0]

theorem keepsMinutes_possible :
    ((triggerEditor twoHours).exec Machine.anyStep twoHours keepsMinutes).isSome = true := by decide

def keepsMinutesRun : List (Edit × List Editor) × Editor :=
  ((triggerEditor twoHours).exec Machine.anyStep twoHours keepsMinutes).get keepsMinutes_possible

theorem triggerEditor_iff_minutes :
    (twoHours.Shown ∧ ∀ e ∈ Machine.outputs keepsMinutesRun.1, e.Shown) ↔
      (triggerEditor twoHours).Run KeepsShown twoHours keepsMinutesRun.1 keepsMinutesRun.2 :=
  triggerEditor_iff twoHours_loaded (Machine.exec_get_run keepsMinutes_possible)

/-- Hours are chosen, the kind is changed to `Daily` and back. -/
def leavesHours : List Edit :=
  [.unit 0 3600, .kind 0 .Daily "UTC" 0, .kind 0 .Interval "UTC" 0]

theorem leavesHours_possible :
    ((triggerEditor twoHours).exec Machine.anyStep twoHours leavesHours).isSome = true := by decide

def leavesHoursRun : List (Edit × List Editor) × Editor :=
  ((triggerEditor twoHours).exec Machine.anyStep twoHours leavesHours).get leavesHours_possible

def oneMinuteTrigger : EditorTrigger := intervalTrigger 60 (by decide)

/-- 60 seconds are stored, and 1 hour is shown. -/
theorem triggerEditor_shows_hour :
    twoHours.Loaded ∧
      (triggerEditor twoHours).Run Machine.anyStep twoHours leavesHoursRun.1 leavesHoursRun.2 ∧
      leavesHoursRun.2.triggers = [oneMinuteTrigger] ∧
      leavesHoursRun.2.getIntervalUnit oneMinuteTrigger = 3600 ∧
      leavesHoursRun.2.getDisplayIntervalValue oneMinuteTrigger = 1 ∧
      ¬leavesHoursRun.2.Shown := by
  have htriggers : leavesHoursRun.2.triggers = [oneMinuteTrigger] := rfl
  have hunit : leavesHoursRun.2.getIntervalUnit oneMinuteTrigger = 3600 := rfl
  have hvalue : leavesHoursRun.2.getDisplayIntervalValue oneMinuteTrigger = 1 := by
    rw [Editor.getDisplayIntervalValue, hunit]
    apply maxOne_of_le_one
    show (Binary64.round (((60 : ℕ) : ℚ) / ((3600 : ℕ) : ℚ))).roundInt ≤ 1
    exact Binary64.roundInt_round_le_one (by norm_num) (by norm_num)
  refine ⟨twoHours_loaded, Machine.exec_get_run leavesHours_possible, htriggers, hunit, hvalue, ?_⟩
  intro hshown
  obtain ⟨x, hx, hshows⟩ : leavesHoursRun.2.Shows oneMinuteTrigger :=
    hshown oneMinuteTrigger (htriggers ▸ List.mem_singleton.mpr rfl)
  cases hx
  rw [hvalue, hunit] at hshows
  obtain ⟨n, hn, hsecs⟩ := hshows
  have hone : n = 1 := by exact_mod_cast hn.symm
  rw [hone] at hsecs
  norm_num at hsecs

end EasyJob.Frontend
