import EasyJob.Chrono.Rfc3339
import EasyJob.Frontend.CronEditor
import Mathlib.Data.List.Sort

/-!
# Short texts for cron expressions

Model of `describeCronShort` and what it calls (`apps/desktop/src/types/task.ts` lines
254–365): common cron expressions are shown as a text, every other one as it is.

* `cronMatches`: the local minutes that five fields match.
* `CronText.Holds`: the local minutes that a text states.
* `describeCronShort_iff`: when the text states what the expression matches.
-/

namespace EasyJob.Frontend

open EasyJob.Chrono

/-! ## What five fields match -/

/-- The bounds of a token's values. A single value with a step goes on to the end of the
    field. -/
def cronRange (fieldIdx : ℕ) (base : List Char) (stepped : Bool) : Option (ℕ × ℕ) :=
  let (lo, hi) := cronFieldRanges.getD fieldIdx (0, 0)
  if base = ['*'] || base = ['?'] then some (lo, hi)
  else
    match base.splitOn '-' with
    | [start, end_] =>
      match cronFieldValue start fieldIdx false, cronFieldValue end_ fieldIdx true with
      | some startVal, some endVal => some (startVal, endVal)
      | _, _ => none
    | _ => (cronFieldValue base fieldIdx false).map fun v => (v, if stepped then hi else v)

/-- The token stands for `value`. -/
def tokenMatches (fieldIdx : ℕ) (token : List Char) (value : ℕ) : Bool :=
  match token.splitOn '/' with
  | [base, stepStr] =>
    (cronRange fieldIdx base true).any fun (a, b) =>
      a ≤ value && value ≤ b && (value - a) % parseInt stepStr == 0
  | _ => (cronRange fieldIdx token false).any fun (a, b) => a ≤ value && value ≤ b

def fieldMatches (fieldIdx : ℕ) (field : List Char) (value : ℕ) : Bool :=
  (field.splitOn ',').any fun token => tokenMatches fieldIdx token value

/-- The number of a weekday in a cron field. -/
def cronWeekday : Weekday → ℕ
  | .Sun => 0
  | .Mon => 1
  | .Tue => 2
  | .Wed => 3
  | .Thu => 4
  | .Fri => 5
  | .Sat => 6

/-- In the weekday field, 7 is Sunday as well. -/
def dowMatches (dow : List Char) (w : Weekday) : Bool :=
  fieldMatches 4 dow (cronWeekday w) || (w == .Sun && fieldMatches 4 dow 7)

def isAny (field : List Char) : Bool := field = ['*'] || field = ['?']

/-- The local minute `m` (numbered from local 1970-01-01 00:00) is matched. Where both day
    fields are restricted, one of them is enough. -/
def cronMatches (fields : List (List Char)) (m : ℤ) : Bool :=
  match fields with
  | [minute, hour, dayOfMonth, month, dow] =>
    let date := monthAndDay (m * nanosPerMinute)
    let dom := fieldMatches 2 dayOfMonth date.2
    let weekday := dowMatches dow (weekday (m / 1440))
    fieldMatches 0 minute (m % 60).toNat && fieldMatches 1 hour (m / 60 % 24).toNat &&
      fieldMatches 3 month date.1 &&
      (if isAny dayOfMonth || isAny dow then dom && weekday else dom || weekday)
  | _ => false

/-! ## Texts -/

def weekdayOrder : List Weekday := [.Mon, .Tue, .Wed, .Thu, .Fri, .Sat, .Sun]

def weekdayLabel : Weekday → String
  | .Mon => "一"
  | .Tue => "二"
  | .Wed => "三"
  | .Thu => "四"
  | .Fri => "五"
  | .Sat => "六"
  | .Sun => "日"

/-- One part of a list of weekdays. -/
inductive DayGroup
  | single (head : Weekday)
  | span (head tail : Weekday)
  deriving DecidableEq, Repr

/-- The texts of `describeCronShort`, by what is filled in. -/
inductive CronText
  | everyMinutes (n : ℕ)
  | everyDay (hh mm : ℕ)
  | workdays (hh mm : ℕ)
  | weekdays (groups : List DayGroup) (hh mm : ℕ)
  deriving DecidableEq, Repr

def pad2 (value : ℕ) : String := if value < 10 then "0" ++ toString value else toString value

def DayGroup.text : DayGroup → String
  | .single head => "周" ++ weekdayLabel head
  | .span head tail => "周" ++ weekdayLabel head ++ "至" ++ "周" ++ weekdayLabel tail

def CronText.text : CronText → String
  | .everyMinutes n => "每 " ++ toString (Binary64.written n) ++ " 分钟"
  | .everyDay hh mm => "每天 " ++ (pad2 hh ++ ":" ++ pad2 mm)
  | .workdays hh mm => "工作日 " ++ (pad2 hh ++ ":" ++ pad2 mm)
  | .weekdays groups hh mm =>
    "每" ++ "、".intercalate (groups.map DayGroup.text) ++ " " ++ (pad2 hh ++ ":" ++ pad2 mm)

/-! ### What they state -/

/-- The part holds the weekday. -/
def DayGroup.Holds : DayGroup → Weekday → Prop
  | .single head, w => w = head
  | .span head tail, w =>
    weekdayOrder.idxOf head ≤ weekdayOrder.idxOf w ∧
      weekdayOrder.idxOf w ≤ weekdayOrder.idxOf tail

/-- The local minute `m` is at `hh:mm`. -/
def IsTime (hh mm : ℕ) (m : ℤ) : Prop := m % 1440 = 60 * hh + mm

/-- The text states that the local minute `m` belongs to the schedule: every `n` minutes of
    the day, or a time of day on some days. -/
def CronText.Holds : CronText → ℤ → Prop
  | .everyMinutes n, m => m % 1440 % n = 0
  | .everyDay hh mm, m => IsTime hh mm m
  | .workdays hh mm, m => IsTime hh mm m ∧ weekday (m / 1440) ∉ [Weekday.Sat, Weekday.Sun]
  | .weekdays groups hh mm, m =>
    IsTime hh mm m ∧ ∃ group ∈ groups, group.Holds (weekday (m / 1440))

/-! ## `describeCronShort` -/

/-- The groups of `formatWeekdaysShort` after one more day (lines 289–296). -/
def pushDay (groups : List (List ℕ)) (idx : ℕ) : List (List ℕ) :=
  match groups.getLast? with
  | none => [[idx]]
  | some last =>
    if last.getLast?.any (fun day => idx = day + 1) then groups.dropLast ++ [last ++ [idx]]
    else groups ++ [[idx]]

/-- `indices` and `sorted` of `formatWeekdaysShort` (lines 280–285). -/
def sortedDays (days : List Weekday) : List ℕ :=
  (days.map weekdayOrder.idxOf).dedup.insertionSort (· ≤ ·)

def groupText (group : List ℕ) : DayGroup :=
  let head := weekdayOrder.getD (group.headD 0) .Mon
  if group.length = 1 then .single head
  else .span head (weekdayOrder.getD (group.getLastD 0) .Mon)

/-- Model of `formatWeekdaysShort` (lines 279–305). -/
def formatWeekdaysShort (days : List Weekday) : List DayGroup :=
  ((sortedDays days).foldl pushDay []).map groupText

/-- Model of `isoWeekdayToShort` (lines 308–312). -/
def isoWeekdayToShort (day : ℕ) : Option Weekday :=
  let normalized := if day = 7 then 0 else day
  [Weekday.Sun, .Mon, .Tue, .Wed, .Thu, .Fri, .Sat][normalized]?

/-- `/^\d{1,2}$/.test(s)`. -/
def isShortDigits (s : List Char) : Bool := isDigits s && s.length ≤ 2

/-- The values of one token of `parseCronWeekdays`, unless it returns `null` at it. -/
def weekdayValues (token : List Char) : Option (List ℕ) :=
  match token.splitOn '-' with
  | [startStr, endStr] =>
    if isShortDigits startStr && isShortDigits endStr then
      let start := parseInt startStr
      let end_ := parseInt endStr
      if start > end_ then none else some (List.range' start (end_ + 1 - start))
    else none
  | _ => if isShortDigits token then some [parseInt token] else none

/-- `result.add(day)` for each value, unless one is no weekday. -/
def addDays (result : List Weekday) : List ℕ → Option (List Weekday)
  | [] => some result
  | value :: values =>
    match isoWeekdayToShort value with
    | none => none
    | some day => addDays (if result.contains day then result else result ++ [day]) values

/-- The loop of `parseCronWeekdays` over the tokens. -/
def addTokens (result : List Weekday) : List (List Char) → Option (List Weekday)
  | [] => some result
  | token :: tokens =>
    match (weekdayValues token).bind (addDays result) with
    | none => none
    | some result => addTokens result tokens

/-- Model of `parseCronWeekdays` (lines 314–336). -/
def parseCronWeekdays (dow : List Char) : Option (List Weekday) :=
  match addTokens [] (dow.splitOn ',') with
  | none => none
  | some result => if result.isEmpty then none else some result

/-- `/^\*\/(\d+)$/.exec(minute)`. -/
def everyN : List Char → Option (List Char)
  | '*' :: '/' :: n => if isDigits n then some n else none
  | _ => none

/-- The end of `describeCronShort`, at `hh:mm` (lines 357–364). -/
def describeDays (dow : List Char) (hh mm : ℕ) : Option CronText :=
  if dow = ['*'] then some (.everyDay hh mm)
  else
    match parseCronWeekdays dow with
    | none => none
    | some days =>
      let isWorkdays :=
        days.length = 5 && days.zipIdx.all fun (day, idx) => weekdayOrder[idx]? = some day
      if isWorkdays then some (.workdays hh mm)
      else some (.weekdays (formatWeekdaysShort days) hh mm)

/-- `describeCronShort` without steps (lines 351–364). -/
def describeTime (minute hour dow : List Char) : Option CronText :=
  if !isShortDigits minute || !isShortDigits hour then none
  else
    let mm := parseInt minute
    let hh := parseInt hour
    if mm > 59 || hh > 23 then none else describeDays dow hh mm

/-- Model of `describeCronShort` (lines 339–365). -/
def describeCronShort (expression : String) : Option CronText :=
  match trimSplit expression.toList with
  | [minute, hour, dayOfMonth, month, dow] =>
    if dayOfMonth ≠ ['*'] || month ≠ ['*'] then none
    else
      match if hour = ['*'] then everyN minute else none with
      | some digits =>
        let n := parseInt digits
        if n > 0 then some (.everyMinutes n) else none
      | none => describeTime minute hour dow
  | _ => none

/-- The Cron branch of `describeTriggerShort`, for a string (lines 391–397). -/
def describeCronTrigger (expression : String) : String :=
  if Words.trim isSpace expression.toList = [] then "未知触发器"
  else
    match describeCronShort expression with
    | some text => text.text
    | none => expression

/-! ## Fields of one number -/

section Digits

variable {s : List Char} {i : ℕ}

theorem notMem_of_isDigits {c : Char} (h : isDigits s = true) (hc : c.isDigit = false) :
    c ∉ s := fun hmem => by
  rw [(isDigits_iff.mp h).2 c hmem] at hc
  cases hc

theorem isAny_of_isDigits (h : isDigits s = true) : isAny s = false := by
  have hstar : s ≠ ['*'] := by
    rintro rfl
    exact absurd h (by decide)
  have hquestion : s ≠ ['?'] := by
    rintro rfl
    exact absurd h (by decide)
  simp [isAny, hstar, hquestion]

theorem cronRange_digits (h : isDigits s = true) :
    cronRange i s false = some (parseInt s, parseInt s) := by
  have hany : (s = ['*'] || s = ['?']) = false := isAny_of_isDigits h
  unfold cronRange
  rw [hany, List.splitOn_eq_singleton (notMem_of_isDigits h (by decide))]
  simp [cronFieldValue, h]

theorem tokenMatches_digits (h : isDigits s = true) (v : ℕ) :
    tokenMatches i s v = true ↔ v = parseInt s := by
  unfold tokenMatches
  rw [List.splitOn_eq_singleton (notMem_of_isDigits h (by decide))]
  simp only [cronRange_digits h, Option.any_some, Bool.and_eq_true, decide_eq_true_eq]
  omega

theorem fieldMatches_digits (h : isDigits s = true) (v : ℕ) :
    fieldMatches i s v = true ↔ v = parseInt s := by
  unfold fieldMatches
  rw [List.splitOn_eq_singleton (notMem_of_isDigits h (by decide))]
  simpa using tokenMatches_digits h v

theorem fieldMatches_star (v : ℕ) : fieldMatches i ['*'] v = true ↔
    (cronFieldRanges.getD i (0, 0)).1 ≤ v ∧ v ≤ (cronFieldRanges.getD i (0, 0)).2 := by
  have hcomma : (['*'] : List Char).splitOn ',' = [['*']] := by decide
  have hslash : (['*'] : List Char).splitOn '/' = [['*']] := by decide
  unfold fieldMatches
  rw [hcomma]
  unfold tokenMatches
  simp [hslash, cronRange]

/-- `*` with a step, from the first value of the field on. -/
theorem fieldMatches_everyN {minute digits : List Char} (h : everyN minute = some digits)
    (v : ℕ) : fieldMatches 0 minute v = true ↔ v ≤ 59 ∧ v % parseInt digits = 0 := by
  unfold everyN at h
  split at h
  · rename_i n
    split_ifs at h with hdigits
    cases h
    have hcomma : ('*' :: '/' :: digits).splitOn ',' = ['*' :: '/' :: digits] :=
      List.splitOn_eq_singleton (by simpa using notMem_of_isDigits hdigits (by decide))
    have hslash : ('*' :: '/' :: digits).splitOn '/' = [['*'], digits] := by
      have hnot : '/' ∉ ['*'] := by decide
      have hsplit := List.splitOn_append_cons_self_of_not_mem hnot digits
      rwa [List.splitOn_eq_singleton (notMem_of_isDigits hdigits (by decide))] at hsplit
    unfold fieldMatches
    rw [hcomma]
    unfold tokenMatches
    simp [hslash, cronRange, cronFieldRanges]
  · cases h

end Digits

/-! ## Weekdays -/

theorem isoWeekdayToShort_iff (v : ℕ) (w : Weekday) :
    isoWeekdayToShort v = some w ↔ v = cronWeekday w ∨ (w = .Sun ∧ v = 7) := by
  rcases Nat.lt_or_ge v 8 with hlt | hge
  · have hall : ∀ v < 8, ∀ w ∈ weekdayOrder,
        (isoWeekdayToShort v = some w ↔ v = cronWeekday w ∨ (w = .Sun ∧ v = 7)) := by decide
    exact hall v hlt w (by cases w <;> decide)
  · have hnone : isoWeekdayToShort v = none := by
      have hne : v ≠ 7 := by omega
      simp [isoWeekdayToShort, hne]
      omega
    have hle : cronWeekday w ≤ 6 := by cases w <;> decide
    rw [hnone]
    simp only [reduceCtorEq, false_iff]
    omega

theorem dowMatches_iff (dow : List Char) (w : Weekday) :
    dowMatches dow w = true ↔ ∃ token ∈ dow.splitOn ',', ∃ v, tokenMatches 4 token v = true ∧
      isoWeekdayToShort v = some w := by
  simp only [dowMatches, fieldMatches, Bool.or_eq_true, Bool.and_eq_true, List.any_eq_true,
    beq_iff_eq, isoWeekdayToShort_iff]
  constructor
  · rintro (⟨token, hmem, hmatch⟩ | ⟨hw, token, hmem, hmatch⟩)
    · exact ⟨token, hmem, _, hmatch, .inl rfl⟩
    · exact ⟨token, hmem, 7, hmatch, .inr ⟨hw, rfl⟩⟩
  · rintro ⟨token, hmem, v, hmatch, rfl | ⟨hw, rfl⟩⟩
    · exact .inl ⟨token, hmem, hmatch⟩
    · exact .inr ⟨hw, token, hmem, hmatch⟩

theorem isDigits_of_isShortDigits {s : List Char} (h : isShortDigits s = true) :
    isDigits s = true := by
  unfold isShortDigits at h
  exact (Bool.and_eq_true_iff.mp h).1

/-- The values that the text is made from are those that the field matches. -/
theorem weekdayValues_spec {token : List Char} {values : List ℕ}
    (h : weekdayValues token = some values) (v : ℕ) :
    v ∈ values ↔ tokenMatches 4 token v = true := by
  unfold weekdayValues at h
  split at h
  · rename_i startStr endStr hsplit
    split_ifs at h with hdigits
    obtain ⟨hstart, hend⟩ := Bool.and_eq_true_iff.mp hdigits
    replace hstart := isDigits_of_isShortDigits hstart
    replace hend := isDigits_of_isShortDigits hend
    have htoken : token = startStr ++ '-' :: endStr := by
      have hjoin : ['-'].intercalate (token.splitOn '-') = token := List.intercalate_splitOn '-'
      rw [hsplit] at hjoin
      simpa using hjoin.symm
    have hslash : token.splitOn '/' = [token] := by
      apply List.splitOn_eq_singleton
      rw [htoken]
      simpa using ⟨notMem_of_isDigits hstart (by decide), notMem_of_isDigits hend (by decide)⟩
    have hany : (token = ['*'] || token = ['?']) = false := by
      obtain ⟨c, s, rfl⟩ := List.exists_cons_of_ne_nil (isDigits_iff.mp hstart).1
      simp [htoken]
    have hrange : cronRange 4 token false = some (parseInt startStr, parseInt endStr) := by
      unfold cronRange
      rw [hany, hsplit]
      simp [cronFieldValue, hstart, hend]
    dsimp only at h
    split_ifs at h
    cases h
    unfold tokenMatches
    rw [hslash]
    simp only [hrange, Option.any_some, Bool.and_eq_true, decide_eq_true_eq, List.mem_range'_1]
    omega
  · split_ifs at h with hdigits
    cases h
    rw [tokenMatches_digits (isDigits_of_isShortDigits hdigits), List.mem_singleton]

theorem addDays_spec {result result' : List Weekday} {values : List ℕ}
    (h : addDays result values = some result') (w : Weekday) :
    w ∈ result' ↔ w ∈ result ∨ ∃ v ∈ values, isoWeekdayToShort v = some w := by
  induction values generalizing result with
  | nil =>
    cases h
    simp
  | cons value values ih =>
    rw [addDays] at h
    cases hday : isoWeekdayToShort value with
    | none => simp [hday] at h
    | some day =>
      rw [hday] at h
      have hadd : w ∈ (if result.contains day then result else result ++ [day]) ↔
          w ∈ result ∨ w = day := by
        split_ifs with hmem
        · rw [List.contains_iff_mem] at hmem
          constructor
          · exact .inl
          · rintro (hw | rfl)
            · exact hw
            · exact hmem
        · simp
      have hsome : some day = some w ↔ w = day := by rw [Option.some.injEq, eq_comm]
      rw [ih h, hadd]
      simp only [List.mem_cons, exists_eq_or_imp, hday, hsome, or_assoc]

theorem addTokens_spec {result result' : List Weekday} {tokens : List (List Char)}
    (h : addTokens result tokens = some result') (w : Weekday) :
    w ∈ result' ↔ w ∈ result ∨ ∃ token ∈ tokens, ∃ v, tokenMatches 4 token v = true ∧
      isoWeekdayToShort v = some w := by
  induction tokens generalizing result with
  | nil =>
    cases h
    simp
  | cons token tokens ih =>
    rw [addTokens] at h
    cases hvalues : weekdayValues token with
    | none => simp [hvalues] at h
    | some values =>
      rw [hvalues, Option.bind_some] at h
      cases hadd : addDays result values with
      | none => simp [hadd] at h
      | some next =>
        rw [hadd] at h
        rw [ih h, addDays_spec hadd]
        simp only [weekdayValues_spec hvalues, List.mem_cons, exists_eq_or_imp, or_assoc]

/-- The weekdays that the text names are those that the field matches. -/
theorem parseCronWeekdays_spec {dow : List Char} {days : List Weekday}
    (h : parseCronWeekdays dow = some days) (w : Weekday) :
    w ∈ days ↔ dowMatches dow w = true := by
  unfold parseCronWeekdays at h
  cases hadd : addTokens [] (dow.splitOn ',') with
  | none => simp [hadd] at h
  | some result =>
    simp only [hadd] at h
    split_ifs at h
    cases h
    rw [addTokens_spec hadd, dowMatches_iff]
    simp

/-! ### Groups of days -/

/-- The groups so far hold the days so far, each without a gap. -/
structure Grouped (groups : List (List ℕ)) (days : List ℕ) : Prop where
  flatten : groups.flatten = days
  consecutive : ∀ group ∈ groups, ∃ a n, group = List.range' a (n + 1)

theorem Grouped.pushDay {groups : List (List ℕ)} {days : List ℕ} (h : Grouped groups days)
    (idx : ℕ) : Grouped (pushDay groups idx) (days ++ [idx]) := by
  unfold Frontend.pushDay
  cases hlast : groups.getLast? with
  | none =>
    have hnil : groups = [] := List.getLast?_eq_none_iff.mp hlast
    have hdays : days = [] := by rw [← h.flatten, hnil]; rfl
    exact ⟨by simp [hdays], by simpa using ⟨idx, 0, rfl⟩⟩
  | some last =>
    obtain ⟨init, rfl⟩ := List.getLast?_eq_some_iff.mp hlast
    obtain ⟨a, n, rfl⟩ := h.consecutive last (by simp)
    have hend : (List.range' a (n + 1)).getLast? = some (a + n) := by
      rw [List.range'_concat]
      simp
    have hflatten := h.flatten
    simp only [List.flatten_append, List.flatten_singleton] at hflatten
    dsimp only
    rw [hend, Option.any_some]
    split_ifs with hnext
    · rw [decide_eq_true_eq] at hnext
      have hrange : List.range' a (n + 1) ++ [idx] = List.range' a (n + 1 + 1) := by
        rw [hnext, List.range'_concat (n := n + 1), Nat.one_mul, Nat.add_assoc]
      refine ⟨by simp [← hflatten], fun group hgroup => ?_⟩
      rw [List.dropLast_concat, List.mem_append, List.mem_singleton] at hgroup
      rcases hgroup with hgroup | rfl
      · exact h.consecutive group (List.mem_append_left _ hgroup)
      · exact ⟨a, n + 1, hrange⟩
    · refine ⟨by simp [← hflatten], fun group hgroup => ?_⟩
      rcases List.mem_append.mp hgroup with hgroup | hgroup
      · exact h.consecutive group hgroup
      · exact ⟨idx, 0, List.mem_singleton.mp hgroup⟩

theorem Grouped.foldl {days : List ℕ} {groups : List (List ℕ)} {before : List ℕ}
    (h : Grouped groups before) :
    Grouped (days.foldl Frontend.pushDay groups) (before ++ days) := by
  induction days generalizing groups before with
  | nil => simpa using h
  | cons idx days ih => simpa using ih (h.pushDay idx)

theorem mem_sortedDays {days : List Weekday} {idx : ℕ} :
    idx ∈ sortedDays days ↔ ∃ w ∈ days, weekdayOrder.idxOf w = idx := by
  unfold sortedDays
  rw [List.mem_insertionSort, List.mem_dedup, List.mem_map]

theorem weekdayOrder_idxOf : (∀ w, weekdayOrder.idxOf w < 7) ∧
    ∀ idx < 7, weekdayOrder.idxOf (weekdayOrder.getD idx .Mon) = idx := by
  refine ⟨fun w => ?_, by decide⟩
  cases w <;> decide

theorem weekdayOrder_injective {w w' : Weekday}
    (h : weekdayOrder.idxOf w = weekdayOrder.idxOf w') : w = w' := by
  cases w <;> cases w' <;> first | rfl | exact absurd h (by decide)

/-- A part of the text holds the days of its group. -/
theorem groupText_holds {a n : ℕ} (hlt : a + n < 7) (w : Weekday) :
    (groupText (List.range' a (n + 1))).Holds w ↔
      weekdayOrder.idxOf w ∈ List.range' a (n + 1) := by
  have hhead : (List.range' a (n + 1)).headD 0 = a := rfl
  have hlast : (List.range' a (n + 1)).getLastD 0 = a + n := by
    rw [List.range'_concat]
    simp
  have hidx := weekdayOrder_idxOf.2
  unfold groupText
  rw [hhead, hlast, List.length_range', List.mem_range'_1]
  split_ifs with hone
  · have hn : n = 0 := by omega
    subst hn
    show w = _ ↔ _
    constructor
    · rintro rfl
      rw [hidx a hlt]
      omega
    · intro hw
      apply weekdayOrder_injective
      rw [hidx a hlt]
      omega
  · show _ ∧ _ ↔ _
    rw [hidx a (by omega), hidx (a + n) hlt]
    omega

/-- The parts of the text hold the days. -/
theorem formatWeekdaysShort_holds (days : List Weekday) (w : Weekday) :
    (∃ group ∈ formatWeekdaysShort days, group.Holds w) ↔ w ∈ days := by
  have hgrouped : Grouped ((sortedDays days).foldl pushDay []) (sortedDays days) :=
    Grouped.foldl ⟨rfl, by simp⟩
  have hholds : ∀ group ∈ (sortedDays days).foldl pushDay [],
      ((groupText group).Holds w ↔ weekdayOrder.idxOf w ∈ group) := by
    intro group hgroup
    obtain ⟨a, n, rfl⟩ := hgrouped.consecutive group hgroup
    apply groupText_holds
    have hmem : a + n ∈ sortedDays days := by
      rw [← hgrouped.flatten]
      exact List.mem_flatten.mpr ⟨_, hgroup, by simp⟩
    obtain ⟨w', -, hw'⟩ := mem_sortedDays.mp hmem
    rw [← hw']
    exact weekdayOrder_idxOf.1 w'
  have hflatten : weekdayOrder.idxOf w ∈ sortedDays days ↔ w ∈ days := by
    rw [mem_sortedDays]
    constructor
    · rintro ⟨w', hmem, heq⟩
      rwa [← weekdayOrder_injective heq]
    · exact fun hmem => ⟨w, hmem, rfl⟩
  rw [← hflatten, ← hgrouped.flatten, List.mem_flatten]
  unfold formatWeekdaysShort
  constructor
  · rintro ⟨_, hmem, hw⟩
    obtain ⟨group, hgroup, rfl⟩ := List.mem_map.mp hmem
    exact ⟨group, hgroup, (hholds group hgroup).mp hw⟩
  · rintro ⟨group, hgroup, hw⟩
    exact ⟨_, List.mem_map_of_mem hgroup, (hholds group hgroup).mpr hw⟩

/-! ## The texts and the minutes -/

/-- Any day of any month. -/
theorem date_matches (m : ℤ) : fieldMatches 2 ['*'] (monthAndDay (m * nanosPerMinute)).2 = true ∧
    fieldMatches 3 ['*'] (monthAndDay (m * nanosPerMinute)).1 = true := by
  obtain ⟨hmonth, hday⟩ := monthAndDay_spec (m * nanosPerMinute)
  rw [fieldMatches_star, fieldMatches_star]
  exact ⟨hday, hmonth⟩

/-- What is left of the five fields where the date is free. -/
theorem cronMatches_iff (minute hour dow : List Char) (m : ℤ) :
    cronMatches [minute, hour, ['*'], ['*'], dow] m = true ↔
      fieldMatches 0 minute (m % 60).toNat = true ∧
        fieldMatches 1 hour (m / 60 % 24).toNat = true ∧
        dowMatches dow (weekday (m / 1440)) = true := by
  obtain ⟨hday, hmonth⟩ := date_matches m
  have hany : isAny ['*'] = true := rfl
  simp only [cronMatches, hday, hmonth, hany, Bool.true_or, if_true, Bool.true_and, Bool.and_true,
    Bool.and_eq_true, and_assoc]

theorem hour_matches (m : ℤ) : fieldMatches 1 ['*'] (m / 60 % 24).toNat = true := by
  rw [fieldMatches_star]
  show 0 ≤ _ ∧ _ ≤ 23
  omega

/-- Every weekday comes. -/
theorem exists_weekday (w : Weekday) : ∃ day : ℤ, weekday day = w := by
  cases w
  · exact ⟨4, rfl⟩
  · exact ⟨5, rfl⟩
  · exact ⟨6, rfl⟩
  · exact ⟨0, rfl⟩
  · exact ⟨1, rfl⟩
  · exact ⟨2, rfl⟩
  · exact ⟨3, rfl⟩

/-- `*/n` in the first field is every `n` minutes iff `n` divides the hour and the weekday
    does not matter. -/
theorem everyMinutes_iff {minute digits dow : List Char} (h : everyN minute = some digits) :
    (∀ m, (CronText.everyMinutes (parseInt digits)).Holds m ↔
        cronMatches [minute, ['*'], ['*'], ['*'], dow] m = true) ↔
      parseInt digits ∣ 60 ∧ ∀ w, dowMatches dow w = true := by
  have hmatches : ∀ m : ℤ, cronMatches [minute, ['*'], ['*'], ['*'], dow] m = true ↔
      (m % 60 % parseInt digits = 0 ∧ dowMatches dow (weekday (m / 1440)) = true) := by
    intro m
    rw [cronMatches_iff, fieldMatches_everyN h]
    have hcast : ((m % 60).toNat : ℤ) = m % 60 := Int.toNat_of_nonneg (by omega)
    have hmod : (m % 60).toNat % parseInt digits = 0 ↔ m % 60 % parseInt digits = 0 := by
      have hnat := Int.natCast_mod (m % 60).toNat (parseInt digits)
      rw [hcast] at hnat
      rw [← hnat, Int.natCast_eq_zero]
    have hle : (m % 60).toNat ≤ 59 := by omega
    simp [hour_matches, hmod, hle]
  simp only [hmatches]
  constructor
  · intro hall
    have hdow : ∀ w, dowMatches dow w = true := by
      intro w
      obtain ⟨day, rfl⟩ := exists_weekday w
      -- midnight is stated for every day
      have hmidnight := (hall (1440 * day)).mp (by simp [CronText.Holds])
      simpa using hmidnight.2
    refine ⟨?_, hdow⟩
    -- the minute 60 is matched
    have hsixty := (hall 60).mpr ⟨by simp, hdow _⟩
    have hmod : (60 : ℤ) % parseInt digits = 0 := by simpa [CronText.Holds] using hsixty
    exact Nat.dvd_of_mod_eq_zero (by exact_mod_cast hmod)
  · rintro ⟨hdvd, hdow⟩ m
    have h60 : ((parseInt digits : ℕ) : ℤ) ∣ 60 := by exact_mod_cast hdvd
    have hday : ((parseInt digits : ℕ) : ℤ) ∣ 1440 := h60.trans (by decide)
    simp only [CronText.Holds, hdow, and_true, Int.emod_emod_of_dvd _ hday,
      Int.emod_emod_of_dvd _ h60]

/-- A time of day in the first two fields. -/
theorem time_matches {minute hour : List Char} (hminute : isDigits minute = true)
    (hhour : isDigits hour = true) (hmm : parseInt minute ≤ 59) (hhh : parseInt hour ≤ 23)
    (m : ℤ) : fieldMatches 0 minute (m % 60).toNat = true ∧
        fieldMatches 1 hour (m / 60 % 24).toNat = true ↔
      IsTime (parseInt hour) (parseInt minute) m := by
  rw [fieldMatches_digits hminute, fieldMatches_digits hhour]
  unfold IsTime
  omega

/-- The texts with a time of day state what the weekday field matches. -/
theorem describeDays_holds {dow : List Char} {hh mm : ℕ} {text : CronText}
    (h : describeDays dow hh mm = some text) (m : ℤ) :
    text.Holds m ↔ IsTime hh mm m ∧ dowMatches dow (weekday (m / 1440)) = true := by
  unfold describeDays at h
  split_ifs at h with hstar
  · cases h
    have hdow : ∀ w, dowMatches dow w = true := by
      intro w
      have hle : cronWeekday w ≤ 7 := by cases w <;> decide
      have hfield : fieldMatches 4 dow (cronWeekday w) = true := by
        rw [hstar, fieldMatches_star]
        exact ⟨Nat.zero_le _, hle⟩
      simp [dowMatches, hfield]
    simp [CronText.Holds, hdow]
  · cases hdays : parseCronWeekdays dow with
    | none => simp [hdays] at h
    | some days =>
      have hmem := parseCronWeekdays_spec hdays
      simp only [hdays] at h
      split_ifs at h with hworkdays
      · cases h
        have hfive : days = [.Mon, .Tue, .Wed, .Thu, .Fri] := by
          simp only [Bool.and_eq_true, decide_eq_true_eq] at hworkdays
          obtain ⟨hlength, hall⟩ := hworkdays
          match days, hlength, hall with
          | [a, b, c, d, e], _, hall =>
            obtain ⟨rfl, rfl, rfl, rfl, rfl⟩ :
                .Mon = a ∧ .Tue = b ∧ .Wed = c ∧ .Thu = d ∧ .Fri = e := by
              simpa [weekdayOrder] using hall
            rfl
        have hworkday : ∀ w : Weekday, w ∉ [Weekday.Sat, Weekday.Sun] ↔ w ∈ days := by
          rw [hfive]
          intro w
          cases w <;> decide
        show _ ∧ _ ↔ _
        rw [hworkday, hmem]
      · cases h
        show _ ∧ _ ↔ _
        rw [formatWeekdaysShort_holds, hmem]

/-! ## Truthful texts -/

/-- The text states exactly the minutes that the expression matches, and where there is none
    the expression is shown. -/
def TellsTruth (expression : String) : Prop :=
  (∀ text, describeCronShort expression = some text →
    describeCronTrigger expression = text.text ∧
      ∀ m, text.Holds m ↔ cronMatches (trimSplit expression.toList) m = true) ∧
  (describeCronShort expression = none → describeCronTrigger expression = expression)

/-- Minutes with a step divide the hour and are for every weekday, if the other fields are `*`. -/
def EvenSteps (expression : String) : Prop :=
  ∀ minute digits dow, trimSplit expression.toList = [minute, ['*'], ['*'], ['*'], dow] →
    everyN minute = some digits → parseInt digits ∣ 60 ∧ ∀ w, dowMatches dow w = true

/-- An accepted step is positive. -/
theorem everyN_pos {minute digits : List Char} (hvalid : validateCronField minute 0 = true)
    (h : everyN minute = some digits) : 1 ≤ parseInt digits := by
  unfold everyN at h
  split at h
  · rename_i n
    split_ifs at h with hdigits
    cases h
    have hslash : '/' ∉ digits := notMem_of_isDigits hdigits (by decide)
    have hcomma : ('*' :: '/' :: digits).splitOn ',' = ['*' :: '/' :: digits] :=
      List.splitOn_eq_singleton (by simpa using notMem_of_isDigits hdigits (by decide))
    have htoken : validateCronToken ('*' :: '/' :: digits) 0 59 0 = true := by
      unfold validateCronField at hvalid
      rw [hcomma] at hvalid
      simpa [cronFieldRanges] using hvalid
    rcases validateCronToken_spec htoken with ⟨hnot, -⟩ | ⟨base, stepStr, heq, -, hstep, -⟩
    · simp at hnot
    · -- the only slash is the one after `*`
      obtain ⟨rfl, rfl⟩ : base = ['*'] ∧ stepStr = digits := by
        rcases List.cons_eq_append_iff.mp heq with ⟨-, hnil⟩ | ⟨rest, rfl, heq'⟩
        · simp at hnil
        rcases List.cons_eq_append_iff.mp heq' with ⟨rfl, hstep'⟩ | ⟨rest, rfl, rfl⟩
        · exact ⟨rfl, by simpa using hstep'⟩
        · simp at hslash
      exact hstep
  · cases h

section Texts

variable {minute hour dayOfMonth month dow : List Char} {expression : String} {text : CronText}

theorem describeCronShort_everyN {digits : List Char}
    (hfields : trimSplit expression.toList = [minute, ['*'], ['*'], ['*'], dow])
    (h : everyN minute = some digits) (hpos : 1 ≤ parseInt digits) :
    describeCronShort expression = some (.everyMinutes (parseInt digits)) := by
  unfold describeCronShort
  rw [hfields]
  simp only [h, ne_eq, not_true_eq_false, decide_false, Bool.or_self, Bool.false_eq_true,
    if_false, if_true]
  exact if_pos hpos

/-- A text comes from steps of the minutes, or from a time of day. -/
theorem describeCronShort_cases (h : describeCronShort expression = some text) :
    (∃ minute digits dow, trimSplit expression.toList = [minute, ['*'], ['*'], ['*'], dow] ∧
        everyN minute = some digits ∧ text = .everyMinutes (parseInt digits)) ∨
      ∃ minute hour dow, trimSplit expression.toList = [minute, hour, ['*'], ['*'], dow] ∧
        isDigits minute = true ∧ isDigits hour = true ∧ parseInt minute ≤ 59 ∧
        parseInt hour ≤ 23 ∧ describeDays dow (parseInt hour) (parseInt minute) = some text := by
  unfold describeCronShort at h
  split at h
  · rename_i minute hour dayOfMonth month dow hfields
    by_cases hdate : (decide (dayOfMonth ≠ ['*']) || decide (month ≠ ['*'])) = true
    · rw [if_pos hdate] at h
      cases h
    rw [if_neg hdate] at h
    simp only [Bool.or_eq_true, decide_eq_true_eq, not_or, ne_eq, not_not] at hdate
    obtain ⟨rfl, rfl⟩ := hdate
    generalize hsteps : (if hour = ['*'] then everyN minute else none) = steps at h
    cases steps with
    | some digits =>
      left
      split_ifs at hsteps with hhour
      dsimp only at h
      split_ifs at h
      cases h
      exact ⟨minute, digits, dow, by rw [hfields, hhour], hsteps, rfl⟩
    | none =>
      right
      dsimp only [describeTime] at h
      split_ifs at h with hshort hrange
      simp only [Bool.or_eq_true, Bool.not_eq_true', not_or, Bool.not_eq_false] at hshort
      simp only [Bool.or_eq_true, decide_eq_true_eq, not_or, not_lt] at hrange
      exact ⟨minute, hour, dow, hfields, isDigits_of_isShortDigits hshort.1,
        isDigits_of_isShortDigits hshort.2, hrange.1, hrange.2, h⟩
  · cases h

/-- A text with a time of day is always right. -/
theorem time_holds (hfields : trimSplit expression.toList = [minute, hour, ['*'], ['*'], dow])
    (hminute : isDigits minute = true) (hhour : isDigits hour = true)
    (hmm : parseInt minute ≤ 59) (hhh : parseInt hour ≤ 23)
    (h : describeDays dow (parseInt hour) (parseInt minute) = some text) (m : ℤ) :
    text.Holds m ↔ cronMatches (trimSplit expression.toList) m = true := by
  rw [hfields, describeDays_holds h, cronMatches_iff, ← time_matches hminute hhour hmm hhh,
    and_assoc]

/-- For an accepted expression, the short text tells the truth iff, where it is a number of
    minutes, that number divides the hour and every weekday is matched. -/
theorem describeCronShort_iff (hvalid : validateCronExpression expression = true) :
    TellsTruth expression ↔ EvenSteps expression := by
  obtain ⟨hwords, hlength, hvalidFields⟩ := validateCronExpression_spec hvalid
  have htrim : Words.trim isSpace expression.toList ≠ [] := by
    intro hnil
    rw [← Words.words_trim, hnil, Words.words_nil] at hlength
    cases hlength
  constructor
  · rintro ⟨htext, -⟩ minute digits dow hfields hevery
    have hmem : (minute, 0) ∈ (Words.words isSpace expression.toList).zipIdx := by
      rw [← hwords, hfields]
      simp
    have hpos := everyN_pos (hvalidFields minute 0 hmem) hevery
    obtain ⟨-, hholds⟩ := htext _ (describeCronShort_everyN hfields hevery hpos)
    rw [hfields] at hholds
    exact (everyMinutes_iff hevery).mp hholds
  · intro heven
    refine ⟨fun text htext => ⟨?_, ?_⟩, fun hnone => ?_⟩
    · rw [describeCronTrigger, if_neg htrim, htext]
    · rcases describeCronShort_cases htext with ⟨minute, digits, dow, hfields, hevery, rfl⟩ |
        ⟨minute, hour, dow, hfields, hminute, hhour, hmm, hhh, hdays⟩
      · rw [hfields]
        exact (everyMinutes_iff hevery).mpr (heven minute digits dow hfields hevery)
      · exact time_holds hfields hminute hhour hmm hhh hdays
    · rw [describeCronTrigger, if_neg htrim, hnone]

end Texts

/-- Times of day on ranges and lists of days, with Sunday as 0. -/
theorem describeCronShort_weekdays : TellsTruth "30 8 * * 1-3,5,0" := by
  have hvalid : validateCronExpression "30 8 * * 1-3,5,0" = true := by decide +kernel
  refine (describeCronShort_iff hvalid).mpr ?_
  intro minute digits dow hfields
  have hhour : trimSplit "30 8 * * 1-3,5,0".toList ≠ [minute, ['*'], ['*'], ['*'], dow] := by
    have hsplit : (trimSplit "30 8 * * 1-3,5,0".toList)[1]? = some ['8'] := by decide
    intro h
    rw [h] at hsplit
    simp at hsplit
  exact absurd hfields hhour

/-- The text of `*/5 * * * 1` leaves out that it is for Mondays. -/
theorem describeCronShort_untrue :
    ¬∀ expression, validateCronExpression expression = true → TellsTruth expression := by
  intro h
  obtain ⟨htext, -⟩ := h "*/5 * * * 1" (by decide +kernel)
  obtain ⟨-, hholds⟩ := htext (.everyMinutes 5) (by decide +kernel)
  -- the first minute of Thursday, 1 January 1970
  have hmatch := (hholds 0).mp rfl
  exact absurd hmatch (by decide +kernel)

end EasyJob.Frontend
