import EasyJob.Chrono.Zone
import EasyJob.Domain.Task
import Mathlib.Tactic.Linarith

/-!
# Trigger evaluation

Model of `crates/scheduler/src/evaluator.rs`. `evaluateNextOccurrence kind after`
is the next time a trigger fires after `after`, or `none`.

Outside the repository and therefore parameters (`Env`): the time zone database
of `chrono_tz` and the `croner` crate. `rand::thread_rng` is modelled by a
sequence of draws.

Results: `evaluateNextOccurrence_gt`: for every kind other than an Interval
whose `interval_secs` does not fit in an `i64`, the result is strictly after
`after`.
-/

namespace EasyJob.Scheduler

open EasyJob.Chrono EasyJob.Domain

/-! ## Outside the repository -/

/-- A parsed `croner::Cron`: the local minutes (numbered from local 1970-01-01
    00:00) that its pattern matches. -/
structure Cron where
  isTimeMatching : ℤ → Bool

/-- `croner::errors::CronError`, as far as the code tells its variants apart. -/
inductive CronError
  | InvalidTime
  | TimeSearchLimitExceeded
  | Other
  deriving DecidableEq, Repr

/-- What `croner` and `chrono_tz` provide. -/
structure Env where
  /-- `Tz::from_str`. -/
  tzFromStr : String → Option Tz
  /-- `croner::Cron::from_str(expression).and_then(|mut cron| cron.parse()).ok()`. -/
  cronParse : String → Option Cron
  /-- `cron.find_next_occurrence(&anchor, false)`; the result as a UTC instant. -/
  findNextOccurrence : Cron → Tz → DateTime → Except CronError DateTime

/-- `Tz::from_str(timezone).unwrap_or(chrono_tz::UTC)`. -/
def Env.zone (env : Env) (timezone : String) : Tz := (env.tzFromStr timezone).getD Tz.utc

/-! ## `resolve_candidate` -/

/-- The loop over the DST gap in `resolve_candidate` (lines 56–68): shift the
    local time forward by 15 minutes until it exists. -/
def shiftForward (tz : Tz) (after : DateTime) : (rounds : ℕ) → NaiveDateTime →
    Rust (Option DateTime)
  | 0, _ => .ok none
  | rounds + 1, shifted => do
    let shifted ← addDelta shifted (15 * nanosPerMinute)
    match tz.fromLocal shifted with
    | .single utc => .ok (if utc > after then some utc else none)
    | .ambiguous utc _ => .ok (if utc > after then some utc else none)
    | .none => shiftForward tz after rounds shifted

/-- Model of `resolve_candidate` (lines 27–72). -/
def resolveCandidate (tz : Tz) (date : NaiveDate) (time : NaiveTime) (after : DateTime) :
    Rust (Option DateTime) :=
  match tz.fromLocal (andTime date time) with
  | .single utc => .ok (if utc > after then some utc else none)
  | .ambiguous earliest latest =>
    .ok (if earliest > after then some earliest else if latest > after then some latest else none)
  | .none => shiftForward tz after 8 (andTime date time)

/-- The `for _ in 0..n` loop over calendar days of the Daily, Weekly and Fuzzy
    branches: the first day on which `candidate` gives a time. `day` counts the
    days looked at. -/
def searchDays (candidate : ℕ → NaiveDate → Rust (Option DateTime)) : (rounds : ℕ) → (day : ℕ) →
    NaiveDate → Rust (Option DateTime)
  | 0, _, _ => .ok none
  | rounds + 1, day, date => do
    match ← candidate day date with
    | some utc => .ok (some utc)
    | none =>
      match succOpt date with
      | none => .ok none
      | some date => searchDays candidate rounds (day + 1) date

/-! ## Cron -/

def cronMonthNames : List String :=
  ["JAN", "FEB", "MAR", "APR", "MAY", "JUN", "JUL", "AUG", "SEP", "OCT", "NOV", "DEC"]

def cronWeekdayNames : List String := ["SUN", "MON", "TUE", "WED", "THU", "FRI", "SAT"]

def isAsciiDigit (b : UInt8) : Bool := 48 ≤ b && b ≤ 57

def isAsciiAlphabetic (b : UInt8) : Bool := (65 ≤ b && b ≤ 90) || (97 ≤ b && b ≤ 122)

/-- `u8::to_ascii_uppercase`. -/
def toAsciiUppercase (b : UInt8) : UInt8 := if 97 ≤ b && b ≤ 122 then b - 32 else b

/-- The UTF-8 bytes of a string. -/
def utf8Bytes (s : List Char) : List UInt8 := s.flatMap String.utf8EncodeChar

/-- `str::is_char_boundary`: the end, or a byte that does not continue a character. -/
def isCharBoundary (bytes : List UInt8) (i : ℕ) : Bool :=
  i == bytes.length || (bytes[i]?.any fun b => b &&& 0xC0 != 0x80)

/-- `field.get(i..i + 3)`. -/
def getThree (bytes : List UInt8) (i : ℕ) : Option (List UInt8) :=
  if i + 3 ≤ bytes.length && isCharBoundary bytes i && isCharBoundary bytes (i + 3) then
    some ((bytes.drop i).take 3)
  else none

/-- The `while i < bytes.len()` loop of `is_standard_cron_field` (lines 207–233). -/
def cronFieldLoop (bytes : List UInt8) (isMonth isWeekday : Bool) (i : ℕ) : Bool :=
  if h : i < bytes.length then
    let c := bytes[i]
    if isAsciiDigit c || [42, 63, 44, 45, 47].contains c then
      cronFieldLoop bytes isMonth isWeekday (i + 1)
    else if isAsciiAlphabetic c then
      match getThree bytes i with
      | none => false
      | some name =>
        if !name.all isAsciiAlphabetic then false
        else
          let upper := name.map toAsciiUppercase
          let known := (isMonth && (cronMonthNames.map (utf8Bytes ·.toList)).contains upper) ||
            (isWeekday && (cronWeekdayNames.map (utf8Bytes ·.toList)).contains upper)
          if known then cronFieldLoop bytes isMonth isWeekday (i + 3) else false
    else false
  else true
termination_by bytes.length - i

/-- Model of `is_standard_cron_field` (lines 205–235). The bytes 42, 63, 44, 45
    and 47 are `*`, `?`, `,`, `-` and `/`. -/
def isStandardCronField (field : List Char) (isMonth isWeekday : Bool) : Bool :=
  cronFieldLoop (utf8Bytes field) isMonth isWeekday 0

/-- `char::is_whitespace`: the Unicode property `White_Space`. -/
def isWhitespace (c : Char) : Bool :=
  let n := c.toNat
  (9 ≤ n && n ≤ 13) || n == 32 || n == 0x85 || n == 0xA0 || n == 0x1680 ||
    (0x2000 ≤ n && n ≤ 0x200A) || n == 0x2028 || n == 0x2029 || n == 0x202F || n == 0x205F ||
    n == 0x3000

/-- `str::split_whitespace`. -/
def splitWhitespace (s : List Char) : List (List Char) :=
  (s.splitOnP isWhitespace).filter (fun field => !field.isEmpty)

/-- Model of `parse_standard_cron` (lines 239–253). -/
def parseStandardCron (env : Env) (expression : String) : Option Cron :=
  let fields := splitWhitespace expression.toList
  if fields.length ≠ 5 then none
  else if fields.zipIdx.all fun (field, idx) => isStandardCronField field (idx == 3) (idx == 4) then
    env.cronParse expression
  else none

def cronDstRetryLimit : ℕ := 240

/-- The loop of `cron_next_occurrence` (lines 283–300) with `rounds` rounds left. -/
def cronSearch (env : Env) (cron : Cron) (tz : Tz) (after : DateTime) : (rounds : ℕ) →
    (anchor : DateTime) → Rust (Option DateTime)
  | 0, _ => .ok none
  | rounds + 1, anchor =>
    match env.findNextOccurrence cron tz anchor with
    | .ok candidate =>
      if candidate > after then .ok (some candidate)
      -- fold: the candidate is the first pass of a repeated local time
      else cronSearch env cron tz after rounds candidate
    | .error .InvalidTime => do
      let anchor ← addDelta anchor nanosPerHour
      cronSearch env cron tz after rounds anchor
    | .error _ => .ok none

/-- Model of `cron_next_occurrence` (lines 277–302). -/
def cronNextOccurrence (env : Env) (cron : Cron) (tz : Tz) (after : DateTime) :
    Rust (Option DateTime) :=
  cronSearch env cron tz after cronDstRetryLimit after

/-! ## `evaluate_next_occurrence` -/

/-- `pick_random_time_in_window` (lines 304–309); `draw` is the random number,
    reduced to the range `0..span`. -/
def pickRandomTimeInWindow (start end_ : NaiveTime) (draw : ℕ) : NaiveTime :=
  let span := (max (numSeconds (end_ - start)) 1).toNat
  let offset := draw % span
  timeAdd start (offset * nanosPerSec)

/-- The Interval branch (lines 83–98). -/
def evaluateInterval (intervalSecs : ℕ) (startAt : Option DateTime) (after : DateTime) :
    Rust (Option DateTime) :=
  if intervalSecs = 0 then .ok none
  else do
    let interval := asI64 intervalSecs
    let base := startAt.getD after
    if after < base then .ok (some base)
    else
      let elapsed := after - base
      let count := (numSeconds elapsed).tdiv interval + 1
      let total ← i64Mul count interval
      let delta ← deltaSeconds total
      let next ← addDelta base delta
      .ok (some next)

/-- Model of `evaluate_next_occurrence` (lines 74–177). `draws day` is the random
    number drawn when the Fuzzy branch looks at its `day`-th date. -/
def evaluateNextOccurrence (env : Env) (kind : TriggerKind) (after : DateTime) (draws : ℕ → ℕ) :
    Rust (Option DateTime) :=
  match kind with
  | .Once fireAt => .ok (if fireAt > after then some fireAt else none)
  | .Interval intervalSecs startAt => evaluateInterval intervalSecs startAt after
  | .Daily time timezone =>
    let tz := env.zone timezone
    searchDays (fun _ date => resolveCandidate tz date time after) 4 0 (dateOf (tz.toLocal after))
  | .Weekly daysOfWeek time timezone =>
    if daysOfWeek.isEmpty then .ok none
    else
      let tz := env.zone timezone
      searchDays
        (fun _ date =>
          if daysOfWeek.contains (weekday date) then resolveCandidate tz date time after
          else .ok none)
        14 0 (dateOf (tz.toLocal after))
  | .Cron expression timezone =>
    match parseStandardCron env expression with
    | none => .ok none
    | some cron => cronNextOccurrence env cron (env.zone timezone) after
  | .Network _ _ => .ok none
  | .Fuzzy period windowStart windowEnd timezone =>
    if windowEnd ≤ windowStart then .ok none
    else
      let tz := env.zone timezone
      let localAfter := tz.toLocal after
      searchDays
        (fun day date =>
          let windowNotStarted := date > dateOf localAfter ∨ windowStart > timeOf localAfter
          if period.matchesWeekday (weekday date) ∧ windowNotStarted then
            resolveCandidate tz date
              (pickRandomTimeInWindow windowStart windowEnd (draws day)) after
          else .ok none)
        14 0 (dateOf localAfter)
  | .AgentStarted => .ok none

/-! ## Results are strictly after `after` -/

theorem shiftForward_gt {tz : Tz} {after x : DateTime} :
    ∀ {rounds : ℕ} {shifted : NaiveDateTime}, shiftForward tz after rounds shifted = .ok (some x) →
      after < x
  | 0, _, h => by cases h
  | rounds + 1, shifted, h => by
    rw [shiftForward] at h
    obtain ⟨shifted', -, h⟩ := rust_bind_ok h
    split at h
    · split_ifs at h <;> cases h; assumption
    · split_ifs at h <;> cases h; assumption
    · exact shiftForward_gt h

theorem resolveCandidate_gt {tz : Tz} {date : NaiveDate} {time : NaiveTime} {after x : DateTime}
    (h : resolveCandidate tz date time after = .ok (some x)) : after < x := by
  unfold resolveCandidate at h
  split at h
  · split_ifs at h <;> cases h; assumption
  · split_ifs at h <;> cases h <;> assumption
  · exact shiftForward_gt h

theorem searchDays_gt {candidate : ℕ → NaiveDate → Rust (Option DateTime)} {after x : DateTime}
    (hc : ∀ day date x, candidate day date = .ok (some x) → after < x) :
    ∀ {rounds day : ℕ} {date : NaiveDate}, searchDays candidate rounds day date = .ok (some x) →
      after < x
  | 0, _, _, h => by cases h
  | rounds + 1, day, date, h => by
    rw [searchDays] at h
    obtain ⟨r, hr, h⟩ := rust_bind_ok h
    cases r with
    | some utc =>
      cases h
      exact hc _ _ _ hr
    | none =>
      dsimp only at h
      split at h
      · cases h
      · exact searchDays_gt hc h

theorem cronSearch_gt {env : Env} {cron : Cron} {tz : Tz} {after x : DateTime} :
    ∀ {rounds : ℕ} {anchor : DateTime}, cronSearch env cron tz after rounds anchor = .ok (some x) →
      after < x
  | 0, _, h => by cases h
  | rounds + 1, anchor, h => by
    rw [cronSearch] at h
    split at h
    · split_ifs at h with hgt
      · cases h; exact hgt
      · exact cronSearch_gt h
    · obtain ⟨anchor', -, h⟩ := rust_bind_ok h
      exact cronSearch_gt h
    · cases h

/-- The next grid point is after the elapsed time: `(⌊e/i⌋ + 1) * i` seconds
    exceed `e` nanoseconds' worth. -/
theorem interval_step_gt {elapsed interval : ℤ} (he : 0 ≤ elapsed) (hi : 0 < interval) :
    elapsed < ((numSeconds elapsed).tdiv interval + 1) * interval * nanosPerSec := by
  have hsec : numSeconds elapsed = elapsed / nanosPerSec := Int.tdiv_eq_ediv_of_nonneg he
  have hdiv : (numSeconds elapsed).tdiv interval = elapsed / nanosPerSec / interval := by
    rw [hsec]
    exact Int.tdiv_eq_ediv_of_nonneg (Int.ediv_nonneg he (by decide))
  rw [hdiv]
  have h1 : elapsed / nanosPerSec < (elapsed / nanosPerSec / interval + 1) * interval :=
    Int.lt_ediv_add_one_mul_self _ hi
  have h2 : elapsed < (elapsed / nanosPerSec + 1) * nanosPerSec :=
    Int.lt_ediv_add_one_mul_self _ (by decide)
  calc elapsed < (elapsed / nanosPerSec + 1) * nanosPerSec := h2
    _ ≤ (elapsed / nanosPerSec / interval + 1) * interval * nanosPerSec :=
      Int.mul_le_mul_of_nonneg_right (by omega) (by decide)

theorem evaluateInterval_gt {secs : ℕ} {startAt : Option DateTime} {after x : DateTime}
    (hs : secs < 2 ^ 63) (h : evaluateInterval secs startAt after = .ok (some x)) : after < x := by
  by_cases h0 : secs = 0
  · simp [evaluateInterval, h0] at h
  simp only [evaluateInterval, if_neg h0, asI64_of_lt hs] at h
  split_ifs at h with hlt
  · cases h; exact hlt
  · obtain ⟨total, ht, h⟩ := rust_bind_ok h
    obtain ⟨delta, hd, h⟩ := rust_bind_ok h
    obtain ⟨next, hn, h⟩ := rust_bind_ok h
    cases h
    rw [addDelta_ok hn, deltaSeconds_ok hd, i64Mul_ok ht]
    have helapsed : 0 ≤ after - startAt.getD after := sub_nonneg.mpr (not_lt.mp hlt)
    have hinterval : (0 : ℤ) < secs := by omega
    have hgt := interval_step_gt helapsed hinterval
    linarith

/-- An Interval trigger never runs out: the evaluation returns a time or panics. -/
theorem evaluateInterval_ne_none {secs : ℕ} (hs : secs ≠ 0) (startAt : Option DateTime)
    (after : DateTime) : evaluateInterval secs startAt after ≠ .ok none := by
  intro h
  unfold evaluateInterval at h
  rw [if_neg hs] at h
  dsimp only at h
  split_ifs at h
  · cases h
  · obtain ⟨_, -, h⟩ := rust_bind_ok h
    obtain ⟨_, -, h⟩ := rust_bind_ok h
    obtain ⟨_, -, h⟩ := rust_bind_ok h
    cases h

/-- The Interval seconds fit in an `i64`, so that the cast keeps them. -/
def FitsI64 : TriggerKind → Prop
  | .Interval intervalSecs _ => intervalSecs < 2 ^ 63
  | _ => True

instance : DecidablePred FitsI64
  | .Interval intervalSecs _ => inferInstanceAs (Decidable (intervalSecs < 2 ^ 63))
  | .Once _ | .Daily _ _ | .Weekly _ _ _ | .AgentStarted | .Cron _ _ | .Fuzzy _ _ _ _
  | .Network _ _ => isTrue trivial

/-- Every evaluation is strictly after the instant it starts from, except for an
    Interval whose seconds the cast `as i64` makes negative. -/
theorem evaluateNextOccurrence_gt {env : Env} {kind : TriggerKind} {after x : DateTime}
    {draws : ℕ → ℕ} (hk : FitsI64 kind)
    (h : evaluateNextOccurrence env kind after draws = .ok (some x)) : after < x := by
  cases kind with
  | Once fireAt =>
    rw [evaluateNextOccurrence] at h
    split_ifs at h with hgt
    · cases h; exact hgt
    · cases h
  | Interval secs startAt => exact evaluateInterval_gt hk h
  | Daily time timezone => exact searchDays_gt (fun _ _ _ h => resolveCandidate_gt h) h
  | Weekly days time timezone =>
    rw [evaluateNextOccurrence] at h
    split_ifs at h
    · cases h
    · refine searchDays_gt (fun day date x h => ?_) h
      split_ifs at h
      · exact resolveCandidate_gt h
      · cases h
  | Cron expression timezone =>
    rw [evaluateNextOccurrence] at h
    split at h
    · cases h
    · exact cronSearch_gt h
  | Fuzzy period ws we timezone =>
    rw [evaluateNextOccurrence] at h
    split_ifs at h
    · cases h
    · refine searchDays_gt (fun day date x h => ?_) h
      dsimp only at h
      split_ifs at h
      · exact resolveCandidate_gt h
      · cases h
  | Network _ _ => cases h
  | AgentStarted => cases h

end EasyJob.Scheduler
