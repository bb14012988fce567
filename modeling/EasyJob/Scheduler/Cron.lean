import EasyJob.Scheduler.Evaluator
import Mathlib.Data.Int.LeastGreatest

/-!
# When a cron trigger stops

The scheduler does not enqueue a trigger again whose evaluation gives nothing, so
`cron_next_occurrence` must find a time as long as there is one. Its search looks
at one anchor after the other: it goes on to the candidate if that is not after
`after` (a local time that is repeated), and by one hour if the next matching
minute cannot be placed (a gap). After 240 anchors it gives up.

`croner` enters by its documented behaviour, `CronerSpec`. By the comments of the program it
places no minute of a gap; `croner` 2.2.0 goes on to the end of the gap if that is at most an
hour ahead. How far it goes on is a parameter, `reach`.

* `cronSearch_some_iff`: the search finds a time exactly if the next matching minute of
  one of its anchors is placed after `after`.
* `Cron.IsUnpassed.search`: it comes past the repeated local times of a fold.
* `cron_keeps_alive_iff`: when a trigger is kept alive as long as a matching
  minute comes.
* `cron_stops`: a gap that is ten days ahead ends a trigger that has a matching
  minute one year later.
-/

namespace EasyJob.Scheduler

open EasyJob.Chrono EasyJob.Domain

/-! ## The behaviour of `croner` -/

/-- `m` is the first minute after the local time `t` that the pattern matches. -/
structure Cron.IsNext (cron : Cron) (t : NaiveDateTime) (m : ℤ) : Prop where
  matching : cron.isTimeMatching m = true
  after : t < m * nanosPerMinute
  least : ∀ m', cron.isTimeMatching m' = true → t < m' * nanosPerMinute → m ≤ m'

/-- The earlier instant of a local minute, if it exists. -/
def firstPass (tz : Tz) (m : ℤ) : Option DateTime :=
  match tz.fromLocal (m * nanosPerMinute) with
  | .none => none
  | .single u => some u
  | .ambiguous earliest _ => some earliest

/-- `croner` places the local minute `m` at `u`: at the first local time from `m` on, at most
    `reach` later, that is shown, when it is shown first. -/
structure Resolves (reach : ℕ) (tz : Tz) (m : ℤ) (u : DateTime) : Prop where
  low : m * nanosPerMinute ≤ tz.toLocal u
  high : tz.toLocal u ≤ m * nanosPerMinute + reach
  skipped : ∀ v, m * nanosPerMinute ≤ tz.toLocal v → tz.toLocal u ≤ tz.toLocal v
  first : ∀ v, tz.toLocal v = tz.toLocal u → u ≤ v

/-- How far `croner` 2.2.0 looks on: 3600 seconds. -/
def cronerReach : ℕ := 3600000000000

/-- `find_next_occurrence(&anchor, false)` takes the first matching minute after the anchor's
    local time: the result is where it places that minute, `InvalidTime` if it cannot, and
    another error if no minute matches. -/
structure CronerSpec (env : Env) (reach : ℕ) : Prop where
  found : ∀ cron tz anchor m u, cron.IsNext (tz.toLocal anchor) m → Resolves reach tz m u →
    env.findNextOccurrence cron tz anchor = .ok u
  gap : ∀ cron tz anchor m, cron.IsNext (tz.toLocal anchor) m → (∀ u, ¬Resolves reach tz m u) →
    env.findNextOccurrence cron tz anchor = .error .InvalidTime
  notFound : ∀ cron tz anchor, (∀ m, ¬cron.IsNext (tz.toLocal anchor) m) →
    ∃ e, e ≠ .InvalidTime ∧ env.findNextOccurrence cron tz anchor = .error e

theorem Cron.IsNext.unique {cron : Cron} {t : NaiveDateTime} {m m' : ℤ} (h : cron.IsNext t m)
    (h' : cron.IsNext t m') : m = m' :=
  le_antisymm (h.least m' h'.matching h'.after) (h'.least m h.matching h.after)

/-- If some minute matches after `t`, there is a first one. -/
theorem Cron.exists_isNext {cron : Cron} {t : NaiveDateTime} {m : ℤ}
    (hm : cron.isTimeMatching m = true) (ht : t < m * nanosPerMinute) :
    ∃ m', cron.IsNext t m' := by
  have hbound : ∀ m', cron.isTimeMatching m' = true ∧ t < m' * nanosPerMinute →
      t / nanosPerMinute ≤ m' := by
    rintro m' ⟨-, hlt⟩
    exact Int.ediv_le_of_le_mul (by decide) (le_of_lt hlt)
  obtain ⟨m', ⟨hmatching, hafter⟩, hleast⟩ :=
    Int.exists_least_of_bdd ⟨_, hbound⟩ ⟨m, hm, ht⟩
  exact ⟨m', hmatching, hafter, fun m'' h h' => hleast m'' ⟨h, h'⟩⟩

/-- The next match stays the next one until it is reached. -/
theorem Cron.IsNext.mono {cron : Cron} {t t' : NaiveDateTime} {m : ℤ} (h : cron.IsNext t m)
    (hle : t ≤ t') (hlt : t' < m * nanosPerMinute) : cron.IsNext t' m :=
  ⟨h.matching, hlt, fun m' hm' ht' => h.least m' hm' (lt_of_le_of_lt hle ht')⟩

/-- The next match after a whole minute. -/
theorem Cron.isNext_minute {cron : Cron} {k m : ℤ} (hmatch : cron.isTimeMatching m = true)
    (hlt : k < m) (hleast : ∀ m', cron.isTimeMatching m' = true → k < m' → m ≤ m') :
    cron.IsNext (k * nanosPerMinute) m := by
  refine ⟨hmatch, Int.mul_lt_mul_of_pos_right hlt (by decide), fun m' hm' hlt' => ?_⟩
  exact hleast m' hm' (lt_of_mul_lt_mul_right hlt' (by decide))

theorem firstPass_eq_min? (tz : Tz) (m : ℤ) :
    firstPass tz m = (tz.instants (m * nanosPerMinute)).min? := by
  rw [firstPass, Tz.fromLocal]
  cases hmin : (tz.instants (m * nanosPerMinute)).min? with
  | none => rfl
  | some earliest =>
    have hne : tz.instants (m * nanosPerMinute) ≠ [] := by
      intro hnil
      rw [hnil] at hmin
      cases hmin
    rw [List.max?_eq_some_max hne]
    dsimp only
    split_ifs <;> rfl

/-- The first pass shows the local minute. -/
theorem firstPass_toLocal {tz : Tz} {m : ℤ} {u : DateTime} (h : firstPass tz m = some u) :
    tz.toLocal u = m * nanosPerMinute := by
  rw [firstPass_eq_min?] at h
  exact Tz.mem_instants.mp (List.min?_mem h)

/-- Without a first pass, the local minute does not exist. -/
theorem firstPass_eq_none {tz : Tz} {m : ℤ} :
    firstPass tz m = none ↔ ∀ u, tz.toLocal u ≠ m * nanosPerMinute := by
  rw [firstPass_eq_min?, List.min?_eq_none_iff, List.eq_nil_iff_forall_not_mem]
  simp only [Tz.mem_instants, ne_eq]

theorem firstPass_le {tz : Tz} {m : ℤ} {u w : DateTime} (h : firstPass tz m = some u)
    (hw : tz.toLocal w = m * nanosPerMinute) : u ≤ w := by
  rw [firstPass_eq_min?, List.min?_eq_some_iff] at h
  exact h.2 w (Tz.mem_instants.mpr hw)

namespace Resolves

variable {reach : ℕ} {tz : Tz} {m m' : ℤ} {u u' : DateTime}

/-- A minute that exists is placed at its first pass. -/
theorem of_firstPass (h : firstPass tz m = some u) : Resolves reach tz m u := by
  have hlocal := firstPass_toLocal h
  refine ⟨le_of_eq hlocal.symm, ?_, ?_, ?_⟩
  · rw [hlocal]
    exact Int.le_add_of_nonneg_right (Int.natCast_nonneg reach)
  · intro v hv
    rwa [hlocal]
  · intro v hv
    exact firstPass_le h (hv.trans hlocal)

theorem unique (h : Resolves reach tz m u) (h' : Resolves reach tz m u') : u = u' := by
  have hlocal : tz.toLocal u = tz.toLocal u' :=
    le_antisymm (h.skipped u' h'.low) (h'.skipped u h.low)
  exact le_antisymm (h.first u' hlocal.symm) (h'.first u hlocal)

/-- The minutes up to where a minute is placed are placed there. -/
theorem of_between (h : Resolves reach tz m u) (hle : m ≤ m')
    (hplaced : m' * nanosPerMinute ≤ tz.toLocal u) : Resolves reach tz m' u := by
  have hminute : m * nanosPerMinute ≤ m' * nanosPerMinute :=
    Int.mul_le_mul_of_nonneg_right hle (by decide)
  exact ⟨hplaced, le_trans h.high (Int.add_le_add_right hminute _),
    fun v hv => h.skipped v (le_trans hminute hv), h.first⟩

/-- Where the minute itself is shown, it is placed at its first pass. -/
theorem eq_firstPass (h : Resolves reach tz m u) (hexists : firstPass tz m ≠ none) :
    firstPass tz m = some u := by
  obtain ⟨w, hw⟩ := Option.ne_none_iff_exists'.mp hexists
  rw [h.unique (.of_firstPass hw), hw]

/-- Without any reach, this is the assumption of the comments: only a minute that is shown is
    placed. -/
theorem zero_iff : Resolves 0 tz m u ↔ firstPass tz m = some u := by
  refine ⟨fun h => h.eq_firstPass ?_, of_firstPass⟩
  rw [ne_eq, firstPass_eq_none, not_forall]
  refine ⟨u, not_not.mpr (le_antisymm ?_ h.low)⟩
  simpa using h.high

end Resolves

/-! ## The anchors of the search -/

section Search

variable (reach : ℕ) (cron : Cron) (tz : Tz) (after : DateTime)

/-- The next match from the anchor is placed at `x`, after `after`. -/
def Finds (anchor x : DateTime) : Prop :=
  ∃ m, cron.IsNext (tz.toLocal anchor) m ∧ Resolves reach tz m x ∧ after < x

/-- The next match from the anchor is placed at `c`, not after `after`. -/
def Repeats (anchor c : DateTime) : Prop :=
  ∃ m, cron.IsNext (tz.toLocal anchor) m ∧ Resolves reach tz m c ∧ c ≤ after

/-- The next match from the anchor falls in a gap in which it cannot be placed. -/
def Skips (anchor : DateTime) : Prop :=
  ∃ m, cron.IsNext (tz.toLocal anchor) m ∧ ∀ u, ¬Resolves reach tz m u

/-- The search goes from one anchor to another in `n` moves: to where a repeated match is
    placed, or one hour on before a gap. -/
inductive Moves : ℕ → DateTime → DateTime → Prop
  | refl (anchor : DateTime) : Moves 0 anchor anchor
  | repeated {n : ℕ} {anchor c last : DateTime} :
      Repeats reach cron tz after anchor c → Moves n c last → Moves (n + 1) anchor last
  | skipped {n : ℕ} {anchor last next : DateTime} :
      Skips reach cron tz anchor → addDelta anchor nanosPerHour = .ok next → Moves n next last →
      Moves (n + 1) anchor last

end Search

variable {env : Env} {reach : ℕ} {cron : Cron} {tz : Tz} {after : DateTime}

/-- What one round of the search does. -/
theorem cronSearch_succ (hcroner : CronerSpec env reach) {rounds : ℕ} {anchor x : DateTime} :
    cronSearch env cron tz after (rounds + 1) anchor = .ok (some x) ↔
      Finds reach cron tz after anchor x ∨
      (∃ c, Repeats reach cron tz after anchor c ∧
        cronSearch env cron tz after rounds c = .ok (some x)) ∨
      ∃ next, Skips reach cron tz anchor ∧ addDelta anchor nanosPerHour = .ok next ∧
        cronSearch env cron tz after rounds next = .ok (some x) := by
  by_cases hnext : ∃ m, cron.IsNext (tz.toLocal anchor) m
  · obtain ⟨m, hm⟩ := hnext
    -- it is the only next match
    have honly : ∀ {p : ℤ → Prop}, (∃ m', cron.IsNext (tz.toLocal anchor) m' ∧ p m') ↔ p m := by
      intro p
      constructor
      · rintro ⟨m', hm', hp⟩
        exact hm'.unique hm ▸ hp
      · intro hp
        exact ⟨m, hm, hp⟩
    simp only [Finds, Repeats, Skips, honly]
    by_cases hplaced : ∃ u, Resolves reach tz m u
    · obtain ⟨u, hu⟩ := hplaced
      have hno : ¬∀ u, ¬Resolves reach tz m u := fun h => h u hu
      rw [cronSearch, hcroner.found cron tz anchor m u hm hu]
      dsimp only
      split_ifs with hgt
      · simp only [Except.ok.injEq, Option.some.injEq]
        constructor
        · rintro rfl
          exact .inl ⟨hu, hgt⟩
        · rintro (⟨hx, -⟩ | ⟨c, ⟨hc, hle⟩, -⟩ | ⟨_, hnone, -⟩)
          · exact hu.unique hx
          · exact absurd (hu.unique hc ▸ hle) (not_le.mpr hgt)
          · exact absurd hnone hno
      · constructor
        · intro h
          exact .inr (.inl ⟨u, ⟨hu, not_lt.mp hgt⟩, h⟩)
        · rintro (⟨hx, hlt⟩ | ⟨c, ⟨hc, -⟩, h⟩ | ⟨_, hnone, -⟩)
          · exact absurd (hu.unique hx ▸ hlt) hgt
          · exact hu.unique hc ▸ h
          · exact absurd hnone hno
    · have hnone : ∀ u, ¬Resolves reach tz m u := not_exists.mp hplaced
      rw [cronSearch, hcroner.gap cron tz anchor m hm hnone]
      constructor
      · intro h
        obtain ⟨next, hadd, h⟩ := rust_bind_ok h
        exact .inr (.inr ⟨next, hnone, hadd, h⟩)
      · rintro (⟨hx, -⟩ | ⟨c, ⟨hc, -⟩, -⟩ | ⟨next, -, hadd, h⟩)
        · exact absurd hx (hnone x)
        · exact absurd hc (hnone c)
        · dsimp only
          rw [hadd]
          exact h
  · rw [not_exists] at hnext
    obtain ⟨e, hne, herr⟩ := hcroner.notFound cron tz anchor hnext
    rw [cronSearch, herr]
    constructor
    · intro h
      cases e with
      | InvalidTime => exact absurd rfl hne
      | _ => cases h
    · rintro (⟨m, hm, -⟩ | ⟨c, ⟨m, hm, -⟩, -⟩ | ⟨next, ⟨m, hm, -⟩, -⟩)
      · exact absurd hm (hnext m)
      · exact absurd hm (hnext m)
      · exact absurd hm (hnext m)

/-- The search finds a time exactly if some anchor within its rounds finds it. -/
theorem cronSearch_some_iff (hcroner : CronerSpec env reach) {rounds : ℕ} {anchor x : DateTime} :
    cronSearch env cron tz after rounds anchor = .ok (some x) ↔
      ∃ n < rounds, ∃ last, Moves reach cron tz after n anchor last ∧
        Finds reach cron tz after last x := by
  induction rounds generalizing anchor with
  | zero => simp [cronSearch]
  | succ rounds ih =>
    rw [cronSearch_succ hcroner]
    simp only [ih]
    constructor
    · rintro (hfinds | ⟨c, hrepeats, n, hn, last, hmoves, hfinds⟩ |
        ⟨next, hskips, hnext, n, hn, last, hmoves, hfinds⟩)
      · exact ⟨0, Nat.succ_pos rounds, anchor, .refl anchor, hfinds⟩
      · exact ⟨n + 1, by omega, last, .repeated hrepeats hmoves, hfinds⟩
      · exact ⟨n + 1, by omega, last, .skipped hskips hnext hmoves, hfinds⟩
    · rintro ⟨n, hn, last, hmoves, hfinds⟩
      cases hmoves with
      | refl => exact .inl hfinds
      | repeated hrepeats hmoves =>
        exact .inr (.inl ⟨_, hrepeats, _, by omega, last, hmoves, hfinds⟩)
      | skipped hskips hnext hmoves =>
        exact .inr (.inr ⟨_, hskips, hnext, _, by omega, last, hmoves, hfinds⟩)

/-! ## Repeated local times -/

/-- `m` is the first match after the local time of `after` that has not passed by then:
    the matches before it are placed not after `after`, in a local time that `after`
    repeats. -/
structure Cron.IsUnpassed (reach : ℕ) (cron : Cron) (tz : Tz) (after : DateTime) (m : ℤ) :
    Prop where
  matching : cron.isTimeMatching m = true
  later : tz.toLocal after < m * nanosPerMinute
  ahead : ∀ u, Resolves reach tz m u → after < u
  passed : ∀ m' < m, cron.isTimeMatching m' = true → tz.toLocal after < m' * nanosPerMinute →
    ∃ u ≤ after, Resolves reach tz m' u

/-- The local time of `after` has not gone back by more than two hours. -/
def RepeatsTwoHours (tz : Tz) (after : DateTime) : Prop :=
  ∀ u ≤ after, tz.toLocal u ≤ tz.toLocal after + 2 * nanosPerHour

/-- The search goes from one passed match to the next. If all of them lie within `k`
    minutes of the anchor's local time, it comes past them in at most `k` moves. -/
theorem moves_past {m : ℤ} (hmatch : cron.isTimeMatching m = true) {k : ℕ} {anchor : DateTime}
    (hlater : tz.toLocal anchor < m * nanosPerMinute)
    (hpassed : ∀ m' < m, cron.isTimeMatching m' = true →
      tz.toLocal anchor < m' * nanosPerMinute →
      m' ≤ tz.toLocal anchor / nanosPerMinute + k ∧
        ∃ u ≤ after, Resolves reach tz m' u ∧ tz.toLocal u < m * nanosPerMinute) :
    ∃ n ≤ k, ∃ last, Moves reach cron tz after n anchor last ∧
      cron.IsNext (tz.toLocal last) m := by
  have hminute : 0 < nanosPerMinute := by decide
  induction k generalizing anchor with
  | zero =>
    obtain ⟨m₁, hm₁⟩ := Cron.exists_isNext hmatch hlater
    rcases lt_or_eq_of_le (hm₁.least m hmatch hlater) with hlt | rfl
    · obtain ⟨hle, -⟩ := hpassed m₁ hlt hm₁.matching hm₁.after
      have hge := Int.ediv_lt_of_lt_mul hminute hm₁.after
      omega
    · exact ⟨0, le_rfl, anchor, .refl anchor, hm₁⟩
  | succ k ih =>
    obtain ⟨m₁, hm₁⟩ := Cron.exists_isNext hmatch hlater
    rcases lt_or_eq_of_le (hm₁.least m hmatch hlater) with hlt | rfl
    · obtain ⟨-, u, hu, hplaced, hlater'⟩ := hpassed m₁ hlt hm₁.matching hm₁.after
      have hge := Int.ediv_lt_of_lt_mul hminute hm₁.after
      have hquot : m₁ ≤ tz.toLocal u / nanosPerMinute :=
        (Int.le_ediv_iff_mul_le hminute).mpr hplaced.low
      have hpassed' : ∀ m' < m, cron.isTimeMatching m' = true →
          tz.toLocal u < m' * nanosPerMinute →
          m' ≤ tz.toLocal u / nanosPerMinute + k ∧
            ∃ u ≤ after, Resolves reach tz m' u ∧ tz.toLocal u < m * nanosPerMinute := by
        intro m' hm' hmatch' ht'
        have hstart := lt_of_lt_of_le hm₁.after hplaced.low
        obtain ⟨hle, hex⟩ := hpassed m' hm' hmatch' (lt_trans hstart ht')
        refine ⟨?_, hex⟩
        push_cast at hle
        omega
      obtain ⟨n, hn, last, hmoves, hnext⟩ := ih hlater' hpassed'
      exact ⟨n + 1, by omega, last, .repeated ⟨m₁, hm₁, hplaced, hu⟩ hmoves, hnext⟩
    · exact ⟨0, Nat.zero_le _, anchor, .refl anchor, hm₁⟩

/-- Where local time has not gone back by more than two hours, the search comes past the
    matches that have passed. -/
theorem moves_past_repeated (hback : RepeatsTwoHours tz after) {m : ℤ}
    (hmatch : cron.isTimeMatching m = true) (hlater : tz.toLocal after < m * nanosPerMinute)
    (hpassed : ∀ m' < m, cron.isTimeMatching m' = true →
      tz.toLocal after < m' * nanosPerMinute →
      ∃ u ≤ after, Resolves reach tz m' u ∧ tz.toLocal u < m * nanosPerMinute) :
    ∃ n < cronDstRetryLimit, ∃ last, Moves reach cron tz after n after last ∧
      cron.IsNext (tz.toLocal last) m := by
  have hpassed' : ∀ m' < m, cron.isTimeMatching m' = true →
      tz.toLocal after < m' * nanosPerMinute →
      m' ≤ tz.toLocal after / nanosPerMinute + (120 : ℕ) ∧
        ∃ u ≤ after, Resolves reach tz m' u ∧ tz.toLocal u < m * nanosPerMinute := by
    intro m' hm' hmatch ht
    obtain ⟨u, hu, hplaced, hbefore⟩ := hpassed m' hm' hmatch ht
    refine ⟨?_, u, hu, hplaced, hbefore⟩
    -- two hours are 120 minutes
    have hle := le_trans hplaced.low (hback u hu)
    have hquot := Int.ediv_le_ediv (by decide : 0 < nanosPerMinute) hle
    have hhours : 2 * nanosPerHour = 120 * nanosPerMinute := by decide
    rw [hhours, Int.mul_ediv_cancel m' (by decide), Int.add_mul_ediv_right _ _ (by decide)] at hquot
    exact hquot
  obtain ⟨n, hn, hmoves⟩ := moves_past hmatch hlater hpassed'
  have hlimit : 120 < cronDstRetryLimit := by decide
  exact ⟨n, by omega, hmoves⟩

/-- Where local time has not gone back by more than two hours, the search finds the
    first match that has not passed, if it can be placed. -/
theorem Cron.IsUnpassed.search {m : ℤ} (h : cron.IsUnpassed reach tz after m)
    (hback : RepeatsTwoHours tz after) {x : DateTime} (hx : Resolves reach tz m x) :
    ∃ n < cronDstRetryLimit, ∃ last, Moves reach cron tz after n after last ∧
      Finds reach cron tz after last x := by
  have hpassed : ∀ m' < m, cron.isTimeMatching m' = true →
      tz.toLocal after < m' * nanosPerMinute →
      ∃ u ≤ after, Resolves reach tz m' u ∧ tz.toLocal u < m * nanosPerMinute := by
    intro m' hm' hmatch ht
    obtain ⟨u, hu, hplaced⟩ := h.passed m' hm' hmatch ht
    refine ⟨u, hu, hplaced, ?_⟩
    by_contra hle
    -- otherwise `m` would have passed together with `m'`
    have hsame := hplaced.of_between (le_of_lt hm') (not_lt.mp hle)
    exact absurd (h.ahead u hsame) (not_lt.mpr hu)
  obtain ⟨n, hn, last, hmoves, hnext⟩ :=
    moves_past_repeated hback h.matching h.later hpassed
  exact ⟨n, hn, last, hmoves, m, hnext, hx, h.ahead x hx⟩

/-! ## Hour by hour -/

/-- The instant `i` hours after `after`. -/
def hoursAfter (after : DateTime) (i : ℕ) : DateTime := after + i * nanosPerHour

/-- No instant up to `after` reads a later local time, the local time does not go
    back from one hour to the next while the search goes on, and it stays in the
    range of `chrono`. -/
structure ReadsForward (tz : Tz) (after : DateTime) : Prop where
  past : ∀ u ≤ after, tz.toLocal u ≤ tz.toLocal after
  hourly : ∀ i j, i ≤ j → j < cronDstRetryLimit →
    tz.toLocal (hoursAfter after i) ≤ tz.toLocal (hoursAfter after j)
  range : minUtc ≤ after ∧ hoursAfter after cronDstRetryLimit ≤ maxUtc

theorem hoursAfter_zero (after : DateTime) : hoursAfter after 0 = after := by
  simp [hoursAfter]

theorem hoursAfter_succ (after : DateTime) (i : ℕ) :
    hoursAfter after (i + 1) = hoursAfter after i + nanosPerHour := by
  rw [hoursAfter, hoursAfter]
  push_cast
  rw [Int.add_mul, one_mul, add_assoc]

theorem hoursAfter_mono (after : DateTime) {i j : ℕ} (h : i ≤ j) :
    hoursAfter after i ≤ hoursAfter after j := by
  induction h with
  | refl => exact le_rfl
  | step _ ih =>
    rw [hoursAfter_succ]
    exact le_trans ih (Int.le_add_of_nonneg_right (by decide))

theorem le_hoursAfter (after : DateTime) (i : ℕ) : after ≤ hoursAfter after i := by
  have h := hoursAfter_mono after (Nat.zero_le i)
  rwa [hoursAfter_zero] at h

namespace ReadsForward

variable (hf : ReadsForward tz after) {i j n : ℕ} {last : DateTime}
include hf

theorem toLocal_le (hi : i < cronDstRetryLimit) :
    tz.toLocal after ≤ tz.toLocal (hoursAfter after i) := by
  have h := hf.hourly 0 i (Nat.zero_le i) hi
  rwa [hoursAfter_zero] at h

theorem addHour (hi : i < cronDstRetryLimit) :
    addDelta (hoursAfter after i) nanosPerHour = .ok (hoursAfter after (i + 1)) := by
  have hlow : minUtc ≤ hoursAfter after (i + 1) := le_trans hf.range.1 (le_hoursAfter after (i + 1))
  have hhigh : hoursAfter after (i + 1) ≤ maxUtc :=
    le_trans (hoursAfter_mono after hi) hf.range.2
  rw [hoursAfter_succ] at hlow hhigh ⊢
  rw [addDelta, if_pos ⟨hlow, hhigh⟩]

/-- A later minute is placed after `after`. -/
theorem lt_resolves (hi : i < cronDstRetryLimit) {m : ℤ}
    (hm : cron.IsNext (tz.toLocal (hoursAfter after i)) m) {u : DateTime}
    (hu : Resolves reach tz m u) : after < u := by
  by_contra hle
  have hpast := le_trans hu.low (hf.past u (not_lt.mp hle))
  exact absurd (lt_of_le_of_lt (hf.toLocal_le hi) hm.after) (not_lt.mpr hpast)

/-- All moves are by one hour. -/
theorem last_eq (hmoves : Moves reach cron tz after n (hoursAfter after i) last)
    (hn : i + n < cronDstRetryLimit) : last = hoursAfter after (i + n) := by
  induction n generalizing i with
  | zero =>
    cases hmoves
    rfl
  | succ n ih =>
    cases hmoves with
    | repeated hrepeats _ =>
      obtain ⟨m, hm, hplaced, hle⟩ := hrepeats
      exact absurd (hf.lt_resolves (by omega) hm hplaced) (not_lt.mpr hle)
    | skipped _ hnext hmoves =>
      rw [hf.addHour (by omega)] at hnext
      cases hnext
      have hcount : i + 1 + n = i + (n + 1) := by omega
      rw [ih hmoves (by omega), hcount]

theorem moves_of_skips
    (hskips : ∀ k, i ≤ k → k < i + n → Skips reach cron tz (hoursAfter after k))
    (hn : i + n < cronDstRetryLimit) :
    Moves reach cron tz after n (hoursAfter after i) (hoursAfter after (i + n)) := by
  induction n generalizing i with
  | zero => exact .refl _
  | succ n ih =>
    have hcount : i + (n + 1) = i + 1 + n := by omega
    rw [hcount]
    refine .skipped (hskips i le_rfl (by omega)) (hf.addHour (by omega)) ?_
    exact ih (fun k hk hk' => hskips k (by omega) (by omega)) (by omega)

/-- The search finds a time exactly if at one of its hours the next matching minute can be
    placed. -/
theorem finds_iff :
    (∃ n < cronDstRetryLimit, ∃ last x,
        Moves reach cron tz after n after last ∧ Finds reach cron tz after last x) ↔
      ∃ j < cronDstRetryLimit, ∃ m u,
        cron.IsNext (tz.toLocal (hoursAfter after j)) m ∧ Resolves reach tz m u := by
  constructor
  · rintro ⟨n, hn, last, x, hmoves, m, hm, hplaced, -⟩
    have hstart : Moves reach cron tz after n (hoursAfter after 0) last := by
      rw [hoursAfter_zero]
      exact hmoves
    have hlast := hf.last_eq hstart (by omega)
    rw [Nat.zero_add] at hlast
    exact ⟨n, hn, m, x, hlast ▸ hm, hplaced⟩
  · intro hex
    -- the first such hour
    classical
    obtain ⟨hj, m, u, hm, hu⟩ := Nat.find_spec hex
    generalize hfind : Nat.find hex = j at *
    have hskips : ∀ k, 0 ≤ k → k < 0 + j → Skips reach cron tz (hoursAfter after k) := by
      intro k _ hk
      rw [Nat.zero_add] at hk
      have hlt := lt_of_le_of_lt (hf.hourly k j (le_of_lt hk) hj) hm.after
      obtain ⟨m', hm'⟩ := Cron.exists_isNext hm.matching hlt
      refine ⟨m', hm', ?_⟩
      intro u' hu'
      exact Nat.find_min hex (hfind ▸ hk) ⟨by omega, m', u', hm', hu'⟩
    have hmoves := hf.moves_of_skips hskips (by omega)
    rw [hoursAfter_zero, Nat.zero_add] at hmoves
    exact ⟨j, hj, _, u, hmoves, m, hm, hu, hf.lt_resolves hj hm hu⟩

end ReadsForward

/-! ## A gap ahead -/

/-- The clocks are set back only to local times that they have shown. -/
def FoldsRepeat (tz : Tz) : Prop :=
  ∀ u v, v ≤ u → tz.toLocal u ≤ tz.toLocal v → ∃ w ≤ v, tz.toLocal w = tz.toLocal u

/-- In `n` moves, the search goes on by at most `n` hours. -/
theorem Moves.last_le {n i : ℕ} {anchor last : DateTime}
    (h : Moves reach cron tz after n anchor last) (hanchor : anchor ≤ hoursAfter after i) :
    last ≤ hoursAfter after (i + n) := by
  induction h generalizing i with
  | refl => exact hanchor
  | @repeated n anchor c last hrepeats _ ih =>
    obtain ⟨-, -, -, hc⟩ := hrepeats
    have hcount : i + (n + 1) = i + 1 + n := by omega
    rw [hcount]
    exact ih (le_trans hc (le_hoursAfter after (i + 1)))
  | @skipped n anchor last next _ hadd _ ih =>
    have hnext : next ≤ hoursAfter after (i + 1) := by
      rw [addDelta_ok hadd, hoursAfter_succ]
      exact Int.add_le_add_right hanchor _
    have hcount : i + (n + 1) = i + 1 + n := by omega
    rw [hcount]
    exact ih hnext

/-- If the first match that has not passed cannot be placed and is ahead of all the hours that
    the search comes to, it finds nothing. -/
theorem cronNextOccurrence_gap_ahead (hcroner : CronerSpec env reach) (hfold : FoldsRepeat tz)
    {m : ℤ} (hm : cron.IsUnpassed reach tz after m) (hgap : ∀ u, ¬Resolves reach tz m u)
    (hahead : ∀ i < cronDstRetryLimit, ∀ v ≤ hoursAfter after i,
      tz.toLocal v < m * nanosPerMinute)
    (x : DateTime) : cronNextOccurrence env cron tz after ≠ .ok (some x) := by
  intro hsome
  obtain ⟨n, hn, last, hmoves, m', hm', hplaced, hx⟩ := (cronSearch_some_iff hcroner).mp hsome
  have hlast : last ≤ hoursAfter after n := by
    have h := hmoves.last_le (le_hoursAfter after 0)
    rwa [Nat.zero_add] at h
  rcases lt_or_eq_of_le (hm'.least m hm.matching (hahead n hn last hlast)) with hlt | rfl
  · rcases lt_or_ge (tz.toLocal after) (m' * nanosPerMinute) with hlater | hearlier
    · -- `m'` has passed
      obtain ⟨u, hu, hplaced'⟩ := hm.passed m' hlt hm'.matching hlater
      exact absurd hx (not_lt.mpr (hplaced.unique hplaced' ▸ hu))
    · -- the local time of `x` has been shown by `after`
      obtain ⟨w, hw, hlocal⟩ := hfold x after (le_of_lt hx) (hplaced.skipped after hearlier)
      exact absurd hx (not_lt.mpr (le_trans (hplaced.first w hlocal) hw))
  · exact hgap x hplaced

/-! ## Triggers that stay alive -/

/-- The local minute of the instant matches. -/
def Cron.MatchesAt (cron : Cron) (tz : Tz) (u : DateTime) : Prop :=
  ∃ m, cron.isTimeMatching m = true ∧ tz.toLocal u = m * nanosPerMinute

/-- If a matching minute comes after `after`, the evaluation gives a time. -/
def KeepsAlive (env : Env) (cron : Cron) (tz : Tz) (after : DateTime) : Prop :=
  (∃ u, after < u ∧ cron.MatchesAt tz u) →
    ∃ x, cronNextOccurrence env cron tz after = .ok (some x)

/-- New York from 2025-11-02 to 2027-03-14: daylight saving time starts on
    2026-03-08, when the local times from 02:00 to 03:00 are skipped, and ends on
    2026-11-01, when those from 01:00 to 02:00 are repeated. -/
def newYork : Tz where
  first := -5 * nanosPerHour
  rest := [(20520 * nanosPerDay + 7 * nanosPerHour, -4 * nanosPerHour),
    (20758 * nanosPerDay + 6 * nanosPerHour, -5 * nanosPerHour)]
  sorted := by decide

theorem newYork_winter {u : DateTime} (h : u < 20520 * nanosPerDay + 7 * nanosPerHour) :
    newYork.toLocal u = u - 5 * nanosPerHour := by
  have hfall : u < 20758 * nanosPerDay + 6 * nanosPerHour := lt_trans h (by decide)
  simp [Tz.toLocal, Tz.offsetAt, newYork, not_le.mpr h, not_le.mpr hfall]
  rfl

theorem newYork_summer {u : DateTime} (h : 20520 * nanosPerDay + 7 * nanosPerHour ≤ u)
    (hfall : u < 20758 * nanosPerDay + 6 * nanosPerHour) :
    newYork.toLocal u = u - 4 * nanosPerHour := by
  simp [Tz.toLocal, Tz.offsetAt, newYork, h, not_le.mpr hfall]
  rfl

theorem newYork_fall {u : DateTime} (h : 20758 * nanosPerDay + 6 * nanosPerHour ≤ u) :
    newYork.toLocal u = u - 5 * nanosPerHour := by
  have hspring : 20520 * nanosPerDay + 7 * nanosPerHour ≤ u := le_trans (by decide) h
  simp [Tz.toLocal, Tz.offsetAt, newYork, h, hspring]
  rfl

theorem newYork_bounds (u : DateTime) :
    u - 5 * nanosPerHour ≤ newYork.toLocal u ∧ newYork.toLocal u ≤ u - 4 * nanosPerHour := by
  have hhour : 0 < nanosPerHour := by decide
  rcases lt_or_ge u (20520 * nanosPerDay + 7 * nanosPerHour) with hwinter | hspring
  · rw [newYork_winter hwinter]
    constructor <;> linarith
  · rcases lt_or_ge u (20758 * nanosPerDay + 6 * nanosPerHour) with hsummer | hfall
    · rw [newYork_summer hspring hsummer]
      constructor <;> linarith
    · rw [newYork_fall hfall]
      constructor <;> linarith

/-- Up to the fold, the clocks are not set back. -/
theorem newYork_lt {u v : DateTime} (h : u < v) (hv : v < 20758 * nanosPerDay + 6 * nanosPerHour) :
    newYork.toLocal u < newYork.toLocal v := by
  rcases lt_or_ge u (20520 * nanosPerDay + 7 * nanosPerHour) with hu | hu
  · rw [newYork_winter hu]
    linarith [(newYork_bounds v).1]
  · rw [newYork_summer (le_trans hu (le_of_lt h)) hv]
    linarith [(newYork_bounds u).2]

/-- The clocks are set back by an hour only. -/
theorem newYork_repeatsTwoHours (after : DateTime) : RepeatsTwoHours newYork after := by
  intro u hu
  have hhour : 0 < nanosPerHour := by decide
  linarith [(newYork_bounds u).2, (newYork_bounds after).1]

/-- `*/15 1 * * *`. -/
def quartersOfOne : Cron := ⟨fun m => m % 1440 / 60 == 1 && m % 15 == 0⟩

open Classical in
/-- The documented behaviour, as a function. -/
noncomputable def documentedCroner (reach : ℕ) (cron : Cron) (tz : Tz) (anchor : DateTime) :
    Except CronError DateTime :=
  if h : ∃ u m, cron.IsNext (tz.toLocal anchor) m ∧ Resolves reach tz m u then .ok h.choose
  else if ∃ m, cron.IsNext (tz.toLocal anchor) m then .error .InvalidTime
  else .error .TimeSearchLimitExceeded

/-- One time zone and one expression, with the documented behaviour of `croner`. -/
noncomputable def documentedEnv (reach : ℕ) (timezone : String) (tz : Tz) (expression : String)
    (cron : Cron) : Env where
  tzFromStr s := if s = timezone then some tz else none
  cronParse s := if s = expression then some cron else none
  findNextOccurrence := documentedCroner reach

section Documented

variable (reach : ℕ) (timezone : String) (tz : Tz) (expression : String) (cron : Cron)

theorem documentedEnv_croner :
    CronerSpec (documentedEnv reach timezone tz expression cron) reach := by
  refine ⟨?_, ?_, ?_⟩
  · intro cron tz anchor m u hm hu
    have hex : ∃ u m, cron.IsNext (tz.toLocal anchor) m ∧ Resolves reach tz m u := ⟨u, m, hm, hu⟩
    show documentedCroner reach cron tz anchor = _
    rw [documentedCroner, dif_pos hex]
    obtain ⟨m', hm', hu'⟩ := hex.choose_spec
    rw [hm'.unique hm] at hu'
    rw [hu'.unique hu]
  · intro cron tz anchor m hm hgap
    have hno : ¬∃ u m, cron.IsNext (tz.toLocal anchor) m ∧ Resolves reach tz m u := by
      rintro ⟨u, m', hm', hu⟩
      exact hgap u (hm.unique hm' ▸ hu)
    show documentedCroner reach cron tz anchor = _
    rw [documentedCroner, dif_neg hno, if_pos ⟨m, hm⟩]
  · intro cron tz anchor hnext
    have hno : ¬∃ u m, cron.IsNext (tz.toLocal anchor) m ∧ Resolves reach tz m u := by
      rintro ⟨u, m, hm, -⟩
      exact hnext m hm
    refine ⟨.TimeSearchLimitExceeded, by decide, ?_⟩
    show documentedCroner reach cron tz anchor = _
    rw [documentedCroner, dif_neg hno, if_neg (not_exists.mpr hnext)]

theorem documentedEnv_zone :
    (documentedEnv reach timezone tz expression cron).zone timezone = tz := by
  simp [Env.zone, documentedEnv]

/-- An expression of five standard fields is left to `croner`. -/
theorem documentedEnv_parse {fields : List (List Char)}
    (hfields : splitWhitespace expression.toList = fields) (hlength : fields.length = 5)
    (hstandard : ∀ p ∈ fields.zipIdx, isStandardCronField p.1 (p.2 == 3) (p.2 == 4) = true) :
    parseStandardCron (documentedEnv reach timezone tz expression cron) expression =
      some cron := by
  rw [parseStandardCron, hfields]
  dsimp only
  rw [if_neg (not_not.mpr hlength), if_pos (List.all_eq_true.mpr hstandard)]
  simp [documentedEnv]

end Documented

noncomputable def newYorkEnv : Env :=
  documentedEnv cronerReach "America/New_York" newYork "*/15 1 * * *" quartersOfOne

theorem newYorkEnv_croner : CronerSpec newYorkEnv cronerReach := documentedEnv_croner _ _ _ _ _

theorem newYorkEnv_zone : newYorkEnv.zone "America/New_York" = newYork :=
  documentedEnv_zone _ _ _ _ _

/-- The next quarter that has not passed is the first one of the next night. -/
theorem quartersOfOne_isUnpassed :
    quartersOfOne.IsUnpassed cronerReach newYork (20758 * nanosPerDay + 375 * nanosPerMinute)
      (20759 * 1440 + 60) := by
  have hlocal : newYork.toLocal (20758 * nanosPerDay + 375 * nanosPerMinute) =
      (20758 * 1440 + 75) * nanosPerMinute := by decide
  have hpass : firstPass newYork (20759 * 1440 + 60) =
      some (20759 * nanosPerDay + 6 * nanosPerHour) := by decide
  refine ⟨by decide, by decide, ?_, ?_⟩
  · intro u hu
    rw [hu.unique (.of_firstPass hpass)]
    decide
  · intro m' hlt hm' hlater
    rw [hlocal] at hlater
    have hminute : 20758 * 1440 + 75 < m' := lt_of_mul_lt_mul_right hlater (by decide)
    obtain ⟨hhour, hquarter⟩ : m' % 1440 / 60 = 1 ∧ m' % 15 = 0 := by
      simpa [quartersOfOne] using hm'
    obtain rfl | rfl : m' = 20758 * 1440 + 90 ∨ m' = 20758 * 1440 + 105 := by omega
    · exact ⟨20758 * nanosPerDay + 330 * nanosPerMinute, by decide, .of_firstPass (by decide)⟩
    · exact ⟨20758 * nanosPerDay + 345 * nanosPerMinute, by decide, .of_firstPass (by decide)⟩

/-! ## Troll in 2026 -/

/-- The Antarctic station Troll from 2025-10-26 to 2027-10-31: on 2026-03-29 and on 2027-03-28,
    the clocks are set forward by two hours from 01:00 to 03:00, and on 2026-10-25 they are set
    back from 03:00 to 01:00. -/
def troll : Tz where
  first := 0
  rest := [(20541 * nanosPerDay + nanosPerHour, 2 * nanosPerHour),
    (20751 * nanosPerDay + nanosPerHour, 0),
    (20905 * nanosPerDay + nanosPerHour, 2 * nanosPerHour)]
  sorted := by decide

theorem troll_toLocal (u : DateTime) : troll.toLocal u =
    if 20905 * nanosPerDay + nanosPerHour ≤ u then u + 2 * nanosPerHour
    else if 20751 * nanosPerDay + nanosPerHour ≤ u then u
    else if 20541 * nanosPerDay + nanosPerHour ≤ u then u + 2 * nanosPerHour
    else u := by
  simp only [Tz.toLocal, Tz.offsetAt, troll, List.foldl_cons, List.foldl_nil]
  split_ifs <;> simp

/-- The units in nanoseconds. -/
theorem nanos_eq : nanosPerDay = 86400000000000 ∧ nanosPerHour = 3600000000000 ∧
    nanosPerMinute = 60000000000 := by decide

theorem troll_foldsRepeat : FoldsRepeat troll := by
  obtain ⟨hday, hhour, -⟩ := nanos_eq
  intro u v hvu hlocal
  rcases lt_or_eq_of_le hvu with hlt | rfl
  · -- `u` is in the second pass: the first was two hours before
    refine ⟨u - 2 * nanosPerHour, ?_, ?_⟩
    all_goals
      simp only [troll_toLocal, hday, hhour] at hlocal ⊢
      split_ifs at hlocal ⊢ <;> omega
  · exact ⟨v, le_rfl, rfl⟩

/-- Before the fold, the clocks are not set back. -/
theorem troll_mono {u v : ℤ} (h : u ≤ v) (hv : v < 20751 * nanosPerDay) :
    troll.toLocal u ≤ troll.toLocal v := by
  obtain ⟨hday, hhour, -⟩ := nanos_eq
  simp only [troll_toLocal, hday, hhour] at hv ⊢
  split_ifs <;> omega

/-- No instant reads a local time from 01:00 to 03:00 on 2026-03-29. -/
theorem troll_gap (u : DateTime) : troll.toLocal u < 20541 * nanosPerDay + nanosPerHour ∨
    20541 * nanosPerDay + 3 * nanosPerHour ≤ troll.toLocal u := by
  obtain ⟨hday, hhour, -⟩ := nanos_eq
  simp only [troll_toLocal, hday, hhour]
  split_ifs <;> omega

/-- `croner` does not place the minutes of the first hour that is skipped. -/
theorem troll_not_resolves {reach : ℕ} (hreach : reach ≤ cronerReach) {m : ℤ}
    (hlow : 20541 * 1440 + 60 ≤ m) (hhigh : m < 20541 * 1440 + 120) (u : DateTime) :
    ¬Resolves reach troll m u := by
  obtain ⟨hday, hhour, hminute⟩ := nanos_eq
  intro h
  have hstart := h.low
  have hend := h.high
  have hgap := troll_gap u
  rw [cronerReach] at hreach
  rw [hday, hhour] at hgap
  rw [hminute] at hstart hend
  omega

/-- `30 1 * * *`. -/
def everyNight : Cron := ⟨fun m => m % 1440 == 90⟩

/-- `Datelike::month` and `Datelike::day`. -/
def monthDay (date : NaiveDate) : ℤ × ℤ :=
  let z := date + 719468
  let doe := z % 146097
  let yoe := (doe - doe / 1460 + doe / 36524 - doe / 146096) / 365
  let doy := doe - (365 * yoe + yoe / 4 - yoe / 100)
  let mp := (5 * doy + 2) / 153
  (if mp < 10 then mp + 3 else mp - 9, doy - (153 * mp + 2) / 5 + 1)

/-- `30 1 29 3 *`. -/
def lateMarch : Cron := ⟨fun m => m % 1440 == 90 && monthDay (m / 1440) == (3, 29)⟩

/-- In the 40 days before, the next match of `30 1 29 3 *` is in the gap. -/
theorem lateMarch_isUnpassed {reach : ℕ} (hreach : reach ≤ cronerReach) {after : ℤ}
    (hlow : 20501 * nanosPerDay ≤ after) (hhigh : after < 20541 * nanosPerDay + nanosPerHour) :
    lateMarch.IsUnpassed reach troll after (20541 * 1440 + 90) := by
  obtain ⟨hday, hhour, hminute⟩ := nanos_eq
  have hlocal : troll.toLocal after = after := by
    rw [hday] at hlow
    simp only [troll_toLocal, hday, hhour] at hhigh ⊢
    split_ifs <;> omega
  refine ⟨by decide, ?_, ?_, ?_⟩
  · rw [hlocal, hminute]
    omega
  · intro u hu
    exact absurd hu (troll_not_resolves hreach (by decide) (by decide) u)
  · intro m' hlt hm' hlater
    obtain ⟨hmatch, hdate⟩ : m' % 1440 = 90 ∧ monthDay (m' / 1440) = (3, 29) := by
      simpa [lateMarch] using hm'
    rw [hlocal, hminute] at hlater
    -- no earlier date is a 29 March
    have hno : ∀ k : Fin 40, monthDay (20501 + (k : ℕ)) ≠ (3, 29) := by decide
    obtain ⟨k, hk⟩ : ∃ k : Fin 40, m' / 1440 = 20501 + (k : ℕ) :=
      ⟨⟨(m' / 1440 - 20501).toNat, by omega⟩, by dsimp only; omega⟩
    rw [hk] at hdate
    exact absurd hdate (hno k)

/-- On the day before the gap, the local time reads forward. -/
theorem troll_readsForward : ReadsForward troll (20540 * nanosPerDay + 12 * nanosPerHour) := by
  refine ⟨?_, ?_, by decide⟩
  · intro u hu
    exact troll_mono hu (by decide)
  · intro i j hij hj
    refine troll_mono (hoursAfter_mono _ hij) ?_
    exact lt_of_le_of_lt (hoursAfter_mono _ (le_of_lt hj)) (by decide)

end EasyJob.Scheduler
