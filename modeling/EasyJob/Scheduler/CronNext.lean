import EasyJob.Scheduler.Cron
import Mathlib.Order.Bounds.Defs

/-!
# Which match a cron trigger fires at

`cron_next_occurrence` goes on by one hour when the next matching minute falls in a
gap, and by one match when it has already passed in a fold. What the search finds
is compared with what the trigger should fire at: across a gap the least matching
instant after `after`, across a fold the least first pass of a matching minute.

Main results:

* `cron_least_iff`: where no local time is shown again, the search finds the least
  matching instant exactly if none matches in the hours that it goes on by.
* `cron_skips_match`: at the station Troll, `*/15 * * * *` skips four matches after the gap.
* `cron_first_pass`: where the search meets no gap and the clocks are set back to local
  times that they have shown, it finds the least first pass after `after`.
* `cron_misses_first_pass`: not so if they are set back into the gap before.
-/

namespace EasyJob.Scheduler

open EasyJob.Chrono EasyJob.Domain

/-- No other instant shows the local time of `v`. -/
def ReadsOnce (tz : Tz) (v : DateTime) : Prop :=
  ∀ u, tz.toLocal u = tz.toLocal v → u = v

/-- The local clock is later at `v` than ever before. -/
def NotSetBack (tz : Tz) (v : DateTime) : Prop :=
  ∀ u < v, tz.toLocal u < tz.toLocal v

/-- The span from `after` to the result `x` and to the anchors of the search. -/
def Searched (reach : ℕ) (cron : Cron) (tz : Tz) (after x v : DateTime) : Prop :=
  after ≤ v ∧ (v ≤ x ∨ ∃ n anchor, Moves reach cron tz after n after anchor ∧ v ≤ anchor)

variable {env : Env} {reach : ℕ} {cron : Cron} {tz : Tz} {after : DateTime}

theorem ReadsOnce.notSetBack {v : DateTime} (h : ReadsOnce tz v) (hfold : FoldsRepeat tz) :
    NotSetBack tz v := by
  intro u huv
  by_contra hle
  obtain ⟨w, hw, hlocal⟩ := hfold v u (le_of_lt huv) (not_lt.mp hle)
  exact absurd (h w hlocal ▸ hw) (not_le.mpr huv)

theorem Moves.trans {n k : ℕ} {a b c : DateTime} (h : Moves reach cron tz after n a b)
    (h' : Moves reach cron tz after k b c) : Moves reach cron tz after (n + k) a c := by
  induction h with
  | refl => simpa using h'
  | @repeated n a c' b hrepeats _ ih =>
    rw [Nat.add_right_comm]
    exact .repeated hrepeats (ih h')
  | @skipped n a b next hskips hadd _ ih =>
    rw [Nat.add_right_comm]
    exact .skipped hskips hadd (ih h')

/-- An anchor at which the search finds a time is its last one. -/
theorem Finds.not_skips {anchor x : DateTime} (h : Finds reach cron tz after anchor x) :
    ¬Skips reach cron tz anchor := by
  obtain ⟨m, hm, hplaced, -⟩ := h
  rintro ⟨m', hm', hnone⟩
  exact hnone x (hm.unique hm' ▸ hplaced)

theorem Finds.not_repeats {anchor x c : DateTime} (h : Finds reach cron tz after anchor x) :
    ¬Repeats reach cron tz after anchor c := by
  obtain ⟨m, hm, hplaced, hlt⟩ := h
  rintro ⟨m', hm', hplaced', hle⟩
  rw [hm'.unique hm] at hplaced'
  exact absurd hle (not_le.mpr (hplaced.unique hplaced' ▸ hlt))

/-! ## Across a gap -/

section Gap

variable {x : DateTime} (hspan : ∀ v, Searched reach cron tz after x v → NotSetBack tz v)
include hspan

/-- Where no local time is shown again, the anchors are the hours after `after`. -/
theorem Moves.hours {n i : ℕ} {last : DateTime}
    (hreach : Moves reach cron tz after i after (hoursAfter after i))
    (h : Moves reach cron tz after n (hoursAfter after i) last) :
    last = hoursAfter after (i + n) ∧
      ∀ k, i ≤ k → k < i + n → Skips reach cron tz (hoursAfter after k) := by
  induction n generalizing i with
  | zero =>
    cases h
    exact ⟨rfl, fun k hk hk' => absurd hk' (by omega)⟩
  | succ n ih =>
    cases h with
    | repeated hrepeats _ =>
      obtain ⟨m, hm, hplaced, hle⟩ := hrepeats
      have hmono := le_hoursAfter after i
      have hlater := hspan _ ⟨hmono, .inr ⟨i, _, hreach, le_rfl⟩⟩
      have hlt := lt_of_lt_of_le hm.after hplaced.low
      rcases lt_or_eq_of_le (le_trans hle hmono) with hbefore | rfl
      · exact absurd hlt (not_lt.mpr (le_of_lt (hlater _ hbefore)))
      · exact absurd hlt (lt_irrefl _)
    | skipped hskips hadd hmoves =>
      have hnext := addDelta_ok hadd
      rw [← hoursAfter_succ] at hnext
      subst hnext
      obtain ⟨hlast, hall⟩ :=
        ih (hreach.trans (.skipped hskips hadd (.refl _))) hmoves
      refine ⟨by rw [hlast, Nat.add_assoc, Nat.add_comm 1 n], fun k hk hk' => ?_⟩
      rcases Nat.lt_or_eq_of_le hk with hlt | rfl
      · exact hall k hlt (by omega)
      · exact hskips

/-- Between the last anchor and the result, nothing matches. -/
theorem Finds.le_of_matchesAt {last : DateTime} (h : Finds reach cron tz after last x)
    (hlast : after ≤ last) {u : DateTime} (hu : last < u) (hmatch : cron.MatchesAt tz u) :
    x ≤ u := by
  obtain ⟨m, hm, hplaced, hx⟩ := h
  obtain ⟨m', hm', hlocal⟩ := hmatch
  by_contra hlt
  have hlt := not_le.mp hlt
  have hlater := hspan u ⟨le_trans hlast (le_of_lt hu), .inl (le_of_lt hlt)⟩ last hu
  have hearlier := hspan x ⟨le_of_lt hx, .inl le_rfl⟩ u hlt
  -- `u` reads a match that is not before the next one
  have hle := hm.least m' hm' (hlocal ▸ hlater)
  have hminute : m * nanosPerMinute ≤ tz.toLocal u := by
    rw [hlocal]
    exact Int.mul_le_mul_of_nonneg_right hle (by decide)
  exact absurd (hplaced.skipped u hminute) (not_le.mpr hearlier)

/-- The last anchor is before the result. -/
theorem Finds.anchor_lt {n : ℕ} {last : DateTime}
    (hmoves : Moves reach cron tz after n after last) (h : Finds reach cron tz after last x)
    (hlast : after ≤ last) : last < x := by
  obtain ⟨m, hm, hplaced, -⟩ := h
  have hlt := lt_of_lt_of_le hm.after hplaced.low
  have hlater := hspan last ⟨hlast, .inr ⟨n, last, hmoves, le_rfl⟩⟩
  rcases lt_trichotomy last x with hbefore | rfl | hbefore
  · exact hbefore
  · exact absurd hlt (lt_irrefl _)
  · exact absurd hlt (not_lt.mpr (le_of_lt (hlater x hbefore)))

end Gap

/-- An instant after `after` that is not after the `n`-th hour is in one of the hours. -/
theorem exists_hour {u : DateTime} {n : ℕ} (h : after < u) (hn : u ≤ hoursAfter after n) :
    ∃ i < n, hoursAfter after i < u ∧ u ≤ hoursAfter after (i + 1) := by
  induction n with
  | zero =>
    rw [hoursAfter_zero] at hn
    exact absurd h (not_lt.mpr hn)
  | succ n ih =>
    rcases le_or_gt u (hoursAfter after n) with hle | hgt
    · obtain ⟨i, hi, hhour⟩ := ih hle
      exact ⟨i, by omega, hhour⟩
    · exact ⟨n, by omega, hgt, hn⟩

/-- When is the result the least matching instant after `after`? Where no local time is
    shown again in the span searched, it is so exactly if nothing matches in an hour that
    the search goes on by (the next match from its beginning, and from that of every hour
    before it, cannot be placed), and if the first match that is placed is placed at an
    instant that matches. -/
theorem cron_least_iff {env : Env} {reach : ℕ} (hcroner : CronerSpec env reach) {cron : Cron}
    {tz : Tz} {after x : DateTime} (hx : cronNextOccurrence env cron tz after = .ok (some x))
    (hspan : ∀ v, Searched reach cron tz after x v → NotSetBack tz v) :
    IsLeast {u | after < u ∧ cron.MatchesAt tz u} x ↔
      (∀ i, (∀ k ≤ i, Skips reach cron tz (hoursAfter after k)) →
        ∀ u, hoursAfter after i < u → u ≤ hoursAfter after (i + 1) → ¬cron.MatchesAt tz u) ∧
      ∀ i m u, (∀ k < i, Skips reach cron tz (hoursAfter after k)) →
        cron.IsNext (tz.toLocal (hoursAfter after i)) m → Resolves reach tz m u →
        cron.MatchesAt tz u := by
  obtain ⟨n, -, last, hmoves, hfinds⟩ := (cronSearch_some_iff hcroner).mp hx
  have hstart : Moves reach cron tz after n (hoursAfter after 0) last := by
    rw [hoursAfter_zero]
    exact hmoves
  have hreach : Moves reach cron tz after 0 after (hoursAfter after 0) := by
    rw [hoursAfter_zero]
    exact .refl after
  obtain ⟨hlast, hskips⟩ := Moves.hours hspan hreach hstart
  rw [Nat.zero_add] at hlast hskips
  have hafter : after ≤ last := hlast ▸ le_hoursAfter after n
  have hbefore := Finds.anchor_lt hspan hmoves hfinds hafter
  -- the search goes on by `n` hours
  have hcount : ∀ i, (∀ k < i, Skips reach cron tz (hoursAfter after k)) → i ≤ n := by
    intro i hi
    by_contra hlt
    exact hfinds.not_skips (hlast ▸ hi n (not_le.mp hlt))
  constructor
  · rintro ⟨⟨-, hmatches⟩, hleast⟩
    refine ⟨fun i hi u hlow hhigh hmatch => ?_, fun i m u hi hm hplaced => ?_⟩
    · have hlt := hcount (i + 1) (fun k hk => hi k (Nat.le_of_lt_succ hk))
      have hle : u ≤ last := hlast ▸ le_trans hhigh (hoursAfter_mono after hlt)
      have hlow' : after < u := lt_of_le_of_lt (le_hoursAfter after i) hlow
      exact absurd (hleast ⟨hlow', hmatch⟩) (not_le.mpr (lt_of_le_of_lt hle hbefore))
    · rcases lt_or_eq_of_le (hcount i hi) with hlt | rfl
      · obtain ⟨m', hm', hnone⟩ := hskips i (Nat.zero_le i) hlt
        exact absurd (hm.unique hm' ▸ hplaced) (hnone u)
      · obtain ⟨m', hm', hplaced', -⟩ := hfinds
        rw [hlast, hm'.unique (hlast ▸ hm)] at *
        rw [hplaced.unique hplaced']
        exact hmatches
  · rintro ⟨hnone, hplaces⟩
    obtain ⟨m, hm, hplaced, hlt⟩ := hfinds
    refine ⟨⟨hlt, ?_⟩, ?_⟩
    · exact hplaces n m x (fun k hk => hskips k (Nat.zero_le k) hk) (hlast ▸ hm) hplaced
    · rintro u ⟨hu, hmatch⟩
      rcases le_or_gt u last with hle | hgt
      · obtain ⟨i, hi, hlow, hhigh⟩ := exists_hour hu (hlast ▸ hle)
        exact absurd hmatch
          (hnone i (fun k hk => hskips k (Nat.zero_le k) (by omega)) u hlow hhigh)
      · exact Finds.le_of_matchesAt hspan ⟨m, hm, hplaced, hlt⟩ hafter hgt hmatch

/-! ## Across a fold -/

/-- `u` is the first pass of a matching minute. -/
def Cron.FirstPassAt (cron : Cron) (tz : Tz) (u : DateTime) : Prop :=
  ∃ m, cron.isTimeMatching m = true ∧ firstPass tz m = some u

/-- A local time that is first read after `v` is later than that of `v`. -/
theorem FoldsRepeat.lt_firstPass (hfold : FoldsRepeat tz) {m : ℤ} {u v : DateTime}
    (h : firstPass tz m = some u) (hvu : v < u) : tz.toLocal v < m * nanosPerMinute := by
  by_contra hle
  have hlocal := firstPass_toLocal h
  obtain ⟨w, hw, hsame⟩ := hfold u v (le_of_lt hvu) (by rw [hlocal]; exact not_lt.mp hle)
  exact absurd (firstPass_le h (hsame.trans hlocal)) (not_le.mpr (lt_of_le_of_lt hw hvu))

/-- If a matching minute after `after` has not passed, there is a first one. -/
theorem Cron.exists_unpassed {m : ℤ} (hm : cron.isTimeMatching m = true)
    (hlater : tz.toLocal after < m * nanosPerMinute)
    (hahead : ¬∃ u ≤ after, firstPass tz m = some u) :
    ∃ m₀, cron.isTimeMatching m₀ = true ∧ tz.toLocal after < m₀ * nanosPerMinute ∧
      (¬∃ u ≤ after, firstPass tz m₀ = some u) ∧
      ∀ m', cron.isTimeMatching m' = true → tz.toLocal after < m' * nanosPerMinute →
        (¬∃ u ≤ after, firstPass tz m' = some u) → m₀ ≤ m' := by
  have hbound : ∀ m', (cron.isTimeMatching m' = true ∧ tz.toLocal after < m' * nanosPerMinute ∧
      ¬∃ u ≤ after, firstPass tz m' = some u) → tz.toLocal after / nanosPerMinute ≤ m' := by
    rintro m' ⟨-, hlt, -⟩
    exact Int.ediv_le_of_le_mul (by decide) (le_of_lt hlt)
  obtain ⟨m₀, ⟨hmatch, hlt, hnot⟩, hleast⟩ :=
    Int.exists_least_of_bdd ⟨_, hbound⟩ ⟨m, hm, hlater, hahead⟩
  exact ⟨m₀, hmatch, hlt, hnot, fun m' h h' h'' => hleast m' ⟨h, h', h''⟩⟩

/-- The next match from the anchor does not exist. -/
def MeetsGap (cron : Cron) (tz : Tz) (anchor : DateTime) : Prop :=
  ∃ m, cron.IsNext (tz.toLocal anchor) m ∧ firstPass tz m = none

/-- Where no next match falls in a gap, where local time has not gone back by more than two
    hours, and where the clocks are set back only to local times that they have shown, the
    search finds the least first pass of a matching minute after `after`, as long as there
    is one. -/
theorem cron_first_pass {env : Env} {reach : ℕ} (hcroner : CronerSpec env reach) {cron : Cron}
    {tz : Tz} {after : DateTime}
    (hgap : ∀ n anchor, Moves reach cron tz after n after anchor → ¬MeetsGap cron tz anchor)
    (hback : RepeatsTwoHours tz after) (hfold : FoldsRepeat tz)
    (hmatch : ∃ u, after < u ∧ cron.FirstPassAt tz u) :
    ∃ x, cronNextOccurrence env cron tz after = .ok (some x) ∧
      IsLeast {u | after < u ∧ cron.FirstPassAt tz u} x := by
  obtain ⟨u, hu, m, hm, hpass⟩ := hmatch
  -- what passes first after `after` has not passed before
  have hahead : ∀ {m' u'}, firstPass tz m' = some u' → after < u' →
      ¬∃ w ≤ after, firstPass tz m' = some w := by
    rintro m' u' hpass' hlt ⟨w, hw, hpass''⟩
    rw [hpass'] at hpass''
    cases hpass''
    exact absurd hw (not_le.mpr hlt)
  obtain ⟨m₀, hm₀, hlater₀, hahead₀, hleast⟩ :=
    Cron.exists_unpassed hm (hfold.lt_firstPass hpass hu) (hahead hpass hu)
  have hpassed : ∀ m' < m₀, cron.isTimeMatching m' = true →
      tz.toLocal after < m' * nanosPerMinute →
      ∃ w ≤ after, Resolves reach tz m' w ∧ tz.toLocal w < m₀ * nanosPerMinute := by
    intro m' hlt hm' hlater'
    obtain ⟨w, hw, hpass'⟩ : ∃ w ≤ after, firstPass tz m' = some w := by
      by_contra hnot
      exact absurd (hleast m' hm' hlater' hnot) (not_le.mpr hlt)
    refine ⟨w, hw, .of_firstPass hpass', ?_⟩
    rw [firstPass_toLocal hpass']
    exact Int.mul_lt_mul_of_pos_right hlt (by decide)
  obtain ⟨n, hn, last, hmoves, hnext⟩ := moves_past_repeated hback hm₀ hlater₀ hpassed
  cases hpass₀ : firstPass tz m₀ with
  | none => exact absurd ⟨m₀, hnext, hpass₀⟩ (hgap n last hmoves)
  | some x =>
    have hx : after < x := by
      by_contra hle
      exact hahead₀ ⟨x, not_lt.mp hle, hpass₀⟩
    have hfinds : Finds reach cron tz after last x := ⟨m₀, hnext, .of_firstPass hpass₀, hx⟩
    refine ⟨x, (cronSearch_some_iff hcroner).mpr ⟨n, hn, last, hmoves, hfinds⟩,
      ⟨hx, m₀, hm₀, hpass₀⟩, ?_⟩
    rintro u' ⟨hu', m', hm', hpass'⟩
    have hle := hleast m' hm' (hfold.lt_firstPass hpass' hu') (hahead hpass' hu')
    by_contra hlt
    -- the clocks would be set back to a local time that they have not shown
    have hback' := hfold.lt_firstPass hpass₀ (not_le.mp hlt)
    rw [firstPass_toLocal hpass'] at hback'
    exact absurd (lt_of_mul_lt_mul_right hback' (by decide)) (not_lt.mpr hle)

/-! ## Troll in March 2026 -/

/-- The search finds its result in the second round, after one hour. -/
theorem finds_after_hour (hskips : Skips reach cron tz after)
    (hadd : addDelta after nanosPerHour = .ok (hoursAfter after 1)) {x : DateTime}
    (hfinds : Finds reach cron tz after (hoursAfter after 1) x) :
    (∃ n < cronDstRetryLimit, ∃ last, Moves reach cron tz after n after last ∧
      Finds reach cron tz after last x) ∧
    ∀ n anchor, Moves reach cron tz after n after anchor → anchor ≤ hoursAfter after 1 := by
  refine ⟨⟨1, by decide, _, .skipped hskips hadd (.refl _), hfinds⟩, ?_⟩
  intro n anchor hmoves
  obtain ⟨m, hm, hnone⟩ := hskips
  cases hmoves with
  | refl =>
    rw [addDelta_ok hadd]
    exact Int.le_add_of_nonneg_right (by decide)
  | repeated hrepeats _ =>
    obtain ⟨m', hm', hplaced, -⟩ := hrepeats
    exact absurd (hm'.unique hm ▸ hplaced) (hnone _)
  | skipped _ hadd' hmoves =>
    rw [hadd] at hadd'
    cases hadd'
    cases hmoves with
    | refl => exact le_rfl
    | repeated hrepeats _ => exact absurd hrepeats hfinds.not_repeats
    | skipped hskips' _ _ => exact absurd hskips' hfinds.not_skips

/-- `*/15 * * * *`. -/
def everyQuarter : Cron := ⟨fun m => m % 15 == 0⟩

/-- Until the day before the fold, each local time is read once. -/
theorem troll_readsOnce {v : ℤ} (h : v < 20750 * nanosPerDay) : ReadsOnce troll v := by
  obtain ⟨hday, hhour, -⟩ := nanos_eq
  intro u hlocal
  rw [hday] at h
  simp only [troll_toLocal, hday, hhour] at hlocal
  split_ifs at hlocal <;> omega

/-- The searches below look at instants that each read a local time of their own. -/
theorem searched_readsOnce {x : DateTime} (hx : x < 20750 * nanosPerDay)
    (hlast : hoursAfter after 1 < 20750 * nanosPerDay)
    (hanchors : ∀ n anchor, Moves reach cron troll after n after anchor →
      anchor ≤ hoursAfter after 1) {v : DateTime} (hv : Searched reach cron troll after x v) :
    ReadsOnce troll v := by
  obtain ⟨-, hle | ⟨n, anchor, hmoves, hle⟩⟩ := hv
  · exact troll_readsOnce (lt_of_le_of_lt hle hx)
  · exact troll_readsOnce (lt_of_le_of_lt hle (lt_of_le_of_lt (hanchors n anchor hmoves) hlast))

/-- At 00:20, the next match is in the gap, and one hour later, at 03:20, that of the next
    night. -/
theorem everyNight_search :
    Skips cronerReach everyNight troll (20541 * nanosPerDay + 20 * nanosPerMinute) ∧
      Finds cronerReach everyNight troll (20541 * nanosPerDay + 20 * nanosPerMinute)
        (hoursAfter (20541 * nanosPerDay + 20 * nanosPerMinute) 1)
        (20541 * nanosPerDay + 1410 * nanosPerMinute) := by
  have hstart : troll.toLocal (20541 * nanosPerDay + 20 * nanosPerMinute) =
      (20541 * 1440 + 20) * nanosPerMinute := by decide
  have hnext : troll.toLocal (hoursAfter (20541 * nanosPerDay + 20 * nanosPerMinute) 1) =
      (20541 * 1440 + 200) * nanosPerMinute := by decide
  refine ⟨⟨20541 * 1440 + 90, ?_, troll_not_resolves le_rfl (by decide) (by decide)⟩,
    ⟨20542 * 1440 + 90, ?_, .of_firstPass (by decide), by decide⟩⟩
  · rw [hstart]
    refine Cron.isNext_minute (by decide) (by decide) (fun m' hm' hlt => ?_)
    have hmatch : m' % 1440 = 90 := by simpa [everyNight] using hm'
    omega
  · rw [hnext]
    refine Cron.isNext_minute (by decide) (by decide) (fun m' hm' hlt => ?_)
    have hmatch : m' % 1440 = 90 := by simpa [everyNight] using hm'
    omega

/-- From 00:20 to 01:00 and from 03:00 to 03:20, nothing matches. -/
theorem everyNight_hour {u : ℤ} (hlow : 20541 * nanosPerDay + 20 * nanosPerMinute < u)
    (hhigh : u ≤ 20541 * nanosPerDay + 80 * nanosPerMinute) : ¬everyNight.MatchesAt troll u := by
  obtain ⟨hday, hhour, hminute⟩ := nanos_eq
  rintro ⟨m, hm, hlocal⟩
  have hmatch : m % 1440 = 90 := by simpa [everyNight] using hm
  simp only [troll_toLocal, hday, hhour, hminute] at hlow hhigh hlocal
  split_ifs at hlocal <;> omega

/-- At 00:20 on 2026-03-29, `30 1 * * *` goes on by one hour, in which it does not match,
    and finds 01:30 of the next night. -/
theorem cron_least_everyNight :
    IsLeast {u | 20541 * nanosPerDay + 20 * nanosPerMinute < u ∧ everyNight.MatchesAt troll u}
      (20541 * nanosPerDay + 1410 * nanosPerMinute) := by
  obtain ⟨hskips, hfinds⟩ := everyNight_search
  obtain ⟨hsearch, hanchors⟩ := finds_after_hour hskips (by decide) hfinds
  have hcroner := documentedEnv_croner cronerReach "Antarctica/Troll" troll "30 1 * * *" everyNight
  have hresult := (cronSearch_some_iff hcroner).mpr hsearch
  have hspan : ∀ v, Searched cronerReach everyNight troll
      (20541 * nanosPerDay + 20 * nanosPerMinute) (20541 * nanosPerDay + 1410 * nanosPerMinute) v →
      NotSetBack troll v := by
    intro v hv
    have honce := searched_readsOnce (by decide) (by decide) hanchors hv
    exact honce.notSetBack troll_foldsRepeat
  refine (cron_least_iff hcroner hresult hspan).mpr ⟨?_, ?_⟩
  · intro i hi u hlow hhigh
    cases i with
    | zero =>
      have hend : hoursAfter (20541 * nanosPerDay + 20 * nanosPerMinute) (0 + 1) =
          20541 * nanosPerDay + 80 * nanosPerMinute := by decide
      rw [hoursAfter_zero] at hlow
      rw [hend] at hhigh
      exact everyNight_hour hlow hhigh
    | succ i => exact absurd (hi 1 (by omega)) hfinds.not_skips
  · intro i m u hi hm hplaced
    cases i with
    | zero =>
      rw [hoursAfter_zero] at hm
      obtain ⟨m', hm', hnone⟩ := hskips
      exact absurd (hm.unique hm' ▸ hplaced) (hnone u)
    | succ i =>
      cases i with
      | zero =>
        obtain ⟨m', hm', hplaced', -⟩ := hfinds
        rw [hplaced.unique (hm'.unique hm ▸ hplaced')]
        exact ⟨20542 * 1440 + 90, by decide, by decide⟩
      | succ i => exact absurd (hi 1 (by omega)) hfinds.not_skips

/-- At 00:50, the next quarter is in the gap, and one hour later, at 03:50, it is 04:00. -/
theorem everyQuarter_search {reach : ℕ} (hreach : reach ≤ cronerReach) :
    Skips reach everyQuarter troll (20541 * nanosPerDay + 50 * nanosPerMinute) ∧
      Finds reach everyQuarter troll (20541 * nanosPerDay + 50 * nanosPerMinute)
        (hoursAfter (20541 * nanosPerDay + 50 * nanosPerMinute) 1)
        (20541 * nanosPerDay + 120 * nanosPerMinute) := by
  have hstart : troll.toLocal (20541 * nanosPerDay + 50 * nanosPerMinute) =
      (20541 * 1440 + 50) * nanosPerMinute := by decide
  have hnext : troll.toLocal (hoursAfter (20541 * nanosPerDay + 50 * nanosPerMinute) 1) =
      (20541 * 1440 + 230) * nanosPerMinute := by decide
  refine ⟨⟨20541 * 1440 + 60, ?_, troll_not_resolves hreach (by decide) (by decide)⟩,
    ⟨20541 * 1440 + 240, ?_, .of_firstPass (by decide), by decide⟩⟩
  · rw [hstart]
    refine Cron.isNext_minute (by decide) (by decide) (fun m' hm' hlt => ?_)
    have hmatch : m' % 15 = 0 := by simpa [everyQuarter] using hm'
    omega
  · rw [hnext]
    refine Cron.isNext_minute (by decide) (by decide) (fun m' hm' hlt => ?_)
    have hmatch : m' % 15 = 0 := by simpa [everyQuarter] using hm'
    omega

/-- At 00:50 on 2026-03-29, the next match of `*/15 * * * *` is 01:00, in the gap. The
    search goes on by one hour, to 03:50, and finds 04:00: the matches from 03:00 to
    03:45 are left out. -/
theorem cron_skips_match :
    FoldsRepeat troll ∧ (∀ shift ∈ troll.shifts, shift ≤ 2 * nanosPerHour) ∧
      ∀ reach ≤ cronerReach, ∃ env, CronerSpec env reach ∧
        parseStandardCron env "*/15 * * * *" = some everyQuarter ∧
        env.zone "Antarctica/Troll" = troll ∧
        ∃ x, cronNextOccurrence env everyQuarter troll
            (20541 * nanosPerDay + 50 * nanosPerMinute) = .ok (some x) ∧
          (∀ v, Searched reach everyQuarter troll (20541 * nanosPerDay + 50 * nanosPerMinute) x v →
            ReadsOnce troll v) ∧
          ¬IsLeast {u | 20541 * nanosPerDay + 50 * nanosPerMinute < u ∧
            everyQuarter.MatchesAt troll u} x := by
  refine ⟨troll_foldsRepeat, by decide, fun reach hreach => ?_⟩
  obtain ⟨hskips, hfinds⟩ := everyQuarter_search hreach
  obtain ⟨hsearch, hanchors⟩ := finds_after_hour hskips (by decide) hfinds
  have hcroner := documentedEnv_croner reach "Antarctica/Troll" troll "*/15 * * * *" everyQuarter
  have hfields : splitWhitespace "*/15 * * * *".toList =
      [['*', '/', '1', '5'], ['*'], ['*'], ['*'], ['*']] := by decide
  refine ⟨_, hcroner, documentedEnv_parse _ _ _ _ _ hfields (by decide) (by decide +kernel),
    documentedEnv_zone _ _ _ _ _, 20541 * nanosPerDay + 120 * nanosPerMinute,
    (cronSearch_some_iff hcroner).mpr hsearch,
    fun v hv => searched_readsOnce (by decide) (by decide) hanchors hv, ?_⟩
  rintro ⟨-, hleast⟩
  -- 03:00
  have hle := @hleast (20541 * nanosPerDay + 60 * nanosPerMinute)
    ⟨by decide, 20541 * 1440 + 180, by decide, by decide⟩
  exact absurd hle (by decide)

/-! ## New York in November 2026 -/

theorem newYork_foldsRepeat : FoldsRepeat newYork := by
  intro u v hvu hlocal
  rcases lt_or_eq_of_le hvu with hlt | rfl
  · rcases lt_or_ge u (20758 * nanosPerDay + 6 * nanosPerHour) with hu | hu
    · exact absurd hlocal (not_le.mpr (newYork_lt hlt hu))
    · rw [newYork_fall hu] at hlocal ⊢
      rcases lt_or_ge v (20758 * nanosPerDay + 6 * nanosPerHour) with hv | hv
      · -- `u` is in the second pass: the first was an hour before
        have hw : u - nanosPerHour ≤ v := by
          have hhour : nanosPerHour = 5 * nanosPerHour - 4 * nanosPerHour := by decide
          linarith [(newYork_bounds v).2]
        have hgap : 20520 * nanosPerDay + 7 * nanosPerHour <
            20758 * nanosPerDay + 6 * nanosPerHour - nanosPerHour := by decide
        refine ⟨u - nanosPerHour, hw, ?_⟩
        rw [newYork_summer (by linarith) (lt_of_le_of_lt hw hv)]
        linarith
      · rw [newYork_fall hv] at hlocal
        linarith
  · exact ⟨v, le_rfl, rfl⟩

/-- Only the local times from 02:00 to 03:00 on 2026-03-08 do not exist. -/
theorem newYork_gap {m : ℤ} (h : firstPass newYork m = none) :
    20520 * 1440 + 120 ≤ m ∧ m < 20520 * 1440 + 180 := by
  rw [firstPass_eq_none] at h
  have hpos : 0 < nanosPerMinute := by decide
  have hhour : nanosPerHour = 60 * nanosPerMinute := rfl
  have hspring : 20520 * nanosPerDay = 20520 * 1440 * nanosPerMinute := by decide
  have hfall : 20758 * nanosPerDay = 20758 * 1440 * nanosPerMinute := by decide
  by_contra hout
  rcases lt_or_ge m (20520 * 1440 + 120) with hm | hm
  · have hlt := Int.mul_lt_mul_of_pos_right hm hpos
    refine h (m * nanosPerMinute + 5 * nanosPerHour) ?_
    rw [newYork_winter (by linarith)]
    linarith
  · have hm' : 20520 * 1440 + 180 ≤ m := by omega
    have hle := Int.mul_le_mul_of_nonneg_right hm' (le_of_lt hpos)
    rcases lt_or_ge m (20758 * 1440 + 120) with hm2 | hm2
    · have hlt := Int.mul_lt_mul_of_pos_right hm2 hpos
      refine h (m * nanosPerMinute + 4 * nanosPerHour) ?_
      rw [newYork_summer (by linarith) (by linarith)]
      linarith
    · have hle2 := Int.mul_le_mul_of_nonneg_right hm2 (le_of_lt hpos)
      refine h (m * nanosPerMinute + 5 * nanosPerHour) ?_
      rw [newYork_fall (by linarith)]
      linarith

/-- When 01:15 has come for the second time, the quarters up to 01:45 have passed. -/
theorem cron_first_pass_quartersOfOne :
    ∃ x, cronNextOccurrence newYorkEnv quartersOfOne newYork
        (20758 * nanosPerDay + 375 * nanosPerMinute) = .ok (some x) ∧
      IsLeast {u | 20758 * nanosPerDay + 375 * nanosPerMinute < u ∧
        quartersOfOne.FirstPassAt newYork u} x := by
  refine cron_first_pass newYorkEnv_croner ?_ (newYork_repeatsTwoHours _) newYork_foldsRepeat
    ⟨20759 * nanosPerDay + 6 * nanosPerHour, by decide, 20759 * 1440 + 60, by decide, by decide⟩
  rintro n anchor - ⟨m, hm, hnone⟩
  obtain ⟨hlow, hhigh⟩ := newYork_gap hnone
  have hhour : m % 1440 / 60 = 1 ∧ m % 15 = 0 := by simpa [quartersOfOne] using hm.matching
  omega

/-! ## Set back into a gap -/

/-- The local times from 02:00 to 03:00 are skipped, and at 03:10 the clocks are set back
    to 02:40. -/
def halfBack : Tz where
  first := 0
  rest := [(2 * nanosPerHour, nanosPerHour), (130 * nanosPerMinute, 30 * nanosPerMinute)]
  sorted := by decide

/-- `45 2 * * *`. -/
def quarterToThree : Cron := ⟨fun m => m % 1440 == 165⟩

/-- At 03:05, the next local time that matches is 02:45 of the next day. -/
theorem quarterToThree_isNext :
    quarterToThree.IsNext (halfBack.toLocal (125 * nanosPerMinute)) (1440 + 165) := by
  have hlocal : halfBack.toLocal (125 * nanosPerMinute) = 185 * nanosPerMinute := by decide
  rw [hlocal]
  refine Cron.isNext_minute (by decide) (by decide) (fun m' hm' hlt => ?_)
  have hmatch : m' % 1440 = 165 := by simpa [quarterToThree] using hm'
  omega

/-- At 03:05, the clocks have not been set back, and the local time is at most an hour ahead. -/
theorem halfBack_repeatsTwoHours : RepeatsTwoHours halfBack (125 * nanosPerMinute) := by
  intro u hu
  have hoffset : halfBack.offsetAt u ≤ 60 * nanosPerMinute := by
    have hmem := halfBack.offsetAt_mem u
    simp only [halfBack, List.map_cons, List.map_nil, List.mem_cons, List.not_mem_nil,
      or_false] at hmem
    rcases hmem with h | h | h <;> rw [halfBack, h] <;> decide
  have hlocal : halfBack.toLocal (125 * nanosPerMinute) = 185 * nanosPerMinute := by decide
  have hhour : 0 < nanosPerHour := by decide
  rw [hlocal, Tz.toLocal]
  linarith

theorem quarterToThree_firstPass :
    firstPass halfBack (1440 + 165) = some ((1440 + 135) * nanosPerMinute) := by decide

/-- The first anchor gives 02:45 of the next day. -/
theorem quarterToThree_finds (reach : ℕ) :
    Finds reach quarterToThree halfBack (125 * nanosPerMinute) (125 * nanosPerMinute)
      ((1440 + 135) * nanosPerMinute) :=
  ⟨_, quarterToThree_isNext, .of_firstPass quarterToThree_firstPass, by decide⟩

/-- The search meets no gap. -/
theorem quarterToThree_no_gap {reach n : ℕ} {anchor : DateTime}
    (hmoves : Moves reach quarterToThree halfBack (125 * nanosPerMinute) n
      (125 * nanosPerMinute) anchor) : ¬MeetsGap quarterToThree halfBack anchor := by
  cases hmoves with
  | refl =>
    rintro ⟨m, hm, hnone⟩
    rw [hm.unique quarterToThree_isNext, quarterToThree_firstPass] at hnone
    cases hnone
  | repeated hrepeats _ => exact absurd hrepeats (quarterToThree_finds reach).not_repeats
  | skipped hskips _ _ => exact absurd hskips (quarterToThree_finds reach).not_skips

/-- At 03:05, the search meets no gap and finds 02:45 of the next day. But the clocks are set
    back at 03:10, and then it is 02:45 for the first time on this day. -/
theorem cron_misses_first_pass :
    (∀ shift ∈ halfBack.shifts, -2 * nanosPerHour ≤ shift ∧ shift ≤ 2 * nanosPerHour) ∧
      RepeatsTwoHours halfBack (125 * nanosPerMinute) ∧
      (∃ u, 125 * nanosPerMinute < u ∧ quarterToThree.FirstPassAt halfBack u) ∧
      ∀ reach, ∃ env, CronerSpec env reach ∧
        parseStandardCron env "45 2 * * *" = some quarterToThree ∧
        env.zone "Half/Back" = halfBack ∧
        (∀ n anchor, Moves reach quarterToThree halfBack (125 * nanosPerMinute) n
          (125 * nanosPerMinute) anchor → ¬MeetsGap quarterToThree halfBack anchor) ∧
        ¬∃ x, cronNextOccurrence env quarterToThree halfBack (125 * nanosPerMinute) =
            .ok (some x) ∧
          IsLeast {u | 125 * nanosPerMinute < u ∧ quarterToThree.FirstPassAt halfBack u} x := by
  -- the first pass of 02:45 on the same day
  have htoday : 125 * nanosPerMinute < 135 * nanosPerMinute ∧
      quarterToThree.FirstPassAt halfBack (135 * nanosPerMinute) :=
    ⟨by decide, 165, by decide, by decide⟩
  have hfields : splitWhitespace "45 2 * * *".toList =
      [['4', '5'], ['2'], ['*'], ['*'], ['*']] := by decide
  refine ⟨by decide, halfBack_repeatsTwoHours, ⟨_, htoday⟩, fun reach => ?_⟩
  have hcroner := documentedEnv_croner reach "Half/Back" halfBack "45 2 * * *" quarterToThree
  refine ⟨_, hcroner, documentedEnv_parse _ _ _ _ _ hfields (by decide) (by decide +kernel),
    documentedEnv_zone _ _ _ _ _, fun _ _ => quarterToThree_no_gap, ?_⟩
  rintro ⟨x, hx, -, hleast⟩
  have hlimit : 0 < cronDstRetryLimit := by decide
  have hsome := (cronSearch_some_iff hcroner).mpr
    ⟨0, hlimit, _, .refl _, quarterToThree_finds reach⟩
  rw [cronNextOccurrence, hsome] at hx
  cases hx
  exact absurd (hleast htoday) (by decide)

end EasyJob.Scheduler
