import EasyJob.Chrono.Basic
import EasyJob.Lib.TextOrder

/-!
# Instants as texts

`DateTime::<Utc>::to_rfc3339` writes the date of the proleptic Gregorian calendar,
the time of day, as many of 0, 3, 6 or 9 digits of the fraction as it takes, and
the offset `+00:00`. A year outside 0 to 9999 has a sign.

* `toRfc3339_lt_iff`: between the years 0 and 9999 the order of the texts is the
  order of the instants.
* `toRfc3339_signed_lt`: a signed year comes before all others.
-/

namespace EasyJob.Chrono

open TextOrder

/-! ## The calendar -/

/-- Days from 0000-01-01 to the first day of a year. -/
def yearStart (year : ℤ) : ℤ :=
  365 * year + (year + 3) / 4 - (year + 99) / 100 + (year + 399) / 400

/-- The year of a day counted from 0000-01-01. -/
def yearOf (day : ℤ) : ℤ :=
  let year := 400 * day / 146097
  if day < yearStart year then year - 1
  else if yearStart (year + 1) ≤ day then year + 1
  else year

theorem yearStart_mono {y z : ℤ} (h : y ≤ z) : yearStart y ≤ yearStart z := by
  unfold yearStart
  omega

theorem yearOf_spec (day : ℤ) :
    yearStart (yearOf day) ≤ day ∧ day < yearStart (yearOf day + 1) := by
  unfold yearOf
  dsimp only
  split_ifs with hbefore hafter
  · rw [Int.sub_add_cancel]
    refine ⟨?_, hbefore⟩
    unfold yearStart at hbefore ⊢
    omega
  · refine ⟨hafter, ?_⟩
    unfold yearStart at hafter ⊢
    omega
  · omega

theorem yearOf_mono {d e : ℤ} (h : d ≤ e) : yearOf d ≤ yearOf e := by
  by_contra hlt
  have hstart := yearStart_mono (y := yearOf e + 1) (z := yearOf d) (by omega)
  have hd := (yearOf_spec d).1
  have he := (yearOf_spec e).2
  omega

def isLeapYear (year : ℤ) : Bool := year % 4 == 0 && (year % 100 != 0 || year % 400 == 0)

def monthLengths (leap : Bool) : List ℕ :=
  [31, if leap then 29 else 28, 31, 30, 31, 30, 31, 31, 30, 31, 30, 31]

theorem yearStart_succ (year : ℤ) :
    yearStart (year + 1) = yearStart year + (monthLengths (isLeapYear year)).sum := by
  have hsum : ((monthLengths (isLeapYear year)).sum : ℤ) =
      365 + if isLeapYear year then 1 else 0 := by
    cases isLeapYear year <;> rfl
  rw [hsum]
  unfold yearStart isLeapYear
  simp only [Bool.and_eq_true, Bool.or_eq_true, beq_iff_eq, bne_iff_ne]
  split_ifs with h <;> omega

/-- Month and day of the month of a day counted from the first of `month`. -/
def monthDay : (lengths : List ℕ) → (month day : ℕ) → ℕ × ℕ
  | [], month, day => (month, day + 1)
  | length :: lengths, month, day =>
    if day < length then (month, day + 1) else monthDay lengths (month + 1) (day - length)

theorem le_monthDay (lengths : List ℕ) (month day : ℕ) :
    month ≤ (monthDay lengths month day).1 := by
  induction lengths generalizing month day with
  | nil => exact le_rfl
  | cons length lengths ih =>
    rw [monthDay]
    split_ifs
    · exact le_rfl
    · exact (Nat.le_succ month).trans (ih _ _)

theorem monthDay_pos (lengths : List ℕ) (month day : ℕ) : 1 ≤ (monthDay lengths month day).2 := by
  induction lengths generalizing month day with
  | nil => exact Nat.succ_pos day
  | cons length lengths ih =>
    rw [monthDay]
    split_ifs
    · exact Nat.succ_pos day
    · exact ih _ _

theorem monthDay_bounds {lengths : List ℕ} (month day : ℕ) (hday : day < lengths.sum)
    (hlengths : ∀ length ∈ lengths, length ≤ 31) :
    (monthDay lengths month day).1 < month + lengths.length ∧
      (monthDay lengths month day).2 ≤ 31 := by
  induction lengths generalizing month day with
  | nil => cases hday
  | cons length lengths ih =>
    rw [List.sum_cons] at hday
    rw [monthDay, List.length_cons]
    split_ifs with hlt
    · have hle := hlengths length List.mem_cons_self
      dsimp only
      omega
    · obtain ⟨hmonth, hle⟩ := ih (month + 1) (day - length) (by omega)
        fun l hl => hlengths l (List.mem_cons_of_mem length hl)
      omega

/-- Of two days of a year the later one is in a later month, or later in the same month. -/
theorem monthDay_lt (lengths : List ℕ) (month : ℕ) {d e : ℕ} (h : d < e) :
    (monthDay lengths month d).1 < (monthDay lengths month e).1 ∨
      (monthDay lengths month d).1 = (monthDay lengths month e).1 ∧
        (monthDay lengths month d).2 < (monthDay lengths month e).2 := by
  induction lengths generalizing month d e with
  | nil => exact .inr ⟨rfl, Nat.succ_lt_succ h⟩
  | cons length lengths ih =>
    rw [monthDay, monthDay]
    by_cases hd : d < length
    · rw [if_pos hd]
      by_cases he : e < length
      · rw [if_pos he]
        exact .inr ⟨rfl, Nat.succ_lt_succ h⟩
      · rw [if_neg he]
        exact .inl (le_monthDay lengths (month + 1) (e - length))
    · rw [if_neg hd, if_neg (by omega)]
      exact ih (month + 1) (by omega)

/-! ## The fields of an instant -/

/-- Days from 0000-01-01 to the date of `t`. -/
def dayNumber (t : DateTime) : ℤ := dateOf t + 719528

/-- `Datelike::year`. -/
def year (t : DateTime) : ℤ := yearOf (dayNumber t)

/-- `Datelike::month` and `Datelike::day`. -/
def monthAndDay (t : DateTime) : ℕ × ℕ :=
  monthDay (monthLengths (isLeapYear (year t))) 1 (dayNumber t - yearStart (year t)).toNat

/-- `Timelike::num_seconds_from_midnight`. -/
def secondOfDay (t : DateTime) : ℕ := (timeOf t / nanosPerSec).toNat

/-- `Timelike::nanosecond`. -/
def nanosecond (t : DateTime) : ℕ := (timeOf t % nanosPerSec).toNat

section Fields

variable {t u : ℤ}

theorem dayNumber_mono (h : t ≤ u) : dayNumber t ≤ dayNumber u := by
  have hdate : t / nanosPerDay ≤ u / nanosPerDay := Int.ediv_le_ediv (by decide) h
  show t / nanosPerDay + 719528 ≤ u / nanosPerDay + 719528
  omega

theorem year_mono (h : t ≤ u) : year t ≤ year u := yearOf_mono (dayNumber_mono h)

/-- A month of the year and a day of the month. -/
theorem monthAndDay_spec (t : ℤ) : (1 ≤ (monthAndDay t).1 ∧ (monthAndDay t).1 ≤ 12) ∧
    1 ≤ (monthAndDay t).2 ∧ (monthAndDay t).2 ≤ 31 := by
  have hspec := yearOf_spec (dayNumber t)
  have hsucc := yearStart_succ (yearOf (dayNumber t))
  have hday : (dayNumber t - yearStart (year t)).toNat <
      (monthLengths (isLeapYear (year t))).sum := by
    unfold year
    omega
  have hlengths : ∀ leap, ∀ length ∈ monthLengths leap, length ≤ 31 := by decide
  obtain ⟨hmonth, hdom⟩ := monthDay_bounds 1 _ hday (hlengths _)
  have hlength : (monthLengths (isLeapYear (year t))).length = 12 := rfl
  have hfirst := le_monthDay (monthLengths (isLeapYear (year t))) 1
    (dayNumber t - yearStart (year t)).toNat
  have hpos := monthDay_pos (monthLengths (isLeapYear (year t))) 1
    (dayNumber t - yearStart (year t)).toNat
  unfold monthAndDay
  omega

theorem monthAndDay_bounds (t : ℤ) : (monthAndDay t).1 < 100 ∧ (monthAndDay t).2 < 100 := by
  have hspec := monthAndDay_spec t
  omega

theorem secondOfDay_lt (t : ℤ) : secondOfDay t < 86400 := by
  show (t % nanosPerDay / nanosPerSec).toNat < 86400
  unfold nanosPerDay nanosPerHour nanosPerMinute nanosPerSec
  omega

theorem nanosecond_lt (t : ℤ) : nanosecond t < 10 ^ 9 := by
  show (t % nanosPerDay % nanosPerSec).toNat < 10 ^ 9
  unfold nanosPerSec
  omega

/-- The later of two instants is later in the first field in which they differ. -/
theorem fields_lt (h : t < u) :
    year t < year u ∨ year t = year u ∧
      ((monthAndDay t).1 < (monthAndDay u).1 ∨ (monthAndDay t).1 = (monthAndDay u).1 ∧
        ((monthAndDay t).2 < (monthAndDay u).2 ∨ (monthAndDay t).2 = (monthAndDay u).2 ∧
          (secondOfDay t < secondOfDay u ∨
            secondOfDay t = secondOfDay u ∧ nanosecond t < nanosecond u))) := by
  rcases lt_or_eq_of_le (year_mono h.le) with hlt | hyear
  · exact .inl hlt
  refine .inr ⟨hyear, ?_⟩
  rcases lt_or_eq_of_le (dayNumber_mono h.le) with hlt | hdate
  · have hstart := (yearOf_spec (dayNumber t)).1
    have hday : (dayNumber t - yearStart (year t)).toNat <
        (dayNumber u - yearStart (year u)).toNat := by
      rw [← hyear]
      unfold year
      omega
    have hfields := monthDay_lt (monthLengths (isLeapYear (year t))) 1 hday
    unfold monthAndDay
    rw [← hyear] at hfields ⊢
    exact hfields.imp_right fun ⟨hmonth, hdom⟩ => ⟨hmonth, .inl hdom⟩
  · have hsame : monthAndDay t = monthAndDay u := by
      unfold monthAndDay
      rw [hyear, hdate]
    refine .inr ⟨by rw [hsame], .inr ⟨by rw [hsame], ?_⟩⟩
    -- the instants are on the same day
    change t / nanosPerDay + 719528 = u / nanosPerDay + 719528 at hdate
    change (t % nanosPerDay / nanosPerSec).toNat < (u % nanosPerDay / nanosPerSec).toNat ∨
      (t % nanosPerDay / nanosPerSec).toNat = (u % nanosPerDay / nanosPerSec).toNat ∧
        (t % nanosPerDay % nanosPerSec).toNat < (u % nanosPerDay % nanosPerSec).toNat
    unfold nanosPerDay nanosPerHour nanosPerMinute nanosPerSec at *
    omega

end Fields

/-! ## The text -/

/-- `n` with at least `width` digits. -/
def padded (width n : ℕ) : List Char :=
  List.replicate (width - (Nat.toDigits 10 n).length) '0' ++ Nat.toDigits 10 n

/-- The last `width` decimal digits of `n`. -/
def decimal (width n : ℕ) : List Char := digits Nat.digitChar 10 width n

def yearText (year : ℤ) : List Char :=
  if 0 ≤ year ∧ year ≤ 9999 then decimal 4 year.toNat
  else (if year < 0 then '-' else '+') :: padded 4 year.natAbs

def fractionText (nano : ℕ) : List Char :=
  if nano = 0 then []
  else if nano % 1000000 = 0 then '.' :: decimal 3 (nano / 1000000)
  else if nano % 1000 = 0 then '.' :: decimal 6 (nano / 1000)
  else '.' :: decimal 9 nano

/-- The part of the text after the year. -/
def afterYear (t : DateTime) : List Char :=
  ['-'] ++ (decimal 2 (monthAndDay t).1 ++ (['-'] ++ (decimal 2 (monthAndDay t).2 ++
    (['T'] ++ (decimal 2 (secondOfDay t / 3600) ++ ([':'] ++ (decimal 2 (secondOfDay t / 60 % 60) ++
      ([':'] ++ (decimal 2 (secondOfDay t % 60) ++
        (fractionText (nanosecond t) ++ ['+', '0', '0', ':', '0', '0']))))))))))

/-- `DateTime::<Utc>::to_rfc3339`. -/
def toRfc3339 (t : DateTime) : String := String.ofList (yearText (year t) ++ afterYear t)

example : toRfc3339 951782400123000000 = "2000-02-29T00:00:00.123+00:00" := by decide

/-! ## The order of the texts -/

@[simp] theorem length_decimal (width n : ℕ) : (decimal width n).length = width :=
  length_digits width n

theorem decimal_lt {width m n : ℕ} (hmn : m < n) (hn : n < 10 ^ width) :
    decimal width m < decimal width n :=
  digits_lt_digits (by omega) (fun d e hde he => digitChar_lt d e hde (by omega)) hmn hn

theorem zero_le_of_mem_decimal {width n : ℕ} {c : Char} (h : c ∈ decimal width n) : '0' ≤ c := by
  obtain ⟨d, hd, rfl⟩ := mem_digits (by omega) h
  have hle : ∀ d < 10, '0' ≤ Nat.digitChar d := by decide
  exact hle d hd

theorem field_lt {width m n : ℕ} {s x y : List Char} (hn : n < 10 ^ width)
    (h : m < n ∨ m = n ∧ x < y) :
    decimal width m ++ (s ++ x) < decimal width n ++ (s ++ y) := by
  have hlen : (decimal width m).length = (decimal width n).length := by
    rw [length_decimal, length_decimal]
  rw [append_append_lt_iff hlen, append_lt_append_iff hlen]
  rcases h with hlt | ⟨rfl, hlt⟩
  · exact .inl (decimal_lt hlt hn)
  · exact .inr ⟨rfl, hlt⟩

/-- The digits of a fraction, with the zeros that are not written. -/
theorem fractionText_eq {nano : ℕ} (hpos : nano ≠ 0) :
    ∃ width k n, fractionText nano = '.' :: decimal width n ∧ width + k = 9 ∧
      decimal width n ++ List.replicate k '0' = decimal 9 nano := by
  have hpad : ∀ width k n, nano = n * 10 ^ k →
      decimal width n ++ List.replicate k '0' = decimal (width + k) nano := by
    rintro width k n rfl
    exact (digits_mul_pow (by omega) width k n).symm
  unfold fractionText
  rw [if_neg hpos]
  split_ifs with hmillis hmicros
  · exact ⟨3, 6, _, rfl, rfl, hpad 3 6 _ (by omega)⟩
  · exact ⟨6, 3, _, rfl, rfl, hpad 6 3 _ (by omega)⟩
  · exact ⟨9, 0, _, rfl, rfl, hpad 9 0 _ (by omega)⟩

theorem fraction_lt {m n : ℕ} {offset offset' : List Char} (hmn : m < n) (hn : n < 10 ^ 9) :
    fractionText m ++ '+' :: offset < fractionText n ++ '+' :: offset' := by
  obtain ⟨width, k, q, htext, hwidth, hzeros⟩ := fractionText_eq (show n ≠ 0 by omega)
  rw [htext, List.cons_append]
  by_cases hzero : m = 0
  · -- without a fraction the offset follows, and '+' comes before '.'
    rw [hzero]
    exact List.cons_lt_cons_iff.mpr (.inl (by decide))
  · obtain ⟨width', k', q', htext', hwidth', hzeros'⟩ := fractionText_eq hzero
    rw [htext', List.cons_append]
    refine List.cons_lt_cons_iff.mpr (.inr ⟨rfl, ?_⟩)
    apply append_lt_append_of_padded '0' (k := k') (l := k)
    · exact fun c => zero_le_of_mem_decimal
    · exact fun c => zero_le_of_mem_decimal
    · decide
    · rw [length_decimal, length_decimal, hwidth, hwidth']
    · rw [hzeros, hzeros']
      exact decimal_lt hmn hn

section Order

variable {t u : ℤ}

theorem afterYear_lt
    (h : (monthAndDay t).1 < (monthAndDay u).1 ∨ (monthAndDay t).1 = (monthAndDay u).1 ∧
      ((monthAndDay t).2 < (monthAndDay u).2 ∨ (monthAndDay t).2 = (monthAndDay u).2 ∧
        (secondOfDay t < secondOfDay u ∨
          secondOfDay t = secondOfDay u ∧ nanosecond t < nanosecond u))) :
    afterYear t < afterYear u := by
  obtain ⟨hmonth, hday⟩ := monthAndDay_bounds u
  have hsecond := secondOfDay_lt u
  unfold afterYear
  refine List.append_left_lt ?_
  refine field_lt hmonth (h.imp_right (And.imp_right fun h => ?_))
  refine field_lt hday (h.imp_right (And.imp_right fun h => ?_))
  refine field_lt (by omega) ?_
  rcases lt_trichotomy (secondOfDay t / 3600) (secondOfDay u / 3600) with hlt | heq | hgt
  · exact .inl hlt
  · refine .inr ⟨heq, field_lt (by omega) ?_⟩
    rcases lt_trichotomy (secondOfDay t / 60 % 60) (secondOfDay u / 60 % 60) with hlt | heq | hgt
    · exact .inl hlt
    · refine .inr ⟨heq, ?_⟩
      refine field_lt (s := []) (by omega) ?_
      rcases h with hlt | ⟨heq, hnano⟩
      · exact .inl (by omega)
      · exact .inr ⟨by rw [heq], fraction_lt hnano (nanosecond_lt u)⟩
    · omega
  · omega

theorem toRfc3339_lt (ht : 0 ≤ year t) (hu : year u ≤ 9999) (h : t < u) :
    toRfc3339 t < toRfc3339 u := by
  have hyear := year_mono h.le
  rw [String.lt_iff, toRfc3339, toRfc3339, String.toList_ofList, String.toList_ofList, yearText,
    yearText, if_pos ⟨ht, by omega⟩, if_pos ⟨by omega, hu⟩]
  refine field_lt (s := []) (by omega) ?_
  rcases fields_lt h with hlt | ⟨heq, hrest⟩
  · exact .inl (by omega)
  · exact .inr ⟨by rw [heq], afterYear_lt hrest⟩

/-- A signed year comes before the digits of the others. -/
theorem toRfc3339_signed_lt (ht : year t < 0 ∨ 9999 < year t) (hu : 0 ≤ year u ∧ year u ≤ 9999) :
    toRfc3339 t < toRfc3339 u := by
  rw [String.lt_iff, toRfc3339, toRfc3339, String.toList_ofList, String.toList_ofList, yearText,
    yearText, if_neg (by omega), if_pos hu]
  have hlength : (decimal 4 (year u).toNat).length = 4 := length_decimal _ _
  cases hdigits : decimal 4 (year u).toNat with
  | nil =>
    rw [hdigits] at hlength
    cases hlength
  | cons c rest =>
    have hc : '0' ≤ c := zero_le_of_mem_decimal (hdigits ▸ List.mem_cons_self)
    refine List.cons_lt_cons_iff.mpr (.inl (lt_of_lt_of_le ?_ hc))
    split_ifs <;> decide

/-- Up to the year 9999 the texts are in the order of the instants. -/
theorem toRfc3339_lt_iff (ht : 0 ≤ year t ∧ year t ≤ 9999) (hu : year u ≤ 9999) :
    toRfc3339 t < toRfc3339 u ↔ t < u := by
  constructor
  · intro h
    by_contra hle
    have hut : u ≤ t := not_lt.mp hle
    rcases lt_or_eq_of_le hut with hlt | rfl
    · by_cases hneg : year u < 0
      · exact String.lt_asymm h (toRfc3339_signed_lt (.inl hneg) ht)
      · exact String.lt_asymm h (toRfc3339_lt (not_lt.mp hneg) ht.2 hlt)
    · exact String.lt_irrefl _ h
  · exact toRfc3339_lt ht.1 hu

/-- No text is before one of a year from 10000 on. -/
theorem not_toRfc3339_lt (ht : 0 ≤ year t ∧ year t ≤ 9999) (hu : 9999 < year u) :
    ¬toRfc3339 t < toRfc3339 u :=
  String.lt_asymm (toRfc3339_signed_lt (.inr hu) ht)

/-- Different instants have different texts. -/
theorem toRfc3339_injective (ht : 0 ≤ year t ∧ year t ≤ 9999) (hu : 0 ≤ year u ∧ year u ≤ 9999)
    (h : toRfc3339 t = toRfc3339 u) : t = u := by
  rcases lt_trichotomy t u with hlt | heq | hgt
  · exact absurd h (String.ne_of_lt (toRfc3339_lt ht.1 hu.2 hlt))
  · exact heq
  · exact absurd h.symm (String.ne_of_lt (toRfc3339_lt hu.1 ht.2 hgt))

end Order

end EasyJob.Chrono
