import Mathlib.Algebra.Order.Field.Power
import Mathlib.Algebra.Order.Floor.Semiring
import Mathlib.Algebra.Ring.Parity
import Mathlib.Data.Int.Log
import Mathlib.Data.Nat.Factorization.Basic
import Mathlib.Data.Rat.Floor
import Mathlib.Tactic.FieldSimp
import Mathlib.Tactic.Linarith
import Mathlib.Tactic.NormNum

/-!
# Rounding to binary64

The binary64 numbers that are not negative, and the one that is nearest to a rational, of two
the one with the even significand; from the middle above the largest number on it is infinity.
The product and the quotient with an integer are rounded once.

* `round_of_isDouble`: a binary64 number is rounded to itself.
* `IsDouble.of_mul`: a factor of an integer that is a binary64 number is one.
-/

namespace Binary64

/-! ## Numbers -/

/-- A significand of 53 bits and an exponent. -/
def IsDouble (q : ℚ) : Prop :=
  ∃ (m : ℕ) (e : ℤ), m < 2 ^ 53 ∧ -1074 ≤ e ∧ e ≤ 971 ∧ q = m * (2 : ℚ) ^ e

/-- A number that is not negative and not NaN. -/
inductive Number
  | finite (q : ℚ) (h : IsDouble q)
  | infinity
  deriving DecidableEq

theorem IsDouble.natCast {n : ℕ} (h : n < 2 ^ 53) : IsDouble n :=
  ⟨n, 0, h, by norm_num, by norm_num, by simp⟩

/-- A small integer. -/
def Number.ofNat (n : ℕ) (h : n < 2 ^ 53) : Number := .finite n (.natCast h)

/-! ## Rounding -/

/-- The exponent of the last bit of the significand. -/
def exponent (q : ℚ) : ℤ := max (Int.log 2 q - 52) (-1074)

/-- The nearest integer, of two the even one. -/
def roundEven (x : ℚ) : ℕ :=
  let n := ⌊x⌋₊
  if x - n < 1 / 2 ∨ x - n = 1 / 2 ∧ n % 2 = 0 then n else n + 1

theorem roundEven_natCast (n : ℕ) : roundEven n = n := by
  unfold roundEven
  dsimp only
  rw [Nat.floor_natCast, sub_self]
  exact if_pos (.inl (by norm_num))

theorem floor_le_roundEven (x : ℚ) : ⌊x⌋₊ ≤ roundEven x := by
  unfold roundEven
  dsimp only
  split_ifs <;> omega

theorem roundEven_le_succ_floor (x : ℚ) : roundEven x ≤ ⌊x⌋₊ + 1 := by
  unfold roundEven
  dsimp only
  split_ifs <;> omega

/-- The significand before it is put together with the exponent. -/
def significand (q : ℚ) : ℕ := roundEven (q / 2 ^ exponent q)

theorem div_lt_of_exponent (q : ℚ) : q / 2 ^ exponent q < 2 ^ 53 := by
  have hpow : (0 : ℚ) < 2 ^ exponent q := zpow_pos (by norm_num) _
  have hlog : q < ((2 : ℕ) : ℚ) ^ (Int.log 2 q + 1) := Int.lt_zpow_succ_log_self (by norm_num) q
  have hle : (2 : ℚ) ^ (Int.log 2 q + 1) ≤ 2 ^ (exponent q + 53) := by
    apply zpow_le_zpow_right₀ (by norm_num)
    unfold exponent
    omega
  rw [div_lt_iff₀ hpow]
  calc q < (2 : ℚ) ^ (Int.log 2 q + 1) := by exact_mod_cast hlog
    _ ≤ 2 ^ (exponent q + 53) := hle
    _ = 2 ^ 53 * 2 ^ exponent q := by rw [zpow_add₀ (by norm_num), mul_comm]; norm_cast

theorem significand_le (q : ℚ) : significand q ≤ 2 ^ 53 := by
  have hfloor : ⌊q / 2 ^ exponent q⌋₊ < 2 ^ 53 := by
    rw [Nat.floor_lt' (by norm_num)]
    exact_mod_cast div_lt_of_exponent q
  have hle := roundEven_le_succ_floor (q / 2 ^ exponent q)
  unfold significand
  omega

/-- The error is at most one bit. -/
theorem significand_mul_le {q : ℚ} (h : 0 ≤ q) :
    (significand q : ℚ) * 2 ^ exponent q ≤ q + 2 ^ exponent q := by
  have hpow : (0 : ℚ) < 2 ^ exponent q := zpow_pos (by norm_num) _
  have hround : (significand q : ℚ) ≤ ⌊q / 2 ^ exponent q⌋₊ + 1 := by
    exact_mod_cast roundEven_le_succ_floor _
  have hfloor : (⌊q / 2 ^ exponent q⌋₊ : ℚ) ≤ q / 2 ^ exponent q :=
    Nat.floor_le (div_nonneg h hpow.le)
  calc (significand q : ℚ) * 2 ^ exponent q
      ≤ (q / 2 ^ exponent q + 1) * 2 ^ exponent q :=
        mul_le_mul_of_nonneg_right (by linarith) hpow.le
    _ = q + 2 ^ exponent q := by rw [add_mul, div_mul_cancel₀ _ (ne_of_gt hpow), one_mul]

/-- The significand of a number that is not small has all its bits. -/
theorem le_significand {q : ℚ} (h : -52 < exponent q) : 2 ^ 52 ≤ significand q := by
  have hpow : (0 : ℚ) < 2 ^ exponent q := zpow_pos (by norm_num) _
  have hexp : exponent q = Int.log 2 q - 52 := by
    unfold exponent at h ⊢
    omega
  have hpos : 0 < q := by
    by_contra hneg
    rw [hexp, Int.log_of_right_le_zero 2 (not_lt.mp hneg)] at h
    omega
  have hlog : ((2 : ℕ) : ℚ) ^ Int.log 2 q ≤ q := Int.zpow_log_le_self (by norm_num) hpos
  have hquot : (2 : ℚ) ^ 52 ≤ q / 2 ^ exponent q := by
    rw [le_div_iff₀ hpow]
    calc (2 : ℚ) ^ 52 * 2 ^ exponent q = 2 ^ Int.log 2 q := by
          rw [hexp, ← zpow_natCast, ← zpow_add₀ (by norm_num)]
          congr 1
          push_cast
          ring
      _ ≤ q := by exact_mod_cast hlog
  have hfloor : 2 ^ 52 ≤ ⌊q / 2 ^ exponent q⌋₊ := Nat.le_floor (by exact_mod_cast hquot)
  exact le_trans hfloor (floor_le_roundEven _)

/-- The significand and its exponent make a binary64 number, if it is not too large. -/
theorem isDouble_significand {q : ℚ}
    (h : (significand q : ℚ) * 2 ^ exponent q < 2 ^ (1024 : ℤ)) :
    IsDouble (significand q * 2 ^ exponent q) := by
  have hpow : (0 : ℚ) < 2 ^ exponent q := zpow_pos (by norm_num) _
  have hlow : -1074 ≤ exponent q := le_max_right _ _
  have hexp : exponent q ≤ 971 := by
    by_contra hlarge
    have hbits : ((2 ^ 52 : ℕ) : ℚ) ≤ significand q := by
      exact_mod_cast le_significand (q := q) (by omega)
    have hle : (2 : ℚ) ^ (1024 : ℤ) ≤ significand q * 2 ^ exponent q := by
      calc (2 : ℚ) ^ (1024 : ℤ) ≤ 2 ^ (52 + exponent q) :=
            zpow_le_zpow_right₀ (by norm_num) (by omega)
        _ = ((2 ^ 52 : ℕ) : ℚ) * 2 ^ exponent q := by
            rw [zpow_add₀ (by norm_num)]
            norm_cast
        _ ≤ significand q * 2 ^ exponent q := mul_le_mul_of_nonneg_right hbits hpow.le
    exact absurd h (not_lt.mpr hle)
  rcases Nat.lt_or_ge (significand q) (2 ^ 53) with hlt | hge
  · exact ⟨significand q, exponent q, hlt, hlow, hexp, rfl⟩
  · -- The significand was rounded up to the next power of two.
    have heq : significand q = 2 ^ 53 := le_antisymm (significand_le q) hge
    have hvalue : (significand q : ℚ) * 2 ^ exponent q = 2 ^ (53 + exponent q) := by
      rw [heq, zpow_add₀ (by norm_num)]
      norm_cast
    have hsmall : 53 + exponent q < 1024 := by
      rw [hvalue] at h
      exact (zpow_lt_zpow_iff_right₀ (by norm_num)).mp h
    refine ⟨2 ^ 52, exponent q + 1, by norm_num, by omega, by omega, ?_⟩
    rw [hvalue, show 53 + exponent q = 52 + (exponent q + 1) by ring, zpow_add₀ (by norm_num)]
    norm_cast

/-- The nearest number. -/
def round (q : ℚ) : Number :=
  if h : (significand q : ℚ) * 2 ^ exponent q < 2 ^ (1024 : ℤ) then
    .finite (significand q * 2 ^ exponent q) (isDouble_significand h)
  else .infinity

theorem IsDouble.lt {q : ℚ} (h : IsDouble q) : q < 2 ^ (1024 : ℤ) := by
  obtain ⟨m, e, hm, -, he, rfl⟩ := h
  have hm' : (m : ℚ) < 2 ^ (53 : ℤ) := by exact_mod_cast hm
  calc (m : ℚ) * 2 ^ e < 2 ^ (53 : ℤ) * 2 ^ e :=
        mul_lt_mul_of_pos_right hm' (zpow_pos (by norm_num) _)
    _ = 2 ^ (53 + e) := (zpow_add₀ (by norm_num) _ _).symm
    _ ≤ 2 ^ (1024 : ℤ) := zpow_le_zpow_right₀ (by norm_num) (by omega)

/-- The last bit of a binary64 number has at least the exponent that rounding would give it. -/
theorem exponent_le {m : ℕ} {e : ℤ} (hm : m < 2 ^ 53) (he : -1074 ≤ e) :
    exponent (m * (2 : ℚ) ^ e) ≤ e ∨ m = 0 := by
  rcases Nat.eq_zero_or_pos m with hzero | hpos
  · exact .inr hzero
  · left
    have hq : (0 : ℚ) < m * 2 ^ e := mul_pos (by exact_mod_cast hpos) (zpow_pos (by norm_num) _)
    have hlt : (m : ℚ) * 2 ^ e < ((2 : ℕ) : ℚ) ^ (53 + e) := by
      have hm' : (m : ℚ) < 2 ^ (53 : ℤ) := by exact_mod_cast hm
      rw [Nat.cast_ofNat, zpow_add₀ (by norm_num)]
      exact mul_lt_mul_of_pos_right hm' (zpow_pos (by norm_num) _)
    have hlog : Int.log 2 ((m : ℚ) * 2 ^ e) < 53 + e :=
      (Int.lt_zpow_iff_log_lt (by norm_num) hq).mp hlt
    unfold exponent
    omega

theorem significand_mul_of_isDouble {q : ℚ} (h : IsDouble q) :
    (significand q : ℚ) * 2 ^ exponent q = q := by
  obtain ⟨m, e, hm, hlow, -, rfl⟩ := h
  rcases exponent_le hm hlow with he | hzero
  · obtain ⟨k, hk⟩ := Int.eq_ofNat_of_zero_le (sub_nonneg.mpr he)
    set e' := exponent (m * (2 : ℚ) ^ e) with he'
    have hquot : (m : ℚ) * 2 ^ e / 2 ^ e' = ((m * 2 ^ k : ℕ) : ℚ) := by
      rw [mul_div_assoc, ← zpow_sub₀ (by norm_num), hk]
      push_cast
      rfl
    rw [significand, ← he', hquot, roundEven_natCast, ← hquot,
      div_mul_cancel₀ _ (ne_of_gt (zpow_pos (by norm_num) _))]
  · have hround : significand (m * (2 : ℚ) ^ e) = 0 := by
      rw [significand, hzero, Nat.cast_zero, zero_mul, zero_div]
      exact roundEven_natCast 0
    rw [hround, hzero]
    simp

theorem round_of_isDouble {q : ℚ} (h : IsDouble q) : round q = .finite q h := by
  have hvalue := significand_mul_of_isDouble h
  unfold round
  rw [dif_pos (by rw [hvalue]; exact h.lt)]
  congr 1

/-! ## Integers -/

/-- The odd part of an integer `m * 2 ^ e` divides `m`. -/
theorem odd_dvd_of_eq_mul_zpow {n o m : ℕ} {e : ℤ} (hodd : Odd o) (hdvd : o ∣ n)
    (h : (n : ℚ) = m * (2 : ℚ) ^ e) : o ∣ m := by
  obtain ⟨i, rfl | rfl⟩ := Int.eq_nat_or_neg e
  · have hnat : n = m * 2 ^ i := by
      rw [zpow_natCast] at h
      exact_mod_cast h
    have hcop : Nat.Coprime o (2 ^ i) := Nat.Coprime.pow_right i (Nat.coprime_two_right.mpr hodd)
    exact hcop.dvd_of_dvd_mul_right (hnat ▸ hdvd)
  · have hnat : m = n * 2 ^ i := by
      have hpow : (2 : ℚ) ^ i ≠ 0 := pow_ne_zero i (by norm_num)
      rw [zpow_neg, zpow_natCast, ← div_eq_mul_inv, eq_div_iff hpow] at h
      exact_mod_cast h.symm
    exact hnat ▸ hdvd.mul_right _

/-- An odd number of 53 bits times a power of two that is not too large. -/
theorem IsDouble.of_odd {j o : ℕ} (ho : o < 2 ^ 53) (h : 2 ^ j * o < 2 ^ 1024) :
    IsDouble ((2 ^ j * o : ℕ) : ℚ) := by
  rcases Nat.lt_or_ge 971 j with hj | hj
  · obtain ⟨i, rfl⟩ := Nat.exists_eq_add_of_lt hj
    refine ⟨2 ^ (i + 1) * o, 971, ?_, by norm_num, le_refl _, ?_⟩
    · have hsplit : 2 ^ (971 + i + 1) * o = 2 ^ 971 * (2 ^ (i + 1) * o) := by
        rw [← mul_assoc, ← pow_add, add_assoc]
      have hmax : 2 ^ (971 + 53) = 2 ^ 971 * 2 ^ 53 := pow_add 2 971 53
      rw [hsplit, show 1024 = 971 + 53 from rfl, hmax] at h
      exact Nat.lt_of_mul_lt_mul_left h
    · have hpow : (2 : ℚ) ^ (971 + i + 1) = 2 ^ 971 * 2 ^ (i + 1) := by rw [← pow_add, add_assoc]
      rw [show (971 : ℤ) = ((971 : ℕ) : ℤ) from rfl, zpow_natCast, Nat.cast_mul, Nat.cast_pow,
        Nat.cast_ofNat, hpow, Nat.cast_mul, Nat.cast_pow, Nat.cast_ofNat]
      generalize (2 : ℚ) ^ 971 = c
      ring
  · refine ⟨o, j, ho, by omega, by omega, ?_⟩
    rw [zpow_natCast]
    push_cast
    ring

/-- A factor of an integer that is a binary64 number is one: its odd part is no larger. -/
theorem IsDouble.of_mul {k u : ℕ} (hu : 0 < u) (h : IsDouble ((k * u : ℕ) : ℚ)) :
    IsDouble (k : ℚ) := by
  rcases Nat.eq_zero_or_pos k with rfl | hk
  · exact IsDouble.natCast (by norm_num)
  have hlt : k * u < 2 ^ 1024 := by
    have hmax := h.lt
    rw [show (1024 : ℤ) = ((1024 : ℕ) : ℤ) from rfl, zpow_natCast] at hmax
    exact_mod_cast hmax
  obtain ⟨m, e, hm, -, -, hq⟩ := h
  have hmpos : m ≠ 0 := by
    rintro rfl
    rw [Nat.cast_zero, zero_mul, Nat.cast_eq_zero] at hq
    exact absurd hq (ne_of_gt (Nat.mul_pos hk hu))
  obtain ⟨j, o, hodd, rfl⟩ := Nat.exists_eq_two_pow_mul_odd (ne_of_gt hk)
  have hdvd : o ∣ m := odd_dvd_of_eq_mul_zpow hodd ((Dvd.intro_left _ rfl).mul_right u) hq
  have ho : o < 2 ^ 53 := lt_of_le_of_lt (Nat.le_of_dvd (Nat.pos_of_ne_zero hmpos) hdvd) hm
  exact .of_odd ho (lt_of_le_of_lt (Nat.le_mul_of_pos_right _ hu) hlt)

/-! ## Products and quotients with an integer -/

/-- `x * n` for a positive integer `n`. -/
def Number.mul (x : Number) (n : ℕ) : Number :=
  match x with
  | .finite q _ => round (q * n)
  | .infinity => .infinity

/-- `x / n` for a positive integer `n`. -/
def Number.div (x : Number) (n : ℕ) : Number :=
  match x with
  | .finite q _ => round (q / n)
  | .infinity => .infinity

/-- `Math.round`: the nearest integer, of two the larger one. -/
def Number.roundInt : Number → ℕ∞
  | .finite q _ => ⌊q + 1 / 2⌋₊
  | .infinity => ⊤

theorem roundInt_natCast {k : ℕ} (h : IsDouble (k : ℚ)) : (Number.finite k h).roundInt = k := by
  have hfloor : ⌊(k : ℚ) + 1 / 2⌋₊ = k := by
    rw [Nat.floor_eq_iff (by positivity)]
    constructor <;> linarith
  rw [Number.roundInt, hfloor]

/-- At most one is rounded to at most one. -/
theorem roundInt_round_le_one {q : ℚ} (hpos : 0 < q) (hle : q ≤ 1) : (round q).roundInt ≤ 1 := by
  have hlog : Int.log 2 q ≤ 0 := by
    rw [← Int.log_one_right (R := ℚ) 2]
    exact Int.log_mono_right hpos hle
  have hbit : (2 : ℚ) ^ exponent q ≤ 1 / 4 := by
    calc (2 : ℚ) ^ exponent q ≤ 2 ^ (-2 : ℤ) := by
          apply zpow_le_zpow_right₀ (by norm_num)
          unfold exponent
          omega
      _ = 1 / 4 := by norm_num
  have hvalue : (significand q : ℚ) * 2 ^ exponent q ≤ 5 / 4 := by
    have := significand_mul_le hpos.le
    linarith
  have hsmall : (significand q : ℚ) * 2 ^ exponent q < 2 ^ (1024 : ℤ) := by
    have htwo : (2 : ℚ) ^ (1 : ℤ) ≤ 2 ^ (1024 : ℤ) :=
      zpow_le_zpow_right₀ (by norm_num) (by norm_num)
    rw [zpow_one] at htwo
    exact lt_of_le_of_lt hvalue (lt_of_lt_of_le (by norm_num) htwo)
  have hfloor : ⌊(significand q : ℚ) * 2 ^ exponent q + 1 / 2⌋₊ < 2 := by
    rw [Nat.floor_lt' (by norm_num)]
    push_cast
    linarith
  rw [round, dif_pos hsmall, Number.roundInt]
  exact_mod_cast Nat.le_of_lt_succ hfloor

/-- The quotient of a multiple is exact. -/
theorem div_of_mul {k u : ℕ} (hu : 0 < u) (h : IsDouble ((k * u : ℕ) : ℚ)) :
    (Number.finite _ h).div u = .finite k (h.of_mul hu) := by
  have hne : (u : ℚ) ≠ 0 := by exact_mod_cast ne_of_gt hu
  have hquot : ((k * u : ℕ) : ℚ) / u = k := by
    rw [Nat.cast_mul, mul_div_cancel_right₀ _ hne]
  rw [Number.div, hquot, round_of_isDouble (h.of_mul hu)]

end Binary64
