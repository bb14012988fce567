import EasyJob.Domain.Task
import EasyJob.Lib.TextOrder

/-!
# Printed ids

`displayUuid` writes the 32 hexadecimal digits of an id. An id of 128 bits can be
read back from them, so different ids have different texts.

* `displayUuid_injective`
* `displayUuid_lt_iff`: the texts are in the order of the ids.
-/

namespace EasyJob.Domain

open TextOrder

/-- An id as the source has it, with 128 bits. -/
structure Uuid.InRange (u : Uuid) : Prop where
  lt : u < 16 ^ 32

/-! ## The value of a text -/

def hexDigit (c : Char) : ℕ := if c.isDigit then c.toNat - '0'.toNat else c.toNat - 'a'.toNat + 10

/-- The number that the hexadecimal digits of a text stand for. -/
def hexValue (digits : List Char) : ℕ := digits.foldl (fun n c => 16 * n + hexDigit c) 0

theorem hexDigit_digitChar : ∀ n < 16, hexDigit (Nat.digitChar n) = n := by decide

theorem digitChar_ne_hyphen : ∀ n < 16, Nat.digitChar n ≠ '-' := by decide

theorem hexValue_toDigits (n : ℕ) : hexValue (Nat.toDigits 16 n) = n := by
  induction n using Nat.strong_induction_on with
  | _ n ih =>
    rcases Nat.lt_or_ge n 16 with hlt | hge
    · rw [Nat.toDigits_of_lt_base hlt]
      show 16 * 0 + hexDigit (Nat.digitChar n) = n
      rw [hexDigit_digitChar n hlt]
      omega
    · have hmod := hexDigit_digitChar (n % 16) (Nat.mod_lt n (by omega))
      rw [Nat.toDigits_of_base_le (by omega) hge, hexValue, List.foldl_append]
      show 16 * hexValue (Nat.toDigits 16 (n / 16)) + hexDigit (Nat.digitChar (n % 16)) = n
      rw [ih (n / 16) (by omega), hmod]
      omega

theorem hexValue_zeros (k : ℕ) (digits : List Char) :
    hexValue (List.replicate k '0' ++ digits) = hexValue digits := by
  induction k with
  | zero => rfl
  | succ k ih => exact ih

theorem ne_hyphen_of_mem_toDigits (n : ℕ) : ∀ c ∈ Nat.toDigits 16 n, c ≠ '-' := by
  induction n using Nat.strong_induction_on with
  | _ n ih =>
    intro c hc
    rcases Nat.lt_or_ge n 16 with hlt | hge
    · rw [Nat.toDigits_of_lt_base hlt, List.mem_singleton] at hc
      rw [hc]
      exact digitChar_ne_hyphen n hlt
    · rw [Nat.toDigits_of_base_le (by omega) hge, List.mem_append, List.mem_singleton] at hc
      rcases hc with hc | hc
      · exact ih (n / 16) (by omega) c hc
      · rw [hc]
        exact digitChar_ne_hyphen _ (Nat.mod_lt n (by omega))

/-! ## Reading an id back -/

/-- The 32 digits of an id in range. -/
theorem digits_of_inRange {u : Uuid} (h : u.InRange) :
    ((List.replicate 32 '0' ++ Nat.toDigits 16 u).reverse.take 32).reverse =
      List.replicate (32 - (Nat.toDigits 16 u).length) '0' ++ Nat.toDigits 16 u := by
  have hlength : (Nat.toDigits 16 u).length ≤ 32 :=
    (Nat.length_toDigits_le_iff (by omega) (by omega)).mpr h.lt
  rw [List.reverse_take, List.reverse_reverse, List.length_reverse, List.length_append,
    List.length_replicate, List.drop_append_of_le_length (by rw [List.length_replicate]; omega),
    List.drop_replicate]
  congr 2
  omega

/-- The digits without the hyphens. -/
theorem filter_displayUuid {u : Uuid} (h : u.InRange) :
    (displayUuid u).toList.filter (· ≠ '-') =
      List.replicate (32 - (Nat.toDigits 16 u).length) '0' ++ Nat.toDigits 16 u := by
  have hdigits := digits_of_inRange h
  set digits := ((List.replicate 32 '0' ++ Nat.toDigits 16 u).reverse.take 32).reverse
  have hne : ∀ c ∈ digits, c ≠ '-' := by
    intro c hc
    rw [hdigits] at hc
    rcases List.mem_append.mp hc with hc | hc
    · rw [(List.mem_replicate.mp hc).2]
      decide
    · exact ne_hyphen_of_mem_toDigits u c hc
  have hkeep (l : List Char) (hl : l.Sublist digits) : l.filter (· ≠ '-') = l := by
    rw [List.filter_eq_self]
    intro c hc
    simpa using hne c (hl.subset hc)
  have hgroup (k n : ℕ) : ((digits.drop k).take n).filter (· ≠ '-') = (digits.drop k).take n :=
    hkeep _ ((List.take_sublist n _).trans (List.drop_sublist k _))
  have htext : (displayUuid u).toList = (digits.drop 0).take 8 ++ ['-'] ++ (digits.drop 8).take 4 ++
      ['-'] ++ (digits.drop 12).take 4 ++ ['-'] ++ (digits.drop 16).take 4 ++ ['-'] ++
      (digits.drop 20).take 12 := by
    rw [displayUuid, String.toList_ofList]
  have hlength : digits.length = 32 := by simp [digits]
  have hhyphen : ['-'].filter (· ≠ '-') = [] := rfl
  rw [htext, ← hdigits]
  simp only [List.filter_append, hgroup, hhyphen, List.append_nil]
  -- The groups follow each other.
  have hjoin (k n m : ℕ) (h : m = k + n) :
      (digits.drop k).take n ++ digits.drop m = digits.drop k := by
    rw [h, ← List.drop_drop, List.take_append_drop]
  have hlast : (digits.drop 20).take 12 = digits.drop 20 :=
    List.take_of_length_le (by rw [List.length_drop, hlength])
  rw [hlast, List.append_assoc, List.append_assoc, List.append_assoc, hjoin 16 4 20 rfl,
    hjoin 12 4 16 rfl, hjoin 8 4 12 rfl, hjoin 0 8 8 rfl, List.drop_zero]

theorem hexValue_displayUuid {u : Uuid} (h : u.InRange) :
    hexValue ((displayUuid u).toList.filter (· ≠ '-')) = u := by
  rw [filter_displayUuid h, hexValue_zeros, hexValue_toDigits]

theorem displayUuid_injective {u v : Uuid} (hu : u.InRange) (hv : v.InRange)
    (h : displayUuid u = displayUuid v) : u = v := by
  rw [← hexValue_displayUuid hu, h, hexValue_displayUuid hv]

/-! ## The order of the texts -/

/-- The digits in groups of 8-4-4-4-12. -/
theorem toList_displayUuid {u : Uuid} (h : u.InRange) : (displayUuid u).toList =
    let digits := digits Nat.digitChar 16 32 u
    digits.take 8 ++ (['-'] ++ ((digits.drop 8).take 4 ++
      (['-'] ++ (((digits.drop 8).drop 4).take 4 ++
        (['-'] ++ ((((digits.drop 8).drop 4).drop 4).take 4 ++
          (['-'] ++ (((digits.drop 8).drop 4).drop 4).drop 4))))))) := by
  rw [displayUuid, String.toList_ofList, digits_of_inRange h,
    ← digits_eq_toDigits (by omega) 31 h.lt]
  dsimp only
  have hlast : ((digits Nat.digitChar 16 32 u).drop 20).take 12 =
      (digits Nat.digitChar 16 32 u).drop 20 :=
    List.take_of_length_le (by rw [List.length_drop, length_digits])
  simp only [hlast, List.drop_zero, List.drop_drop, List.append_assoc]

theorem displayUuid_lt {u v : Uuid} (hv : v.InRange) (h : u < v) :
    displayUuid u < displayUuid v := by
  have hu : Uuid.InRange u := ⟨h.trans hv.lt⟩
  have hdigits : digits Nat.digitChar 16 32 u < digits Nat.digitChar 16 32 v :=
    digits_lt_digits (by omega) digitChar_lt h hv.lt
  rw [String.lt_iff, toList_displayUuid hu, toList_displayUuid hv]
  dsimp only
  generalize hx : digits Nat.digitChar 16 32 u = x at hdigits
  generalize hy : digits Nat.digitChar 16 32 v = y at hdigits
  have hlen : x.length = y.length := by rw [← hx, ← hy, length_digits, length_digits]
  refine (take_append_lt_iff hlen _ (take_append_lt_iff ?_ _ (take_append_lt_iff ?_ _
    (take_append_lt_iff ?_ _ Iff.rfl)))).mpr hdigits
  all_goals simp [hlen]

theorem displayUuid_lt_iff {u v : Uuid} (hu : u.InRange) (hv : v.InRange) :
    displayUuid u < displayUuid v ↔ u < v := by
  refine ⟨fun h => ?_, displayUuid_lt hv⟩
  rcases Nat.lt_trichotomy u v with hlt | rfl | hgt
  · exact hlt
  · exact absurd h (String.lt_irrefl _)
  · exact absurd h (String.lt_asymm (displayUuid_lt hu hgt))

/-! ## Reading a text -/

/-- Reads the texts that `Display` writes. -/
def parseDisplay (text : String) : Option Uuid :=
  let u := hexValue (text.toList.filter (· ≠ '-'))
  if displayUuid u = text then some u else none

theorem parseDisplay_displayUuid {u : Uuid} (hu : u.InRange) :
    parseDisplay (displayUuid u) = some u := by
  unfold parseDisplay
  dsimp only
  rw [hexValue_displayUuid hu, if_pos rfl]

end EasyJob.Domain
