import EasyJob.Lib.Binary64
import EasyJob.Lib.Words

/-!
# JavaScript text

The string functions that the editors use, on the characters of a string.
-/

namespace EasyJob.Frontend

open Words

/-- `\s`: the white space and the line terminators of ECMAScript. -/
def isSpace (c : Char) : Bool :=
  let n := c.toNat
  (9 ≤ n && n ≤ 13) || n == 32 || n == 0xA0 || n == 0x1680 || (0x2000 ≤ n && n ≤ 0x200A) ||
    n == 0x2028 || n == 0x2029 || n == 0x202F || n == 0x205F || n == 0x3000 || n == 0xFEFF

/-- `s.trim().split(/\s+/)`. -/
def trimSplit (s : List Char) : List (List Char) := splitRuns isSpace (trim isSpace s)

/-- `/^\d+$/.test(s)`. -/
def isDigits (s : List Char) : Bool := !s.isEmpty && s.all Char.isDigit

/-- `parseInt(s, 10)` of decimal digits. From about `2 ^ 1024` on, the number stands for
    `Infinity`. -/
def parseInt (s : List Char) : ℕ := Binary64.toDouble (Nat.ofDigitChars 10 s 0)

/-- Several pieces are the words. -/
theorem trimSplit_eq {s : List Char} (h : (trimSplit s).length ≠ 1) :
    trimSplit s = words isSpace s := by
  rw [trimSplit, splitRuns_trim] at h ⊢
  split_ifs at h ⊢
  · exact absurd rfl h
  · rfl

theorem isDigits_iff {s : List Char} :
    isDigits s = true ↔ s ≠ [] ∧ ∀ c ∈ s, c.isDigit = true := by
  simp [isDigits]

end EasyJob.Frontend
