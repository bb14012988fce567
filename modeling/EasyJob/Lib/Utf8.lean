import Mathlib.Data.List.Basic
import Mathlib.Tactic.Common

/-!
# UTF-8

Lossy decoding: a byte sequence as characters, with U+FFFD for each maximal part
that begins a character and does not complete it. The decoder reads byte by byte
and keeps the character it is in.

* `lossy_ascii`: ASCII bytes are their characters.
* `length_lossy_le`: there are at most as many characters as bytes.
* `encodeChar_ascii`, `encodeChar_notAscii`: how the encoding of a character begins.
-/

namespace Utf8

/-- The character that has been begun: how many bytes are missing, the range of the next
    one, and the bits read so far. -/
structure Pending where
  missing : ℕ
  low : UInt8
  high : UInt8
  bits : ℕ

/-- What the first byte of a character of several bytes announces. -/
def lead (b : UInt8) : Option Pending :=
  if 0xC2 ≤ b ∧ b ≤ 0xDF then some ⟨1, 0x80, 0xBF, b.toNat % 32⟩
  else if b = 0xE0 then some ⟨2, 0xA0, 0xBF, b.toNat % 16⟩
  else if b = 0xED then some ⟨2, 0x80, 0x9F, b.toNat % 16⟩
  else if 0xE1 ≤ b ∧ b ≤ 0xEF then some ⟨2, 0x80, 0xBF, b.toNat % 16⟩
  else if b = 0xF0 then some ⟨3, 0x90, 0xBF, b.toNat % 8⟩
  else if b = 0xF4 then some ⟨3, 0x80, 0x8F, b.toNat % 8⟩
  else if 0xF1 ≤ b ∧ b ≤ 0xF3 then some ⟨3, 0x80, 0xBF, b.toNat % 8⟩
  else none

def replacement : Char := Char.ofNat 0xFFFD

/-- A byte between two characters. -/
def start (b : UInt8) : List Char × Option Pending :=
  if b < 0x80 then ([Char.ofNat b.toNat], none)
  else
    match lead b with
    | some pending => ([], some pending)
    | none => ([replacement], none)

/-- One byte. -/
def next (pending : Option Pending) (b : UInt8) : List Char × Option Pending :=
  match pending with
  | none => start b
  | some p =>
    if p.low ≤ b ∧ b ≤ p.high then
      let bits := p.bits * 64 + b.toNat % 64
      if p.missing ≤ 1 then ([Char.ofNat bits], none)
      else ([], some ⟨p.missing - 1, 0x80, 0xBF, bits⟩)
    else
      let (text, pending) := start b
      (replacement :: text, pending)

def lossyFrom (pending : Option Pending) : List UInt8 → List Char
  | [] => if pending.isSome then [replacement] else []
  | b :: bytes => (next pending b).1 ++ lossyFrom (next pending b).2 bytes

/-- The characters of a byte sequence. -/
def lossy (bytes : List UInt8) : List Char := lossyFrom none bytes

theorem lossy_ascii {bytes : List UInt8} (h : ∀ b ∈ bytes, b < 0x80) :
    lossy bytes = bytes.map fun b => Char.ofNat b.toNat := by
  unfold lossy
  induction bytes with
  | nil => rfl
  | cons b bytes ih =>
    have hb : b < 0x80 := h b List.mem_cons_self
    have hrest := ih fun b' hb' => h b' (List.mem_cons_of_mem _ hb')
    rw [lossyFrom, next, start, if_pos hb, hrest]
    rfl

/-- A begun character counts for the bytes read of it. -/
def credit (pending : Option Pending) : ℕ := if pending.isSome then 1 else 0

theorem length_start_le (b : UInt8) : (start b).1.length + credit (start b).2 ≤ 1 := by
  unfold start
  split_ifs
  · exact Nat.le_refl 1
  · split <;> exact Nat.le_refl 1

theorem length_next_le (pending : Option Pending) (b : UInt8) :
    (next pending b).1.length + credit (next pending b).2 ≤ 1 + credit pending := by
  have hstart := length_start_le b
  unfold next
  split
  · exact Nat.le_add_right_of_le hstart
  · have hcredit (p : Pending) : credit (some p) = 1 := rfl
    split_ifs
    · simp [credit]
    · simp [credit]
    · simp only [List.length_cons, hcredit]
      omega

theorem length_lossy_le (bytes : List UInt8) : (lossy bytes).length ≤ bytes.length := by
  have hfrom (pending : Option Pending) :
      (lossyFrom pending bytes).length ≤ bytes.length + credit pending := by
    induction bytes generalizing pending with
    | nil =>
      unfold lossyFrom credit
      split_ifs <;> simp
    | cons b bytes ih =>
      have hnext := length_next_le pending b
      have hrest := ih (next pending b).2
      rw [lossyFrom, List.length_append, List.length_cons]
      omega
  exact hfrom none

/-! ## Encoding -/

/-- The first byte of an encoding of several bytes is not ASCII and continues no character. -/
theorem lead_spec (x : UInt8) :
    ∀ m ∈ [((0x1f : UInt8), (0xc0 : UInt8)), (0x0f, 0xe0), (0x07, 0xf0)],
    128 ≤ (x &&& m.1 ||| m.2) ∧ (x &&& m.1 ||| m.2) &&& 0xC0 ≠ 0x80 := by
  have hall : ∀ n : Fin 256,
      [((0x1f : UInt8), (0xc0 : UInt8)), (0x0f, 0xe0), (0x07, 0xf0)].all fun m =>
        128 ≤ (UInt8.ofNat n &&& m.1 ||| m.2) ∧
          (UInt8.ofNat n &&& m.1 ||| m.2) &&& 0xC0 ≠ 0x80 := by
    decide +kernel
  intro m hm
  have hbyte := of_decide_eq_true (List.all_eq_true.mp (hall ⟨x.toNat, x.toNat_lt⟩) m hm)
  simpa using hbyte

theorem encodeChar_ascii {c : Char} (h : c.toNat < 128) :
    String.utf8EncodeChar c = [UInt8.ofNat c.toNat] := by
  have hsize : c.utf8Size = 1 := by
    rw [Char.utf8Size_eq_one_iff, UInt32.le_iff_toNat_le]
    exact Nat.le_of_lt_succ h
  rw [String.utf8EncodeChar_eq_singleton hsize]
  rfl

theorem encodeChar_notAscii {c : Char} (h : 128 ≤ c.toNat) :
    ∃ b bs, String.utf8EncodeChar c = b :: bs ∧ 128 ≤ b ∧ b &&& 0xC0 ≠ 0x80 := by
  rcases c.utf8Size_eq with hsize | hsize | hsize | hsize
  · rw [Char.utf8Size_eq_one_iff, UInt32.le_iff_toNat_le] at hsize
    exact absurd h (Nat.not_le_of_lt (Nat.lt_succ_of_le hsize))
  · exact ⟨_, _, String.utf8EncodeChar_eq_cons_cons hsize, lead_spec _ (0x1f, 0xc0) (by simp)⟩
  · exact ⟨_, _, String.utf8EncodeChar_eq_cons_cons_cons hsize,
      lead_spec _ (0x0f, 0xe0) (by simp)⟩
  · exact ⟨_, _, String.utf8EncodeChar_eq_cons_cons_cons_cons hsize,
      lead_spec _ (0x07, 0xf0) (by simp)⟩

/-- Every encoding begins with a byte that continues no character. -/
theorem encodeChar_head (c : Char) :
    ∃ b bs, String.utf8EncodeChar c = b :: bs ∧ b &&& 0xC0 ≠ 0x80 := by
  rcases Nat.lt_or_ge c.toNat 128 with h | h
  · have hall : ∀ n : Fin 128, UInt8.ofNat n &&& 0xC0 ≠ 0x80 := by decide
    exact ⟨_, _, encodeChar_ascii h, hall ⟨c.toNat, h⟩⟩
  · obtain ⟨b, bs, heq, -, hhead⟩ := encodeChar_notAscii h
    exact ⟨b, bs, heq, hhead⟩

end Utf8
