import Mathlib.Algebra.Order.Floor.Div
import Mathlib.Data.List.GetD
import Mathlib.Data.List.Nodup
import Mathlib.Tactic.Common
import Mathlib.Tactic.Ring

/-!
# Base64

Base64 with padding. Up to three bytes make a group: their bits, filled up with zero bits, are
those of one character more than there are bytes. Only the last group has fewer than three
bytes, and `=` fills it up to four characters.

* `ungroup_eq_some_iff`: the characters of a group and its bytes determine each other.
* `length_encode`, `encode_symbols`: what an encoding looks like.
* `decode_eq_some_iff`: the encodings are what can be decoded, and decoding inverts encoding.
-/

namespace Base64

/-! ## Digits -/

/-- The last `k` digits of a number, the most significant one first. -/
def digits (b : ℕ) : ℕ → ℕ → List ℕ
  | 0, _ => []
  | k + 1, n => digits b k (n / b) ++ [n % b]

/-- The number with these digits. -/
def number (b : ℕ) (ds : List ℕ) : ℕ := ds.foldl (fun n d => n * b + d) 0

section Digits

variable {b k n : ℕ} {ds : List ℕ}

@[simp] theorem length_digits : (digits b k n).length = k := by
  induction k generalizing n with
  | zero => rfl
  | succ k ih => rw [digits, List.length_append, ih, List.length_singleton]

theorem digits_lt (hb : 0 < b) : ∀ d ∈ digits b k n, d < b := by
  induction k generalizing n with
  | zero => nofun
  | succ k ih =>
    intro d hd
    rcases List.mem_append.mp hd with hd | hd
    · exact ih d hd
    · rw [List.mem_singleton.mp hd]
      exact Nat.mod_lt n hb

theorem number_append_singleton (ds : List ℕ) (d : ℕ) :
    number b (ds ++ [d]) = number b ds * b + d := List.foldl_append

theorem number_digits : number b (digits b k n) = n % b ^ k := by
  induction k generalizing n with
  | zero => rw [pow_zero, Nat.mod_one]; rfl
  | succ k ih => rw [digits, number_append_singleton, ih, pow_succ', Nat.mod_mul]; ring

theorem number_lt (h : ∀ d ∈ ds, d < b) : number b ds < b ^ ds.length := by
  induction ds using List.reverseRecOn with
  | nil => exact Nat.one_pos
  | append_singleton ds d ih =>
    have hd : d < b := h d (by simp)
    have hds : number b ds + 1 ≤ b ^ ds.length := ih fun d hd => h d (by simp [hd])
    rw [number_append_singleton, List.length_append, List.length_singleton, pow_succ]
    calc number b ds * b + d < number b ds * b + b := by omega
      _ = (number b ds + 1) * b := by ring
      _ ≤ b ^ ds.length * b := Nat.mul_le_mul_right b hds

theorem digits_number (h : ∀ d ∈ ds, d < b) : digits b ds.length (number b ds) = ds := by
  induction ds using List.reverseRecOn with
  | nil => rfl
  | append_singleton ds d ih =>
    have hd : d < b := h d (by simp)
    have hdiv : (number b ds * b + d) / b = number b ds := by
      rw [Nat.add_comm, Nat.add_mul_div_right d _ (by omega), Nat.div_eq_of_lt hd, Nat.zero_add]
    have hmod : (number b ds * b + d) % b = d := by
      rw [Nat.add_comm, Nat.add_mul_mod_self_right, Nat.mod_eq_of_lt hd]
    rw [number_append_singleton, List.length_append, List.length_singleton, digits, hdiv, hmod,
      ih fun d hd => h d (by simp [hd])]

end Digits

/-! ## Characters -/

def alphabet : List Char :=
  "ABCDEFGHIJKLMNOPQRSTUVWXYZabcdefghijklmnopqrstuvwxyz0123456789+/".toList

/-- The character of six bits. -/
def symbol (n : ℕ) : Char := alphabet.getD n '='

/-- The six bits of a character. -/
def value (c : Char) : Option ℕ := if c ∈ alphabet then some (alphabet.idxOf c) else none

theorem length_alphabet : alphabet.length = 64 := by
  have h : alphabet = _ := String.toList_ofList
  rw [h]
  rfl

theorem nodup_alphabet : alphabet.Nodup := by
  have h : alphabet = _ := String.toList_ofList
  apply List.Nodup.of_map Char.toNat
  have hcodes : alphabet.map Char.toNat =
      List.range' 65 26 ++ List.range' 97 26 ++ List.range' 48 10 ++ [43, 47] := by
    rw [h]
    rfl
  rw [hcodes]
  refine .append (.append (.append List.nodup_range' List.nodup_range' ?_) List.nodup_range' ?_)
    (by decide) ?_ <;>
  · simp [List.Disjoint]
    omega

theorem pad_notMem_alphabet : '=' ∉ alphabet := by
  have h : alphabet = _ := String.toList_ofList
  rw [h]
  decide +kernel

theorem symbol_mem {n : ℕ} (h : n < 64) : symbol n ∈ alphabet := by
  rw [symbol, List.getD_eq_getElem _ _ (length_alphabet ▸ h)]
  exact List.getElem_mem _

/-- The characters of the alphabet stand for the numbers below 64. -/
theorem value_eq_some_iff {c : Char} {n : ℕ} : value c = some n ↔ n < 64 ∧ c = symbol n := by
  unfold value
  constructor
  · intro h
    split_ifs at h with hc
    cases h
    have hlt : alphabet.idxOf c < alphabet.length := List.idxOf_lt_length_iff.mpr hc
    refine ⟨length_alphabet ▸ hlt, ?_⟩
    rw [symbol, List.getD_eq_getElem _ _ hlt, List.getElem_idxOf]
  · rintro ⟨hlt, rfl⟩
    have hlength : n < alphabet.length := length_alphabet ▸ hlt
    rw [if_pos (symbol_mem hlt), symbol, List.getD_eq_getElem _ _ hlength,
      nodup_alphabet.idxOf_getElem]

theorem mapM_value_eq_some_iff {cs : List Char} {ds : List ℕ} :
    cs.mapM value = some ds ↔ (∀ d ∈ ds, d < 64) ∧ cs = ds.map symbol := by
  induction cs generalizing ds with
  | nil =>
    rw [List.mapM_nil]
    constructor
    · rintro ⟨⟩
      exact ⟨nofun, rfl⟩
    · rintro ⟨-, hds⟩
      rw [List.map_eq_nil_iff.mp hds.symm]
      rfl
  | cons c cs ih =>
    rw [List.mapM_cons]
    constructor
    · intro h
      obtain ⟨d, hd, h⟩ := Option.bind_eq_some_iff.mp h
      obtain ⟨ds', hds', h⟩ := Option.bind_eq_some_iff.mp h
      cases h
      obtain ⟨hlt, rfl⟩ := value_eq_some_iff.mp hd
      obtain ⟨hall, rfl⟩ := ih.mp hds'
      exact ⟨List.forall_mem_cons.mpr ⟨hlt, hall⟩, rfl⟩
    · rintro ⟨hall, heq⟩
      cases ds with
      | nil => cases heq
      | cons d ds =>
        obtain ⟨hlt, hall⟩ := List.forall_mem_cons.mp hall
        rw [List.map_cons, List.cons.injEq] at heq
        rw [value_eq_some_iff.mpr ⟨hlt, heq.1⟩, ih.mpr ⟨hall, heq.2⟩]
        rfl

/-! ## Groups -/

/-- The weight of the last bit of `k` bytes in `k + 1` characters. -/
def unit (k : ℕ) : ℕ := 2 ^ (6 - 2 * k)

/-- The characters of a group, without `=`. -/
def group (bytes : List UInt8) : List Char :=
  (digits 64 (bytes.length + 1)
    (number 256 (bytes.map UInt8.toNat) * unit bytes.length)).map symbol

/-- The bytes of a group; the bits after them are zero. -/
def ungroup (cs : List Char) : Option (List UInt8) := do
  let ds ← cs.mapM value
  let n := number 64 ds
  let k := cs.length - 1
  if n % unit k = 0 then some ((digits 256 k (n / unit k)).map UInt8.ofNat) else none

theorem unit_pos (k : ℕ) : 0 < unit k := Nat.two_pow_pos _

theorem pow_mul_unit {k : ℕ} (h : k ≤ 3) : 256 ^ k * unit k = 64 ^ (k + 1) := by
  have h256 : 256 = 2 ^ 8 := rfl
  have h64 : 64 = 2 ^ 6 := rfl
  rw [unit, h256, h64, ← pow_mul, ← pow_mul, ← pow_add]
  congr 1
  omega

@[simp] theorem length_group (bytes : List UInt8) : (group bytes).length = bytes.length + 1 := by
  rw [group, List.length_map, length_digits]

theorem group_mem (bytes : List UInt8) : ∀ c ∈ group bytes, c ∈ alphabet := by
  intro c hc
  obtain ⟨d, hd, rfl⟩ := List.mem_map.mp hc
  exact symbol_mem (digits_lt (by decide) d hd)

theorem map_ofNat_toNat (bytes : List UInt8) :
    (bytes.map UInt8.toNat).map UInt8.ofNat = bytes := by
  rw [List.map_map]
  exact (List.map_congr_left fun x _ => UInt8.ofNat_toNat).trans (List.map_id bytes)

theorem map_toNat_ofNat {ds : List ℕ} (h : ∀ d ∈ ds, d < 256) :
    (ds.map UInt8.ofNat).map UInt8.toNat = ds := by
  rw [List.map_map]
  exact (List.map_congr_left fun d hd => UInt8.toNat_ofNat_of_lt' (h d hd)).trans (List.map_id ds)

theorem toNat_lt_of_mem (bytes : List UInt8) : ∀ d ∈ bytes.map UInt8.toNat, d < 256 := by
  intro d hd
  obtain ⟨x, -, rfl⟩ := List.mem_map.mp hd
  exact x.toNat_lt

theorem ungroup_group {bytes : List UInt8} (hle : bytes.length ≤ 3) :
    ungroup (group bytes) = some bytes := by
  have hbytes : number 256 (bytes.map UInt8.toNat) < 256 ^ bytes.length := by
    have hlt := number_lt (toNat_lt_of_mem bytes)
    rwa [List.length_map] at hlt
  have hfits : number 256 (bytes.map UInt8.toNat) * unit bytes.length <
      64 ^ (bytes.length + 1) := by
    rw [← pow_mul_unit hle]
    exact Nat.mul_lt_mul_of_pos_right hbytes (unit_pos _)
  have hdigits := digits_number (toNat_lt_of_mem bytes)
  rw [List.length_map] at hdigits
  have hvalues : (group bytes).mapM value = some (digits 64 (bytes.length + 1)
      (number 256 (bytes.map UInt8.toNat) * unit bytes.length)) :=
    mapM_value_eq_some_iff.mpr ⟨digits_lt (by decide), rfl⟩
  unfold ungroup
  rw [hvalues, length_group]
  simp only [Option.bind_eq_bind, Option.bind_some, Nat.add_sub_cancel, number_digits,
    Nat.mod_eq_of_lt hfits, Nat.mul_mod_left, if_true, Nat.mul_div_cancel _ (unit_pos _),
    hdigits, map_ofNat_toNat]

/-- The characters of a group and its bytes determine each other. -/
theorem ungroup_eq_some_iff {cs : List Char} {bytes : List UInt8} (hpos : cs ≠ [])
    (hle : cs.length ≤ 4) : ungroup cs = some bytes ↔ cs = group bytes := by
  constructor
  · intro h
    obtain ⟨ds, hds, h⟩ := Option.bind_eq_some_iff.mp h
    obtain ⟨hlt, rfl⟩ := mapM_value_eq_some_iff.mp hds
    obtain ⟨k, hk⟩ : ∃ k, ds.length = k + 1 :=
      Nat.exists_eq_succ_of_ne_zero fun h0 => hpos (by simpa using h0)
    rw [List.length_map] at hle h
    rw [hk, Nat.add_sub_cancel] at h
    dsimp only at h
    split_ifs at h with hzero
    cases h
    have hnumber : number 64 ds < 256 ^ k * unit k := by
      rw [pow_mul_unit (by omega), ← hk]
      exact number_lt hlt
    have hquot : number 64 ds / unit k < 256 ^ k := Nat.div_lt_of_lt_mul (by rwa [Nat.mul_comm])
    rw [group, List.length_map, length_digits, map_toNat_ofNat (digits_lt (by decide)),
      number_digits, Nat.mod_eq_of_lt hquot, Nat.div_mul_cancel (Nat.dvd_of_mod_eq_zero hzero),
      ← hk, digits_number hlt]
  · rintro rfl
    rw [length_group] at hle
    exact ungroup_group (by omega)

/-! ## Encoding and decoding -/

def encode : List UInt8 → List Char
  | [] => []
  | [x] => group [x] ++ ['=', '=']
  | [x, y] => group [x, y] ++ ['=']
  | x :: y :: z :: bytes => group [x, y, z] ++ encode bytes

def decode : List Char → Option (List UInt8)
  | [] => some []
  | a :: b :: c :: d :: s =>
    if d ≠ '=' then do
      let bytes ← ungroup [a, b, c, d]
      let rest ← decode s
      some (bytes ++ rest)
    else if s ≠ [] then none
    else if c ≠ '=' then ungroup [a, b, c]
    else ungroup [a, b]
  | _ => none

/-- How many `=` an encoding of so many bytes ends with. -/
def padding (length : ℕ) : ℕ :=
  match length % 3 with
  | 0 => 0
  | 1 => 2
  | _ => 1

theorem length_encode (bytes : List UInt8) :
    (encode bytes).length = 4 * (bytes.length ⌈/⌉ 3) := by
  rw [Nat.ceilDiv_eq_add_pred_div]
  induction bytes using encode.induct with
  | case1 => rfl
  | case2 x => simp [encode]
  | case3 x y => simp [encode]
  | case4 x y z bytes ih =>
    rw [encode, List.length_append, ih, length_group]
    simp only [List.length_cons, List.length_nil]
    omega

theorem encode_symbols (bytes : List UInt8) : ∃ symbols : List Char,
    encode bytes = symbols ++ List.replicate (padding bytes.length) '=' ∧
      ∀ c ∈ symbols, c ∈ alphabet := by
  induction bytes using encode.induct with
  | case1 => exact ⟨[], rfl, nofun⟩
  | case2 x => exact ⟨group [x], rfl, group_mem [x]⟩
  | case3 x y => exact ⟨group [x, y], rfl, group_mem [x, y]⟩
  | case4 x y z bytes ih =>
    obtain ⟨symbols, hsymbols, hmem⟩ := ih
    have hpadding : padding (x :: y :: z :: bytes).length = padding bytes.length := by
      simp [padding, Nat.add_assoc]
    refine ⟨group [x, y, z] ++ symbols, ?_, fun c hc => ?_⟩
    · rw [hpadding, encode, hsymbols, List.append_assoc]
    · exact (List.mem_append.mp hc).elim (group_mem [x, y, z] c) (hmem c)

/-- What holds of the alphabet and of `=` holds of every character of an encoding. -/
theorem forall_mem_encode {P : Char → Prop} (halphabet : ∀ c ∈ alphabet, P c) (hpad : P '=')
    (bytes : List UInt8) : ∀ c ∈ encode bytes, P c := by
  intro c hc
  obtain ⟨symbols, hsymbols, hmem⟩ := encode_symbols bytes
  rw [hsymbols] at hc
  rcases List.mem_append.mp hc with hc | hc
  · exact halphabet c (hmem c hc)
  · rw [List.eq_of_mem_replicate hc]
    exact hpad

theorem decode_group_append {bytes : List UInt8} (hlength : bytes.length = 3) (s : List Char) :
    decode (group bytes ++ s) = (decode s).map (bytes ++ ·) := by
  have hgroup : ungroup (group bytes) = some bytes := ungroup_group (by omega)
  have hmem := group_mem bytes
  have hfour := length_group bytes
  rw [hlength] at hfour
  obtain ⟨a, b, c, d, hchars⟩ := List.length_eq_four.mp hfour
  rw [hchars] at hgroup hmem ⊢
  have hd : d ≠ '=' := fun heq => pad_notMem_alphabet (heq ▸ hmem d (by simp))
  show decode (a :: b :: c :: d :: s) = _
  rw [decode, if_pos hd, hgroup]
  cases decode s <;> rfl

theorem decode_encode (bytes : List UInt8) : decode (encode bytes) = some bytes := by
  induction bytes using encode.induct with
  | case1 => rfl
  | case2 x =>
    have hgroup : ungroup (group [x]) = some [x] := ungroup_group (by simp)
    obtain ⟨a, b, hchars⟩ := List.length_eq_two.mp (length_group [x])
    rw [encode, hchars]
    rw [hchars] at hgroup
    simp [decode, hgroup]
  | case3 x y =>
    have hgroup : ungroup (group [x, y]) = some [x, y] := ungroup_group (by simp)
    have hmem := group_mem [x, y]
    obtain ⟨a, b, c, hchars⟩ := List.length_eq_three.mp (length_group [x, y])
    rw [hchars] at hgroup hmem
    have hc : c ≠ '=' := fun heq => pad_notMem_alphabet (heq ▸ hmem c (by simp))
    rw [encode, hchars]
    simp [decode, hgroup, hc]
  | case4 x y z bytes ih => rw [encode, decode_group_append rfl, ih]; rfl

/-- Nothing but the encodings can be decoded. -/
theorem encode_of_decode {s : List Char} {bytes : List UInt8} (h : decode s = some bytes) :
    encode bytes = s := by
  induction s using decode.induct generalizing bytes with
  | case1 =>
    cases h
    rfl
  | case2 a b c d s hd ih =>
    rw [decode, if_pos hd] at h
    obtain ⟨bytes', hgroup, h⟩ := Option.bind_eq_some_iff.mp h
    obtain ⟨rest, hrest, h⟩ := Option.bind_eq_some_iff.mp h
    cases h
    have hchars := (ungroup_eq_some_iff (by simp) (by simp)).mp hgroup
    have hlength : bytes'.length = 3 := by simpa using (congrArg List.length hchars).symm
    obtain ⟨x, y, z, rfl⟩ := List.length_eq_three.mp hlength
    show encode (x :: y :: z :: rest) = _
    rw [encode, ← hchars, ih hrest]
    rfl
  | case3 a b c d s hd hs =>
    rw [decode, if_neg hd, if_pos hs] at h
    cases h
  | case4 a b c d s hd hs hc =>
    rw [decode, if_neg hd, if_neg hs, if_pos hc] at h
    have hchars := (ungroup_eq_some_iff (by simp) (by simp)).mp h
    have hlength : bytes.length = 2 := by simpa using (congrArg List.length hchars).symm
    obtain ⟨x, y, rfl⟩ := List.length_eq_two.mp hlength
    rw [encode, ← hchars, not_not.mp hd, not_not.mp hs]
    rfl
  | case5 a b c d s hd hs hc =>
    rw [decode, if_neg hd, if_neg hs, if_neg hc] at h
    have hchars := (ungroup_eq_some_iff (by simp) (by simp)).mp h
    have hlength : bytes.length = 1 := by simpa using (congrArg List.length hchars).symm
    obtain ⟨x, rfl⟩ := List.length_eq_one_iff.mp hlength
    rw [encode, ← hchars, not_not.mp hd, not_not.mp hs, not_not.mp hc]
    rfl
  | case6 s hnil hquantum =>
    unfold decode at h
    split at h
    · exact absurd rfl hnil
    · exact absurd rfl (hquantum _ _ _ _ _)
    · cases h

theorem decode_eq_some_iff {s : List Char} {bytes : List UInt8} :
    decode s = some bytes ↔ s = encode bytes :=
  ⟨fun h => (encode_of_decode h).symm, fun h => h ▸ decode_encode bytes⟩

end Base64
