import EasyJob.Scheduler.Evaluator
import EasyJob.Lib.Utf8
import Mathlib.Computability.Language

/-!
# The language of standard cron fields

`is_standard_cron_field` reads a field byte by byte and looks three bytes ahead
for a name. It accepts the concatenations of its tokens and nothing else, and it
never stands inside a character.

* `cronTokens`: the tokens of a field.
* `cronFieldTurn`: one turn of the loop; `cronFieldTurn_eq_some_iff` says that
  it passes over one token.
* `isStandardCronField_iff`: the accepted fields.
-/

namespace EasyJob.Scheduler

open scoped Computability

/-! ## Tokens -/

/-- The symbols of a standard field. -/
def cronSymbols : List Char := ['*', '?', ',', '-', '/']

/-- A digit, a symbol, or the name of a month or of a weekday in the field of these. -/
def IsCronToken (isMonth isWeekday : Bool) (token : List Char) : Prop :=
  (∃ c, token = [c] ∧ (c.isDigit = true ∨ c ∈ cronSymbols)) ∨
    (isMonth = true ∧ ∃ name ∈ cronMonthNames, token.map Char.toUpper = name.toList) ∨
    (isWeekday = true ∧ ∃ name ∈ cronWeekdayNames, token.map Char.toUpper = name.toList)

def cronTokens (isMonth isWeekday : Bool) : Language Char :=
  {token | IsCronToken isMonth isWeekday token}

/-- Uppercasing makes no other character ASCII. -/
theorem toNat_toUpper_lt {c : Char} (h : c.toUpper.toNat < 128) : c.toNat < 128 := by
  by_cases hlower : c.val ≥ 97 ∧ c.val ≤ 122
  · have hle : c.val.toNat ≤ 122 := UInt32.le_iff_toNat_le.mp hlower.2
    exact Nat.lt_of_le_of_lt hle (by decide)
  · have heq : c.toUpper = c := by
      unfold Char.toUpper
      exact dif_neg hlower
    rwa [heq] at h

theorem isCronToken_name_spec : ∀ name ∈ cronMonthNames ++ cronWeekdayNames,
    name.toList.length = 3 ∧ ∀ c ∈ name.toList, c.toNat < 128 ∧ c.isUpper = true := by
  have hall : ∀ name ∈ cronMonthNames ++ cronWeekdayNames, name.toList.length = 3 ∧
      name.toList.all fun c => c.toNat < 128 ∧ c.isUpper = true := by
    decide +kernel
  intro name hmem
  obtain ⟨hlength, hchars⟩ := hall name hmem
  exact ⟨hlength, fun c hc => of_decide_eq_true (List.all_eq_true.mp hchars c hc)⟩

/-- A token is one digit or symbol, or three letters. -/
theorem IsCronToken.cases {isMonth isWeekday : Bool} {token : List Char}
    (h : IsCronToken isMonth isWeekday token) :
    (∃ c, token = [c] ∧ (c.isDigit = true ∨ c ∈ cronSymbols)) ∨
      token.length = 3 ∧ ∀ c ∈ token, c.toUpper.toNat < 128 ∧ c.toUpper.isUpper = true := by
  have hname : ∀ name ∈ cronMonthNames ++ cronWeekdayNames, token.map Char.toUpper = name.toList →
      token.length = 3 ∧ ∀ c ∈ token, c.toUpper.toNat < 128 ∧ c.toUpper.isUpper = true := by
    intro name hmem heq
    obtain ⟨hlength, hchars⟩ := isCronToken_name_spec name hmem
    rw [← heq] at hlength hchars
    exact ⟨by simpa using hlength, fun c hc => hchars _ (List.mem_map_of_mem hc)⟩
  rcases h with hone | ⟨-, name, hmem, heq⟩ | ⟨-, name, hmem, heq⟩
  · exact .inl hone
  · exact .inr (hname name (List.mem_append_left _ hmem) heq)
  · exact .inr (hname name (List.mem_append_right _ hmem) heq)

/-! ## ASCII characters and their bytes -/

/-- What the loop tests of a byte is what it means of the character. -/
theorem asciiByte_spec {c : Char} (h : c.toNat < 128) :
    isAsciiDigit (UInt8.ofNat c.toNat) = c.isDigit ∧
      isAsciiAlphabetic (UInt8.ofNat c.toNat) = c.isAlpha ∧
      toAsciiUppercase (UInt8.ofNat c.toNat) = UInt8.ofNat c.toUpper.toNat ∧
      [42, 63, 44, 45, 47].contains (UInt8.ofNat c.toNat) = cronSymbols.contains c ∧
      Char.ofNat (UInt8.ofNat c.toNat).toNat = c := by
  have hall : ∀ n : Fin 128, isAsciiDigit (UInt8.ofNat n) = (Char.ofNat n).isDigit ∧
      isAsciiAlphabetic (UInt8.ofNat n) = (Char.ofNat n).isAlpha ∧
      toAsciiUppercase (UInt8.ofNat n) = UInt8.ofNat (Char.ofNat n).toUpper.toNat ∧
      [42, 63, 44, 45, 47].contains (UInt8.ofNat n) = cronSymbols.contains (Char.ofNat n) ∧
      Char.ofNat (UInt8.ofNat n).toNat = Char.ofNat n := by decide +kernel
  simpa using hall ⟨c.toNat, h⟩

theorem toNat_lt_of_isDigit {c : Char} (h : c.isDigit = true) : c.toNat < 128 := by
  have hle : c.val ≤ '9'.val := by
    simp only [Char.isDigit, Bool.and_eq_true, decide_eq_true_eq] at h
    exact h.2
  exact Nat.lt_of_le_of_lt (UInt32.le_iff_toNat_le.mp hle) (by decide)

theorem toNat_lt_of_mem_cronSymbols {c : Char} (h : c ∈ cronSymbols) : c.toNat < 128 := by
  have hall : cronSymbols.all fun c => c.toNat < 128 := by decide
  exact of_decide_eq_true (List.all_eq_true.mp hall c h)

/-- A letter is neither a digit nor a symbol. -/
theorem letter_spec {c : Char} (h : c.toNat < 128) (hupper : c.toUpper.isUpper = true) :
    c.isAlpha = true ∧ c.isDigit = false ∧ cronSymbols.contains c = false := by
  have hall : ∀ n : Fin 128, (Char.ofNat n).toUpper.isUpper = true → (Char.ofNat n).isAlpha = true ∧
      (Char.ofNat n).isDigit = false ∧ cronSymbols.contains (Char.ofNat n) = false := by
    decide +kernel
  have hc := hall ⟨c.toNat, h⟩
  simp only [Char.ofNat_toNat] at hc
  exact hc hupper

/-- A byte that the loop accepts is ASCII. -/
theorem lt_of_asciiByte (b : UInt8) (h : isAsciiDigit b || [42, 63, 44, 45, 47].contains b ||
    isAsciiAlphabetic b) : b < 128 := by
  have hall : ∀ n : Fin 256, (isAsciiDigit (UInt8.ofNat n) ||
      [42, 63, 44, 45, 47].contains (UInt8.ofNat n) || isAsciiAlphabetic (UInt8.ofNat n)) = true →
      UInt8.ofNat n < 128 := by decide +kernel
  have hb := hall ⟨b.toNat, b.toNat_lt⟩
  simp only [UInt8.ofNat_toNat] at hb
  exact hb h

@[simp] theorem utf8Bytes_append (s t : List Char) :
    utf8Bytes (s ++ t) = utf8Bytes s ++ utf8Bytes t := List.flatMap_append

theorem utf8Bytes_ascii {s : List Char} (h : ∀ c ∈ s, c.toNat < 128) :
    utf8Bytes s = s.map fun c => UInt8.ofNat c.toNat := by
  induction s with
  | nil => rfl
  | cons c s ih =>
    have hc := Utf8.encodeChar_ascii (h c List.mem_cons_self)
    have hs := ih fun c' hc' => h c' (List.mem_cons_of_mem _ hc')
    rw [utf8Bytes, List.flatMap_cons, hc, ← utf8Bytes, hs]
    rfl

theorem utf8Bytes_inj_ascii {s t : List Char} (hs : ∀ c ∈ s, c.toNat < 128)
    (ht : ∀ c ∈ t, c.toNat < 128) (h : utf8Bytes s = utf8Bytes t) : s = t := by
  have hdecode : ∀ r : List Char, (∀ c ∈ r, c.toNat < 128) →
      (utf8Bytes r).map (fun b => Char.ofNat b.toNat) = r := by
    intro r hr
    rw [utf8Bytes_ascii hr, List.map_map]
    refine (List.map_congr_left fun c hc => ?_).trans (List.map_id r)
    exact (asciiByte_spec (hr c hc)).2.2.2.2
  rw [← hdecode s hs, h, hdecode t ht]

/-- Text whose bytes begin with an ASCII byte begins with its character. -/
theorem exists_cons_of_utf8Bytes {rest : List Char} {b : UInt8} {bs : List UInt8}
    (h : utf8Bytes rest = b :: bs) (hb : b < 128) :
    ∃ c tail, rest = c :: tail ∧ c.toNat < 128 ∧ b = UInt8.ofNat c.toNat ∧ utf8Bytes tail = bs := by
  cases rest with
  | nil => cases h
  | cons c tail =>
    rw [utf8Bytes, List.flatMap_cons] at h
    rcases Nat.lt_or_ge c.toNat 128 with hc | hc
    · rw [Utf8.encodeChar_ascii hc] at h
      obtain ⟨h1, h2⟩ := List.cons.inj h
      exact ⟨c, tail, rfl, hc, h1.symm, h2⟩
    · obtain ⟨b', bs', heq, hle, -⟩ := Utf8.encodeChar_notAscii hc
      rw [heq] at h
      obtain ⟨h1, -⟩ := List.cons.inj h
      rw [h1] at hle
      exact absurd hb (UInt8.not_lt.mpr hle)

/-- A character begins at a boundary. -/
theorem isCharBoundary_length (pre rest : List Char) :
    isCharBoundary (utf8Bytes (pre ++ rest)) (utf8Bytes pre).length = true := by
  cases rest with
  | nil => simp [isCharBoundary]
  | cons c rest =>
    obtain ⟨b, bs, heq, hhead⟩ := Utf8.encodeChar_head c
    have hget : (utf8Bytes (pre ++ c :: rest))[(utf8Bytes pre).length]? = some b := by
      rw [utf8Bytes_append, List.getElem?_append_right le_rfl, Nat.sub_self, utf8Bytes,
        List.flatMap_cons, heq]
      rfl
    rw [isCharBoundary, hget]
    simp [hhead]

/-- The known names of a field, compared in upper case. -/
theorem known_iff {isMonth isWeekday : Bool} {token : List Char} (h : ∀ c ∈ token, c.toNat < 128) :
    ((isMonth && (cronMonthNames.map (utf8Bytes ·.toList)).contains
          ((utf8Bytes token).map toAsciiUppercase)) ||
        (isWeekday && (cronWeekdayNames.map (utf8Bytes ·.toList)).contains
          ((utf8Bytes token).map toAsciiUppercase))) = true ↔
      (isMonth = true ∧ ∃ name ∈ cronMonthNames, token.map Char.toUpper = name.toList) ∨
        (isWeekday = true ∧ ∃ name ∈ cronWeekdayNames, token.map Char.toUpper = name.toList) := by
  have hupper : ∀ c ∈ token.map Char.toUpper, c.toNat < 128 := by
    have hall : ∀ n : Fin 128, (Char.ofNat n).toUpper.toNat < 128 := by decide
    intro c hc
    obtain ⟨c', hc', rfl⟩ := List.mem_map.mp hc
    simpa using hall ⟨c'.toNat, h c' hc'⟩
  have hbytes : (utf8Bytes token).map toAsciiUppercase = utf8Bytes (token.map Char.toUpper) := by
    rw [utf8Bytes_ascii h, utf8Bytes_ascii hupper, List.map_map, List.map_map]
    exact List.map_congr_left fun c hc => (asciiByte_spec (h c hc)).2.2.1
  have hnames : ∀ names : List String, (∀ name ∈ names, ∀ c ∈ name.toList, c.toNat < 128) →
      ((names.map (utf8Bytes ·.toList)).contains (utf8Bytes (token.map Char.toUpper)) = true ↔
        ∃ name ∈ names, token.map Char.toUpper = name.toList) := by
    intro names hnames
    rw [List.contains_iff_mem, List.mem_map]
    refine exists_congr fun name => and_congr_right fun hmem => ⟨fun heq => ?_, fun heq => ?_⟩
    · exact (utf8Bytes_inj_ascii (hnames name hmem) hupper heq).symm
    · rw [heq]
  have hmonth := hnames cronMonthNames fun name hmem c hc =>
    ((isCronToken_name_spec name (List.mem_append_left _ hmem)).2 c hc).1
  have hweekday := hnames cronWeekdayNames fun name hmem c hc =>
    ((isCronToken_name_spec name (List.mem_append_right _ hmem)).2 c hc).1
  rw [hbytes, Bool.or_eq_true, Bool.and_eq_true, Bool.and_eq_true, hmonth, hweekday]

/-! ## One turn of the loop -/

/-- One turn of the loop in `is_standard_cron_field` at `i` (lines 208–233): the next index,
    or nothing if it returns `false`. -/
def cronFieldTurn (bytes : List UInt8) (isMonth isWeekday : Bool) (i : ℕ) (h : i < bytes.length) :
    Option ℕ :=
  let c := bytes[i]
  if isAsciiDigit c || [42, 63, 44, 45, 47].contains c then some (i + 1)
  else if isAsciiAlphabetic c then
    match getThree bytes i with
    | none => none
    | some name =>
      if !name.all isAsciiAlphabetic then none
      else
        let upper := name.map toAsciiUppercase
        let known := (isMonth && (cronMonthNames.map (utf8Bytes ·.toList)).contains upper) ||
          (isWeekday && (cronWeekdayNames.map (utf8Bytes ·.toList)).contains upper)
        if known then some (i + 3) else none
  else none

theorem cronFieldLoop_eq (bytes : List UInt8) (isMonth isWeekday : Bool) (i : ℕ) :
    cronFieldLoop bytes isMonth isWeekday i =
      if h : i < bytes.length then
        match cronFieldTurn bytes isMonth isWeekday i h with
        | none => false
        | some j => cronFieldLoop bytes isMonth isWeekday j
      else true := by
  rw [cronFieldLoop]
  split_ifs with h
  · unfold cronFieldTurn
    dsimp only
    split_ifs
    · rfl
    · cases getThree bytes i with
      | none => rfl
      | some name =>
        dsimp only
        split_ifs <;> rfl
    · rfl
  · rfl

/-- Text whose bytes begin with ASCII bytes begins with their characters. -/
theorem exists_append_of_utf8Bytes {bs name : List UInt8} {rest : List Char}
    (h : utf8Bytes rest = name ++ bs) (hname : ∀ b ∈ name, b < 128) :
    ∃ token tail, rest = token ++ tail ∧ (∀ c ∈ token, c.toNat < 128) ∧ utf8Bytes token = name := by
  induction name generalizing rest with
  | nil => exact ⟨[], rest, rfl, by simp, rfl⟩
  | cons b name ih =>
    obtain ⟨c, tail, rfl, hc, hb, htail⟩ := exists_cons_of_utf8Bytes h (hname b List.mem_cons_self)
    obtain ⟨token, tail, rfl, hascii, hbytes⟩ :=
      ih htail fun b' hb' => hname b' (List.mem_cons_of_mem _ hb')
    have hcons : ∀ c' ∈ c :: token, c'.toNat < 128 := List.forall_mem_cons.mpr ⟨hc, hascii⟩
    refine ⟨c :: token, tail, rfl, hcons, ?_⟩
    rw [utf8Bytes_ascii hcons, List.map_cons, ← utf8Bytes_ascii hascii, hbytes, ← hb]

theorem getThree_eq_some {pre rest : List Char} {name : List UInt8}
    (h : getThree (utf8Bytes (pre ++ rest)) (utf8Bytes pre).length = some name) :
    name.length = 3 ∧ ∃ bs, utf8Bytes rest = name ++ bs := by
  unfold getThree at h
  split_ifs at h with hrange
  cases h
  simp only [Bool.and_eq_true, decide_eq_true_eq, utf8Bytes_append, List.length_append] at hrange
  rw [utf8Bytes_append, List.drop_left]
  refine ⟨?_, (utf8Bytes rest).drop 3, (List.take_append_drop 3 _).symm⟩
  rw [List.length_take]
  omega

theorem getThree_token {pre token tail : List Char} (hlength : token.length = 3)
    (hascii : ∀ c ∈ token, c.toNat < 128) :
    getThree (utf8Bytes (pre ++ (token ++ tail))) (utf8Bytes pre).length =
      some (utf8Bytes token) := by
  have hbytes : (utf8Bytes token).length = 3 := by
    rw [utf8Bytes_ascii hascii, List.length_map, hlength]
  have hstart := isCharBoundary_length pre (token ++ tail)
  have hend := isCharBoundary_length (pre ++ token) tail
  rw [List.append_assoc, utf8Bytes_append pre token, List.length_append, hbytes] at hend
  unfold getThree
  rw [hstart, hend, if_pos]
  · rw [utf8Bytes_append, utf8Bytes_append, List.drop_left, List.take_left' hbytes]
  · simp only [utf8Bytes_append, List.length_append, hbytes, Bool.and_true, decide_eq_true_eq]
    omega

/-- What the loop reads at the start of a text. -/
theorem getElem_utf8Bytes {pre rest : List Char} {b : UInt8} {bs : List UInt8}
    (hrest : utf8Bytes rest = b :: bs)
    (h : (utf8Bytes pre).length < (utf8Bytes (pre ++ rest)).length) :
    (utf8Bytes (pre ++ rest))[(utf8Bytes pre).length] = b := by
  simp [utf8Bytes_append, hrest]

theorem length_append_ascii (pre : List Char) {token : List Char}
    (h : ∀ c ∈ token, c.toNat < 128) :
    (utf8Bytes (pre ++ token)).length = (utf8Bytes pre).length + token.length := by
  rw [utf8Bytes_append, List.length_append, utf8Bytes_ascii h, List.length_map]

section Turn

variable {isMonth isWeekday : Bool} {pre rest token tail : List Char} {j : ℕ}

/-- A turn passes over a token. -/
theorem exists_token_of_cronFieldTurn
    (h : (utf8Bytes pre).length < (utf8Bytes (pre ++ rest)).length)
    (hturn : cronFieldTurn (utf8Bytes (pre ++ rest)) isMonth isWeekday (utf8Bytes pre).length h =
      some j) :
    ∃ token tail, rest = token ++ tail ∧ IsCronToken isMonth isWeekday token ∧
      j = (utf8Bytes (pre ++ token)).length := by
  obtain ⟨b, bs, hrest⟩ : ∃ b bs, utf8Bytes rest = b :: bs := by
    refine List.exists_cons_of_ne_nil fun hnil => ?_
    simp [utf8Bytes_append, hnil] at h
  unfold cronFieldTurn at hturn
  dsimp only at hturn
  rw [getElem_utf8Bytes hrest h] at hturn
  split_ifs at hturn with hone halpha
  · -- a digit or a symbol
    obtain ⟨c, tail, rfl, hc, rfl, -⟩ :=
      exists_cons_of_utf8Bytes hrest (lt_of_asciiByte b (by rw [hone, Bool.true_or]))
    obtain ⟨hdigit, -, -, hsymbol, -⟩ := asciiByte_spec hc
    rw [hdigit, hsymbol, Bool.or_eq_true, List.contains_iff_mem] at hone
    refine ⟨[c], tail, rfl, .inl ⟨c, rfl, hone⟩, ?_⟩
    rw [length_append_ascii pre (by simpa using hc), ← Option.some.inj hturn]
    rfl
  · -- a letter
    cases hget : getThree (utf8Bytes (pre ++ rest)) (utf8Bytes pre).length with
    | none =>
      rw [hget] at hturn
      cases hturn
    | some name =>
      rw [hget] at hturn
      dsimp only at hturn
      split_ifs at hturn with hall hknown
      obtain ⟨hthree, bs', hbs'⟩ := getThree_eq_some hget
      have hascii : ∀ b ∈ name, b < 128 := by
        intro b hb
        have hb' : isAsciiAlphabetic b = true := by
          simp only [Bool.not_eq_true', Bool.not_eq_false] at hall
          exact List.all_eq_true.mp hall b hb
        exact lt_of_asciiByte b (by simp [hb'])
      obtain ⟨token, tail, rfl, htoken, rfl⟩ := exists_append_of_utf8Bytes hbs' hascii
      refine ⟨token, tail, rfl, .inr ((known_iff htoken).mp hknown), ?_⟩
      rw [utf8Bytes_ascii htoken, List.length_map] at hthree
      rw [length_append_ascii pre htoken, hthree, ← Option.some.inj hturn]

theorem cronFieldTurn_char {c : Char} (hc : c.isDigit = true ∨ c ∈ cronSymbols)
    (h : (utf8Bytes pre).length < (utf8Bytes (pre ++ ([c] ++ tail))).length) :
    cronFieldTurn (utf8Bytes (pre ++ ([c] ++ tail))) isMonth isWeekday (utf8Bytes pre).length h =
      some (utf8Bytes (pre ++ [c])).length := by
  have hascii : c.toNat < 128 := hc.elim toNat_lt_of_isDigit toNat_lt_of_mem_cronSymbols
  obtain ⟨hdigit, -, -, hsymbol, -⟩ := asciiByte_spec hascii
  have hbytes : utf8Bytes ([c] ++ tail) = UInt8.ofNat c.toNat :: utf8Bytes tail := by
    rw [utf8Bytes_append, utf8Bytes_ascii (by simpa using hascii)]
    rfl
  unfold cronFieldTurn
  dsimp only
  rw [getElem_utf8Bytes hbytes h, if_pos, length_append_ascii pre (by simpa using hascii)]
  · rfl
  · rw [hdigit, hsymbol, Bool.or_eq_true, List.contains_iff_mem]
    exact hc

theorem cronFieldTurn_name (htoken : IsCronToken isMonth isWeekday token)
    (hthree : token.length = 3)
    (hletters : ∀ c ∈ token, c.toUpper.toNat < 128 ∧ c.toUpper.isUpper = true)
    (h : (utf8Bytes pre).length < (utf8Bytes (pre ++ (token ++ tail))).length) :
    cronFieldTurn (utf8Bytes (pre ++ (token ++ tail))) isMonth isWeekday (utf8Bytes pre).length h =
      some (utf8Bytes (pre ++ token)).length := by
  have hascii : ∀ c ∈ token, c.toNat < 128 := fun c hc => toNat_toUpper_lt (hletters c hc).1
  have halpha : (utf8Bytes token).all isAsciiAlphabetic = true := by
    rw [utf8Bytes_ascii hascii, List.all_map, List.all_eq_true]
    intro c hc
    rw [Function.comp_apply, (asciiByte_spec (hascii c hc)).2.1]
    exact (letter_spec (hascii c hc) (hletters c hc).2).1
  have hknown := (known_iff hascii).mpr
    (htoken.resolve_left fun ⟨c, hc, _⟩ => by simp [hc] at hthree)
  obtain ⟨c, token', rfl⟩ := List.exists_cons_of_length_pos (l := token) (by omega)
  have hc : c.toNat < 128 := hascii c List.mem_cons_self
  have hbytes : utf8Bytes (c :: token' ++ tail) =
      UInt8.ofNat c.toNat :: utf8Bytes (token' ++ tail) := by
    rw [utf8Bytes, List.cons_append, List.flatMap_cons, Utf8.encodeChar_ascii hc]
    rfl
  obtain ⟨hdigit, halphabetic, -, hsymbol, -⟩ := asciiByte_spec hc
  obtain ⟨hletter, hnotDigit, hnotSymbol⟩ := letter_spec hc (hletters c List.mem_cons_self).2
  unfold cronFieldTurn
  dsimp only
  rw [getElem_utf8Bytes hbytes h, hdigit, hsymbol, halphabetic, hnotDigit, hnotSymbol, hletter,
    getThree_token hthree hascii]
  simp only [Bool.or_self, Bool.false_eq_true, if_false, if_true, halpha, Bool.not_true, hknown]
  rw [length_append_ascii pre hascii, hthree]

/-- A turn passes over the token that the rest of the field begins with, and there is no turn
    if it begins with none. -/
theorem cronFieldTurn_eq_some_iff
    (h : (utf8Bytes pre).length < (utf8Bytes (pre ++ rest)).length) (j : ℕ) :
    cronFieldTurn (utf8Bytes (pre ++ rest)) isMonth isWeekday (utf8Bytes pre).length h = some j ↔
      ∃ token tail, rest = token ++ tail ∧ IsCronToken isMonth isWeekday token ∧
        j = (utf8Bytes (pre ++ token)).length := by
  refine ⟨exists_token_of_cronFieldTurn h, ?_⟩
  rintro ⟨token, tail, rfl, htoken, rfl⟩
  rcases htoken.cases with ⟨c, rfl, hc⟩ | ⟨hthree, hletters⟩
  · exact cronFieldTurn_char hc h
  · exact cronFieldTurn_name htoken hthree hletters h

end Turn

/-! ## The whole field -/

/-- The indices that the loop stands at. -/
inductive CronFieldVisits (bytes : List UInt8) (isMonth isWeekday : Bool) : ℕ → Prop
  | start : CronFieldVisits bytes isMonth isWeekday 0
  | turn {i j : ℕ} (hi : CronFieldVisits bytes isMonth isWeekday i) (h : i < bytes.length)
      (hturn : cronFieldTurn bytes isMonth isWeekday i h = some j) :
      CronFieldVisits bytes isMonth isWeekday j

/-- The loop is always at the start of a character, or at the end. -/
theorem CronFieldVisits.boundary {field : List Char} {isMonth isWeekday : Bool} {i : ℕ}
    (h : CronFieldVisits (utf8Bytes field) isMonth isWeekday i) :
    ∃ pre rest, field = pre ++ rest ∧ i = (utf8Bytes pre).length := by
  induction h with
  | start => exact ⟨[], field, rfl, rfl⟩
  | turn hi h hturn ih =>
    obtain ⟨pre, rest, rfl, rfl⟩ := ih
    obtain ⟨token, tail, rfl, -, rfl⟩ := (cronFieldTurn_eq_some_iff h _).mp hturn
    exact ⟨pre ++ token, tail, by rw [List.append_assoc], rfl⟩

theorem IsCronToken.ne_nil {isMonth isWeekday : Bool} {token : List Char}
    (h : IsCronToken isMonth isWeekday token) : token ≠ [] := by
  rintro rfl
  rcases h.cases with ⟨c, hc, -⟩ | ⟨hlength, -⟩
  · cases hc
  · cases hlength

theorem IsCronToken.ascii {isMonth isWeekday : Bool} {token : List Char}
    (h : IsCronToken isMonth isWeekday token) : ∀ c ∈ token, c.toNat < 128 := by
  rcases h.cases with ⟨c, rfl, hc⟩ | ⟨-, hletters⟩
  · simpa using hc.elim toNat_lt_of_isDigit toNat_lt_of_mem_cronSymbols
  · exact fun c hc => toNat_toUpper_lt (hletters c hc).1

/-- From the start of `rest`, the loop accepts iff `rest` is made of tokens. -/
theorem cronFieldLoop_iff (isMonth isWeekday : Bool) (pre rest : List Char) :
    cronFieldLoop (utf8Bytes (pre ++ rest)) isMonth isWeekday (utf8Bytes pre).length = true ↔
      rest ∈ (cronTokens isMonth isWeekday)∗ := by
  induction hn : rest.length using Nat.strong_induction_on generalizing pre rest with
  | _ n ih =>
    rw [cronFieldLoop_eq]
    by_cases hnil : rest = []
    · subst hnil
      simp [Language.nil_mem_kstar]
    have hlt : (utf8Bytes pre).length < (utf8Bytes (pre ++ rest)).length := by
      obtain ⟨c, tail, rfl⟩ := List.exists_cons_of_ne_nil hnil
      obtain ⟨b, bs, heq, -⟩ := Utf8.encodeChar_head c
      have htail : utf8Bytes (c :: tail) = b :: (bs ++ utf8Bytes tail) := by
        rw [utf8Bytes, List.flatMap_cons, heq]
        rfl
      rw [utf8Bytes_append, List.length_append, htail, List.length_cons]
      omega
    -- what is left after one token is shorter
    have hnext : ∀ token tail, rest = token ++ tail → IsCronToken isMonth isWeekday token →
        (cronFieldLoop (utf8Bytes (pre ++ rest)) isMonth isWeekday
          (utf8Bytes (pre ++ token)).length = true ↔ tail ∈ (cronTokens isMonth isWeekday)∗) := by
      rintro token tail rfl htoken
      have hpos : 0 < token.length := List.length_pos_iff.mpr htoken.ne_nil
      rw [← List.append_assoc]
      refine ih tail.length ?_ (pre ++ token) tail rfl
      rw [← hn, List.length_append]
      omega
    rw [dif_pos hlt]
    constructor
    · intro haccept
      split at haccept
      · cases haccept
      · rename_i j hturn
        obtain ⟨token, tail, hrest, htoken, rfl⟩ := (cronFieldTurn_eq_some_iff hlt _).mp hturn
        have htail := (hnext token tail hrest htoken).mp haccept
        obtain ⟨tokens, rfl, htokens⟩ := Language.mem_kstar.mp htail
        refine Language.mem_kstar.mpr ⟨token :: tokens, hrest, ?_⟩
        exact List.forall_mem_cons.mpr ⟨htoken, htokens⟩
    · intro hmem
      obtain ⟨tokens, hflat, htokens⟩ := Language.mem_kstar.mp hmem
      cases tokens with
      | nil => exact absurd hflat hnil
      | cons token tokens =>
        obtain ⟨htoken, htokens⟩ := List.forall_mem_cons.mp htokens
        have hrest : rest = token ++ tokens.flatten := hflat
        have hturn : cronFieldTurn (utf8Bytes (pre ++ rest)) isMonth isWeekday
            (utf8Bytes pre).length hlt = some (utf8Bytes (pre ++ token)).length :=
          (cronFieldTurn_eq_some_iff hlt _).mpr ⟨token, tokens.flatten, hrest, htoken, rfl⟩
        rw [hturn]
        exact (hnext token _ hrest htoken).mpr (Language.mem_kstar.mpr ⟨tokens, rfl, htokens⟩)

theorem isStandardCronField_iff_tokens (field : List Char) (isMonth isWeekday : Bool) :
    isStandardCronField field isMonth isWeekday = true ↔
      field ∈ (cronTokens isMonth isWeekday)∗ :=
  cronFieldLoop_iff isMonth isWeekday [] field

/-- A character of a text made of tokens is in one of them. -/
theorem exists_token_of_mem_kstar {l : Language Char} {pre post : List Char} {c : Char}
    (h : pre ++ c :: post ∈ l∗) : ∃ a b, a ++ c :: b ∈ l ∧ a <:+ pre ∧ b <+: post := by
  obtain ⟨tokens, hflat, htokens⟩ := Language.mem_kstar.mp h
  clear h
  induction tokens generalizing pre with
  | nil => simp at hflat
  | cons token tokens ih =>
    obtain ⟨htoken, hrests⟩ := List.forall_mem_cons.mp htokens
    rw [List.flatten_cons] at hflat
    rcases List.append_eq_append_iff.mp hflat with ⟨a, rfl, hrest⟩ | ⟨a, rfl, hrest⟩
    · cases a with
      | nil =>
        have hrest' : [] ++ c :: post = tokens.flatten := by simpa using hrest
        obtain ⟨a, b, hmem, hsuffix, hpre⟩ := ih hrest' hrests
        exact ⟨a, b, hmem, hsuffix.trans (List.nil_suffix), hpre⟩
      | cons c' b =>
        obtain ⟨rfl, rfl⟩ := List.cons.inj (hrest : c :: post = c' :: (b ++ _))
        exact ⟨pre, b, htoken, List.suffix_rfl, List.prefix_append _ _⟩
    · obtain ⟨a', b, hmem, hsuffix, hpre⟩ := ih hrest.symm hrests
      exact ⟨a', b, hmem, hsuffix.trans (List.suffix_append _ _), hpre⟩

/-- The character between `pre` and `post` belongs to the name, in any case. -/
def InName (name : String) (pre : List Char) (c : Char) (post : List Char) : Prop :=
  ∃ a b, a <:+ pre ∧ b <+: post ∧ (a ++ c :: b).map Char.toUpper = name.toList

/-- In a token, L is in JUL only and W in WED only. -/
theorem IsCronToken.letters {isMonth isWeekday : Bool} {a b : List Char} {c : Char}
    (h : IsCronToken isMonth isWeekday (a ++ c :: b)) :
    (c.toUpper = 'L' → isMonth = true ∧ (a ++ c :: b).map Char.toUpper = "JUL".toList) ∧
      (c.toUpper = 'W' → isWeekday = true ∧ (a ++ c :: b).map Char.toUpper = "WED".toList) := by
  have hmem : c.toUpper ∈ (a ++ c :: b).map Char.toUpper := by simp
  rcases h with ⟨c', heq, hc'⟩ | ⟨hmonth, name, hname, heq⟩ | ⟨hweekday, name, hname, heq⟩
  · -- neither a digit nor a symbol is a letter
    have hc : c' = c := by
      have hin : c ∈ [c'] := by
        rw [← heq]
        simp
      exact (List.mem_singleton.mp hin).symm
    rw [hc] at hc'
    have hupper : c.toUpper.isUpper = true → False := by
      intro hupper
      have hascii := hc'.elim toNat_lt_of_isDigit toNat_lt_of_mem_cronSymbols
      obtain ⟨-, hdigit, hsymbol⟩ := letter_spec hascii hupper
      rcases hc' with hd | hs
      · simp [hd] at hdigit
      · simp [hs] at hsymbol
    constructor <;> intro hletter
    · exact (hupper (by rw [hletter]; decide)).elim
    · exact (hupper (by rw [hletter]; decide)).elim
  · have hall : ∀ name ∈ cronMonthNames, 'W' ∉ name.toList ∧
        ('L' ∈ name.toList → name = "JUL") := by decide
    rw [heq] at hmem ⊢
    refine ⟨fun hl => ⟨hmonth, ?_⟩, fun hw => ?_⟩
    · rw [hl] at hmem
      rw [(hall name hname).2 hmem]
    · rw [hw] at hmem
      exact absurd hmem (hall name hname).1
  · have hall : ∀ name ∈ cronWeekdayNames, 'L' ∉ name.toList ∧
        ('W' ∈ name.toList → name = "WED") := by decide
    rw [heq] at hmem ⊢
    refine ⟨fun hl => ?_, fun hw => ⟨hweekday, ?_⟩⟩
    · rw [hl] at hmem
      exact absurd hmem (hall name hname).1
    · rw [hw] at hmem
      rw [(hall name hname).2 hmem]

/-- A field is accepted iff it is a concatenation of tokens, and the loop never stands inside a
    character. An accepted field is ASCII without `#`; its only L is that of JUL in the month
    field, and its only W that of WED in the weekday field. -/
theorem isStandardCronField_iff (field : List Char) (isMonth isWeekday : Bool) :
    (isStandardCronField field isMonth isWeekday = true ↔
      field ∈ (cronTokens isMonth isWeekday)∗) ∧
    (∀ i, CronFieldVisits (utf8Bytes field) isMonth isWeekday i →
      ∃ pre rest, field = pre ++ rest ∧ i = (utf8Bytes pre).length) ∧
    (isStandardCronField field isMonth isWeekday = true → ∀ pre c post, field = pre ++ c :: post →
      c.toNat < 128 ∧ c ≠ '#' ∧
      (c.toUpper = 'L' → isMonth = true ∧ InName "JUL" pre c post) ∧
      (c.toUpper = 'W' → isWeekday = true ∧ InName "WED" pre c post)) := by
  refine ⟨isStandardCronField_iff_tokens field isMonth isWeekday, fun i hi => hi.boundary, ?_⟩
  rintro haccept pre c post rfl
  have hmem := (isStandardCronField_iff_tokens _ isMonth isWeekday).mp haccept
  obtain ⟨a, b, htoken, hsuffix, hpre⟩ := exists_token_of_mem_kstar hmem
  have htoken' : IsCronToken isMonth isWeekday (a ++ c :: b) := htoken
  obtain ⟨hl, hw⟩ := htoken'.letters
  refine ⟨htoken'.ascii c (by simp), ?_, fun h => ⟨(hl h).1, a, b, hsuffix, hpre, (hl h).2⟩,
    fun h => ⟨(hw h).1, a, b, hsuffix, hpre, (hw h).2⟩⟩
  rintro rfl
  rcases htoken'.cases with ⟨c', heq, hc'⟩ | ⟨-, hletters⟩
  · have hin : '#' ∈ [c'] := by
      rw [← heq]
      simp
    rw [← List.mem_singleton.mp hin] at hc'
    revert hc'
    decide
  · exact absurd (hletters '#' (by simp)).2 (by decide)

/-- Accepted fields may contain the letters L and W: those of the names JUL and WED. -/
theorem cronField_accepts_letters :
    isStandardCronField "JUL".toList true false = true ∧ 'L' ∈ "JUL".toList ∧
      isStandardCronField "WED".toList false true = true ∧ 'W' ∈ "WED".toList := by
  decide +kernel

end EasyJob.Scheduler
