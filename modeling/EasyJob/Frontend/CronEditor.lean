import EasyJob.Frontend.JsText
import EasyJob.Scheduler.CronField
import Mathlib.Computability.RegularExpressions

/-!
# Cron expressions in the editor

Model of `validateCronExpression` (`apps/desktop/src/types/task.ts` lines 116–178), by which
the editor decides what can be saved. The agent reads the expression again, with
`parse_standard_cron`.

* `checkCronToken_spec`, `validateCronExpression_spec`: what is accepted.
* `cronFields_agree_iff`: when the agent sees the fields that the editor has accepted.
-/

namespace EasyJob.Frontend

open EasyJob.Scheduler (isStandardCronField splitWhitespace isWhitespace cronTokens)
open RegularExpression Words
open scoped Computability

/-! ## `CRON_TOKEN_RE` -/

def oneOf (cs : List Char) : RegularExpression Char :=
  cs.foldr (fun c r => RegularExpression.char c + r) 0

def digitRe : RegularExpression Char := oneOf "0123456789".toList

def letterRe : RegularExpression Char :=
  oneOf "ABCDEFGHIJKLMNOPQRSTUVWXYZabcdefghijklmnopqrstuvwxyz".toList

/-- `(\d+|[A-Za-z]{3})`. -/
def cronPartRe : RegularExpression Char := digitRe * digitRe.star + letterRe ^ 3

/-- `/^(\*|\?|\d+|[A-Za-z]{3})(?:-(\d+|[A-Za-z]{3}))?(?:\/(\d+))?$/`. -/
def cronTokenRe : RegularExpression Char :=
  (RegularExpression.char '*' + RegularExpression.char '?' + cronPartRe) *
    (1 + RegularExpression.char '-' * cronPartRe) *
    (1 + RegularExpression.char '/' * (digitRe * digitRe.star))

/-! ## `validateCronExpression` -/

def cronFieldRanges : List (ℕ × ℕ) := [(0, 59), (0, 23), (1, 31), (1, 12), (0, 7)]

def cronMonthNames : List (String × ℕ) :=
  [("jan", 1), ("feb", 2), ("mar", 3), ("apr", 4), ("may", 5), ("jun", 6),
    ("jul", 7), ("aug", 8), ("sep", 9), ("oct", 10), ("nov", 11), ("dec", 12)]

def cronWeekdayNames : List (String × ℕ) :=
  [("sun", 0), ("mon", 1), ("tue", 2), ("wed", 3), ("thu", 4), ("fri", 5), ("sat", 6)]

/-- The table of names of a field. -/
def cronNames (fieldIdx : ℕ) : List (String × ℕ) :=
  if fieldIdx = 3 then cronMonthNames else if fieldIdx = 4 then cronWeekdayNames else []

/-- Model of `cronFieldValue` (lines 170–178). -/
def cronFieldValue (part : List Char) (fieldIdx : ℕ) (isRangeEnd : Bool) : Option ℕ :=
  if isDigits part then some (parseInt part)
  else
    let name := String.ofList (part.map Char.toLower)
    match (cronNames fieldIdx).lookup name with
    | none => none
    | some value => if fieldIdx = 4 ∧ isRangeEnd ∧ name = "sun" then some 7 else some value

/-- Model of `checkCronToken` (lines 157–167). -/
def checkCronToken (token : List Char) (lo hi fieldIdx : ℕ) : Bool :=
  if !cronTokenRe.rmatch token then false
  else
    match token.splitOn '-' with
    | [] => false
    | start :: ends =>
      match cronFieldValue start fieldIdx false with
      | none => false
      | some startVal =>
        if startVal < lo || startVal > hi then false
        else
          match ends with
          | [] => true
          | end_ :: _ =>
            match cronFieldValue end_ fieldIdx true with
            | none => false
            | some endVal => if endVal < lo || endVal > hi then false else startVal ≤ endVal

/-- What `validateCronExpression` asks of a token (lines 142–153). -/
def validateCronToken (token : List Char) (lo hi i : ℕ) : Bool :=
  if token.contains '/' then
    match token.splitOn '/' with
    | [base, stepStr] =>
      if !isDigits stepStr || parseInt stepStr < 1 then false
      else if base = ['*'] || base = ['?'] then true
      else checkCronToken base lo hi i
    | _ => false
  else checkCronToken token lo hi i

/-- What `validateCronExpression` asks of a field (lines 139–154). -/
def validateCronField (field : List Char) (i : ℕ) : Bool :=
  if field = ['*'] || field = ['?'] then true
  else
    let (lo, hi) := cronFieldRanges.getD i (0, 0)
    (field.splitOn ',').all fun token => validateCronToken token lo hi i

/-- Model of `validateCronExpression` (lines 136–155). -/
def validateCronExpression (expr : String) : Bool :=
  let fields := trimSplit expr.toList
  if fields.length ≠ 5 then false
  else fields.zipIdx.all fun (field, i) => validateCronField field i

/-! ## What the expression matches -/

theorem mem_oneOf {cs s : List Char} : s ∈ (oneOf cs).matches' ↔ ∃ c ∈ cs, s = [c] := by
  induction cs with
  | nil => simp [oneOf, Language.notMem_zero]
  | cons c cs ih =>
    have hone : s ∈ ({[c]} : Language Char) ↔ s = [c] := Iff.rfl
    rw [oneOf, List.foldr_cons, matches'_add, Language.mem_add, ← oneOf, ih, matches'_char, hone]
    simp

theorem isDigit_of_mem_digitRe {s : List Char} (h : s ∈ digitRe.matches') :
    ∃ c, s = [c] ∧ c.isDigit = true := by
  obtain ⟨c, hc, rfl⟩ := mem_oneOf.mp h
  have hall : "0123456789".toList.all Char.isDigit = true := by decide
  exact ⟨c, rfl, List.all_eq_true.mp hall c hc⟩

theorem isDigits_of_mem {s : List Char} (h : s ∈ (digitRe * digitRe.star).matches') :
    isDigits s = true := by
  rw [matches'_mul, matches'_star, Language.mem_mul] at h
  obtain ⟨a, ha, b, hb, rfl⟩ := h
  obtain ⟨c, rfl, hc⟩ := isDigit_of_mem_digitRe ha
  obtain ⟨digits, rfl, hdigits⟩ := Language.mem_kstar.mp hb
  refine isDigits_iff.mpr ⟨by simp, fun d hd => ?_⟩
  rcases List.mem_cons.mp hd with rfl | hd
  · exact hc
  · obtain ⟨piece, hpiece, hd⟩ := List.mem_flatten.mp hd
    obtain ⟨e, rfl, he⟩ := isDigit_of_mem_digitRe (hdigits piece hpiece)
    rwa [List.mem_singleton.mp hd]

theorem isAlphanum_of_mem_cronPartRe {s : List Char} (h : s ∈ cronPartRe.matches') :
    ∀ c ∈ s, c.isAlphanum = true := by
  intro c hc
  rw [cronPartRe, matches'_add, matches'_pow] at h
  rcases (Language.mem_add _ _ _).mp h with hdigits | hletters
  · simp [Char.isAlphanum, (isDigits_iff.mp (isDigits_of_mem hdigits)).2 c hc]
  · obtain ⟨letters, rfl, -, hmem⟩ := Language.mem_pow.mp hletters
    obtain ⟨piece, hpiece, hc⟩ := List.mem_flatten.mp hc
    obtain ⟨e, he, rfl⟩ := mem_oneOf.mp (hmem piece hpiece)
    have hall : "ABCDEFGHIJKLMNOPQRSTUVWXYZabcdefghijklmnopqrstuvwxyz".toList.all
        Char.isAlphanum = true := by decide
    rw [List.mem_singleton.mp hc]
    exact List.all_eq_true.mp hall e he

/-- A token has one `-` at most. -/
theorem cronTokenRe_dash {token : List Char} (h : cronTokenRe.rmatch token = true) :
    '-' ∉ token ∨ ∃ start end_, token = start ++ '-' :: end_ ∧ '-' ∉ start ∧ '-' ∉ end_ := by
  have hpart : ∀ {s : List Char}, s ∈ cronPartRe.matches' → '-' ∉ s := fun hs hdash =>
    absurd (isAlphanum_of_mem_cronPartRe hs _ hdash) (by decide)
  have hdigits : ∀ {s : List Char}, s ∈ (digitRe * digitRe.star).matches' → '-' ∉ s :=
    fun hs hdash => absurd ((isDigits_iff.mp (isDigits_of_mem hs)).2 _ hdash) (by decide)
  rw [rmatch_iff_matches', cronTokenRe, matches'_mul, matches'_mul] at h
  obtain ⟨_, ⟨start, hstart, range, hrange, rfl⟩, step, hstep, rfl⟩ := h
  have hnoStart : '-' ∉ start := by
    rcases hstart with (rfl | rfl) | hstart
    · decide
    · decide
    · exact hpart hstart
  have hnoStep : '-' ∉ step := by
    rcases hstep with rfl | ⟨slash, rfl, digits, hmem, rfl⟩
    · decide
    · simpa using hdigits hmem
  rcases hrange with rfl | ⟨dash, rfl, end_, hend, rfl⟩
  · left
    simp [hnoStart, hnoStep]
  · right
    refine ⟨start, end_ ++ step, by simp, hnoStart, ?_⟩
    simp [hpart hend, hnoStep]

/-! ## What is accepted -/

/-- An accepted token is a value of the field, or a range of such values. -/
theorem checkCronToken_spec {token : List Char} {lo hi i : ℕ}
    (h : checkCronToken token lo hi i = true) :
    (∃ value, '-' ∉ token ∧ cronFieldValue token i false = some value ∧
        lo ≤ value ∧ value ≤ hi) ∨
      ∃ start end_ startVal endVal, token = start ++ '-' :: end_ ∧ '-' ∉ start ∧ '-' ∉ end_ ∧
        cronFieldValue start i false = some startVal ∧ cronFieldValue end_ i true = some endVal ∧
        lo ≤ startVal ∧ startVal ≤ endVal ∧ endVal ≤ hi := by
  unfold checkCronToken at h
  split_ifs at h with hre
  rw [Bool.not_eq_true', Bool.not_eq_false] at hre
  rcases cronTokenRe_dash hre with hdash | ⟨start, end_, rfl, hstart, hend⟩
  · left
    rw [List.splitOn_eq_singleton hdash] at h
    cases hvalue : cronFieldValue token i false with
    | none => simp [hvalue] at h
    | some value =>
      simp only [hvalue] at h
      split_ifs at h with hrange
      simp only [Bool.or_eq_true, decide_eq_true_eq, not_or, not_lt] at hrange
      exact ⟨value, hdash, rfl, hrange.1, hrange.2⟩
  · right
    rw [List.splitOn_append_cons_self_of_not_mem hstart, List.splitOn_eq_singleton hend] at h
    cases hstartVal : cronFieldValue start i false with
    | none => simp [hstartVal] at h
    | some startVal =>
      cases hendVal : cronFieldValue end_ i true with
      | none =>
        simp only [hstartVal, hendVal] at h
        split_ifs at h
      | some endVal =>
        simp only [hstartVal, hendVal] at h
        split_ifs at h with hlow hhigh
        simp only [Bool.or_eq_true, decide_eq_true_eq, not_or, not_lt] at hlow hhigh h
        exact ⟨start, end_, startVal, endVal, rfl, hstart, hend, hstartVal, hendVal, hlow.1, h,
          hhigh.2⟩

theorem toUpper_toLower (c : Char) : c.toLower.toUpper = c.toUpper := by
  by_cases hupper : c.val ≥ 65 ∧ c.val ≤ 90
  · have hlt : c.toNat < 128 := by
      have hle : c.val.toNat ≤ 90 := UInt32.le_iff_toNat_le.mp hupper.2
      exact Nat.lt_of_le_of_lt hle (by decide)
    have hall : ∀ n : Fin 128, (Char.ofNat n).toLower.toUpper = (Char.ofNat n).toUpper := by
      decide
    have hc := hall ⟨c.toNat, hlt⟩
    rwa [Char.ofNat_toNat] at hc
  · have heq : c.toLower = c := by
      unfold Char.toLower
      exact dif_neg hupper
    rw [heq]

/-- A name that the editor knows in a field is a token of the agent there. -/
theorem isCronToken_of_lookup {part : List Char} {i value : ℕ}
    (h : (cronNames i).lookup (String.ofList (part.map Char.toLower)) = some value) :
    Scheduler.IsCronToken (i == 3) (i == 4) part := by
  have hmem : (String.ofList (part.map Char.toLower), value) ∈ cronNames i := by
    obtain ⟨l₁, l₂, heq, -⟩ := List.lookup_eq_some_iff.mp h
    simp [heq]
  have hupper : ∀ name ∈ Scheduler.cronMonthNames ++ Scheduler.cronWeekdayNames,
      (String.ofList (part.map Char.toLower)).toList.map Char.toUpper = name.toList →
      part.map Char.toUpper = name.toList := by
    intro name _ hname
    rw [← hname, String.toList_ofList, List.map_map]
    exact List.map_congr_left fun c _ => (toUpper_toLower c).symm
  have htables : (∀ entry ∈ cronMonthNames, ∃ name ∈ Scheduler.cronMonthNames,
        entry.1.toList.map Char.toUpper = name.toList) ∧
      ∀ entry ∈ cronWeekdayNames, ∃ name ∈ Scheduler.cronWeekdayNames,
        entry.1.toList.map Char.toUpper = name.toList := by
    decide +kernel
  unfold cronNames at hmem
  split_ifs at hmem with hmonth hweekday
  · obtain ⟨name, hname, heq⟩ := htables.1 _ hmem
    exact .inr (.inl ⟨by simpa using hmonth, name, hname,
      hupper name (List.mem_append_left _ hname) heq⟩)
  · obtain ⟨name, hname, heq⟩ := htables.2 _ hmem
    exact .inr (.inr ⟨by simpa using hweekday, name, hname,
      hupper name (List.mem_append_right _ hname) heq⟩)
  · simp at hmem

section Standard

variable {i lo hi : ℕ}

/-- The texts that the agent accepts in the field. -/
abbrev standardFields (i : ℕ) : Language Char := (cronTokens (i == 3) (i == 4))∗

theorem append_mem_standardFields {s t : List Char} (hs : s ∈ standardFields i)
    (ht : t ∈ standardFields i) : s ++ t ∈ standardFields i := by
  rw [standardFields, ← kstar_mul_kstar]
  exact Language.append_mem_mul hs ht

theorem token_mem_standardFields {token : List Char}
    (h : Scheduler.IsCronToken (i == 3) (i == 4) token) : token ∈ standardFields i :=
  Language.mem_kstar.mpr ⟨[token], by simp, fun _ hmem => List.mem_singleton.mp hmem ▸ h⟩

theorem symbol_mem_standardFields {c : Char} (h : c ∈ Scheduler.cronSymbols) :
    [c] ∈ standardFields i :=
  token_mem_standardFields (.inl ⟨c, rfl, .inr h⟩)

theorem digits_mem_standardFields {s : List Char} (h : ∀ c ∈ s, c.isDigit = true) :
    s ∈ standardFields i := by
  induction s with
  | nil => exact Language.nil_mem_kstar _
  | cons c s ih =>
    obtain ⟨hc, hs⟩ := List.forall_mem_cons.mp h
    exact append_mem_standardFields (token_mem_standardFields (.inl ⟨c, rfl, .inl hc⟩)) (ih hs)

theorem cronFieldValue_standard {part : List Char} {isRangeEnd : Bool} {value : ℕ}
    (h : cronFieldValue part i isRangeEnd = some value) : part ∈ standardFields i := by
  unfold cronFieldValue at h
  split_ifs at h with hdigits
  · exact digits_mem_standardFields (isDigits_iff.mp hdigits).2
  · cases hlookup : (cronNames i).lookup (String.ofList (part.map Char.toLower)) with
    | none => simp [hlookup] at h
    | some value => exact token_mem_standardFields (isCronToken_of_lookup hlookup)

theorem checkCronToken_standard {token : List Char} (h : checkCronToken token lo hi i = true) :
    token ∈ standardFields i := by
  rcases checkCronToken_spec h with ⟨value, -, hvalue, -⟩ |
    ⟨start, end_, startVal, endVal, rfl, -, -, hstart, hend, -⟩
  · exact cronFieldValue_standard hvalue
  · have hdash : ['-'] ∈ standardFields i := symbol_mem_standardFields (by decide)
    exact append_mem_standardFields (cronFieldValue_standard hstart)
      (append_mem_standardFields hdash (cronFieldValue_standard hend))

/-- A token is accepted without a step, or with a positive one, then also after `*` and `?`. -/
theorem validateCronToken_spec {token : List Char} (h : validateCronToken token lo hi i = true) :
    ('/' ∉ token ∧ checkCronToken token lo hi i = true) ∨
      ∃ base stepStr, token = base ++ '/' :: stepStr ∧ isDigits stepStr = true ∧
        1 ≤ parseInt stepStr ∧
        (base = ['*'] ∨ base = ['?'] ∨ checkCronToken base lo hi i = true) := by
  unfold validateCronToken at h
  split_ifs at h with hslash
  · right
    split at h
    · rename_i base stepStr hsplit
      have htoken : token = base ++ '/' :: stepStr := by
        have hjoin : ['/'].intercalate (token.splitOn '/') = token := List.intercalate_splitOn '/'
        rw [hsplit] at hjoin
        simpa using hjoin.symm
      refine ⟨base, stepStr, htoken, ?_⟩
      split_ifs at h with hstep hany
      · simp only [Bool.or_eq_true, decide_eq_true_eq, not_or, Bool.not_eq_true', not_lt,
          Bool.not_eq_false] at hstep hany
        exact ⟨hstep.1, hstep.2, by tauto⟩
      · simp only [Bool.or_eq_true, decide_eq_true_eq, not_or, Bool.not_eq_true', not_lt,
          Bool.not_eq_false] at hstep
        exact ⟨hstep.1, hstep.2, .inr (.inr h)⟩
    · cases h
  · left
    exact ⟨by simpa using hslash, h⟩

theorem validateCronToken_standard {token : List Char}
    (h : validateCronToken token lo hi i = true) : token ∈ standardFields i := by
  rcases validateCronToken_spec h with ⟨-, htoken⟩ | ⟨base, stepStr, rfl, hdigits, -, hbase⟩
  · exact checkCronToken_standard htoken
  · have hslash : ['/'] ∈ standardFields i := symbol_mem_standardFields (by decide)
    have hstep := append_mem_standardFields hslash
      (digits_mem_standardFields (isDigits_iff.mp hdigits).2)
    rcases hbase with rfl | rfl | hbase
    · exact append_mem_standardFields (symbol_mem_standardFields (by decide)) hstep
    · exact append_mem_standardFields (symbol_mem_standardFields (by decide)) hstep
    · exact append_mem_standardFields (checkCronToken_standard hbase) hstep

/-- The agent accepts each field that the editor accepts. -/
theorem validateCronField_standard {field : List Char} (h : validateCronField field i = true) :
    isStandardCronField field (i == 3) (i == 4) = true := by
  rw [Scheduler.isStandardCronField_iff_tokens]
  unfold validateCronField at h
  split_ifs at h with hany
  · simp only [Bool.or_eq_true, decide_eq_true_eq] at hany
    rcases hany with rfl | rfl
    · exact symbol_mem_standardFields (by decide)
    · exact symbol_mem_standardFields (by decide)
  · have hjoin : [','].intercalate (field.splitOn ',') = field := List.intercalate_splitOn ','
    rw [← hjoin]
    have htokens : ∀ token ∈ field.splitOn ',', token ∈ standardFields i := fun token hmem =>
      validateCronToken_standard (List.all_eq_true.mp h token hmem)
    clear hjoin h
    generalize field.splitOn ',' = tokens at htokens ⊢
    induction tokens with
    | nil => exact Language.nil_mem_kstar _
    | cons token tokens ih =>
      obtain ⟨htoken, htokens⟩ := List.forall_mem_cons.mp htokens
      cases tokens with
      | nil => simpa using htoken
      | cons next tokens =>
        have hcomma : [','] ∈ standardFields i := symbol_mem_standardFields (by decide)
        have hrest := append_mem_standardFields hcomma (ih htokens)
        simpa [List.intercalate, List.intersperse] using append_mem_standardFields htoken hrest

end Standard

/-! ## Agreement with the agent -/

/-- What is accepted has five words, and each is accepted as its field. -/
theorem validateCronExpression_spec {expr : String} (h : validateCronExpression expr = true) :
    trimSplit expr.toList = words isSpace expr.toList ∧
      (words isSpace expr.toList).length = 5 ∧
      ∀ field i, (field, i) ∈ (words isSpace expr.toList).zipIdx →
        validateCronField field i = true := by
  unfold validateCronExpression at h
  dsimp only at h
  split_ifs at h with hlength
  rw [not_not] at hlength
  have hwords := trimSplit_eq (s := expr.toList) (by omega)
  rw [hwords] at h hlength
  exact ⟨hwords, hlength, fun field i hmem => List.all_eq_true.mp h (field, i) hmem⟩

/-- The agent splits the expression into the fields of the editor and accepts each. -/
def AgentReads (expr : String) : Prop :=
  splitWhitespace expr.toList = trimSplit expr.toList ∧
    ∀ field i, (field, i) ∈ (splitWhitespace expr.toList).zipIdx →
      isStandardCronField field (i == 3) (i == 4) = true

/-- Both definitions of white space, but for NEL and the byte order mark. -/
theorem isSpace_eq_isWhitespace {c : Char} (hnel : c.toNat ≠ 0x85) (hbom : c ≠ '\uFEFF') :
    isSpace c = isWhitespace c := by
  have hbom' : (c.toNat == 0xFEFF) = false :=
    beq_false_of_ne fun h => hbom (by rw [← Char.ofNat_toNat c, h])
  have hnel' : (c.toNat == 0x85) = false := beq_false_of_ne hnel
  simp only [isSpace, isWhitespace, hnel', hbom', Bool.or_false]

theorem ascii_of_isStandardCronField {field : List Char} {isMonth isWeekday : Bool}
    (h : isStandardCronField field isMonth isWeekday = true) : ∀ c ∈ field, c.toNat < 128 := by
  intro c hc
  obtain ⟨pre, post, rfl⟩ := List.append_of_mem hc
  exact ((Scheduler.isStandardCronField_iff _ _ _).2.2 h pre c post rfl).1

/-- Without a byte order mark, the agent finds the words of the editor. -/
theorem splitWhitespace_eq {expr : String} (h : validateCronExpression expr = true)
    (hbom : '\uFEFF' ∉ expr.toList) :
    splitWhitespace expr.toList = words isSpace expr.toList := by
  obtain ⟨-, -, hfields⟩ := validateCronExpression_spec h
  refine (words_congr _ _ fun c hc => ?_).symm
  have hnel : c.toNat ≠ 0x85 := by
    intro hnel
    have hspace : isSpace c = false := by simp [isSpace, hnel]
    obtain ⟨field, hfield, hmem⟩ :=
      List.mem_flatten.mp ((mem_flatten_words isSpace).mpr ⟨hc, hspace⟩)
    obtain ⟨i, hi⟩ := List.mem_iff_getElem?.mp hfield
    have hstandard :=
      validateCronField_standard (hfields field i (List.mk_mem_zipIdx_iff_getElem?.mpr hi))
    have hlt := ascii_of_isStandardCronField hstandard c hmem
    omega
  exact isSpace_eq_isWhitespace hnel fun heq => hbom (heq ▸ hc)

/-- The agent keeps a byte order mark in a field. -/
theorem bom_mem_splitWhitespace {expr : String} (h : '\uFEFF' ∈ expr.toList) :
    ∃ field i, (field, i) ∈ (splitWhitespace expr.toList).zipIdx ∧ '\uFEFF' ∈ field := by
  obtain ⟨field, hfield, hmem⟩ :=
    List.mem_flatten.mp ((mem_flatten_words isWhitespace).mpr ⟨h, by decide⟩)
  obtain ⟨i, hi⟩ := List.mem_iff_getElem?.mp hfield
  exact ⟨field, i, List.mk_mem_zipIdx_iff_getElem?.mpr hi, hmem⟩

/-- For an accepted expression, the agent finds the editor's fields and accepts each iff it
    holds no byte order mark. It leaves such an expression to `croner`, and every other one is
    rejected. -/
theorem cronFields_agree_iff {expr : String} (h : validateCronExpression expr = true) :
    (AgentReads expr ↔ '\uFEFF' ∉ expr.toList) ∧
      ∀ env, Scheduler.parseStandardCron env expr =
        if '\uFEFF' ∈ expr.toList then none else env.cronParse expr := by
  obtain ⟨hwords, hlength, hfields⟩ := validateCronExpression_spec h
  by_cases hbom : '\uFEFF' ∈ expr.toList
  · obtain ⟨field, i, hmem, hin⟩ := bom_mem_splitWhitespace hbom
    have hreject : isStandardCronField field (i == 3) (i == 4) ≠ true := fun hstandard =>
      absurd (ascii_of_isStandardCronField hstandard _ hin) (by decide)
    refine ⟨?_, fun env => ?_⟩
    · simp only [hbom, not_true_eq_false, iff_false]
      exact fun hreads => hreject (hreads.2 field i hmem)
    · unfold Scheduler.parseStandardCron
      dsimp only
      rw [if_pos hbom]
      split_ifs with hfive hall
      · rfl
      · exact absurd (List.all_eq_true.mp hall _ hmem) hreject
      · rfl
  · have hsplit := splitWhitespace_eq h hbom
    have hstandard : ∀ field i, (field, i) ∈ (splitWhitespace expr.toList).zipIdx →
        isStandardCronField field (i == 3) (i == 4) = true := by
      rw [hsplit]
      exact fun field i hmem => validateCronField_standard (hfields field i hmem)
    refine ⟨?_, fun env => ?_⟩
    · simp only [hbom, not_false_eq_true, iff_true]
      exact ⟨hsplit.trans hwords.symm, hstandard⟩
    · rw [if_neg hbom]
      unfold Scheduler.parseStandardCron
      dsimp only
      rw [if_neg (by rw [hsplit, hlength]; decide), if_pos]
      exact List.all_eq_true.mpr fun p hp => hstandard p.1 p.2 hp

/-- Without a mark, an expression with a step, a list and a range of names agrees. -/
theorem cronFields_agree_workdays : AgentReads "*/15 9,17 * * MON-FRI" := by
  have hvalid : validateCronExpression "*/15 9,17 * * MON-FRI" = true := by decide +kernel
  exact (cronFields_agree_iff hvalid).1.mpr (by decide)

/-- A byte order mark before the first field is white space for the editor only. -/
theorem cronFields_disagree :
    ¬∀ expr, validateCronExpression expr = true → AgentReads expr := by
  intro h
  obtain ⟨hsplit, -⟩ := h "\uFEFF0 9 * * *" (by decide +kernel)
  exact absurd hsplit (by decide)

end EasyJob.Frontend
