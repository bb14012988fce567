import EasyJob.Lib.Words
import Mathlib.Data.List.Basic
import Mathlib.Data.List.Flatten
import Mathlib.Tactic.Common

/-!
# PowerShell commands

A sublanguage of PowerShell: pipelines of commands, separated by semicolons, whose names and
arguments are bare words and single-quoted strings. Every other text has no reading here:
variables, subexpressions, double quotes, escapes, comments, redirections, script blocks, words
that continue a string, and keywords.

The single quotes are `'` and the four quotation marks of typography, which end a string like `'`.

* `scanString_double`: a text whose quotes are doubled is read as it was.
* `countP_tokens_string_lt`: of the typographic quotes in it one is lost.
* `countP_script_le`: no reading has more of them than the text.
-/

namespace PowerShell

/-- `IsSingleQuote`: U+0027, U+2018, U+2019, U+201A and U+201B. -/
def isSingleQuote (c : Char) : Bool :=
  c == '\'' || (0x2018 ≤ c.toNat && c.toNat ≤ 0x201B)

/-- The typographic single quotes. -/
def isCurlyQuote (c : Char) : Bool := 0x2018 ≤ c.toNat && c.toNat ≤ 0x201B

/-- White space between tokens: blank, tab, vertical tab, form feed and the separators of
    Unicode. -/
def isBlank (c : Char) : Bool :=
  c == ' ' || c.toNat == 0x9 || c.toNat == 0xB || c.toNat == 0xC || c.toNat == 0xA0 ||
    c.toNat == 0x1680 || (0x2000 ≤ c.toNat && c.toNat ≤ 0x200A) || c.toNat == 0x2028 ||
    c.toNat == 0x2029 || c.toNat == 0x202F || c.toNat == 0x205F || c.toNat == 0x3000

/-- What a bare word is made of. -/
def isPlain (c : Char) : Bool := c.isAlphanum || "-_./\\:".toList.contains c

/-! ## Tokens -/

inductive Token
  | word (text : List Char)
  | str (value : List Char)
  | semicolon
  | pipe
  | ampersand
  deriving DecidableEq, Repr

/-- After an opening quote: the value up to the closing quote, and the rest. Of two quotes in a
    row the second one is part of the value. -/
def scanString : List Char → Option (List Char × List Char)
  | [] => none
  | [c] => if isSingleQuote c then some ([], []) else none
  | c :: c' :: s =>
    if isSingleQuote c then
      if isSingleQuote c' then (scanString s).map fun (value, rest) => (c' :: value, rest)
      else some ([], c' :: s)
    else (scanString (c' :: s)).map fun (value, rest) => (c :: value, rest)

/-- A word or a string ends here. -/
def isEnd (rest : List Char) : Bool :=
  match rest with
  | [] => true
  | c :: _ => isBlank c || c == ';' || c == '|' || c == '&'

/-- The token at the start, and the rest. -/
def scanToken (c : Char) (s : List Char) : Option (Token × List Char) :=
  if isSingleQuote c then
    match scanString s with
    | some (value, rest) => if isEnd rest then some (.str value, rest) else none
    | none => none
  else if c = ';' then some (.semicolon, s)
  else if c = '|' then some (.pipe, s)
  else if c = '&' then some (.ampersand, s)
  else if isPlain c && isEnd (s.dropWhile isPlain) then
    some (.word (c :: s.takeWhile isPlain), s.dropWhile isPlain)
  else none

theorem scanString_length {s value rest : List Char} (h : scanString s = some (value, rest)) :
    rest.length < s.length := by
  fun_induction scanString s generalizing value with
  | case1 => cases h
  | case2 c hc =>
    cases h
    exact Nat.zero_lt_one
  | case3 => cases h
  | case4 c c' s hc hc' ih =>
    obtain ⟨⟨value', rest'⟩, hscan, heq⟩ := Option.map_eq_some_iff.mp h
    cases heq
    exact Nat.lt_succ_of_lt (Nat.lt_succ_of_lt (ih hscan))
  | case5 c c' s hc hc' =>
    cases h
    exact Nat.lt_succ_self _
  | case6 c c' s hc ih =>
    obtain ⟨⟨value', rest'⟩, hscan, heq⟩ := Option.map_eq_some_iff.mp h
    cases heq
    exact Nat.lt_trans (ih hscan) (Nat.lt_succ_self _)

theorem scanToken_length {c : Char} {s rest : List Char} {t : Token}
    (h : scanToken c s = some (t, rest)) : rest.length < s.length + 1 := by
  unfold scanToken at h
  split_ifs at h
  · split at h
    · rename_i value rest' hscan
      split_ifs at h
      cases h
      exact Nat.lt_succ_of_lt (scanString_length hscan)
    · cases h
  all_goals cases h
  · exact Nat.lt_succ_self _
  · exact Nat.lt_succ_self _
  · exact Nat.lt_succ_self _
  · exact Nat.lt_succ_of_le (List.dropWhile_suffix _).length_le

section Tokens

-- the equations of `tokens` do not look into the kinds of characters
attribute [local irreducible] isBlank isSingleQuote isPlain

def tokens : List Char → Option (List Token)
  | [] => some []
  | c :: s =>
    if isBlank c then tokens s
    else
      match _h : scanToken c s with
      | some (t, rest) => (tokens rest).map (t :: ·)
      | none => none
termination_by s => s.length
decreasing_by
  · simp
  · exact scanToken_length _h

@[simp] theorem tokens_nil : tokens [] = some [] := by rw [tokens]

theorem tokens_blank {c : Char} (hc : isBlank c = true) (s : List Char) :
    tokens (c :: s) = tokens s := by
  rw [tokens, if_pos hc]

theorem tokens_cons {c : Char} {s rest : List Char} {t : Token} (hc : isBlank c = false)
    (h : scanToken c s = some (t, rest)) : tokens (c :: s) = (tokens rest).map (t :: ·) := by
  rw [tokens, if_neg (by simp [hc])]
  split
  · rename_i t' rest' h'
    rw [h] at h'
    cases h'
    rfl
  · rename_i h'
    rw [h] at h'
    cases h'

end Tokens

/-! ## Commands -/

structure Command where
  name : List Char
  args : List Token
  deriving DecidableEq, Repr

/-- The arguments as texts. -/
def Token.text : Token → List Char
  | .word text => text
  | .str value => value
  | _ => []

def Token.isArg : Token → Bool
  | .word _ => true
  | .str _ => true
  | _ => false

/-- The reserved words. -/
def keywords : List String :=
  ["assembly", "base", "begin", "break", "catch", "class", "clean", "command", "configuration",
    "continue", "data", "define", "do", "dynamicparam", "else", "elseif", "end", "enum", "exit",
    "filter", "finally", "for", "foreach", "from", "function", "hidden", "if", "in",
    "inlinescript", "interface", "module", "namespace", "parallel", "param", "private", "process",
    "public", "return", "sequence", "static", "switch", "throw", "trap", "try", "type", "until",
    "using", "var", "while", "workflow"]

/-- A word that names a command without the call operator. -/
def isCommandName (word : List Char) : Bool :=
  word.head?.any Char.isAlpha && !keywords.contains (String.ofList (word.map Char.toLower))

/-- One command: a name, or the call operator and a word or a string, with arguments. -/
def command : List Token → Option Command
  | .ampersand :: name :: args =>
    if name.isArg && !name.text.isEmpty && args.all Token.isArg then some ⟨name.text, args⟩
    else none
  | .word name :: args =>
    if isCommandName name && args.all Token.isArg then some ⟨name, args⟩ else none
  | _ => none

/-- The pipelines of a script. -/
def script (s : List Char) : Option (List (List Command)) := do
  let ts ← tokens s
  ((ts.splitOn .semicolon).filter fun statement => !statement.isEmpty).mapM fun statement =>
    (statement.splitOn .pipe).mapM command

/-! ## Reading what was written -/

/-- The quotes of a text, doubled. -/
def double (s : List Char) : List Char :=
  s.flatMap fun c => if c = '\'' then ['\'', '\''] else [c]

theorem isSingleQuote_eq (c : Char) : isSingleQuote c = (c == '\'' || isCurlyQuote c) := rfl

theorem double_cons (c : Char) (s : List Char) :
    double (c :: s) = (if c = '\'' then ['\'', '\''] else [c]) ++ double s := rfl

/-- A text whose quotes are doubled, between quotes. -/
theorem scanString_double {s : List Char} (hs : ∀ c ∈ s, isCurlyQuote c = false)
    {rest : List Char} (hrest : ∀ c ∈ rest.head?, isSingleQuote c = false) :
    scanString (double s ++ '\'' :: rest) = some (s, rest) := by
  induction s with
  | nil =>
    cases rest with
    | nil => rfl
    | cons c rest =>
      have hc : isSingleQuote c = false := hrest c rfl
      simp [double, scanString, hc, show isSingleQuote '\'' = true from rfl]
  | cons c s ih =>
    obtain ⟨hc, hs'⟩ := List.forall_mem_cons.mp hs
    have hrec := ih hs'
    by_cases hquote : c = '\''
    · subst hquote
      simp [double_cons, scanString, hrec, show isSingleQuote '\'' = true from rfl]
    · have hsingle : isSingleQuote c = false := by simp [isSingleQuote_eq, hquote, hc]
      rw [double_cons, if_neg hquote, List.singleton_append, List.cons_append]
      obtain ⟨c', t, ht⟩ : ∃ c' t, double s ++ '\'' :: rest = c' :: t := by
        cases double s with
        | nil => exact ⟨_, _, rfl⟩
        | cons c' t => exact ⟨c', t ++ '\'' :: rest, rfl⟩
      rw [ht] at hrec ⊢
      rw [scanString, hsingle, hrec]
      rfl

theorem isAlphanum_bounds {c : Char} (h : c.isAlphanum = true) :
    48 ≤ c.toNat ∧ c.toNat ≤ 122 := by
  have htoNat : c.val.toNat = c.toNat := rfl
  have hconst : '0'.val.toNat = 48 ∧ '9'.val.toNat = 57 ∧ 'A'.val.toNat = 65 ∧
      'Z'.val.toNat = 90 ∧ 'a'.val.toNat = 97 ∧ 'z'.val.toNat = 122 := by decide
  delta Char.isAlphanum Char.isAlpha Char.isUpper Char.isLower Char.isDigit at h
  simp only [Bool.or_eq_true, Bool.and_eq_true, decide_eq_true_eq, UInt32.le_iff_toNat_le,
    ge_iff_le] at h
  omega

/-- What a word is made of does not end it, nor starts anything else. -/
theorem isPlain_spec {c : Char} (h : isPlain c = true) :
    isBlank c = false ∧ isSingleQuote c = false ∧ c ≠ ';' ∧ c ≠ '|' ∧ c ≠ '&' := by
  rcases Bool.or_eq_true_iff.mp h with h | h
  · obtain ⟨hlo, hhi⟩ := isAlphanum_bounds h
    have hne : ∀ d : Char, (d.toNat < 48 ∨ 122 < d.toNat) → c ≠ d := by
      rintro d hd rfl
      omega
    refine ⟨?_, ?_, ?_, hne _ (by decide), ?_⟩
    · have hblank : c ≠ ' ' := hne _ (by decide)
      simp [isBlank, hblank]
      omega
    · have hquote : c ≠ '\'' := hne _ (by decide)
      simp [isSingleQuote, hquote]
      omega
    · rintro rfl
      cases h
    · exact hne _ (by decide)
  · have hall : "-_./\\:".toList.all (fun c => !isBlank c && !isSingleQuote c && c != ';' &&
        c != '|' && c != '&') = true := by decide
    have hc := List.all_eq_true.mp hall c (List.contains_iff_mem.mp h)
    simpa [and_assoc] using hc

theorem isEnd_head {rest : List Char} (h : isEnd rest = true) {c : Char} (hc : c ∈ rest.head?) :
    isSingleQuote c = false ∧ isPlain c = false := by
  obtain ⟨t, rfl⟩ := List.head?_eq_some_iff.mp hc
  have hplain : isPlain c = false := by
    by_contra hplain
    have hspec := isPlain_spec (by simpa using hplain)
    simp [isEnd, hspec] at h
  refine ⟨?_, hplain⟩
  by_contra hquote
  have hsingle : c = '\'' ∨ (0x2018 ≤ c.toNat ∧ c.toNat ≤ 0x201B) := by
    simpa [isSingleQuote, or_iff_not_imp_left] using hquote
  rcases hsingle with rfl | ⟨hlo, hhi⟩
  · cases h
  · have hne : ∀ d : Char, d.toNat < 0x2018 → c ≠ d := by
      rintro d hd rfl
      omega
    have h1 := hne ' ' (by decide)
    have h2 := hne ';' (by decide)
    have h3 := hne '|' (by decide)
    have h4 := hne '&' (by decide)
    simp [isEnd, isBlank, h1, h2, h3, h4] at h
    omega

/-- A string in quotes. -/
theorem tokens_string {s : List Char} (hs : ∀ c ∈ s, isCurlyQuote c = false) {rest : List Char}
    (hrest : isEnd rest = true) :
    tokens ('\'' :: (double s ++ '\'' :: rest)) = (tokens rest).map (.str s :: ·) := by
  have hquote : isSingleQuote '\'' = true := rfl
  refine tokens_cons rfl ?_
  rw [scanToken, if_pos hquote, scanString_double hs fun c hc => (isEnd_head hrest hc).1]
  exact if_pos hrest

/-- A word of plain characters. -/
theorem tokens_word {w rest : List Char} (hne : w ≠ []) (hw : ∀ c ∈ w, isPlain c = true)
    (hrest : isEnd rest = true) : tokens (w ++ rest) = (tokens rest).map (.word w :: ·) := by
  obtain ⟨c, w, rfl⟩ := List.exists_cons_of_ne_nil hne
  obtain ⟨hplain, hw'⟩ := List.forall_mem_cons.mp hw
  obtain ⟨hblank, hquote, hsemi, hpipe, hamp⟩ := isPlain_spec hplain
  have hrest' : rest.dropWhile isPlain = rest ∧ rest.takeWhile isPlain = [] := by
    cases rest with
    | nil => exact ⟨rfl, rfl⟩
    | cons c' rest =>
      have hc' : isPlain c' = false := (isEnd_head hrest rfl).2
      simp [hc']
  have hdrop : (w ++ rest).dropWhile isPlain = rest := by
    rw [List.dropWhile_append_of_pos hw', hrest'.1]
  have htake : (w ++ rest).takeWhile isPlain = w := by
    rw [List.takeWhile_append_of_pos hw', hrest'.2, List.append_nil]
  refine tokens_cons hblank ?_
  simp [scanToken, hquote, hsemi, hpipe, hamp, hplain, hdrop, htake, hrest]

theorem tokens_word_blank {w : List Char} (hne : w ≠ []) (hw : w.all isPlain = true)
    (rest : List Char) : tokens (w ++ ' ' :: rest) = (tokens rest).map (.word w :: ·) := by
  rw [tokens_word hne (fun c hc => List.all_eq_true.mp hw c hc) rfl, tokens_blank rfl]

theorem tokens_ampersand (rest : List Char) :
    tokens ('&' :: rest) = (tokens rest).map (.ampersand :: ·) :=
  tokens_cons rfl rfl

/-- One command. -/
theorem script_of_tokens {s : List Char} {ts : List Token} {cmd : Command}
    (h : tokens s = some ts) (hne : ts ≠ []) (hsemicolon : Token.semicolon ∉ ts)
    (hpipe : Token.pipe ∉ ts) (hcommand : command ts = some cmd) : script s = some [[cmd]] := by
  rw [script, h]
  simp [List.splitOn_eq_singleton hsemicolon, List.splitOn_eq_singleton hpipe, hne, hcommand]

/-! ## What a reading is made of -/

section Count

variable (p : Char → Bool)

theorem countP_scanString_le {s value rest : List Char} (h : scanString s = some (value, rest)) :
    value.countP p + rest.countP p ≤ s.countP p := by
  fun_induction scanString s generalizing value with
  | case1 => cases h
  | case2 c hc =>
    cases h
    exact Nat.zero_le _
  | case3 => cases h
  | case4 c c' s hc hc' ih =>
    obtain ⟨⟨value', rest'⟩, hscan, heq⟩ := Option.map_eq_some_iff.mp h
    cases heq
    have hrec := ih hscan
    simp only [List.countP_cons] at hrec ⊢
    omega
  | case5 c c' s hc hc' =>
    cases h
    simp only [List.countP_cons, List.countP_nil]
    omega
  | case6 c c' s hc ih =>
    obtain ⟨⟨value', rest'⟩, hscan, heq⟩ := Option.map_eq_some_iff.mp h
    cases heq
    have hrec := ih hscan
    simp only [List.countP_cons] at hrec ⊢
    omega

theorem countP_scanToken_le {c : Char} {s rest : List Char} {t : Token}
    (h : scanToken c s = some (t, rest)) :
    t.text.countP p + rest.countP p ≤ (c :: s).countP p := by
  unfold scanToken at h
  split_ifs at h
  · split at h
    · rename_i value rest' hscan
      split_ifs at h
      cases h
      have hle := countP_scanString_le p hscan
      simp only [Token.text, List.countP_cons]
      omega
    · cases h
  all_goals cases h
  · simp [Token.text, List.countP_cons]
  · simp [Token.text, List.countP_cons]
  · simp [Token.text, List.countP_cons]
  · have hsplit : s.countP p = (s.takeWhile isPlain).countP p + (s.dropWhile isPlain).countP p := by
      rw [← List.countP_append, List.takeWhile_append_dropWhile]
    simp only [Token.text, List.countP_cons]
    omega

theorem countP_tokens_le {s : List Char} {ts : List Token} (h : tokens s = some ts) :
    (ts.flatMap Token.text).countP p ≤ s.countP p := by
  fun_induction tokens s generalizing ts with
  | case1 =>
    cases h
    exact Nat.zero_le _
  | case2 c s hc ih => exact (ih h).trans (List.sublist_cons_self c s).countP_le
  | case3 c s hc t rest hscan ih =>
    obtain ⟨ts', hrest, rfl⟩ := Option.map_eq_some_iff.mp h
    have hrec := ih hrest
    have htoken := countP_scanToken_le p hscan
    rw [List.flatMap_cons, List.countP_append]
    omega
  | case4 => cases h

theorem command_text {ts : List Token} {cmd : Command} (h : command ts = some cmd) :
    cmd.name ++ cmd.args.flatMap Token.text = ts.flatMap Token.text := by
  unfold command at h
  split at h
  · split_ifs at h
    cases h
    rfl
  · split_ifs at h
    cases h
    rfl
  · cases h

theorem exists_of_mem_mapM {α β : Type} {f : α → Option β} {xs : List α} {ys : List β}
    (h : xs.mapM f = some ys) {y : β} (hy : y ∈ ys) : ∃ x ∈ xs, f x = some y := by
  induction xs generalizing ys with
  | nil =>
    cases h
    cases hy
  | cons x xs ih =>
    rw [List.mapM_cons] at h
    obtain ⟨y', hy', h⟩ := Option.bind_eq_some_iff.mp h
    obtain ⟨ys', hys', h⟩ := Option.bind_eq_some_iff.mp h
    cases h
    rcases List.mem_cons.mp hy with rfl | hy
    · exact ⟨x, List.mem_cons_self, hy'⟩
    · obtain ⟨x', hx', hf⟩ := ih hys' hy
      exact ⟨x', List.mem_cons_of_mem _ hx', hf⟩

/-- The texts of a command are among those of the tokens. -/
theorem sublist_of_script {s : List Char} {pipelines : List (List Command)}
    (h : script s = some pipelines) {pipeline : List Command} (hpipeline : pipeline ∈ pipelines)
    {cmd : Command} (hcmd : cmd ∈ pipeline) :
    ∃ ts, tokens s = some ts ∧
      (cmd.name ++ cmd.args.flatMap Token.text).Sublist (ts.flatMap Token.text) := by
  obtain ⟨ts, hts, h⟩ := Option.bind_eq_some_iff.mp h
  obtain ⟨statement, hstatement, hmap⟩ := exists_of_mem_mapM h hpipeline
  obtain ⟨part, hpart, hcommand⟩ := exists_of_mem_mapM hmap hcmd
  have hsub : part.Sublist ts :=
    (Words.sublist_of_mem_splitOn hpart).trans
      (Words.sublist_of_mem_splitOn (List.mem_of_mem_filter hstatement))
  refine ⟨ts, hts, ?_⟩
  rw [command_text hcommand]
  exact hsub.flatMap _

/-- No command has more of a kind of characters than the text. -/
theorem countP_script_le {s : List Char} {pipelines : List (List Command)}
    (h : script s = some pipelines) {pipeline : List Command} (hpipeline : pipeline ∈ pipelines)
    {cmd : Command} (hcmd : cmd ∈ pipeline) :
    (cmd.name ++ cmd.args.flatMap Token.text).countP p ≤ s.countP p := by
  obtain ⟨ts, hts, hsub⟩ := sublist_of_script h hpipeline hcmd
  exact hsub.countP_le.trans (countP_tokens_le p hts)

end Count

/-- A typographic quote between quotes is lost, or ends the string. -/
theorem countP_scanString_lt {s t value rest : List Char} (hs : ∃ c ∈ s, isCurlyQuote c = true)
    (h : scanString (double s ++ t) = some (value, rest)) :
    value.countP isCurlyQuote + rest.countP isCurlyQuote <
      (double s ++ t).countP isCurlyQuote := by
  induction s generalizing value with
  | nil => simp at hs
  | cons c s ih =>
    by_cases hquote : c = '\''
    · subst hquote
      have hs' : ∃ c ∈ s, isCurlyQuote c = true := by simpa [isCurlyQuote] using hs
      rw [double_cons, if_pos rfl] at h ⊢
      obtain ⟨⟨value', rest'⟩, hscan, heq⟩ := Option.map_eq_some_iff.mp h
      cases heq
      have hrec := ih hs' hscan
      simp only [List.cons_append, List.nil_append, List.countP_cons] at hrec ⊢
      omega
    · rw [double_cons, if_neg hquote, List.singleton_append, List.cons_append] at h ⊢
      generalize hrest : double s ++ t = following at h ih ⊢
      by_cases hcurly : isCurlyQuote c = true
      · -- it ends the string, or the quote after it is read in its place
        have hsingle : isSingleQuote c = true := by simp [isSingleQuote_eq, hcurly]
        cases following with
        | nil =>
          simp only [scanString, hsingle, if_true, Option.some.injEq, Prod.mk.injEq] at h
          obtain ⟨rfl, rfl⟩ := h
          simp [hcurly]
        | cons c' following =>
          by_cases hc' : isSingleQuote c' = true
          · simp only [scanString, hsingle, hc', if_true] at h
            obtain ⟨⟨value', rest'⟩, hscan, heq⟩ := Option.map_eq_some_iff.mp h
            cases heq
            have hle := countP_scanString_le isCurlyQuote hscan
            simp only [List.countP_cons, hcurly, if_true] at hle ⊢
            omega
          · simp only [scanString, hsingle, hc', if_true] at h
            cases h
            simp [List.countP_cons, hcurly]
      · have hs' : ∃ c ∈ s, isCurlyQuote c = true := by simpa [hcurly] using hs
        have hsingle : ¬isSingleQuote c = true := by simp [isSingleQuote_eq, hquote, hcurly]
        cases following with
        | nil => simp [scanString, hsingle] at h
        | cons c' following =>
          simp only [scanString, hsingle] at h
          obtain ⟨⟨value', rest'⟩, hscan, heq⟩ := Option.map_eq_some_iff.mp h
          cases heq
          have hrec := ih hs' hscan
          simp only [List.countP_cons, hcurly] at hrec ⊢
          simpa using hrec

/-- So the tokens of a quoted text with a typographic quote have fewer of them than it has. -/
theorem countP_tokens_string_lt {s t : List Char} {ts : List Token}
    (hs : ∃ c ∈ s, isCurlyQuote c = true) (h : tokens ('\'' :: (double s ++ t)) = some ts) :
    (ts.flatMap Token.text).countP isCurlyQuote < (double s ++ t).countP isCurlyQuote := by
  have hquote : isSingleQuote '\'' = true := rfl
  rw [tokens, if_neg (by decide)] at h
  split at h
  · rename_i token rest hscan
    obtain ⟨ts', hrest, rfl⟩ := Option.map_eq_some_iff.mp h
    rw [scanToken, if_pos hquote] at hscan
    split at hscan
    · rename_i value rest' hstring
      split_ifs at hscan
      cases hscan
      have hlt := countP_scanString_lt hs hstring
      have hle := countP_tokens_le isCurlyQuote hrest
      rw [List.flatMap_cons, List.countP_append, Token.text]
      omega
    · cases hscan
  · cases h

end PowerShell
