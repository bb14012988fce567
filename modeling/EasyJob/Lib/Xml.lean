import EasyJob.Lib.Words
import Mathlib.Data.List.Basic
import Mathlib.Data.List.Infix
import Mathlib.Data.List.TakeWhile
import Mathlib.Tactic.Common

/-!
# XML documents

XML 1.0 as far as elements, character data, references to characters and the predefined entities,
CDATA sections, comments and processing instructions go. A document type declaration names an
external subset only; references in attribute values have no reading here.

* `countP_lex`: no reading has more `!`, `?` and `&` than the text, and one with a `<` has fewer.
* `lex_append`: character data ends at the next `<`.
* `lex_charData`, `lex_clean`: what character data stands for, and when for itself.
* `parse_eq_some`: what the root is.
* `countP_parse`: the text of the root has no more `!`, `?` and `&` than the document's content.
-/

namespace Xml

open Words (splitAtFirst splitAtFirst_eq splitAtFirst_suffix)

/-! ## Characters -/

def inRanges (ranges : List (ℕ × ℕ)) (c : Char) : Bool :=
  ranges.any fun (low, high) => low ≤ c.toNat && c.toNat ≤ high

/-- `Char` -/
def isChar (c : Char) : Bool :=
  inRanges [(0x9, 0xA), (0xD, 0xD), (0x20, 0xD7FF), (0xE000, 0xFFFD), (0x10000, 0x10FFFF)] c

/-- `S` -/
def isSpace (c : Char) : Bool := c == ' ' || c == '\t' || c == '\r' || c == '\n'

/-- `NameStartChar` -/
def isNameStart (c : Char) : Bool :=
  c.isAlpha || c == ':' || c == '_' ||
    inRanges [(0xC0, 0xD6), (0xD8, 0xF6), (0xF8, 0x2FF), (0x370, 0x37D), (0x37F, 0x1FFF),
      (0x200C, 0x200D), (0x2070, 0x218F), (0x2C00, 0x2FEF), (0x3001, 0xD7FF), (0xF900, 0xFDCF),
      (0xFDF0, 0xFFFD), (0x10000, 0xEFFFF)] c

/-- `NameChar` -/
def isNameChar (c : Char) : Bool :=
  isNameStart c || c == '-' || c == '.' || c.isDigit ||
    inRanges [(0xB7, 0xB7), (0x300, 0x36F), (0x203F, 0x2040)] c

/-- The ends of lines, as they are read; a line feed after a carriage return is part of the same
    end. -/
def normalizeFrom (afterReturn : Bool) : List Char → List Char
  | [] => []
  | c :: s =>
    if c = '\r' then '\n' :: normalizeFrom true s
    else if c = '\n' ∧ afterReturn then normalizeFrom false s
    else c :: normalizeFrom false s

def normalize (s : List Char) : List Char := normalizeFrom false s

/-! ## Tokens -/

inductive Token
  | char (c : Char)
  | cdata (s : List Char)
  /-- A comment or a processing instruction. -/
  | skip
  | startTag (name : List Char)
  | endTag (name : List Char)
  | emptyTag (name : List Char)
  deriving DecidableEq, Repr

def scanName (s : List Char) : Option (List Char × List Char) :=
  if s.head?.any isNameStart then some (s.takeWhile isNameChar, s.dropWhile isNameChar) else none

/-- Where in a tag the reader stands: after the name or an attribute, after white space, in the
    name of an attribute, before the `=` or the value, in the value. `seen` are the names of the
    attributes before. -/
inductive TagMode
  | between (seen : List (List Char))
  | gap (seen : List (List Char))
  | name (seen : List (List Char)) (name : List Char)
  | beforeEq (seen : List (List Char))
  | beforeValue (seen : List (List Char))
  | value (seen : List (List Char)) (quote : Char)

/-- The rest of a tag: whether it is an empty-element tag, and what follows it. -/
def scanTag : TagMode → List Char → Option (Bool × List Char)
  | _, [] => none
  | .between seen, c :: s =>
    if c = '>' then some (false, s)
    else if c = '/' then if s.head? = some '>' then some (true, s.tail) else none
    else if isSpace c then scanTag (.gap seen) s
    else none
  | .gap seen, c :: s =>
    if c = '>' then some (false, s)
    else if c = '/' then if s.head? = some '>' then some (true, s.tail) else none
    else if isSpace c then scanTag (.gap seen) s
    else if isNameStart c then scanTag (.name seen [c]) s
    else none
  | .name seen name, c :: s =>
    if isNameChar c then scanTag (.name seen (name ++ [c])) s
    else if seen.contains name then none
    else if c = '=' then scanTag (.beforeValue (name :: seen)) s
    else if isSpace c then scanTag (.beforeEq (name :: seen)) s
    else none
  | .beforeEq seen, c :: s =>
    if c = '=' then scanTag (.beforeValue seen) s
    else if isSpace c then scanTag (.beforeEq seen) s
    else none
  | .beforeValue seen, c :: s =>
    if c = '"' ∨ c = '\'' then scanTag (.value seen c) s
    else if isSpace c then scanTag (.beforeValue seen) s
    else none
  | .value seen quote, c :: s =>
    if c = quote then scanTag (.between seen) s
    else if c = '<' ∨ c = '&' then none
    else scanTag (.value seen quote) s

/-- The value of the digits of a character reference. -/
def digits (base : ℕ) (s : List Char) : Option ℕ :=
  if s.isEmpty then none
  else s.foldlM (fun n c =>
    if c.isDigit then some (n * base + (c.toNat - '0'.toNat))
    else if base = 16 ∧ 'a' ≤ c.toLower ∧ c.toLower ≤ 'f' then
      some (n * base + (c.toLower.toNat - 'a'.toNat + 10))
    else none) 0

/-- A character by its number. -/
def charOfNat (n : ℕ) : Option Char :=
  if n.isValidChar ∧ isChar (Char.ofNat n) then some (Char.ofNat n) else none

/-- What stands between `&` and `;`. -/
def entity : List Char → Option Char
  | ['l', 't'] => some '<'
  | ['g', 't'] => some '>'
  | ['a', 'm', 'p'] => some '&'
  | ['a', 'p', 'o', 's'] => some '\''
  | ['q', 'u', 'o', 't'] => some '"'
  | '#' :: 'x' :: s => (digits 16 s).bind charOfNat
  | '#' :: s => (digits 10 s).bind charOfNat
  | _ => none

def isReferenceChar (c : Char) : Bool := c.isAlphanum || c == '#'

/-- After `&`. -/
def lexReference (s : List Char) : Option (Token × List Char) :=
  match s.dropWhile isReferenceChar with
  | ';' :: rest => (entity (s.takeWhile isReferenceChar)).map (.char ·, rest)
  | _ => none

/-- After `<!`. -/
def lexDeclaration (s : List Char) : Option (Token × List Char) :=
  if ['-', '-'].isPrefixOf s then
    match splitAtFirst ['-', '-'] (s.drop 2) with
    | some (_, '>' :: rest) => some (.skip, rest)
    | _ => none
  else if ['[', 'C', 'D', 'A', 'T', 'A', '['].isPrefixOf s then
    (splitAtFirst [']', ']', '>'] (s.drop 7)).map fun (body, rest) => (.cdata body, rest)
  else none

/-- After `<?`. -/
def lexInstruction (s : List Char) : Option (Token × List Char) := do
  let (target, rest) ← scanName s
  if target.map Char.toLower = ['x', 'm', 'l'] then none
  else if rest.head?.any isSpace || ['?', '>'].isPrefixOf rest then
    (splitAtFirst ['?', '>'] rest).map fun (_, rest) => (.skip, rest)
  else none

/-- After `</`. -/
def lexEndTag (s : List Char) : Option (Token × List Char) := do
  let (name, rest) ← scanName s
  match rest.dropWhile isSpace with
  | '>' :: rest => some (.endTag name, rest)
  | _ => none

/-- After `<`. -/
def lexStartTag (s : List Char) : Option (Token × List Char) := do
  let (name, rest) ← scanName s
  let (isEmpty, rest) ← scanTag (.between []) rest
  pure (if isEmpty then .emptyTag name else .startTag name, rest)

def lexMarkup : List Char → Option (Token × List Char)
  | [] => none
  | c :: s =>
    if c = '!' then lexDeclaration s
    else if c = '?' then lexInstruction s
    else if c = '/' then lexEndTag s
    else lexStartTag (c :: s)

/-- The token at the start of content, and the rest. -/
def lexToken (c : Char) (s : List Char) : Option (Token × List Char) :=
  if c = '<' then lexMarkup s
  else if c = '&' then lexReference s
  else if c = ']' ∧ [']', '>'].isPrefixOf s then none
  else some (.char c, s)

theorem scanName_suffix {s name rest : List Char} (h : scanName s = some (name, rest)) :
    rest <:+ s := by
  unfold scanName at h
  split_ifs at h
  cases h
  exact List.dropWhile_suffix _

theorem scanTag_suffix {mode : TagMode} {s rest : List Char} {isEmpty : Bool}
    (h : scanTag mode s = some (isEmpty, rest)) : rest <:+ s := by
  have htail : ∀ t : List Char, t.tail <:+ t := fun t => List.tail_suffix t
  induction s generalizing mode with
  | nil =>
    rw [scanTag] at h
    cases h
  | cons c s ih =>
    have hcons : ∀ {t : List Char}, t <:+ s → t <:+ c :: s :=
      fun ht => ht.trans (List.suffix_cons c s)
    cases mode <;> rw [scanTag] at h <;> split_ifs at h <;>
      first
        | exact hcons (ih h)
        | (cases h; exact hcons (List.suffix_refl _))
        | (cases h; exact hcons (htail _))

theorem lexMarkup_suffix {s rest : List Char} {t : Token} (h : lexMarkup s = some (t, rest)) :
    rest <:+ s := by
  cases s with
  | nil => cases h
  | cons c s =>
    have hcons : ∀ {t : List Char}, t <:+ s → t <:+ c :: s :=
      fun ht => ht.trans (List.suffix_cons c s)
    rw [lexMarkup] at h
    split_ifs at h
    · unfold lexDeclaration at h
      split_ifs at h
      · split at h
        · rename_i body rest' hsplit
          cases h
          exact hcons (((List.suffix_cons _ _).trans (splitAtFirst_suffix hsplit)).trans
            (List.drop_suffix 2 s))
        · cases h
      · obtain ⟨⟨body, rest'⟩, hsplit, heq⟩ := Option.map_eq_some_iff.mp h
        cases heq
        exact hcons ((splitAtFirst_suffix hsplit).trans (List.drop_suffix 7 s))
    · obtain ⟨⟨target, rest'⟩, hname, h⟩ := Option.bind_eq_some_iff.mp h
      dsimp only at h
      split_ifs at h
      obtain ⟨⟨body, rest''⟩, hsplit, heq⟩ := Option.map_eq_some_iff.mp h
      cases heq
      exact hcons ((splitAtFirst_suffix hsplit).trans (scanName_suffix hname))
    · obtain ⟨⟨name, rest'⟩, hname, h⟩ := Option.bind_eq_some_iff.mp h
      dsimp only at h
      split at h
      · rename_i rest'' hspace
        cases h
        have hsuffix : rest <:+ rest'.dropWhile isSpace := hspace ▸ List.suffix_cons _ _
        exact hcons ((hsuffix.trans (List.dropWhile_suffix _)).trans (scanName_suffix hname))
      · cases h
    · obtain ⟨⟨name, rest'⟩, hname, h⟩ := Option.bind_eq_some_iff.mp h
      obtain ⟨⟨isEmpty, rest''⟩, htag, h⟩ := Option.bind_eq_some_iff.mp h
      cases h
      exact (scanTag_suffix htag).trans (scanName_suffix hname)

theorem lexReference_suffix {s rest : List Char} {t : Token}
    (h : lexReference s = some (t, rest)) : rest <:+ s := by
  unfold lexReference at h
  split at h
  · rename_i rest' hdrop
    obtain ⟨c, -, heq⟩ := Option.map_eq_some_iff.mp h
    cases heq
    have hsuffix : rest <:+ s.dropWhile isReferenceChar :=
      hdrop ▸ List.suffix_cons _ _
    exact hsuffix.trans (List.dropWhile_suffix _)
  · cases h

theorem lexToken_suffix {c : Char} {s rest : List Char} {t : Token}
    (h : lexToken c s = some (t, rest)) : rest <:+ s := by
  unfold lexToken at h
  split_ifs at h
  · exact lexMarkup_suffix h
  · exact lexReference_suffix h
  · cases h
    exact List.suffix_refl s

/-- The tokens of content. -/
def lex : List Char → Option (List Token)
  | [] => some []
  | c :: s =>
    match _h : lexToken c s with
    | some (t, rest) => (lex rest).map (t :: ·)
    | none => none
termination_by s => s.length
decreasing_by exact Nat.lt_succ_of_le (lexToken_suffix _h).length_le

@[simp] theorem lex_nil : lex [] = some [] := by rw [lex]

theorem lex_cons {c : Char} {s rest : List Char} {t : Token}
    (h : lexToken c s = some (t, rest)) : lex (c :: s) = (lex rest).map (t :: ·) := by
  rw [lex]
  split
  · rename_i t' rest' h'
    rw [h] at h'
    cases h'
    rfl
  · rename_i h'
    rw [h] at h'
    cases h'

theorem lex_cons_none {c : Char} {s : List Char} (h : lexToken c s = none) :
    lex (c :: s) = none := by
  rw [lex]
  split
  · rename_i t' rest' h'
    rw [h] at h'
    cases h'
  · rfl

/-! ## What the tokens are made of -/

def Token.text : Token → List Char
  | .char c => [c]
  | .cdata s => s
  | _ => []

/-- What every `&` and every `<!` or `<?` begins with. -/
def isOpener (c : Char) : Bool := c == '!' || c == '?' || c == '&'

theorem countP_cdata_le {p : Char → Bool} {s body rest : List Char}
    (h : splitAtFirst [']', ']', '>'] (s.drop 7) = some (body, rest)) :
    body.countP p + rest.countP p ≤ s.countP p := by
  have hdrop := (List.drop_sublist 7 s).countP_le (p := p)
  rw [splitAtFirst_eq h, List.countP_append, List.countP_append] at hdrop
  omega

theorem countP_lexDeclaration {s rest : List Char} {t : Token}
    (h : lexDeclaration s = some (t, rest)) (p : Char → Bool) :
    t.text.countP p + rest.countP p ≤ s.countP p := by
  unfold lexDeclaration at h
  split_ifs at h
  · split at h
    · rename_i body rest' hsplit
      cases h
      have hrest : rest <:+ s := ((List.suffix_cons _ _).trans (splitAtFirst_suffix hsplit)).trans
        (List.drop_suffix 2 s)
      simpa [Token.text] using hrest.sublist.countP_le
    · cases h
  · obtain ⟨⟨body, rest'⟩, hsplit, heq⟩ := Option.map_eq_some_iff.mp h
    cases heq
    exact countP_cdata_le hsplit

/-- Only a CDATA section has a text. -/
theorem countP_lexMarkup {s rest : List Char} {t : Token} (h : lexMarkup s = some (t, rest)) :
    t.text.countP isOpener + rest.countP isOpener ≤ s.countP isOpener ∧
    ('<' ∈ t.text → t.text.countP isOpener + rest.countP isOpener < s.countP isOpener) := by
  have hno : t.text = [] → t.text.countP isOpener + rest.countP isOpener ≤ s.countP isOpener ∧
      ('<' ∈ t.text → t.text.countP isOpener + rest.countP isOpener < s.countP isOpener) := by
    intro htext
    rw [htext, List.countP_nil, Nat.zero_add]
    exact ⟨(lexMarkup_suffix h).sublist.countP_le, fun hmem => absurd hmem List.not_mem_nil⟩
  cases s with
  | nil => cases h
  | cons c s =>
    rw [lexMarkup] at h
    split_ifs at h with hbang
    · subst hbang
      have hle := countP_lexDeclaration h isOpener
      have hbang : ('!' :: s).countP isOpener = s.countP isOpener + 1 := by
        simp [isOpener]
      omega
    · obtain ⟨⟨target, rest'⟩, -, h'⟩ := Option.bind_eq_some_iff.mp h
      dsimp only at h'
      split_ifs at h'
      obtain ⟨⟨body, rest''⟩, -, heq⟩ := Option.map_eq_some_iff.mp h'
      cases heq
      exact hno rfl
    · obtain ⟨⟨name, rest'⟩, -, h'⟩ := Option.bind_eq_some_iff.mp h
      dsimp only at h'
      split at h'
      · cases h'
        exact hno rfl
      · cases h'
    · obtain ⟨⟨name, rest'⟩, -, h'⟩ := Option.bind_eq_some_iff.mp h
      obtain ⟨⟨isEmpty, rest''⟩, -, h''⟩ := Option.bind_eq_some_iff.mp h'
      cases h''
      cases isEmpty <;> exact hno rfl

theorem countP_lexToken {c : Char} {s rest : List Char} {t : Token}
    (h : lexToken c s = some (t, rest)) :
    t.text.countP isOpener + rest.countP isOpener ≤ (c :: s).countP isOpener ∧
    ('<' ∈ t.text → t.text.countP isOpener + rest.countP isOpener < (c :: s).countP isOpener) := by
  unfold lexToken at h
  split_ifs at h with hlt hamp
  · obtain ⟨hle, hstrict⟩ := countP_lexMarkup h
    have hcons := (List.sublist_cons_self c s).countP_le (p := isOpener)
    exact ⟨hle.trans hcons, fun hmem => Nat.lt_of_lt_of_le (hstrict hmem) hcons⟩
  · subst hamp
    have hrest := (lexReference_suffix h).sublist.countP_le (p := isOpener)
    have hamp : ('&' :: s).countP isOpener = s.countP isOpener + 1 := by
      simp [isOpener]
    unfold lexReference at h
    split at h
    · obtain ⟨c', -, heq⟩ := Option.map_eq_some_iff.mp h
      cases heq
      have hone : [c'].countP isOpener ≤ 1 := List.countP_le_length
      refine ⟨by rw [hamp, Token.text]; omega, fun hmem => ?_⟩
      obtain rfl : '<' = c' := List.mem_singleton.mp hmem
      have hzero : ['<'].countP isOpener = 0 := by decide
      rw [hamp, Token.text]
      omega
    · cases h
  · cases h
    refine ⟨by rw [Token.text, List.countP_cons, List.countP_cons, List.countP_nil]; omega,
      fun hmem => ?_⟩
    exact absurd (List.mem_singleton.mp hmem).symm hlt

/-- No reading of content has more openers than the text, and one with a `<` has fewer. -/
theorem countP_lex {s : List Char} {ts : List Token} (h : lex s = some ts) :
    (ts.flatMap Token.text).countP isOpener ≤ s.countP isOpener ∧
    ('<' ∈ ts.flatMap Token.text →
      (ts.flatMap Token.text).countP isOpener < s.countP isOpener) := by
  fun_induction lex s generalizing ts with
  | case1 =>
    cases h
    exact ⟨Nat.le_refl _, fun hmem => absurd hmem List.not_mem_nil⟩
  | case2 c s t rest htoken ih =>
    obtain ⟨ts', hrest, rfl⟩ := Option.map_eq_some_iff.mp h
    obtain ⟨hle, hstrict⟩ := countP_lexToken htoken
    obtain ⟨hleRest, hstrictRest⟩ := ih hrest
    rw [List.flatMap_cons, List.countP_append]
    refine ⟨by omega, fun hmem => ?_⟩
    rcases List.mem_append.mp hmem with hmem | hmem
    · have hlt := hstrict hmem
      omega
    · have hlt := hstrictRest hmem
      omega
  | case3 => cases h

/-! ## Character data -/

/-- Before the next `<` the tokens are those of the characters on their own. -/
theorem lexToken_append {c : Char} (hc : c ≠ '<') {s : List Char} (hs : '<' ∉ s)
    (rest : List Char) :
    lexToken c (s ++ '<' :: rest) =
      (lexToken c s).map fun (t, rest') => (t, rest' ++ '<' :: rest) := by
  unfold lexToken
  rw [if_neg hc, if_neg hc]
  by_cases hamp : c = '&'
  · rw [if_pos hamp, if_pos hamp]
    have hspan : ∀ s : List Char, '<' ∉ s →
        (s ++ '<' :: rest).takeWhile isReferenceChar =
          s.takeWhile isReferenceChar ∧
        (s ++ '<' :: rest).dropWhile isReferenceChar =
          s.dropWhile isReferenceChar ++ '<' :: rest := by
      intro s
      induction s with
      | nil => simp [show isReferenceChar '<' = false by decide]
      | cons d s ih =>
        intro hs
        obtain ⟨-, hs'⟩ := not_or.mp (mt List.mem_cons.mpr hs)
        by_cases hd : isReferenceChar d = true
        · simp [hd, ih hs']
        · simp [hd]
    obtain ⟨htake, hdrop⟩ := hspan s hs
    unfold lexReference
    rw [htake, hdrop]
    cases hrest : s.dropWhile isReferenceChar with
    | nil => rfl
    | cons d rest' =>
      rw [List.cons_append]
      by_cases hd : d = ';'
      · subst hd
        simp [Option.map_map, Function.comp_def]
      · simp [hd]
  · rw [if_neg hamp, if_neg hamp]
    have hbracket : [']', '>'].isPrefixOf (s ++ '<' :: rest) = [']', '>'].isPrefixOf s := by
      match s with
      | [] => rfl
      | [d] => simp [List.isPrefixOf]
      | d :: d' :: s => rfl
    rw [hbracket]
    split_ifs <;> rfl

/-- Character data ends at the next `<`. -/
theorem lex_append {s : List Char} (hs : '<' ∉ s) (rest : List Char) :
    lex (s ++ '<' :: rest) =
      (lex s).bind fun ts => (lex ('<' :: rest)).map (ts ++ ·) := by
  fun_induction lex s with
  | case1 => simp
  | case2 c s t rest' htoken ih =>
    obtain ⟨hc, hs'⟩ := not_or.mp (mt List.mem_cons.mpr hs)
    have hrest' : '<' ∉ rest' := fun h => hs' ((lexToken_suffix htoken).subset h)
    have happend := lexToken_append (Ne.symm hc) hs' rest
    rw [htoken] at happend
    rw [List.cons_append, lex_cons happend, ih hrest']
    cases lex rest' with
    | none => rfl
    | some ts =>
      simp only [Option.bind_some, Option.map_some, Option.map_map]
      rfl
  | case3 c s htoken =>
    obtain ⟨hc, hs'⟩ := not_or.mp (mt List.mem_cons.mpr hs)
    have happend := lexToken_append (Ne.symm hc) hs' rest
    rw [htoken] at happend
    rw [List.cons_append, lex_cons_none happend]
    rfl

theorem infix_of_append {x : Char} {t a b : List Char} (hx : x ∉ a) (h : x :: t <:+: a ++ b) :
    x :: t <:+: b := by
  induction a with
  | nil => exact h
  | cons y a ih =>
    obtain ⟨hne, hx'⟩ := not_or.mp (mt List.mem_cons.mpr hx)
    rw [List.cons_append] at h
    rcases List.infix_cons_iff.mp h with h | h
    · exact absurd (List.cons_prefix_cons.mp h).1 hne
    · exact ih hx' h

theorem infix_of_append_right {x : Char} {t a b : List Char} (hx : x ∉ b)
    (h : t ++ [x] <:+: a ++ b) : t ++ [x] <:+: a := by
  have hreverse : x :: t.reverse <:+: b.reverse ++ a.reverse := by
    simpa using List.reverse_infix.mpr h
  have hinfix := infix_of_append (by simpa using hx) hreverse
  exact List.reverse_infix.mp (by simpa using hinfix)

/-- A reference is longer than the character it stands for. -/
theorem lexReference_spec {s rest : List Char} {t : Token}
    (h : lexReference s = some (t, rest)) :
    ∃ c body, t = .char c ∧ s = body ++ ';' :: rest ∧ '&' ∉ body ∧ ']' ∉ body := by
  unfold lexReference at h
  split at h
  · rename_i rest' hdrop
    obtain ⟨c, -, heq⟩ := Option.map_eq_some_iff.mp h
    cases heq
    refine ⟨c, s.takeWhile isReferenceChar, rfl, ?_, ?_, ?_⟩
    · rw [← hdrop, List.takeWhile_append_dropWhile]
    · exact fun hmem => absurd (List.mem_takeWhile_imp hmem) (by decide)
    · exact fun hmem => absurd (List.mem_takeWhile_imp hmem) (by decide)
  · cases h

/-- Character data stands for at most as many characters, by one fewer for each reference, and
    `]]>` is not part of it. -/
theorem lex_charData {s : List Char} (hs : '<' ∉ s) {ts : List Token} (h : lex s = some ts) :
    (∃ cs : List Char, ts = cs.map Token.char ∧ cs.length + s.count '&' ≤ s.length) ∧
      ¬[']', ']', '>'] <:+: s := by
  fun_induction lex s generalizing ts with
  | case1 =>
    cases h
    exact ⟨⟨[], rfl, by simp⟩, by simp⟩
  | case2 c s t rest htoken ih =>
    obtain ⟨hc, hs'⟩ := not_or.mp (mt List.mem_cons.mpr hs)
    obtain ⟨ts', hts', rfl⟩ := Option.map_eq_some_iff.mp h
    have hrest : '<' ∉ rest := fun hmem => hs' ((lexToken_suffix htoken).subset hmem)
    obtain ⟨⟨cs, rfl, hcs⟩, hinfix⟩ := ih hrest hts'
    unfold lexToken at htoken
    rw [if_neg (Ne.symm hc)] at htoken
    split_ifs at htoken with hamp hbracket
    · obtain ⟨c', body, rfl, rfl, hbodyAmp, hbodyBracket⟩ := lexReference_spec htoken
      subst hamp
      refine ⟨⟨c' :: cs, rfl, ?_⟩, fun h => ?_⟩
      · simp only [List.length_cons, List.length_append, List.count_cons_self, List.count_append,
          List.count_eq_zero_of_not_mem hbodyAmp]
        have hsemicolon : (';' :: rest).count '&' = rest.count '&' := by simp
        omega
      · have h' : [']', ']', '>'] <:+: ('&' :: (body ++ [';'])) ++ rest := by simpa using h
        exact hinfix (infix_of_append (by simp [hbodyBracket]) h')
    · cases htoken
      refine ⟨⟨c :: cs, rfl, ?_⟩, fun h => ?_⟩
      · rw [List.count_cons_of_ne hamp, List.length_cons, List.length_cons]
        omega
      · rcases List.infix_cons_iff.mp h with h | h
        · obtain ⟨hc', hprefix⟩ := List.cons_prefix_cons.mp h
          exact hbracket ⟨hc'.symm, List.isPrefixOf_iff_prefix.mpr hprefix⟩
        · exact hinfix h
  | case3 => cases h

/-- Character data without references. -/
theorem lex_clean {s : List Char} (hlt : '<' ∉ s) (hamp : '&' ∉ s)
    (hcdata : ¬[']', ']', '>'] <:+: s) : lex s = some (s.map .char) := by
  induction s with
  | nil => simp
  | cons c s ih =>
    obtain ⟨hlt', hltRest⟩ := not_or.mp (mt List.mem_cons.mpr hlt)
    obtain ⟨hamp', hampRest⟩ := not_or.mp (mt List.mem_cons.mpr hamp)
    have hrest := ih hltRest hampRest fun h => hcdata (List.infix_cons h)
    have htoken : lexToken c s = some (.char c, s) := by
      unfold lexToken
      rw [if_neg (Ne.symm hlt'), if_neg (Ne.symm hamp'), if_neg]
      rintro ⟨rfl, hprefix⟩
      exact hcdata (List.cons_prefix_cons.mpr
        ⟨rfl, List.isPrefixOf_iff_prefix.mp hprefix⟩).isInfix
    rw [lex_cons htoken, hrest]
    rfl

/-! ## Tags -/

/-- A name. -/
def IsName (name : List Char) : Prop :=
  name.head?.any isNameStart = true ∧ name.all isNameChar = true

instance (name : List Char) : Decidable (IsName name) :=
  inferInstanceAs (Decidable (_ ∧ _))

theorem scanName_append {name : List Char} (hname : IsName name) {c : Char}
    (hc : isNameChar c = false) (rest : List Char) :
    scanName (name ++ c :: rest) = some (name, c :: rest) := by
  obtain ⟨hhead, hall⟩ := hname
  have hmem : ∀ d ∈ name, isNameChar d = true := List.all_eq_true.mp hall
  have hhead' : (name ++ c :: rest).head?.any isNameStart = true := by
    cases name with
    | nil => cases hhead
    | cons d name => exact hhead
  rw [scanName, if_pos hhead', List.takeWhile_append_of_pos hmem,
    List.dropWhile_append_of_pos hmem]
  simp [hc]

theorem lex_startTag {name : List Char} (hname : IsName name) (rest : List Char) :
    lex ('<' :: (name ++ '>' :: rest)) = (lex rest).map (.startTag name :: ·) ∧
    lex ('<' :: (name ++ '/' :: '>' :: rest)) = (lex rest).map (.emptyTag name :: ·) := by
  have hstart : ∃ c t, name = c :: t ∧ isNameStart c = true := by
    cases name with
    | nil => cases hname.1
    | cons c t => exact ⟨c, t, rfl, hname.1⟩
  obtain ⟨c, t, hcons, hc⟩ := hstart
  have hne : ∀ d, isNameStart d = false → c ≠ d := by
    rintro d hd rfl
    rw [hc] at hd
    cases hd
  have hmarkup : ∀ rest', lexToken '<' (name ++ rest') = lexStartTag (name ++ rest') := by
    intro rest'
    rw [hcons, lexToken, if_pos rfl, List.cons_append, lexMarkup, if_neg (hne _ (by decide)),
      if_neg (hne _ (by decide)), if_neg (hne _ (by decide))]
  refine ⟨lex_cons ?_, lex_cons ?_⟩
  · rw [hmarkup, lexStartTag, scanName_append hname (by decide : isNameChar '>' = false)]
    rfl
  · rw [hmarkup, lexStartTag, scanName_append hname (by decide : isNameChar '/' = false)]
    rfl

theorem lex_endTag {name : List Char} (hname : IsName name) (rest : List Char) :
    lex ('<' :: '/' :: (name ++ '>' :: rest)) = (lex rest).map (.endTag name :: ·) := by
  refine lex_cons ?_
  rw [lexToken, if_pos rfl, lexMarkup, if_neg (by decide), if_neg (by decide), if_pos rfl,
    lexEndTag, scanName_append hname (by decide : isNameChar '>' = false)]
  rfl

/-- A tag as it is written. -/
def Token.render : Token → List Char
  | .startTag name => '<' :: (name ++ ['>'])
  | .endTag name => '<' :: '/' :: (name ++ ['>'])
  | .emptyTag name => '<' :: (name ++ ['/', '>'])
  | _ => []

def Token.isTag : Token → Bool
  | .startTag name => decide (IsName name)
  | .endTag name => decide (IsName name)
  | .emptyTag name => decide (IsName name)
  | _ => false

/-- Tags, each with the character data before it. -/
def renderParts (parts : List (List Char × Token)) : List Char :=
  parts.flatMap fun (s, tag) => s ++ tag.render

def partsTokens (parts : List (List Char × Token)) : List Token :=
  parts.flatMap fun (s, tag) => s.map .char ++ [tag]

def isCleanPart (part : List Char × Token) : Bool :=
  part.1.all (fun c => c != '<' && c != '&' && c != ']') && part.2.isTag

theorem lex_tag {tag : Token} (h : tag.isTag = true) (rest : List Char) :
    lex (tag.render ++ rest) = (lex rest).map (tag :: ·) ∧ ∃ t, tag.render = '<' :: t := by
  cases tag with
  | startTag name =>
    refine ⟨?_, _, rfl⟩
    rw [Token.render, List.cons_append, List.append_assoc]
    exact (lex_startTag (of_decide_eq_true h) rest).1
  | endTag name =>
    refine ⟨?_, _, rfl⟩
    rw [Token.render, List.cons_append, List.cons_append, List.append_assoc]
    exact lex_endTag (of_decide_eq_true h) rest
  | emptyTag name =>
    refine ⟨?_, _, rfl⟩
    rw [Token.render, List.cons_append, List.append_assoc]
    exact (lex_startTag (of_decide_eq_true h) rest).2
  | _ => cases h

theorem lex_parts {parts : List (List Char × Token)} (h : parts.all isCleanPart = true)
    (rest : List Char) :
    lex (renderParts parts ++ rest) = (lex rest).map (partsTokens parts ++ ·) := by
  induction parts with
  | nil => simp [renderParts, partsTokens]
  | cons part parts ih =>
    obtain ⟨s, tag⟩ := part
    rw [List.all_cons, Bool.and_eq_true] at h
    obtain ⟨hpart, hparts⟩ := h
    obtain ⟨hs, htag⟩ := Bool.and_eq_true_iff.mp hpart
    have hclean : ∀ c ∈ s, c ≠ '<' ∧ c ≠ '&' ∧ c ≠ ']' := by
      intro c hc
      simpa [and_assoc] using List.all_eq_true.mp hs c hc
    have hlex : lex s = some (s.map .char) :=
      lex_clean (fun h => (hclean _ h).1 rfl) (fun h => (hclean _ h).2.1 rfl)
        fun h => (hclean _ (h.subset List.mem_cons_self)).2.2 rfl
    obtain ⟨htagLex, t, ht⟩ := lex_tag htag (renderParts parts ++ rest)
    have hrender : renderParts ((s, tag) :: parts) ++ rest =
        s ++ (tag.render ++ (renderParts parts ++ rest)) := by
      simp [renderParts]
    rw [hrender]
    rw [ht, List.cons_append] at htagLex ⊢
    rw [lex_append (fun h => (hclean _ h).1 rfl), hlex, htagLex, ih hparts]
    simp only [Option.bind_some, Option.map_map]
    congr 1
    funext ts
    simp [partsTokens]

/-! ## Elements -/

inductive Node
  | char (c : Char)
  | element (name : List Char) (children : List Node)

mutual

/-- The character data of a tree. -/
def Node.text : Node → List Char
  | .char c => [c]
  | .element _ children => textAll children

def textAll : List Node → List Char
  | [] => []
  | node :: nodes => node.text ++ textAll nodes

end

/-- Content in the elements that are open, the innermost first, with what was read before each;
    `children` is what was read of the innermost one. -/
def build (stack : List (List Char × List Node)) (children : List Node) :
    List Token → Option (List Node)
  | [] => if stack.isEmpty then some children else none
  | .char c :: ts => build stack (children ++ [.char c]) ts
  | .cdata s :: ts => build stack (children ++ s.map .char) ts
  | .skip :: ts => build stack children ts
  | .startTag name :: ts => build ((name, children) :: stack) [] ts
  | .endTag name :: ts =>
    match stack with
    | (name', before) :: stack' =>
      if name = name' then build stack' (before ++ [.element name children]) ts else none
    | [] => none
  | .emptyTag name :: ts => build stack (children ++ [.element name []]) ts

section Build

variable (stack : List (List Char × List Node)) (children : List Node) (name : List Char)
  (ts : List Token)

theorem build_chars (s : List Char) :
    build stack children (s.map .char ++ ts) = build stack (children ++ s.map .char) ts := by
  induction s generalizing children with
  | nil => simp
  | cons c s ih =>
    rw [List.map_cons, List.cons_append, build, ih]
    simp

theorem build_startTag :
    build stack children (.startTag name :: ts) = build ((name, children) :: stack) [] ts := rfl

theorem build_endTag (before : List Node) :
    build ((name, before) :: stack) children (.endTag name :: ts) =
      build stack (before ++ [.element name children]) ts := if_pos rfl

theorem build_emptyTag :
    build stack children (.emptyTag name :: ts) =
      build stack (children ++ [.element name []]) ts := rfl

end Build

/-- After the declaration and the document type declaration. -/
def prolog (s : List Char) : Option (List Char) := do
  let s ← if "<?xml ".toList.isPrefixOf s then (splitAtFirst ['?', '>'] s).map (·.2) else some s
  let s := s.dropWhile isSpace
  if "<!DOCTYPE ".toList.isPrefixOf s then
    match splitAtFirst ['>'] s with
    | some (declaration, rest) => if declaration.contains '[' then none else some rest
    | none => none
  else some s

/-- The root element of a document. -/
def parse (s : List Char) : Option Node := do
  if !s.all isChar then none
  else
    let content ← prolog (normalize s)
    let ts ← lex content
    let nodes ← build [] [] ts
    match nodes.filter (fun node => match node with | .char c => !isSpace c | _ => true) with
    | [.element name children] => some (.element name children)
    | _ => none

/-! ## The root -/

theorem parse_eq_none {s content : List Char} (hprolog : prolog (normalize s) = some content)
    (hlex : lex content = none) : parse s = none := by
  unfold parse
  split_ifs
  · rfl
  · rw [hprolog, Option.bind_eq_bind, Option.bind_some, hlex]
    rfl

/-- One element with white space around it is the root. -/
theorem parse_eq_some {s content before after name : List Char} {ts : List Token}
    {children : List Node} (hs : s.all isChar = true)
    (hprolog : prolog (normalize s) = some content) (hlex : lex content = some ts)
    (hbuild : build [] [] ts =
      some (before.map .char ++ .element name children :: after.map .char))
    (hbefore : before.all isSpace = true) (hafter : after.all isSpace = true) :
    parse s = some (.element name children) := by
  have hspace : ∀ (p : Node → Bool), (∀ c, p (.char c) = !isSpace c) → ∀ {t : List Char},
      t.all isSpace = true → (t.map Node.char).filter p = [] := by
    intro p hp t ht
    rw [List.filter_eq_nil_iff]
    intro node hnode
    obtain ⟨c, hc, rfl⟩ := List.mem_map.mp hnode
    simp [hp, List.all_eq_true.mp ht c hc]
  have hroot : ∀ (p : Node → Bool), (∀ c, p (.char c) = !isSpace c) →
      p (.element name children) = true →
      (before.map Node.char ++ .element name children :: after.map Node.char).filter p =
        [.element name children] := by
    intro p hp helement
    rw [List.filter_append, List.filter_cons, if_pos helement, hspace p hp hbefore,
      hspace p hp hafter, List.nil_append]
  delta parse
  simp only [hs, Bool.not_true, Bool.false_eq_true, if_false, hprolog, hlex, hbuild,
    Option.bind_eq_bind, Option.bind_some]
  rw [hroot _ (fun _ => rfl) rfl]

/-! ## The ends of lines -/

theorem normalizeFrom_append {c : Char} (hreturn : c ≠ '\r') (hfeed : c ≠ '\n') (b : Bool)
    (s t : List Char) :
    normalizeFrom b (s ++ c :: t) = normalizeFrom b s ++ c :: normalizeFrom false t := by
  induction s generalizing b with
  | nil => simp [normalizeFrom, hreturn, hfeed]
  | cons d s ih =>
    rw [List.cons_append, normalizeFrom, normalizeFrom]
    split_ifs
    · rw [ih, List.cons_append]
    · rw [ih]
    · rw [ih, List.cons_append]

/-- What has no carriage return is read as it is. -/
theorem normalize_append {s : List Char} (hs : '\r' ∉ s) (t : List Char) :
    normalize (s ++ t) = s ++ normalize t := by
  induction s with
  | nil => rfl
  | cons c s ih =>
    obtain ⟨hc, hs'⟩ := not_or.mp (mt List.mem_cons.mpr hs)
    rw [List.cons_append, normalize, normalizeFrom, if_neg (Ne.symm hc), if_neg (by simp)]
    exact congrArg (c :: ·) (ih hs')

theorem return_not_mem_normalizeFrom (b : Bool) (s : List Char) : '\r' ∉ normalizeFrom b s := by
  induction s generalizing b with
  | nil => exact List.not_mem_nil
  | cons c s ih =>
    rw [normalizeFrom]
    split_ifs with hreturn hfeed
    · simp [ih]
    · exact ih false
    · simp [ih, Ne.symm hreturn]

theorem length_normalizeFrom_le (b : Bool) (s : List Char) :
    (normalizeFrom b s).length ≤ s.length := by
  induction s generalizing b with
  | nil => exact Nat.le_refl _
  | cons c s ih =>
    rw [normalizeFrom]
    split_ifs
    · exact Nat.succ_le_succ (ih true)
    · exact Nat.le_succ_of_le (ih false)
    · exact Nat.succ_le_succ (ih false)

theorem countP_normalizeFrom {p : Char → Bool} (hreturn : p '\r' = false)
    (hfeed : p '\n' = false) (b : Bool) (s : List Char) :
    (normalizeFrom b s).countP p = s.countP p := by
  induction s generalizing b with
  | nil => rfl
  | cons c s ih =>
    rw [normalizeFrom]
    split_ifs with hc hfeed'
    · rw [List.countP_cons, List.countP_cons, ih, hc, hreturn, hfeed]
    · rw [List.countP_cons, ih, hfeed'.1, hfeed]
      rfl
    · rw [List.countP_cons, List.countP_cons, ih]

theorem mem_normalizeFrom {c : Char} (hreturn : c ≠ '\r') (hfeed : c ≠ '\n') (b : Bool)
    (s : List Char) : c ∈ normalizeFrom b s ↔ c ∈ s := by
  have hcount := countP_normalizeFrom (p := (· == c)) (beq_false_of_ne (Ne.symm hreturn))
    (beq_false_of_ne (Ne.symm hfeed)) b s
  have hmem : ∀ t : List Char, c ∈ t ↔ 0 < t.countP (· == c) := by
    intro t
    simp [List.countP_pos_iff]
  rw [hmem, hcount, ← hmem]

/-! ## The text of a tree -/

@[simp] theorem textAll_nil : textAll [] = [] := rfl

@[simp] theorem textAll_cons (node : Node) (nodes : List Node) :
    textAll (node :: nodes) = node.text ++ textAll nodes := rfl

@[simp] theorem text_char (c : Char) : (Node.char c).text = [c] := rfl

@[simp] theorem text_element (name : List Char) (children : List Node) :
    (Node.element name children).text = textAll children := rfl

@[simp] theorem textAll_append (nodes nodes' : List Node) :
    textAll (nodes ++ nodes') = textAll nodes ++ textAll nodes' := by
  induction nodes with
  | nil => rfl
  | cons node nodes ih => simp [ih]

@[simp] theorem textAll_chars (s : List Char) : textAll (s.map .char) = s := by
  induction s with
  | nil => rfl
  | cons c s ih => simp [ih]

/-- The text of the tree is the text of the tokens. -/
theorem textAll_build {stack : List (List Char × List Node)} {children forest : List Node}
    {ts : List Token} (h : build stack children ts = some forest) :
    textAll forest = (stack.reverse.flatMap fun frame => textAll frame.2) ++ textAll children ++
      ts.flatMap Token.text := by
  induction ts generalizing stack children with
  | nil =>
    rw [build] at h
    split_ifs at h with hstack
    cases h
    rw [List.isEmpty_iff.mp hstack]
    simp
  | cons t ts ih =>
    cases t with
    | char c => simpa [Token.text] using ih h
    | cdata s => simpa [Token.text] using ih h
    | skip => simpa [Token.text] using ih h
    | startTag name => simpa [Token.text] using ih h
    | emptyTag name => simpa [Token.text] using ih h
    | endTag name =>
      cases stack with
      | nil => cases h
      | cons frame stack =>
        obtain ⟨name', before⟩ := frame
        rw [build] at h
        split_ifs at h
        simpa [Token.text] using ih h

theorem textAll_filter (p : Node → Bool) (nodes : List Node) :
    (textAll (nodes.filter p)).Sublist (textAll nodes) := by
  induction nodes with
  | nil => exact List.Sublist.refl _
  | cons node nodes ih =>
    rw [List.filter_cons]
    split_ifs
    · exact (List.Sublist.refl node.text).append ih
    · exact ih.trans (List.sublist_append_right _ _)

/-- The text of the root has no more openers than the content, and with a `<` fewer. -/
theorem countP_parse {s content : List Char} {root : Node} (h : parse s = some root)
    (hcontent : prolog (normalize s) = some content) :
    root.text.countP isOpener ≤ content.countP isOpener ∧
    ('<' ∈ root.text → root.text.countP isOpener < content.countP isOpener) := by
  unfold parse at h
  split_ifs at h
  obtain ⟨content', hcontent', h⟩ := Option.bind_eq_some_iff.mp h
  obtain rfl := Option.some.inj (hcontent.symm.trans hcontent')
  obtain ⟨ts, hts, h⟩ := Option.bind_eq_some_iff.mp h
  obtain ⟨nodes, hnodes, h⟩ := Option.bind_eq_some_iff.mp h
  have htext := textAll_build hnodes
  rw [List.reverse_nil, List.flatMap_nil, textAll_nil, List.nil_append, List.nil_append] at htext
  split at h
  · rename_i name children hfilter
    cases h
    have hsub : (Node.element name children).text.Sublist (ts.flatMap Token.text) := by
      have hroot := textAll_filter
        (fun node => match node with | .char c => !isSpace c | _ => true) nodes
      rw [hfilter, textAll_cons, textAll_nil, List.append_nil] at hroot
      rwa [htext] at hroot
    obtain ⟨hle, hstrict⟩ := countP_lex hts
    have hcount := hsub.countP_le (p := isOpener)
    exact ⟨hcount.trans hle, fun hmem => Nat.lt_of_le_of_lt hcount (hstrict (hsub.subset hmem))⟩
  · cases h

end Xml
