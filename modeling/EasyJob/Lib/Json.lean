import Mathlib.Algebra.GroupWithZero.Nat
import Mathlib.Data.List.Basic
import Mathlib.Tactic.Common

/-!
# JSON documents

Documents as trees, their compact text, and how a record is read from one.

* `Json.render`: the text without white space, with the escapes of RFC 8259 §7 in
  their shortest form.
* `Json.quote_append_inj`: a string literal can be told from what follows it.
* `Json.utf8Size_render`: its length in UTF-8, from the widths of its parts.
* `Json.field`, `Json.required`, `Json.optional`: the members of an object as a
  record reads them: unknown members are skipped, a repeated one is an error.
-/

/-- A JSON document. Numbers are kept as their literals, members in their order. -/
inductive Json
  | null
  | bool (b : Bool)
  | num (literal : String)
  | str (text : String)
  | arr (elems : List Json)
  | obj (members : List (String × Json))

namespace Json

/-! ## Text -/

/-- A digit of `\u00xx`. -/
def hexDigit (n : ℕ) : Char := Char.ofNat (if n < 10 then 48 + n else 87 + n)

/-- The text of one character in a string literal. -/
def escape (c : Char) : List Char :=
  match c with
  | '"' => ['\\', '"']
  | '\\' => ['\\', '\\']
  | '\x08' => ['\\', 'b']
  | '\t' => ['\\', 't']
  | '\n' => ['\\', 'n']
  | '\x0c' => ['\\', 'f']
  | '\r' => ['\\', 'r']
  | c =>
    if c.toNat < 32 then ['\\', 'u', '0', '0', hexDigit (c.toNat / 16), hexDigit (c.toNat % 16)]
    else [c]

/-- The string literal of a text. -/
def quote (text : String) : List Char := '"' :: text.toList.flatMap escape ++ ['"']

mutual

def render : Json → List Char
  | .null => "null".toList
  | .bool true => "true".toList
  | .bool false => "false".toList
  | .num literal => literal.toList
  | .str text => quote text
  | .arr elems => '[' :: renderElems elems ++ [']']
  | .obj members => '{' :: renderMembers members ++ ['}']

def renderElems : List Json → List Char
  | [] => []
  | [j] => j.render
  | j :: js => j.render ++ ',' :: renderElems js

def renderMembers : List (String × Json) → List Char
  | [] => []
  | [(name, j)] => quote name ++ ':' :: j.render
  | (name, j) :: members => quote name ++ ':' :: (j.render ++ ',' :: renderMembers members)

end

/-! ## Reading a string literal -/

/-- The value of a digit of `\u00xx`. -/
def digitValue (c : Char) : ℕ := if c.toNat < 87 then c.toNat - 48 else c.toNat - 87

/-- The first character of a string literal's content, and the rest. -/
def unescape : List Char → Option (Char × List Char)
  | [] => none
  | '"' :: _ => none
  | '\\' :: 'u' :: '0' :: '0' :: high :: low :: text =>
    some (Char.ofNat (16 * digitValue high + digitValue low), text)
  | '\\' :: 'b' :: text => some ('\x08', text)
  | '\\' :: 't' :: text => some ('\t', text)
  | '\\' :: 'n' :: text => some ('\n', text)
  | '\\' :: 'f' :: text => some ('\x0c', text)
  | '\\' :: 'r' :: text => some ('\r', text)
  | '\\' :: c :: text => some (c, text)
  | c :: text => some (c, text)

theorem digitValue_hexDigit : ∀ n < 16, digitValue (hexDigit n) = n := by decide

theorem unescape_escape (c : Char) (text : List Char) :
    unescape (escape c ++ text) = some (c, text) := by
  unfold escape
  split
  case h_8 =>
    split_ifs with hcontrol
    · show some (Char.ofNat (16 * digitValue (hexDigit (c.toNat / 16)) +
        digitValue (hexDigit (c.toNat % 16))), text) = some (c, text)
      rw [digitValue_hexDigit _ (by omega), digitValue_hexDigit _ (by omega), Nat.div_add_mod,
        Char.ofNat_toNat]
    · show unescape (c :: text) = some (c, text)
      unfold unescape
      split <;> simp_all
  all_goals rfl

theorem flatMap_escape_inj {cs ds x y : List Char}
    (h : cs.flatMap escape ++ '"' :: x = ds.flatMap escape ++ '"' :: y) : cs = ds ∧ x = y := by
  have hclose (z : List Char) : unescape ('"' :: z) = none := rfl
  induction cs generalizing ds with
  | nil =>
    cases ds with
    | nil => exact ⟨rfl, (List.cons.inj h).2⟩
    | cons d ds =>
      have hd := congrArg unescape h
      simp only [List.flatMap_nil, List.nil_append, List.flatMap_cons, List.append_assoc,
        unescape_escape, hclose, reduceCtorEq] at hd
  | cons c cs ih =>
    have hc := congrArg unescape h
    cases ds with
    | nil =>
      simp only [List.flatMap_nil, List.nil_append, List.flatMap_cons, List.append_assoc,
        unescape_escape, hclose, reduceCtorEq] at hc
    | cons d ds =>
      simp only [List.flatMap_cons, List.append_assoc, unescape_escape, Option.some.injEq,
        Prod.mk.injEq] at hc
      obtain ⟨hcs, hrest⟩ := ih hc.2
      exact ⟨by rw [hc.1, hcs], hrest⟩

/-- A string literal ends where its closing quote stands. -/
theorem quote_append_inj {s t : String} {x y : List Char} (h : quote s ++ x = quote t ++ y) :
    s = t ∧ x = y := by
  simp only [quote, List.cons_append, List.append_assoc, List.nil_append] at h
  obtain ⟨hst, hxy⟩ := flatMap_escape_inj (List.cons.inj h).2
  exact ⟨String.toList_inj.mp hst, hxy⟩

/-- Objects whose first members are strings of one name have the same text only if the strings
    are the same. -/
theorem eq_of_render_obj {name s t : String} {x y : String × Json} {xs ys : List (String × Json)}
    (h : (obj ((name, .str s) :: x :: xs)).render = (obj ((name, .str t) :: y :: ys)).render) :
    s = t := by
  simp only [render, renderMembers, List.append_assoc, List.cons_append] at h
  exact (quote_append_inj (List.cons.inj (List.append_cancel_left (List.cons.inj h).2)).2).1

/-! ## Size -/

/-- The length in UTF-8. -/
def utf8Size (text : List Char) : ℕ := (text.map Char.utf8Size).sum

@[simp] theorem utf8Size_nil : utf8Size [] = 0 := rfl

@[simp] theorem utf8Size_cons (c : Char) (text : List Char) :
    utf8Size (c :: text) = c.utf8Size + utf8Size text := by
  simp [utf8Size]

@[simp] theorem utf8Size_append (text text' : List Char) :
    utf8Size (text ++ text') = utf8Size text + utf8Size text' := by
  simp [utf8Size]

/-- The width of one character in a string literal. -/
def escapeSize (c : Char) : ℕ :=
  if c ∈ ['"', '\\', '\x08', '\t', '\n', '\x0c', '\r'] then 2
  else if c.toNat < 32 then 6
  else c.utf8Size

def escapedSize (text : String) : ℕ := (text.toList.map escapeSize).sum

/-- Written as a backslash and one character. -/
def isShortEscape (c : Char) : Bool := decide (c ∈ ['"', '\\', '\x08', '\t', '\n', '\x0c', '\r'])

/-- Written as `\u` and four digits. -/
def isLongEscape (c : Char) : Bool := !isShortEscape c && decide (c.toNat < 32)

/-- The width of a string literal: two quotes and the text in UTF-8, one byte more for each short
    escape and five for each long one. -/
def stringWidth (text : String) : ℕ :=
  2 + utf8Size text.toList + text.toList.countP isShortEscape + 5 * text.toList.countP isLongEscape

theorem escapeSize_eq (c : Char) :
    escapeSize c = c.utf8Size + (if isShortEscape c then 1 else 0) +
      5 * (if isLongEscape c then 1 else 0) := by
  have hascii (h : c.toNat < 128) : c.utf8Size = 1 := by
    rw [Char.utf8Size_eq_one_iff, UInt32.le_iff_toNat_le]
    exact Nat.le_of_lt_succ h
  have hshort (h : isShortEscape c = true) : c.toNat < 128 := by
    have hall : ∀ n ∈ ['"', '\\', '\x08', '\t', '\n', '\x0c', '\r'].map Char.toNat, n < 128 := by
      simp only [List.map_cons, List.map_nil]
      decide
    exact hall _ (List.mem_map_of_mem (of_decide_eq_true h))
  unfold escapeSize
  by_cases hs : isShortEscape c = true
  · have hlong : isLongEscape c = false := by simp [isLongEscape, hs]
    rw [if_pos (of_decide_eq_true hs), hascii (hshort hs), hs, hlong]
    rfl
  · have hmem : c ∉ ['"', '\\', '\x08', '\t', '\n', '\x0c', '\r'] := fun h => hs (decide_eq_true h)
    have hs' : isShortEscape c = false := by simpa using hs
    rw [if_neg hmem, hs']
    by_cases hcontrol : c.toNat < 32
    · have hlong : isLongEscape c = true := by simp [isLongEscape, hs', hcontrol]
      rw [if_pos hcontrol, hlong, hascii (by omega)]
      rfl
    · have hlong : isLongEscape c = false := by simp [isLongEscape, hcontrol]
      rw [if_neg hcontrol, hlong]
      rfl

theorem escapedSize_eq (text : String) : 2 + escapedSize text = stringWidth text := by
  have hsum (cs : List Char) : (cs.map escapeSize).sum =
      utf8Size cs + cs.countP isShortEscape + 5 * cs.countP isLongEscape := by
    induction cs with
    | nil => rfl
    | cons c cs ih =>
      rw [List.map_cons, List.sum_cons, ih, escapeSize_eq, utf8Size_cons, List.countP_cons,
        List.countP_cons]
      omega
  rw [escapedSize, hsum, stringWidth]
  omega

mutual

/-- The width of a document: of its punctuation, its literals and its escaped strings. -/
def size : Json → ℕ
  | .null => 4
  | .bool true => 4
  | .bool false => 5
  | .num literal => utf8Size literal.toList
  | .str text => 2 + escapedSize text
  | .arr elems => 2 + sizeElems elems
  | .obj members => 2 + sizeMembers members

def sizeElems : List Json → ℕ
  | [] => 0
  | [j] => j.size
  | j :: js => j.size + 1 + sizeElems js

def sizeMembers : List (String × Json) → ℕ
  | [] => 0
  | [(name, j)] => 3 + escapedSize name + j.size
  | (name, j) :: members => 4 + escapedSize name + j.size + sizeMembers members

end

/-- A hexadecimal digit is one byte. -/
theorem utf8Size_hexDigit : ∀ n < 16, (hexDigit n).utf8Size = 1 := by decide

theorem utf8Size_escape (c : Char) : utf8Size (escape c) = escapeSize c := by
  unfold escape
  split
  case h_8 =>
    rename_i h₁ h₂ h₃ h₄ h₅ h₆ h₇
    have hshort : c ∉ ['"', '\\', '\x08', '\t', '\n', '\x0c', '\r'] := by
      simp_all
    rw [escapeSize, if_neg hshort]
    split_ifs with hcontrol
    · have hhigh := utf8Size_hexDigit (c.toNat / 16) (by omega)
      have hlow := utf8Size_hexDigit (c.toNat % 16) (by omega)
      simp only [utf8Size_cons, utf8Size_nil, hhigh, hlow]
      rfl
    · simp
  all_goals rfl

theorem utf8Size_quote (text : String) : utf8Size (quote text) = 2 + escapedSize text := by
  have hflat (cs : List Char) : utf8Size (cs.flatMap escape) = (cs.map escapeSize).sum := by
    induction cs with
    | nil => rfl
    | cons c cs ih => simp [utf8Size_escape, ih]
  have hquote : ('"' : Char).utf8Size = 1 := rfl
  simp only [quote, List.cons_append, utf8Size_cons, utf8Size_append, hflat, hquote, utf8Size_nil]
  rw [escapedSize]
  omega

mutual

theorem utf8Size_render : (j : Json) → utf8Size j.render = j.size
  | .null => rfl
  | .bool true => rfl
  | .bool false => rfl
  | .num literal => rfl
  | .str text => utf8Size_quote text
  | .arr elems => by
    have ih := utf8Size_renderElems elems
    have hopen : ('[' : Char).utf8Size = 1 := rfl
    have hclose : (']' : Char).utf8Size = 1 := rfl
    simp only [render, size, List.cons_append, utf8Size_cons, utf8Size_append, utf8Size_nil, ih,
      hopen, hclose]
    omega
  | .obj members => by
    have ih := utf8Size_renderMembers members
    have hopen : ('{' : Char).utf8Size = 1 := rfl
    have hclose : ('}' : Char).utf8Size = 1 := rfl
    simp only [render, size, List.cons_append, utf8Size_cons, utf8Size_append, utf8Size_nil, ih,
      hopen, hclose]
    omega

theorem utf8Size_renderElems : (js : List Json) → utf8Size (renderElems js) = sizeElems js
  | [] => rfl
  | [j] => utf8Size_render j
  | j :: j' :: js => by
    have ih := utf8Size_renderElems (j' :: js)
    have hcomma : (',' : Char).utf8Size = 1 := rfl
    rw [renderElems, sizeElems, utf8Size_append, utf8Size_cons, utf8Size_render j, ih, hcomma]
    · omega
    all_goals simp

theorem utf8Size_renderMembers :
    (members : List (String × Json)) → utf8Size (renderMembers members) = sizeMembers members
  | [] => rfl
  | [(name, j)] => by
    have hcolon : (':' : Char).utf8Size = 1 := rfl
    simp only [renderMembers, sizeMembers, utf8Size_append, utf8Size_cons, utf8Size_quote,
      utf8Size_render j, hcolon]
    omega
  | (name, j) :: member :: members => by
    have ih := utf8Size_renderMembers (member :: members)
    have hcomma : (',' : Char).utf8Size = 1 := rfl
    have hcolon : (':' : Char).utf8Size = 1 := rfl
    rw [renderMembers, sizeMembers]
    · simp only [utf8Size_append, utf8Size_cons, utf8Size_quote, utf8Size_render j, ih, hcomma,
        hcolon]
      omega
    all_goals simp

end

/-! ## Reading a record -/

/-- The member `name` of an object: `none` if it occurs more than once, `some none` if
    it is missing. -/
def field (name : String) (members : List (String × Json)) : Option (Option Json) :=
  match members.filter (·.1 = name) with
  | [] => some none
  | [member] => some (some member.2)
  | _ => none

/-- A member that must be there. -/
def required (name : String) (members : List (String × Json)) : Option Json :=
  (field name members).join

/-- A member that may be missing or `null`. -/
def optional (name : String) (members : List (String × Json)) : Option (Option Json) :=
  (field name members).map fun
    | some .null | none => none
    | some j => some j

def toBool? : Json → Option Bool
  | .bool b => some b
  | _ => none

def toString? : Json → Option String
  | .str text => some text
  | _ => none

@[simp] theorem toBool?_bool (b : Bool) : (Json.bool b).toBool? = some b := rfl

@[simp] theorem toString?_str (text : String) : (Json.str text).toString? = some text := rfl

end Json
