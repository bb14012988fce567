import EasyJob.Lib.Xml

/-!
# Property lists

Property lists in XML: strings, numbers, dates and data as they are written, truth values, arrays
and dictionaries.

* `text_sublist_of_decode`: a value holds no other text than its element.
* `lookups_le`: the values of three keys are three values.
-/

namespace PropertyList

open Xml

inductive Value
  | string (s : List Char)
  /-- A number, a date or data, as it is written. -/
  | scalar (kind s : List Char)
  | bool (b : Bool)
  | array (values : List Value)
  | dict (entries : List (List Char × Value))

def chars : List Node → Option (List Char)
  | [] => some []
  | .char c :: nodes => (chars nodes).map (c :: ·)
  | .element _ _ :: _ => none

def scalarKinds : List (List Char) :=
  ["integer".toList, "real".toList, "date".toList, "data".toList]

mutual

def decode : Node → Option Value
  | .char _ => none
  | .element name children =>
    if name = "string".toList then (chars children).map .string
    else if scalarKinds.contains name then (chars children).map (.scalar name)
    else if name = "true".toList then if children.isEmpty then some (.bool true) else none
    else if name = "false".toList then if children.isEmpty then some (.bool false) else none
    else if name = "array".toList then (decodeAll children).map .array
    else if name = "dict".toList then (decodeEntries none children).map .dict
    else none

def decodeAll : List Node → Option (List Value)
  | [] => some []
  | .char c :: nodes => if isSpace c then decodeAll nodes else none
  | .element name children :: nodes =>
    (decode (.element name children)).bind fun v => (decodeAll nodes).map (v :: ·)

/-- The entries of a dictionary; `key` is the one whose value comes next. -/
def decodeEntries (key : Option (List Char)) : List Node → Option (List (List Char × Value))
  | [] => if key.isNone then some [] else none
  | .char c :: nodes => if isSpace c then decodeEntries key nodes else none
  | .element name children :: nodes =>
    match key with
    | none =>
      if name = "key".toList then
        (chars children).bind fun k => decodeEntries (some k) nodes
      else none
    | some k =>
      (decode (.element name children)).bind fun v =>
        (decodeEntries none nodes).map ((k, v) :: ·)

end

/-- The value of a document. -/
def decodeDocument (s : List Char) : Option Value :=
  match parse s with
  | some (.element name children) =>
    if name = "plist".toList then
      match decodeAll children with
      | some [v] => some v
      | _ => none
    else none
  | _ => none

mutual

def Value.text : Value → List Char
  | .string s => s
  | .scalar _ s => s
  | .bool _ => []
  | .array values => valuesText values
  | .dict entries => entriesText entries

def valuesText : List Value → List Char
  | [] => []
  | v :: values => v.text ++ valuesText values

def entriesText : List (List Char × Value) → List Char
  | [] => []
  | (k, v) :: entries => k ++ (v.text ++ entriesText entries)

end

/-! ## White space between elements -/

theorem decodeAll_space {s : List Char} (hs : s.all isSpace = true) (nodes : List Node) :
    decodeAll (s.map .char ++ nodes) = decodeAll nodes := by
  induction s with
  | nil => rfl
  | cons c s ih =>
    obtain ⟨hc, hs'⟩ := Bool.and_eq_true_iff.mp hs
    rw [List.map_cons, List.cons_append, decodeAll, if_pos hc, ih hs']

theorem decodeEntries_space {s : List Char} (hs : s.all isSpace = true)
    (key : Option (List Char)) (nodes : List Node) :
    decodeEntries key (s.map .char ++ nodes) = decodeEntries key nodes := by
  induction s with
  | nil => rfl
  | cons c s ih =>
    obtain ⟨hc, hs'⟩ := Bool.and_eq_true_iff.mp hs
    rw [List.map_cons, List.cons_append, decodeEntries, if_pos hc, ih hs']

/-! ## Elements -/

theorem decodeAll_value {node : Node} {v : Value} (hv : decode node = some v)
    (nodes : List Node) : decodeAll (node :: nodes) = (decodeAll nodes).map (v :: ·) := by
  cases node with
  | char c => cases hv
  | element name children => rw [decodeAll, hv, Option.bind_some]

theorem decodeEntries_value {node : Node} {v : Value} (hv : decode node = some v)
    (key : List Char) (nodes : List Node) :
    decodeEntries (some key) (node :: nodes) =
      (decodeEntries none nodes).map ((key, v) :: ·) := by
  cases node with
  | char c => cases hv
  | element name children => rw [decodeEntries, hv, Option.bind_some]

theorem decodeDocument_eq_some {s : List Char} {children : List Node} {v : Value}
    (hparse : parse s = some (.element "plist".toList children))
    (hv : decodeAll children = some [v]) : decodeDocument s = some v := by
  unfold decodeDocument
  simp only [hparse, if_true, hv]

/-! ## What a value holds -/

theorem chars_text {nodes : List Node} {s : List Char} (h : chars nodes = some s) :
    textAll nodes = s := by
  induction nodes generalizing s with
  | nil =>
    cases h
    rfl
  | cons node nodes ih =>
    cases node with
    | char c =>
      obtain ⟨s', hs', rfl⟩ := Option.map_eq_some_iff.mp h
      rw [textAll_cons, text_char, ih hs']
      rfl
    | element name children => cases h

@[simp] theorem chars_chars (s : List Char) : chars (s.map .char) = some s := by
  induction s with
  | nil => rfl
  | cons c s ih => simp [chars, ih]

mutual

/-- A value holds no other text than its element. -/
theorem text_sublist_of_decode : ∀ {node : Node} {v : Value}, decode node = some v →
    v.text.Sublist node.text
  | .char _, _, h => by cases h
  | .element name children, v, h => by
    rw [decode] at h
    split_ifs at h
    · obtain ⟨s, hs, rfl⟩ := Option.map_eq_some_iff.mp h
      rw [text_element, chars_text hs, Value.text]
    · obtain ⟨s, hs, rfl⟩ := Option.map_eq_some_iff.mp h
      rw [text_element, chars_text hs, Value.text]
    · cases h
      exact List.nil_sublist _
    · cases h
      exact List.nil_sublist _
    · obtain ⟨values, hvalues, rfl⟩ := Option.map_eq_some_iff.mp h
      exact text_sublist_of_decodeAll hvalues
    · obtain ⟨entries, hentries, rfl⟩ := Option.map_eq_some_iff.mp h
      exact text_sublist_of_decodeEntries hentries

theorem text_sublist_of_decodeAll : ∀ {nodes : List Node} {values : List Value},
    decodeAll nodes = some values → (valuesText values).Sublist (textAll nodes)
  | [], _, h => by
    cases h
    exact List.Sublist.refl _
  | .char c :: nodes, values, h => by
    rw [decodeAll] at h
    split_ifs at h
    exact (text_sublist_of_decodeAll h).trans (List.sublist_append_right _ _)
  | .element name children :: nodes, values, h => by
    rw [decodeAll] at h
    obtain ⟨v, hv, h⟩ := Option.bind_eq_some_iff.mp h
    obtain ⟨values', hvalues, rfl⟩ := Option.map_eq_some_iff.mp h
    exact (text_sublist_of_decode hv).append (text_sublist_of_decodeAll hvalues)

theorem text_sublist_of_decodeEntries : ∀ {key : Option (List Char)} {nodes : List Node}
    {entries : List (List Char × Value)}, decodeEntries key nodes = some entries →
      (entriesText entries).Sublist (key.getD [] ++ textAll nodes)
  | key, [], entries, h => by
    rw [decodeEntries] at h
    split_ifs at h
    cases h
    exact List.nil_sublist _
  | key, .char c :: nodes, entries, h => by
    rw [decodeEntries] at h
    split_ifs at h
    exact (text_sublist_of_decodeEntries h).trans
      ((List.Sublist.refl _).append (List.sublist_append_right _ _))
  | none, .element name children :: nodes, entries, h => by
    rw [decodeEntries] at h
    split_ifs at h
    obtain ⟨k, hk, h⟩ := Option.bind_eq_some_iff.mp h
    have hrec := text_sublist_of_decodeEntries h
    rw [textAll_cons, text_element, chars_text hk]
    exact hrec
  | some k, .element name children :: nodes, entries, h => by
    rw [decodeEntries] at h
    obtain ⟨v, hv, h⟩ := Option.bind_eq_some_iff.mp h
    obtain ⟨entries', hentries, rfl⟩ := Option.map_eq_some_iff.mp h
    exact (List.Sublist.refl k).append
      ((text_sublist_of_decode hv).append (text_sublist_of_decodeEntries hentries))

end

/-- How many characters of a kind the value of a key has. -/
def lookupCount (p : Char → Bool) (entries : List (List Char × Value)) (k : List Char) : ℕ :=
  ((entries.lookup k).map fun v => v.text.countP p).getD 0

theorem lookupCount_cons (p : Char → Bool) (k k' : List Char) (v : Value)
    (entries : List (List Char × Value)) :
    lookupCount p ((k', v) :: entries) k =
      if k = k' then v.text.countP p else lookupCount p entries k := by
  rw [lookupCount, List.lookup_cons]
  by_cases hk : k = k'
  · simp [hk]
  · have hbeq : (k == k') = false := by simpa using hk
    rw [hbeq, if_neg hk]
    rfl

theorem lookupCount_le (p : Char → Bool) {k₁ k₂ k₃ : List Char} (h12 : k₁ ≠ k₂) (h13 : k₁ ≠ k₃)
    (h23 : k₂ ≠ k₃) (entries : List (List Char × Value)) :
    lookupCount p entries k₁ + lookupCount p entries k₂ + lookupCount p entries k₃ ≤
      (entriesText entries).countP p := by
  induction entries with
  | nil => exact Nat.zero_le _
  | cons entry entries ih =>
    obtain ⟨k, v⟩ := entry
    rw [entriesText, List.countP_append, List.countP_append, lookupCount_cons, lookupCount_cons,
      lookupCount_cons]
    by_cases h1 : k₁ = k
    · rw [if_pos h1, if_neg fun h => h12 (h1.trans h.symm), if_neg fun h => h13 (h1.trans h.symm)]
      omega
    · by_cases h2 : k₂ = k
      · rw [if_neg h1, if_pos h2, if_neg fun h => h23 (h2.trans h.symm)]
        omega
      · rw [if_neg h1, if_neg h2]
        split_ifs <;> omega

/-- The values of three keys are three values. -/
theorem lookups_le {p : Char → Bool} {entries : List (List Char × Value)} {k₁ k₂ k₃ : List Char}
    (h12 : k₁ ≠ k₂) (h13 : k₁ ≠ k₃) (h23 : k₂ ≠ k₃) {v₁ v₂ v₃ : Value}
    (h1 : entries.lookup k₁ = some v₁) (h2 : entries.lookup k₂ = some v₂)
    (h3 : entries.lookup k₃ = some v₃) :
    v₁.text.countP p + v₂.text.countP p + v₃.text.countP p ≤ (entriesText entries).countP p := by
  have hle := lookupCount_le p h12 h13 h23 entries
  simpa only [lookupCount, h1, h2, h3, Option.map_some, Option.getD_some] using hle

end PropertyList
