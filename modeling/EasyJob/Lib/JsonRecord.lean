import EasyJob.Lib.Json
import Mathlib.Data.List.Nodup
import Mathlib.Data.Nat.Digits.Defs

/-!
# Records in JSON documents

How a derived reader takes records, numbers, optional values and variants from a
document, and the documents that carry a given value.

* `Json.integer?_natural`, `Json.integer?_integer`: an integer of 64 bits is read back.
* `Json.Record`: an object with the given fields among its members, in any order.
* `Json.Record.fields`: the reader finds the fields of such an object.
-/

namespace Json

/-! ## Numbers -/

/-- The number with the given decimal digits. -/
def natural? (digits : List Char) : Option ℕ :=
  if digits ≠ [] ∧ digits.all Char.isDigit then some (Nat.ofDigitChars 10 digits 0) else none

/-- A literal as an integer of 64 bits. A negative zero and a number that does not fit are
    read as floating-point numbers. -/
def integerLiteral? : List Char → Option ℤ
  | '-' :: digits =>
    (natural? digits).bind fun n => if 0 < n ∧ n ≤ 2 ^ 63 then some (-(n : ℤ)) else none
  | digits => (natural? digits).bind fun n => if n < 2 ^ 64 then some (n : ℤ) else none

def integer? : Json → Option ℤ
  | .num literal => integerLiteral? literal.toList
  | _ => none

/-- A number below `bound`. -/
def unsigned? (bound : ℕ) (doc : Json) : Option ℕ :=
  doc.integer?.bind fun n => if 0 ≤ n ∧ n < bound then some n.toNat else none

/-- A number between `-bound` and `bound`. -/
def signed? (bound : ℤ) (doc : Json) : Option ℤ :=
  doc.integer?.bind fun n => if -bound ≤ n ∧ n < bound then some n else none

theorem natural?_toDigits (n : ℕ) : natural? (Nat.toDigits 10 n) = some n := by
  have hne : Nat.toDigits 10 n ≠ [] := Nat.toDigits_ne_nil
  have hdigits : (Nat.toDigits 10 n).all Char.isDigit = true := by
    rw [List.all_eq_true]
    intro c hc
    exact Nat.isDigit_of_mem_toDigits (by omega) (by omega) hc
  rw [natural?, if_pos ⟨hne, hdigits⟩, Nat.ofDigitChars_ten_toDigits]

theorem toList_toString (n : ℕ) : (toString n).toList = Nat.toDigits 10 n := by
  rw [Nat.toString_eq_ofList_toDigits, String.toList_ofList]

/-- The first character of a natural number is no sign. -/
theorem toDigits_ne_minus (n : ℕ) (rest : List Char) : Nat.toDigits 10 n ≠ '-' :: rest := by
  intro h
  have hminus : '-' ∈ Nat.toDigits 10 n := by
    rw [h]
    exact List.mem_cons_self
  exact absurd (Nat.isDigit_of_mem_toDigits (by omega) (by omega) hminus) (by decide)

theorem integer?_natural {n : ℕ} (h : n < 2 ^ 64) : (num (toString n)).integer? = some (n : ℤ) := by
  have hread := natural?_toDigits n
  show integerLiteral? (toString n).toList = some (n : ℤ)
  rw [toList_toString, integerLiteral?]
  · rw [hread, Option.bind_some, if_pos h]
  · exact toDigits_ne_minus n

theorem integer?_integer {n : ℤ} (hlow : -2 ^ 63 ≤ n) (hhigh : n < 2 ^ 63) :
    (num (toString n)).integer? = some n := by
  cases n with
  | ofNat n =>
    have hn : n < 2 ^ 64 := by
      have : (n : ℤ) < 2 ^ 63 := hhigh
      omega
    exact integer?_natural hn
  | negSucc n =>
    have htext : (toString (Int.negSucc n)).toList = '-' :: Nat.toDigits 10 (n + 1) := by
      show ("-" ++ toString (n + 1)).toList = _
      rw [String.toList_append, toList_toString]
      rfl
    have hn : 0 < n + 1 ∧ n + 1 ≤ 2 ^ 63 := by omega
    show integerLiteral? (toString (Int.negSucc n)).toList = some (Int.negSucc n)
    rw [htext, integerLiteral?, natural?_toDigits, Option.bind_some, if_pos hn]
    rfl

theorem unsigned?_natural {bound n : ℕ} (hbound : bound ≤ 2 ^ 64) (h : n < bound) :
    (num (toString n)).unsigned? bound = some n := by
  have hn : 0 ≤ (n : ℤ) ∧ (n : ℤ) < (bound : ℤ) := by omega
  rw [unsigned?, integer?_natural (by omega), Option.bind_some, if_pos hn, Int.toNat_natCast]

theorem unsigned?_lt {bound n : ℕ} {doc : Json} (h : doc.unsigned? bound = some n) : n < bound := by
  obtain ⟨m, -, hm⟩ := Option.bind_eq_some_iff.mp h
  split_ifs at hm with hrange
  cases hm
  omega

theorem signed?_integer {bound n : ℤ} (hbound : bound ≤ 2 ^ 63) (hlow : -bound ≤ n)
    (hhigh : n < bound) : (num (toString n)).signed? bound = some n := by
  rw [signed?, integer?_integer (by omega) (by omega), Option.bind_some, if_pos ⟨hlow, hhigh⟩]

theorem signed?_bounds {bound n : ℤ} {doc : Json} (h : doc.signed? bound = some n) :
    -bound ≤ n ∧ n < bound := by
  obtain ⟨m, -, hm⟩ := Option.bind_eq_some_iff.mp h
  split_ifs at hm with hrange
  cases hm
  exact hrange

/-! ## Reading a record -/

/-- What a document gives for the fields of a record. -/
structure Fields where
  get : String → Option Json
  /-- Whether the document is an object; in an array the fields stand in their order. -/
  byName : Bool

/-- The fields `names` of a record. Unknown members are skipped, repeated ones and elements
    that are left over are errors. -/
def fields (names : List String) : Json → Option Fields
  | .obj members =>
    if names.all fun name => (field name members).isSome then
      some { get := fun name => required name members, byName := true }
    else none
  | .arr elems =>
    if elems.length ≤ names.length then
      some { get := fun name => (names.zip elems).lookup name, byName := false }
    else none
  | _ => none

namespace Fields

variable {α : Type}

/-- A field that has to be given. -/
def required (f : Fields) (name : String) (read : Json → Option α) : Option α :=
  (f.get name).bind read

/-- A value or `null`. -/
def orNull (read : Json → Option α) : Json → Option (Option α)
  | .null => some none
  | doc => (read doc).map some

/-- A field that may be missing among the members of an object. -/
def optional (f : Fields) (name : String) (read : Json → Option α) : Option (Option α) :=
  match f.get name with
  | some doc => orNull read doc
  | none => if f.byName then some none else none

/-- A field with a default. -/
def defaulted (f : Fields) (name : String) (default : α) (read : Json → Option α) : Option α :=
  match f.get name with
  | some doc => read doc
  | none => some default

end Fields

/-! ## Variants -/

/-- The name and the content of an externally tagged variant. -/
def variant : Json → Option (String × Option Json)
  | .str name => some (name, none)
  | .obj [(name, content)] => some (name, some content)
  | _ => none

/-- The content of a variant without fields. -/
def unit? : Option Json → Option Unit
  | none | some .null => some ()
  | some _ => none

/-- The variants of an enumeration without fields. -/
def unitVariant {α : Type} (variants : List (String × α)) (doc : Json) : Option α := do
  let (name, content) ← variant doc
  unit? content
  variants.lookup name

/-- The content of a variant with named fields. -/
def variantFields (names : List String) : Option Json → Option Fields
  | some (.obj members) => fields names (.obj members)
  | _ => none

/-- The tag and the content of an adjacently tagged variant. -/
def adjacent (tag content : String) (doc : Json) : Option (String × Option Json) := do
  let f ← fields [tag, content] doc
  let name ← f.required tag toString?
  match f.get content with
  | some given => some (name, some given)
  | none => if f.byName then some (name, none) else none

/-! ## Documents that carry a record -/

/-- The field is given and its value is as described. -/
def Given (describes : Json → Prop) (given : Option Json) : Prop :=
  ∃ doc, given = some doc ∧ describes doc

/-- The field is missing or `null` when there is no value. -/
def GivenOption {α : Type} (describes : α → Json → Prop) (x : Option α) (given : Option Json) :
    Prop :=
  match x with
  | none => given = none ∨ given = some .null
  | some x => Given (describes x) given

/-- The field may be missing when its value is the default. -/
def GivenOr (isDefault : Prop) (describes : Json → Prop) (given : Option Json) : Prop :=
  (isDefault ∧ given = none) ∨ Given describes given

/-- Every field is given as described. -/
def Holds (get : String → Option Json) : List (String × (Option Json → Prop)) → Prop
  | [] => True
  | [entry] => entry.2 (get entry.1)
  | entry :: spec => entry.2 (get entry.1) ∧ Holds get spec

/-- An object whose members have different names, among them the given fields. -/
def Record (spec : List (String × (Option Json → Prop))) : Json → Prop
  | .obj members => (members.map Prod.fst).Nodup ∧ Holds (fun name => members.lookup name) spec
  | _ => False

/-- A variant without fields. -/
def Tag (name : String) (doc : Json) : Prop := doc = .str name ∨ doc = .obj [(name, .null)]

/-- A variant with named fields. -/
def Variant (name : String) (spec : List (String × (Option Json → Prop))) (doc : Json) : Prop :=
  ∃ content, doc = .obj [(name, content)] ∧ Record spec content

/-- No content, or `null`. -/
def NoContent (given : Option Json) : Prop := given = none ∨ given = some .null

/-- A variant whose tag and content are members of one object. -/
def Adjacent (tag content name : String) (holds : Option Json → Prop) : Json → Prop :=
  Record [(tag, Given (· = .str name)), (content, holds)]

theorem mem_of_lookup {members : List (String × Json)} {name : String} {doc : Json}
    (h : members.lookup name = some doc) : (name, doc) ∈ members := by
  obtain ⟨before, after, hmembers, -⟩ := List.lookup_eq_some_iff.mp h
  rw [hmembers]
  exact List.mem_append_right _ List.mem_cons_self

theorem lookup_of_mem {members : List (String × Json)} (hnodup : (members.map Prod.fst).Nodup)
    {name : String} {doc : Json} (h : (name, doc) ∈ members) :
    members.lookup name = some doc := by
  cases hlookup : members.lookup name with
  | none =>
    have hne := List.lookup_eq_none_iff.mp hlookup _ h
    simp at hne
  | some doc' =>
    have heq := List.inj_on_of_nodup_map hnodup h (mem_of_lookup hlookup) rfl
    rw [(Prod.mk.inj heq).2]

theorem field_of_nodup {members : List (String × Json)} (h : (members.map Prod.fst).Nodup)
    (name : String) : field name members = some (members.lookup name) := by
  induction members with
  | nil => rfl
  | cons member members ih =>
    obtain ⟨name', doc⟩ := member
    rw [List.map_cons, List.nodup_cons] at h
    by_cases hname : name' = name
    · subst hname
      have hrest : members.filter (·.1 = name') = [] := by
        rw [List.filter_eq_nil_iff]
        intro member hmember heq
        exact h.1 (List.mem_map.mpr ⟨member, hmember, by simpa using heq⟩)
      rw [field, List.filter_cons_of_pos (by simp), hrest, List.lookup_cons_self]
    · have hbeq : (name == name') = false := by
        simpa using Ne.symm hname
      rw [field, List.filter_cons_of_neg (by simpa using hname), List.lookup_cons, hbeq]
      exact ih h.2

/-- The reader of a record finds the fields of a document that carries it. -/
theorem Record.fields {spec : List (String × (Option Json → Prop))} {doc : Json}
    (h : Record spec doc) (names : List String) :
    ∃ f, Json.fields names doc = some f ∧ f.byName = true ∧ Holds f.get spec := by
  cases doc with
  | obj members =>
    obtain ⟨hnodup, hspec⟩ := h
    have hfield := field_of_nodup hnodup
    have hall : (names.all fun name => (field name members).isSome) = true := by
      rw [List.all_eq_true]
      intro name _
      rw [hfield]
      rfl
    have hget : (fun name => Json.required name members) = fun name => members.lookup name := by
      funext name
      rw [Json.required, hfield]
      rfl
    refine ⟨_, if_pos hall, rfl, ?_⟩
    show Holds (fun name => Json.required name members) spec
    rw [hget]
    exact hspec
  | null | bool | num | str | arr => exact h.elim

theorem Record.variantFields {spec : List (String × (Option Json → Prop))} {doc : Json}
    (h : Record spec doc) (names : List String) :
    ∃ f, Json.variantFields names (some doc) = some f ∧ f.byName = true ∧ Holds f.get spec := by
  cases doc with
  | obj members => exact h.fields names
  | null | bool | num | str | arr => exact h.elim

theorem Tag.unitVariant {α : Type} {variants : List (String × α)} {name : String} {x : α}
    {doc : Json} (h : Tag name doc) (hname : variants.lookup name = some x) :
    Json.unitVariant variants doc = some x := by
  rcases h with rfl | rfl
  · exact hname
  · exact hname

theorem unit?_of_noContent {given : Option Json} (h : NoContent given) : unit? given = some () := by
  rcases h with rfl | rfl
  · rfl
  · rfl

namespace Fields

variable {α : Type} {f : Fields} {name : String} {read : Json → Option α}

theorem required_of_given {describes : Json → Prop} {x : α} (h : Given describes (f.get name))
    (hread : ∀ doc, describes doc → read doc = some x) : f.required name read = some x := by
  obtain ⟨doc, hget, hdoc⟩ := h
  rw [required, hget, Option.bind_some, hread doc hdoc]

theorem orNull_of_read {doc : Json} {x : α} (hnull : read .null = none)
    (h : read doc = some x) : orNull read doc = some (some x) := by
  unfold orNull
  split
  · rw [hnull] at h
    cases h
  · rw [h]
    rfl

theorem optional_of_given {describes : α → Json → Prop} {x : Option α}
    (h : GivenOption describes x (f.get name)) (hby : f.byName = true)
    (hnull : read .null = none) (hread : ∀ x doc, describes x doc → read doc = some x) :
    f.optional name read = some x := by
  cases x with
  | none =>
    rcases h with hget | hget
    · rw [optional, hget]
      exact if_pos hby
    · rw [optional, hget]
      rfl
  | some x =>
    obtain ⟨doc, hget, hdoc⟩ := h
    rw [optional, hget]
    exact orNull_of_read hnull (hread x doc hdoc)

theorem defaulted_of_given {isDefault : Prop} {describes : Json → Prop} {default x : α}
    (h : GivenOr isDefault describes (f.get name)) (hdefault : isDefault → default = x)
    (hread : ∀ doc, describes doc → read doc = some x) :
    f.defaulted name default read = some x := by
  rcases h with ⟨hx, hget⟩ | ⟨doc, hget, hdoc⟩
  · rw [defaulted, hget]
    exact congrArg some (hdefault hx)
  · rw [defaulted, hget]
    exact hread doc hdoc

/-- An optional field that may be missing in an array too. -/
theorem defaulted_orNull_of_given {describes : α → Json → Prop} {x : Option α}
    (h : GivenOption describes x (f.get name)) (hnull : read .null = none)
    (hread : ∀ x doc, describes x doc → read doc = some x) :
    f.defaulted name none (orNull read) = some x := by
  cases x with
  | none =>
    rcases h with hget | hget
    · rw [defaulted, hget]
    · rw [defaulted, hget]
      rfl
  | some x =>
    obtain ⟨doc, hget, hdoc⟩ := h
    rw [defaulted, hget]
    exact orNull_of_read hnull (hread x doc hdoc)

end Fields

theorem Adjacent.adjacent {tag content name : String} {holds : Option Json → Prop} {doc : Json}
    (h : Adjacent tag content name holds doc) :
    ∃ given, Json.adjacent tag content doc = some (name, given) ∧ holds given := by
  obtain ⟨f, hfields, hby, hname, hcontent⟩ := Record.fields h [tag, content]
  have htag : f.required tag toString? = some name := by
    apply Fields.required_of_given hname
    rintro _ rfl
    rfl
  refine ⟨f.get content, ?_, hcontent⟩
  unfold Json.adjacent
  rw [hfields, Option.bind_eq_bind, Option.bind_some, htag, Option.bind_eq_bind, Option.bind_some]
  cases f.get content with
  | some given => rfl
  | none => exact if_pos hby

/-! ## Lists -/

/-- Each element carries the value in its place. -/
def Elements {α : Type} (describes : α → Json → Prop) (xs : List α) : Json → Prop
  | .arr elems => List.Forall₂ describes xs elems
  | _ => False

def elements? {α : Type} (read : Json → Option α) : Json → Option (List α)
  | .arr elems => elems.mapM read
  | _ => none

theorem Elements.read {α : Type} {describes : α → Json → Prop} {read : Json → Option α}
    (hread : ∀ x doc, describes x doc → read doc = some x) {xs : List α} {doc : Json}
    (h : Elements describes xs doc) : elements? read doc = some xs := by
  cases doc with
  | arr elems =>
    have hforall : List.Forall₂ describes xs elems := h
    show elems.mapM read = some xs
    induction hforall with
    | nil => rfl
    | cons hdoc _ ih =>
      rw [List.mapM_cons, hread _ _ hdoc, ih ‹_›]
      rfl
  | null | bool | num | str | obj => exact h.elim

/-! ## Values that were read -/

section

variable {α : Type} {f : Fields} {name : String} {read : Json → Option α} {doc : Json}

theorem exists_read_of_required {x : α} (h : f.required name read = some x) :
    ∃ given, read given = some x := by
  obtain ⟨given, -, hread⟩ := Option.bind_eq_some_iff.mp h
  exact ⟨given, hread⟩

theorem exists_read_of_orNull {x : α} (h : Fields.orNull read doc = some (some x)) :
    read doc = some x := by
  unfold Fields.orNull at h
  split at h
  · cases h
  · obtain ⟨y, hread, hy⟩ := Option.map_eq_some_iff.mp h
    rw [hread, hy]

theorem exists_read_of_optional {x : α} (h : f.optional name read = some (some x)) :
    ∃ given, read given = some x := by
  unfold Fields.optional at h
  split at h
  · exact ⟨_, exists_read_of_orNull h⟩
  · split_ifs at h
    cases h

theorem default_or_exists_read {default x : α} (h : f.defaulted name default read = some x) :
    x = default ∨ ∃ given, read given = some x := by
  unfold Fields.defaulted at h
  split at h
  · exact .inr ⟨_, h⟩
  · exact .inl (Option.some.inj h).symm

theorem exists_read_of_elements {xs : List α} (h : elements? read doc = some xs) :
    ∀ x ∈ xs, ∃ given, read given = some x := by
  cases doc with
  | arr elems =>
    have hmapM : elems.mapM read = some xs := h
    induction elems generalizing xs with
    | nil =>
      cases hmapM
      exact fun x hx => absurd hx List.not_mem_nil
    | cons given elems ih =>
      simp only [List.mapM_cons, Option.bind_eq_bind, Option.bind_eq_some_iff, Option.pure_def,
        Option.some.injEq] at hmapM
      obtain ⟨y, hy, ys, hys, rfl⟩ := hmapM
      intro x hx
      rcases List.mem_cons.mp hx with rfl | hx
      · exact ⟨given, hy⟩
      · exact ih hys hys x hx
  | null | bool | num | str | obj => cases h

end

end Json
