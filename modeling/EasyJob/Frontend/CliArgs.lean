import EasyJob.Frontend.JsText
import Mathlib.Data.List.Perm.Basic

/-!
# Program arguments in the editor

Model of `parseCliArgs` and `getArgsString` (`components/task/ActionEditor.vue` lines
100–119): the arguments of a program are shown as one line and read again from it.

* `Sections`: the texts that the expression of `parseCliArgs` matches as a whole.
* `scans_matchArgs`: what the matches and the skipped characters of a line are.
* `parseCliArgs_getArgsString_iff`: when the arguments are read as they were.
-/

namespace EasyJob.Frontend

open Words

def isQuote (c : Char) : Bool := c == '"' || c == '\''

/-- `[^\s"']`. -/
def isPlain (c : Char) : Bool := !isSpace c && !isQuote c

/-! ## `parseCliArgs` -/

/-- One round of `[^\s"']+|"[^"]*"|'[^']*'`: what is matched, and the rest. -/
def matchUnit : List Char → Option (List Char × List Char)
  | [] => none
  | c :: s =>
    if isQuote c then
      match s.dropWhile (· != c) with
      | [] => none
      | close :: rest => some (c :: (s.takeWhile (· != c) ++ [close]), rest)
    else if isSpace c then none
    else some (c :: s.takeWhile isPlain, s.dropWhile isPlain)

theorem matchUnit_length {s unit rest : List Char} (h : matchUnit s = some (unit, rest)) :
    rest.length < s.length := by
  cases s with
  | nil => cases h
  | cons c s =>
    rw [matchUnit] at h
    split_ifs at h
    · split at h
      · cases h
      · rename_i close rest' hdrop
        cases h
        have hle := (List.dropWhile_suffix (l := s) (· != c)).length_le
        rw [hdrop] at hle
        exact Nat.lt_succ_of_le ((Nat.le_succ _).trans hle)
    · cases h
      exact Nat.lt_succ_of_le (List.dropWhile_suffix _).length_le

/-- `(?:[^\s"']+|"[^"]*"|'[^']*')*` at the start: what is matched, and the rest. -/
def matchArg (s : List Char) : List Char × List Char :=
  match _h : matchUnit s with
  | none => ([], s)
  | some (unit, rest) => (unit ++ (matchArg rest).1, (matchArg rest).2)
termination_by s.length
decreasing_by all_goals exact matchUnit_length _h

theorem matchArg_none {s : List Char} (h : matchUnit s = none) : matchArg s = ([], s) := by
  rw [matchArg]
  split
  · rfl
  · rename_i heq
    rw [h] at heq
    cases heq

theorem matchArg_some {s unit rest : List Char} (h : matchUnit s = some (unit, rest)) :
    matchArg s = (unit ++ (matchArg rest).1, (matchArg rest).2) := by
  rw [matchArg]
  split
  · rename_i heq
    rw [h] at heq
    cases heq
  · rename_i heq
    rw [h] at heq
    cases heq
    rfl

theorem matchUnit_append {s unit rest : List Char} (h : matchUnit s = some (unit, rest)) :
    unit ++ rest = s := by
  cases s with
  | nil => cases h
  | cons c s =>
    rw [matchUnit] at h
    split_ifs at h
    · split at h
      · cases h
      · rename_i close rest' hdrop
        cases h
        have hsplit := List.takeWhile_append_dropWhile (p := (· != c)) (l := s)
        rw [hdrop] at hsplit
        simpa using hsplit
    · cases h
      simp [List.takeWhile_append_dropWhile]

theorem matchArg_append (s : List Char) : (matchArg s).1 ++ (matchArg s).2 = s := by
  induction hn : s.length using Nat.strong_induction_on generalizing s with
  | _ n ih =>
    cases hunit : matchUnit s with
    | none => rw [matchArg_none hunit, List.nil_append]
    | some r =>
      obtain ⟨unit, rest⟩ := r
      have hlength := matchUnit_length hunit
      rw [matchArg_some hunit, List.append_assoc, ih rest.length (by omega) rest rfl]
      exact matchUnit_append hunit

/-- `input.match(/(?:[^\s"']+|"[^"]*"|'[^']*')+/g)`, empty for `null`. -/
def matchArgs : List Char → List (List Char)
  | [] => []
  | c :: s =>
    if _h : (matchArg (c :: s)).1 = [] then matchArgs s
    else (matchArg (c :: s)).1 :: matchArgs (matchArg (c :: s)).2
termination_by s => s.length
decreasing_by
  · exact Nat.lt_succ_self _
  · have hlength := congrArg List.length (matchArg_append (c :: s))
    have hpos := List.length_pos_iff.mpr _h
    rw [List.length_append] at hlength
    omega

/-- `arg.startsWith(q) && arg.endsWith(q)`. -/
def isEnclosed (q : Char) (arg : List Char) : Bool := arg.head? == some q && arg.getLast? == some q

/-- `arg.slice(1, -1)` if the argument begins and ends with the same quote. -/
def stripQuotes (arg : List Char) : List Char :=
  if isEnclosed '"' arg || isEnclosed '\'' arg then (arg.drop 1).dropLast else arg

/-- Model of `parseCliArgs` (lines 100–109). -/
def parseCliArgs (input : List Char) : List (List Char) := (matchArgs input).map stripQuotes

/-! ## `getArgsString` -/

def printArg (arg : List Char) : List Char :=
  if arg.contains ' ' then '"' :: (arg ++ ['"']) else arg

/-- Model of `getArgsString` (lines 111–113). -/
def getArgsString (args : List (List Char)) : List Char := [' '].intercalate (args.map printArg)

/-- The arguments that `setArgsString` (lines 115–119) gives to an `ExecuteProgram` action. -/
def setArgsString (val : List Char) : List (List Char) := parseCliArgs (trim isSpace val)

/-! ## What is matched -/

/-- The texts made of characters that are neither white space nor quotes, and of closed
    sections between two quotes of one kind. -/
inductive Sections : List Char → Prop
  | nil : Sections []
  | plain {c : Char} {s : List Char} (hc : isPlain c = true) (hs : Sections s) : Sections (c :: s)
  | quoted {q : Char} {content s : List Char} (hq : isQuote q = true) (hcontent : q ∉ content)
      (hs : Sections s) : Sections (q :: (content ++ q :: s))

/-- No section begins here: the end, white space, or a quote that is not closed. -/
def Stops : List Char → Prop
  | [] => True
  | c :: s => isSpace c = true ∨ isQuote c = true ∧ c ∉ s

theorem Sections.append {s t : List Char} (hs : Sections s) (ht : Sections t) :
    Sections (s ++ t) := by
  induction hs with
  | nil => exact ht
  | plain hc _ ih => exact .plain hc ih
  | quoted hq hcontent _ ih =>
    rw [List.cons_append, List.append_assoc, List.cons_append]
    exact .quoted hq hcontent ih

theorem isSpace_of_isQuote {c : Char} (h : isQuote c = true) : isSpace c = false := by
  simp only [isQuote, Bool.or_eq_true, beq_iff_eq] at h
  rcases h with rfl | rfl <;> decide

section Match

variable {s t rest arg content : List Char} {c q : Char}

theorem matchUnit_quoted (hq : isQuote q = true) (h : q ∉ content) :
    matchUnit (q :: (content ++ q :: s)) = some (q :: (content ++ [q]), s) := by
  have hcontent : ∀ c ∈ content, (c != q) = true := fun c hc => by
    simpa using fun heq : c = q => h (heq ▸ hc)
  rw [matchUnit, if_pos hq, List.dropWhile_append_of_pos hcontent,
    List.takeWhile_append_of_pos hcontent]
  simp

theorem matchUnit_plain (hc : isPlain c = true) :
    matchUnit (c :: s) = some (c :: s.takeWhile isPlain, s.dropWhile isPlain) := by
  simp only [isPlain, Bool.and_eq_true, Bool.not_eq_true'] at hc
  rw [matchUnit, hc.1, hc.2]
  rfl

theorem matchUnit_eq_none_iff : matchUnit s = none ↔ Stops s := by
  cases s with
  | nil => simp [matchUnit, Stops]
  | cons c s =>
    rw [Stops, matchUnit]
    by_cases hq : isQuote c
    · rw [if_pos hq, isSpace_of_isQuote hq]
      cases hdrop : s.dropWhile (· != c) with
      | nil =>
        have hnot : c ∉ s := by
          intro hmem
          simpa using List.dropWhile_eq_nil_iff.mp hdrop c hmem
        simp [hq, hnot]
      | cons close rest =>
        have hmem : c ∈ s := by
          by_contra hnot
          have hnil : s.dropWhile (· != c) = [] := List.dropWhile_eq_nil_iff.mpr fun d hd => by
            simpa using fun heq : d = c => hnot (heq ▸ hd)
          rw [hdrop] at hnil
          cases hnil
        simp [hmem]
    · rw [if_neg hq]
      by_cases hspace : isSpace c
      · simp [hspace]
      · simp [hspace, hq]

theorem matchUnit_sections {unit : List Char} (h : matchUnit s = some (unit, rest)) :
    Sections unit := by
  cases s with
  | nil => cases h
  | cons c s =>
    rw [matchUnit] at h
    split_ifs at h with hq hspace
    · split at h
      · cases h
      · rename_i close rest' hdrop
        cases h
        have hclose : close = c := by
          have hnot := List.head?_dropWhile_not (· != c) s
          rw [hdrop] at hnot
          simpa using hnot
        have hcontent : c ∉ s.takeWhile (· != c) := by
          intro hmem
          simpa using List.mem_takeWhile_imp hmem
        rw [hclose]
        exact .quoted hq hcontent .nil
    · cases h
      have hplain : ∀ d ∈ c :: s.takeWhile isPlain, isPlain d = true := by
        refine List.forall_mem_cons.mpr ⟨by simp [isPlain, hq, hspace], fun d hd => ?_⟩
        exact List.mem_takeWhile_imp hd
      generalize c :: s.takeWhile isPlain = run at hplain
      induction run with
      | nil => exact .nil
      | cons d run ih =>
        obtain ⟨hd, hrun⟩ := List.forall_mem_cons.mp hplain
        exact .plain hd (ih hrun)

/-- A match is made of sections, and no section follows it. -/
theorem matchArg_spec (s : List Char) : Sections (matchArg s).1 ∧ Stops (matchArg s).2 := by
  induction hn : s.length using Nat.strong_induction_on generalizing s with
  | _ n ih =>
    cases hunit : matchUnit s with
    | none =>
      rw [matchArg_none hunit]
      exact ⟨.nil, matchUnit_eq_none_iff.mp hunit⟩
    | some r =>
      obtain ⟨unit, rest⟩ := r
      have hlength := matchUnit_length hunit
      obtain ⟨harg, hstops⟩ := ih rest.length (by omega) rest rfl
      rw [matchArg_some hunit]
      exact ⟨(matchUnit_sections hunit).append harg, hstops⟩

/-- A run of plain characters can be read one by one. -/
theorem matchArg_plain (hc : isPlain c = true) :
    matchArg (c :: s) = (c :: (matchArg s).1, (matchArg s).2) := by
  rw [matchArg_some (matchUnit_plain hc)]
  cases s with
  | nil => rfl
  | cons d s =>
    by_cases hd : isPlain d
    · rw [matchArg_some (matchUnit_plain hd), List.takeWhile_cons_of_pos hd,
        List.dropWhile_cons_of_pos hd]
      rfl
    · rw [List.takeWhile_cons_of_neg hd, List.dropWhile_cons_of_neg hd]
      rfl

/-- Sections that no section follows are a match. -/
theorem matchArg_sections (hs : Sections s) (hrest : Stops rest) :
    matchArg (s ++ rest) = (s, rest) := by
  induction hs with
  | nil => exact matchArg_none (matchUnit_eq_none_iff.mpr hrest)
  | plain hc _ ih => rw [List.cons_append, matchArg_plain hc, ih]
  | quoted hq hcontent _ ih =>
    rw [List.cons_append, List.append_assoc, List.cons_append,
      matchArg_some (matchUnit_quoted hq hcontent), ih]
    simp

@[simp] theorem matchArgs_nil : matchArgs [] = [] := by rw [matchArgs]

theorem matchArgs_stops (h : Stops (c :: s)) : matchArgs (c :: s) = matchArgs s := by
  have hnone := matchArg_none (matchUnit_eq_none_iff.mpr h)
  rw [matchArgs, dif_pos (by rw [hnone])]

theorem matchArgs_sections (hs : Sections arg) (hne : arg ≠ []) (hrest : Stops rest) :
    matchArgs (arg ++ rest) = arg :: matchArgs rest := by
  have hmatch := matchArg_sections hs hrest
  obtain ⟨c, t, rfl⟩ := List.exists_cons_of_ne_nil hne
  rw [List.cons_append] at hmatch ⊢
  rw [matchArgs, dif_neg (by rw [hmatch]; exact hne), hmatch]

/-! ### White space at the ends -/

theorem stops_append_space (h : Stops s) (hc : isSpace c = true) : Stops (s ++ [c]) := by
  cases s with
  | nil => exact .inl hc
  | cons d s =>
    rcases h with hspace | ⟨hquote, hnot⟩
    · exact .inl hspace
    · refine .inr ⟨hquote, ?_⟩
      have hne : d ≠ c := by
        rintro rfl
        rw [isSpace_of_isQuote hquote] at hc
        cases hc
      simp [hnot, hne]

theorem matchArgs_append_space (hc : isSpace c = true) (s : List Char) :
    matchArgs (s ++ [c]) = matchArgs s := by
  induction hn : s.length using Nat.strong_induction_on generalizing s with
  | _ n ih =>
    cases s with
    | nil => exact matchArgs_stops (.inl hc)
    | cons d s =>
      obtain ⟨hsections, hstops⟩ := matchArg_spec (d :: s)
      have happend := matchArg_append (d :: s)
      have hmatch := matchArg_sections hsections (stops_append_space hstops hc)
      rw [← List.append_assoc, happend] at hmatch
      rw [List.length_cons] at hn
      rw [List.cons_append] at hmatch ⊢
      rw [matchArgs, matchArgs, hmatch]
      have hlength := congrArg List.length happend
      rw [List.length_append, List.length_cons] at hlength
      split_ifs with hnil
      · exact ih s.length (by omega) s rfl
      · have hpos : 0 < (matchArg (d :: s)).1.length := List.length_pos_iff.mpr hnil
        rw [ih _ (by omega) _ rfl]

/-- Trimming the line changes no match. -/
theorem matchArgs_trim (s : List Char) : matchArgs (trim isSpace s) = matchArgs s := by
  have hright : ∀ t : List Char, matchArgs (t.rdropWhile isSpace) = matchArgs t := by
    intro t
    induction t using List.reverseRecOn with
    | nil => rfl
    | append_singleton t c ih =>
      by_cases hc : isSpace c
      · rw [List.rdropWhile_concat_pos _ _ _ hc, ih, matchArgs_append_space hc]
      · rw [List.rdropWhile_concat_neg _ _ _ hc]
  rw [trim, hright]
  induction s with
  | nil => rfl
  | cons c s ih =>
    by_cases hc : isSpace c
    · rw [List.dropWhile_cons_of_pos hc, ih, matchArgs_stops (.inl hc)]
    · rw [List.dropWhile_cons_of_neg hc]

end Match

/-! ## What the matches of a line are -/

/-- The matches of a line and the characters that are skipped between them. -/
inductive Scans : List Char → List (List Char) → List Char → Prop
  | nil : Scans [] [] []
  | skip {c : Char} {s skipped : List Char} {args : List (List Char)} (hc : Stops (c :: s))
      (hs : Scans s args skipped) : Scans (c :: s) args (c :: skipped)
  | last {arg : List Char} (harg : Sections arg) (hne : arg ≠ []) : Scans arg [arg] []
  | next {c : Char} {arg s skipped : List Char} {args : List (List Char)} (harg : Sections arg)
      (hne : arg ≠ []) (hc : Stops (c :: s)) (hs : Scans s args skipped) :
      Scans (arg ++ c :: s) (arg :: args) (c :: skipped)

theorem scans_matchArgs (s : List Char) : ∃ skipped, Scans s (matchArgs s) skipped := by
  induction hn : s.length using Nat.strong_induction_on generalizing s with
  | _ n ih =>
    cases s with
    | nil =>
      rw [matchArgs_nil]
      exact ⟨[], .nil⟩
    | cons c s =>
      obtain ⟨hsections, hstops⟩ := matchArg_spec (c :: s)
      have happend := matchArg_append (c :: s)
      generalize (matchArg (c :: s)).1 = arg at hsections happend
      generalize (matchArg (c :: s)).2 = rest at hstops happend
      rw [← happend] at hn ⊢
      rw [List.length_append] at hn
      by_cases hne : arg = []
      · subst hne
        rw [List.nil_append] at happend ⊢
        subst happend
        rw [List.length_cons] at hn
        obtain ⟨skipped, hskipped⟩ := ih s.length (by omega) s rfl
        rw [matchArgs_stops hstops]
        exact ⟨c :: skipped, .skip hstops hskipped⟩
      · rw [matchArgs_sections hsections hne hstops]
        cases rest with
        | nil =>
          rw [List.append_nil, matchArgs_nil]
          exact ⟨[], .last hsections hne⟩
        | cons d rest =>
          rw [List.length_cons] at hn
          obtain ⟨skipped, hskipped⟩ := ih rest.length (by omega) rest rfl
          rw [matchArgs_stops hstops]
          exact ⟨d :: skipped, .next hsections hne hstops hskipped⟩

namespace Scans

variable {s skipped : List Char} {args : List (List Char)} (h : Scans s args skipped)
include h

theorem sections : ∀ arg ∈ args, Sections arg ∧ arg ≠ [] := by
  induction h with
  | nil => simp
  | skip _ _ ih => exact ih
  | last harg hne => simpa using ⟨harg, hne⟩
  | next harg hne _ _ ih => exact List.forall_mem_cons.mpr ⟨⟨harg, hne⟩, ih⟩

/-- Every character is in a match or skipped. -/
theorem perm : s.Perm (args.flatten ++ skipped) := by
  induction h with
  | nil => exact .refl _
  | @skip c _ _ _ _ _ ih => exact (ih.cons c).trans List.perm_middle.symm
  | last => simp
  | @next c arg _ _ _ _ _ _ _ ih =>
    rw [List.flatten_cons, List.append_assoc]
    exact ((ih.cons c).trans List.perm_middle.symm).append_left arg

theorem length_le : args.length ≤ skipped.length + 1 := by
  induction h with
  | nil => exact Nat.zero_le _
  | skip _ _ ih => exact Nat.le_succ_of_le ih
  | last => exact le_rfl
  | next _ _ _ _ ih => exact Nat.succ_le_succ ih

/-- Of two quotes of one kind, the first is not skipped. -/
theorem count_quote {q : Char} (hq : isSpace q = false) : skipped.count q ≤ 1 := by
  have hskip : ∀ {c : Char} {s skipped : List Char} {args : List (List Char)},
      Stops (c :: s) → Scans s args skipped → skipped.count q ≤ 1 →
      (c :: skipped).count q ≤ 1 := by
    intro c s skipped args hc hs hle
    by_cases hcq : c = q
    · subst hcq
      have hnot : c ∉ s := (hc.resolve_left (by simp [hq])).2
      have hzero : c ∉ skipped := fun hmem =>
        hnot (hs.perm.mem_iff.mpr (List.mem_append_right _ hmem))
      rw [List.count_cons_self, List.count_eq_zero.mpr hzero]
    · rwa [List.count_cons_of_ne hcq]
  induction h with
  | nil => simp
  | skip hc hs ih => exact hskip hc hs ih
  | last => simp
  | next _ _ hc hs ih => exact hskip hc hs ih

/-- With one blank between two matches and nothing else, the line is the matches with blanks
    between them. -/
theorem eq_intercalate (hlength : args.length = skipped.length + 1)
    (hblank : ∀ c ∈ skipped, c = ' ') : s = [' '].intercalate args := by
  induction h with
  | nil => cases hlength
  | skip hc hs ih =>
    have hle := hs.length_le
    rw [List.length_cons] at hlength
    omega
  | last => simp
  | next _ _ _ hs ih =>
    obtain ⟨rfl, hrest⟩ := List.forall_mem_cons.mp hblank
    have hlength' := Nat.succ.inj hlength
    have hne := List.length_pos_iff.mp (Nat.lt_of_lt_of_eq (Nat.succ_pos _) hlength'.symm)
    rw [List.intercalate_cons_of_ne_nil hne, ← ih hlength' hrest]
    simp

end Scans

/-! ## Quotes around arguments -/

/-- `text` is the argument, or the argument between two quotes of one kind. -/
def Wraps (text arg : List Char) : Prop :=
  text = arg ∨ ∃ q, isQuote q = true ∧ text = q :: (arg ++ [q])

theorem isEnclosed_spec {q : Char} {text : List Char} (h : isEnclosed q text = true)
    (hone : text ≠ [q]) : text = q :: ((text.drop 1).dropLast ++ [q]) := by
  simp only [isEnclosed, Bool.and_eq_true, beq_iff_eq] at h
  obtain ⟨hhead, hlast⟩ := h
  obtain ⟨s, rfl⟩ := List.head?_eq_some_iff.mp hhead
  obtain ⟨init, hinit⟩ := List.getLast?_eq_some_iff.mp hlast
  cases init with
  | nil => exact absurd hinit hone
  | cons c init =>
    obtain ⟨rfl, rfl⟩ := List.cons.inj hinit
    simp

theorem not_sections_singleton {q : Char} (hq : isQuote q = true) : ¬Sections [q] := by
  intro h
  have hstops : Stops [] := trivial
  have hmatch := matchArg_sections h hstops
  have hnone : matchUnit [q] = none := matchUnit_eq_none_iff.mpr (.inr ⟨hq, by simp⟩)
  rw [List.append_nil, matchArg_none hnone] at hmatch
  simp at hmatch

theorem stripQuotes_wraps {text : List Char} (h : Sections text) :
    Wraps text (stripQuotes text) := by
  unfold stripQuotes
  split_ifs with henclosed
  · right
    rcases Bool.or_eq_true_iff.mp henclosed with hq | hq
    · refine ⟨'"', rfl, isEnclosed_spec hq ?_⟩
      rintro rfl
      exact not_sections_singleton rfl h
    · refine ⟨'\'', rfl, isEnclosed_spec hq ?_⟩
      rintro rfl
      exact not_sections_singleton rfl h
  · exact .inl rfl

/-- The characters in wrapped arguments: the double quotes may be more by an even number, the
    single quotes may be more, and there are the same others. -/
theorem count_wrapped {texts args : List (List Char)} (h : List.Forall₂ Wraps texts args) :
    (∃ k, texts.flatten.count '"' = args.flatten.count '"' + 2 * k) ∧
      args.flatten.count '\'' ≤ texts.flatten.count '\'' ∧
      ∀ c, isQuote c = false → texts.flatten.count c = args.flatten.count c := by
  induction h with
  | nil => exact ⟨⟨0, rfl⟩, le_rfl, fun _ _ => rfl⟩
  | @cons text arg texts args hwraps _ ih =>
    obtain ⟨⟨k, hdouble⟩, hsingle, hother⟩ := ih
    simp only [List.flatten_cons, List.count_append]
    rcases hwraps with rfl | ⟨q, hq, rfl⟩
    · exact ⟨⟨k, by omega⟩, by omega, fun c hc => by rw [hother c hc]⟩
    · simp only [List.count_cons, List.count_append, List.count_nil]
      refine ⟨?_, by omega, fun c hc => ?_⟩
      · by_cases hd : q = '"'
        · exact ⟨k + 1, by simp [hd]; omega⟩
        · exact ⟨k, by simp [hd]; omega⟩
      · have hne : q ≠ c := by
          rintro rfl
          rw [hq] at hc
          cases hc
        simp [hne, hother c hc]

/-- With another quote, the printed arguments hold no more single quotes. -/
theorem count_printed (args : List (List Char)) :
    (∃ k, (args.map printArg).flatten.count '"' = args.flatten.count '"' + 2 * k) ∧
      ∀ c, c ≠ '"' → (args.map printArg).flatten.count c = args.flatten.count c := by
  induction args with
  | nil => exact ⟨⟨0, rfl⟩, fun _ _ => rfl⟩
  | cons arg args ih =>
    obtain ⟨⟨k, hdouble⟩, hother⟩ := ih
    simp only [List.map_cons, List.flatten_cons, List.count_append]
    by_cases hblank : arg.contains ' ' = true
    · have hprint : printArg arg = '"' :: (arg ++ ['"']) := if_pos hblank
      simp only [hprint, List.count_cons, List.count_append, List.count_nil]
      refine ⟨⟨k + 1, by simp; omega⟩, fun c hc => ?_⟩
      simp [hc.symm, hother c hc]
    · have hprint : printArg arg = arg := if_neg hblank
      rw [hprint]
      exact ⟨⟨k, by omega⟩, fun c hc => by rw [hother c hc]⟩

theorem count_intercalate {sep c : Char} {texts : List (List Char)} :
    ([sep].intercalate texts).count c =
      texts.flatten.count c + if sep = c then texts.length - 1 else 0 := by
  induction texts with
  | nil => simp
  | cons text texts ih =>
    cases texts with
    | nil => simp
    | cons next texts =>
      rw [List.intercalate_cons_of_ne_nil (by simp), List.count_append, List.count_append, ih]
      simp only [List.flatten_cons, List.count_append, List.count_cons, List.count_nil,
        List.length_cons, beq_iff_eq]
      split_ifs <;> omega

/-! ## The line read again -/

/-- What is between two arguments and after the last. -/
def IsGap (s : List Char) : Prop := s = [] ∨ ∃ t, s = ' ' :: t

theorem eq_of_shifted {a s t : List Char} {q : Char} (h : a ++ s = q :: (a ++ t)) :
    ∀ c ∈ a, c = q := by
  induction a with
  | nil => simp
  | cons c a ih =>
    obtain ⟨rfl, htail⟩ := List.cons.inj h
    exact List.forall_mem_cons.mpr ⟨rfl, ih htail⟩

/-- A match in the place of a printed argument is that. -/
theorem wraps_unique {text arg s t : List Char} (hwraps : Wraps text arg)
    (h : text ++ s = printArg arg ++ t) (ht : IsGap t) : text = printArg arg := by
  by_cases hblank : arg.contains ' ' = true
  · have hprint : printArg arg = '"' :: (arg ++ ['"']) := if_pos hblank
    rw [List.contains_iff_mem] at hblank
    rw [hprint] at h ⊢
    rcases hwraps with rfl | ⟨q, -, rfl⟩
    · -- the argument would be shifted by one character
      rw [List.cons_append, List.append_assoc] at h
      exact absurd (eq_of_shifted h _ hblank) (by decide)
    · rw [List.cons_append, List.cons_append] at h
      rw [(List.cons.inj h).1]
  · have hprint : printArg arg = arg := if_neg hblank
    rw [hprint] at h ⊢
    rcases hwraps with rfl | ⟨q, hq, rfl⟩
    · rfl
    · exfalso
      rw [List.cons_append, List.append_assoc] at h
      have hall := List.eq_replicate_of_mem (eq_of_shifted h.symm)
      have hcomm : q :: arg = arg ++ [q] := by
        rw [hall, ← List.replicate_succ, List.replicate_succ']
      rw [← List.cons_append, hcomm, List.append_assoc] at h
      rcases ht with rfl | ⟨t, rfl⟩
      · simp at h
      · have hq' : q = ' ' := (List.cons.inj (List.append_cancel_left h)).1
        rw [hq'] at hq
        exact absurd hq (by decide)

theorem intercalate_cons (text : List Char) (texts : List (List Char)) :
    ∃ s, [' '].intercalate (text :: texts) = text ++ s ∧ IsGap s ∧ (texts = [] → s = []) ∧
      (texts ≠ [] → s = ' ' :: [' '].intercalate texts) := by
  cases texts with
  | nil => exact ⟨[], by simp, .inl rfl, fun _ => rfl, by simp⟩
  | cons next texts =>
    refine ⟨' ' :: [' '].intercalate (next :: texts), ?_, .inr ⟨_, rfl⟩, by simp, fun _ => rfl⟩
    rw [List.intercalate_cons_of_ne_nil (by simp)]
    simp

/-- Matches that wrap the arguments and fill the printed line are the printed arguments. -/
theorem eq_printed {texts args : List (List Char)} (hwraps : List.Forall₂ Wraps texts args)
    (h : [' '].intercalate texts = getArgsString args) : texts = args.map printArg := by
  unfold getArgsString at h
  induction hwraps with
  | nil => rfl
  | @cons text arg texts args hwrap hwraps ih =>
    obtain ⟨s, hs, -, -, hrest⟩ := intercalate_cons text texts
    obtain ⟨t, ht, hgap, -, hrest'⟩ := intercalate_cons (printArg arg) (args.map printArg)
    rw [List.map_cons] at h ⊢
    rw [hs, ht] at h
    have htext := wraps_unique hwrap h hgap
    rw [htext] at h ⊢
    have hst := List.append_cancel_left h
    cases hwraps with
    | nil => rfl
    | @cons next arg' texts args _ _ =>
      rw [hrest (by simp), hrest' (by simp)] at hst
      rw [ih (List.cons.inj hst).2]

/-- A line that is read as the printed arguments has them as its matches. -/
theorem matchArgs_eq_printed {args : List (List Char)}
    (h : (matchArgs (getArgsString args)).map stripQuotes = args) :
    matchArgs (getArgsString args) = args.map printArg := by
  obtain ⟨skipped, hscans⟩ := scans_matchArgs (getArgsString args)
  generalize htexts : matchArgs (getArgsString args) = texts at h hscans
  have hlength : texts.length = args.length := by rw [← h, List.length_map]
  have hwraps : List.Forall₂ Wraps texts args := by
    rw [← h, List.forall₂_map_right_iff]
    exact List.forall₂_same.mpr fun text hmem => stripQuotes_wraps (hscans.sections text hmem).1
  cases hargs : args with
  | nil =>
    rw [hargs, List.length_nil, List.length_eq_zero_iff] at hlength
    rw [hlength]
    rfl
  | cons first others =>
    rw [← hargs]
    -- how often a character stands in the line, in the matches and between them
    have hcount : ∀ c, (args.map printArg).flatten.count c +
        (if ' ' = c then args.length - 1 else 0) = texts.flatten.count c + skipped.count c := by
      intro c
      have hline := hscans.perm.count_eq c
      rw [List.count_append, getArgsString, count_intercalate, List.length_map] at hline
      exact hline
    obtain ⟨⟨k, hdouble⟩, hsingle, hother⟩ := count_wrapped hwraps
    obtain ⟨⟨l, hdouble'⟩, hother'⟩ := count_printed args
    have hblank : skipped.count ' ' = args.length - 1 := by
      have hline := hcount ' '
      rw [hother ' ' (by decide), hother' ' ' (by decide), if_pos rfl] at hline
      omega
    have hskipped : ∀ c ∈ skipped, c = ' ' := by
      intro c hmem
      by_contra hne
      have hpos := List.count_pos_iff.mpr hmem
      have hline := hcount c
      rw [if_neg (Ne.symm hne)] at hline
      by_cases hd : c = '"'
      · -- an odd number of double quotes cannot be left over
        subst hd
        have hle := hscans.count_quote (q := '"') (by decide)
        omega
      · rw [hother' c hd] at hline
        by_cases hs : c = '\''
        · subst hs
          omega
        · rw [hother c (by simp [isQuote, hd, hs])] at hline
          omega
    have hall : skipped.count ' ' = skipped.length :=
      List.count_eq_length.mpr fun c hmem => (hskipped c hmem).symm
    have hline : getArgsString args = [' '].intercalate texts :=
      hscans.eq_intercalate (by rw [hlength, ← hall, hblank, hargs]; simp) hskipped
    exact eq_printed hwraps hline.symm

/-! ## The round trip -/

/-- The printed argument is one match, and is read as the argument: it has a blank, and between
    two double quotes it is made of sections; or it is made of sections and does not begin and end
    with the same quote. -/
def Survives (arg : List Char) : Prop :=
  if ' ' ∈ arg then Sections ('"' :: (arg ++ ['"']))
  else arg ≠ [] ∧ Sections arg ∧ ∀ q, isQuote q = true → isEnclosed q arg = false

theorem survives_iff (arg : List Char) : Survives arg ↔
    Sections (printArg arg) ∧ printArg arg ≠ [] ∧ stripQuotes (printArg arg) = arg := by
  unfold Survives
  by_cases hblank : ' ' ∈ arg
  · have hprint : printArg arg = '"' :: (arg ++ ['"']) := if_pos (List.contains_iff_mem.mpr hblank)
    have hstrip : stripQuotes ('"' :: (arg ++ ['"'])) = arg := by
      have hlast : ('"' :: (arg ++ ['"'])).getLast? = some '"' := by
        rw [← List.cons_append, List.getLast?_concat]
      simp [stripQuotes, isEnclosed, hlast]
    rw [if_pos hblank, hprint, hstrip]
    simp
  · have hprint : printArg arg = arg := if_neg (mt List.contains_iff_mem.mp hblank)
    rw [if_neg hblank, hprint]
    constructor
    · rintro ⟨hne, hsections, hopen⟩
      refine ⟨hsections, hne, ?_⟩
      rw [stripQuotes, hopen '"' rfl, hopen '\'' rfl]
      rfl
    · rintro ⟨hsections, hne, hstrip⟩
      refine ⟨hne, hsections, fun q hq => ?_⟩
      by_contra henclosed
      rw [Bool.not_eq_false] at henclosed
      -- without its quotes the argument is shorter
      have hone : arg ≠ [q] := by
        rintro rfl
        exact not_sections_singleton hq hsections
      have hlength := congrArg List.length (isEnclosed_spec henclosed hone)
      have henclosed' : (isEnclosed '"' arg || isEnclosed '\'' arg) = true := by
        simp only [isQuote, Bool.or_eq_true, beq_iff_eq] at hq
        rcases hq with rfl | rfl <;> simp [henclosed]
      rw [stripQuotes, if_pos henclosed'] at hstrip
      rw [hstrip] at hlength
      simp only [List.length_cons, List.length_append, List.length_nil] at hlength
      omega

theorem stops_of_isGap {s : List Char} (h : IsGap s) : Stops s := by
  rcases h with rfl | ⟨t, rfl⟩
  · trivial
  · exact .inl (by decide)

theorem matchArgs_printed {args : List (List Char)} (h : ∀ arg ∈ args, Survives arg) :
    matchArgs (getArgsString args) = args.map printArg := by
  unfold getArgsString
  induction args with
  | nil => exact matchArgs_nil
  | cons arg args ih =>
    obtain ⟨harg, hargs⟩ := List.forall_mem_cons.mp h
    obtain ⟨hsections, hne, -⟩ := (survives_iff arg).mp harg
    obtain ⟨s, hs, hgap, hend, hrest⟩ := intercalate_cons (printArg arg) (args.map printArg)
    rw [List.map_cons, hs, matchArgs_sections hsections hne (stops_of_isGap hgap)]
    cases args with
    | nil => rw [hend rfl, matchArgs_nil, List.map_nil]
    | cons next args =>
      rw [hrest (by simp), matchArgs_stops (.inl (by decide)), ih hargs]

/-- The arguments come back from the line as they were iff each of them survives. -/
theorem parseCliArgs_getArgsString_iff (args : List (List Char)) :
    setArgsString (getArgsString args) = args ↔ ∀ arg ∈ args, Survives arg := by
  unfold setArgsString parseCliArgs
  rw [matchArgs_trim]
  constructor
  · intro h arg hmem
    have htexts := matchArgs_eq_printed h
    obtain ⟨skipped, hscans⟩ := scans_matchArgs (getArgsString args)
    have hsections := hscans.sections
    rw [htexts] at h hsections
    obtain ⟨harg, hne⟩ := hsections (printArg arg) (List.mem_map_of_mem hmem)
    refine (survives_iff arg).mpr ⟨harg, hne, ?_⟩
    have hid : args.map (stripQuotes ∘ printArg) = args.map id := by
      rw [← List.map_map, List.map_id, h]
    exact List.map_inj_left.mp hid arg hmem
  · intro h
    have hstrip : ∀ arg ∈ args, (stripQuotes ∘ printArg) arg = id arg := fun arg hmem =>
      ((survives_iff arg).mp (h arg hmem)).2.2
    rw [matchArgs_printed h, List.map_map, List.map_congr_left hstrip, List.map_id]

/-- Quotes in an argument without blanks survive, also if a blank and a closed section follow. -/
example : setArgsString (getArgsString [['-', 'c'], ['a', ' ', '\''], ['x', '"', '\t', '"']]) =
    [['-', 'c'], ['a', ' ', '\''], ['x', '"', '\t', '"']] := by decide +kernel

/-- An empty argument is lost. -/
theorem parseCliArgs_loses :
    ¬∀ args : List (List Char), setArgsString (getArgsString args) = args := by
  intro h
  have hempty := h [[]]
  rw [show getArgsString [[]] = [] from rfl] at hempty
  simp [setArgsString, parseCliArgs, trim] at hempty

end EasyJob.Frontend
