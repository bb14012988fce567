import Mathlib.Data.List.DropRight
import Mathlib.Tactic.Common

/-!
# Words between separators

The words of a list are the non-empty pieces between its separators. Splitting at
runs of separators gives the same pieces once the ends are trimmed.

* `flatten_words`: the words hold what is not a separator.
* `words_congr`: they depend on what is a separator in the list only.
* `splitRuns_trim`: trimming and splitting at runs.
* `intercalate_words`: joining the words with one separator collapses the runs.
* `collapse_eq_self_iff`: which lists collapsing leaves alone.
* `splitAtFirst_append_cons`: where the first occurrence of a piece is.
-/

namespace Words

variable {α : Type} (p q : α → Bool) {s t : List α} {c : α}

/-- The non-empty pieces between the separators. -/
def words (s : List α) : List (List α) := (s.splitOnP p).filter (fun word => !word.isEmpty)

/-- The pieces between the runs of separators; the first and the last can be empty. -/
def splitRuns : List α → List (List α)
  | [] => [[]]
  | c :: s =>
    if p c then
      -- the last separator of a run separates
      if s.head?.any p then splitRuns s else [] :: splitRuns s
    else (splitRuns s).modifyHead (c :: ·)

/-- Without the separators at both ends. -/
def trim (s : List α) : List α := (s.dropWhile p).rdropWhile p

/-! ## Words -/

@[simp] theorem words_nil : words p [] = [] := by simp [words]

variable {p}

theorem words_cons_sep (hc : p c = true) (s : List α) : words p (c :: s) = words p s := by
  simp [words, List.splitOnP_cons_eq_if_modifyHead, hc]

theorem words_append_sep (hc : p c = true) (s t : List α) :
    words p (s ++ c :: t) = words p s ++ words p t := by
  rw [words, List.splitOnP_append_cons s t hc, List.filter_append]
  rfl

/-- A list without separators is its only word. -/
theorem words_singleton (hs : s ≠ []) (h : ∀ c ∈ s, p c = false) : words p s = [s] := by
  rw [words, List.splitOnP_eq_singleton h]
  simp [hs]

variable (p)

theorem flatten_splitOnP (s : List α) : (s.splitOnP p).flatten = s.filter (!p ·) := by
  induction s with
  | nil => simp
  | cons c s ih =>
    obtain ⟨piece, pieces, hsplit⟩ := List.exists_cons_of_ne_nil (List.splitOnP_ne_nil p s)
    rw [hsplit] at ih
    rw [List.splitOnP_cons_eq_if_modifyHead, hsplit]
    by_cases hc : p c
    · simpa [hc] using ih
    · simpa [hc] using ih

/-- A piece between separators. -/
theorem sublist_of_mem_splitOn [BEq α] {a : α} {piece : List α} (h : piece ∈ s.splitOn a) :
    piece.Sublist s := by
  rw [List.splitOn_eq_splitOnP] at h
  have hpiece : piece.Sublist (s.splitOnP (· == a)).flatten := List.sublist_flatten_of_mem h
  rw [flatten_splitOnP] at hpiece
  exact hpiece.trans List.filter_sublist

/-- The words hold what is not a separator, in its order. -/
theorem flatten_words (s : List α) : (words p s).flatten = s.filter (!p ·) := by
  rw [words, List.flatten_filter_not_isEmpty, flatten_splitOnP]

theorem mem_flatten_words : c ∈ (words p s).flatten ↔ c ∈ s ∧ p c = false := by
  simp [flatten_words]

theorem words_congr (h : ∀ c ∈ s, p c = q c) : words p s = words q s := by
  have hsplit : s.splitOnP p = s.splitOnP q := by
    induction s with
    | nil => simp
    | cons c s ih =>
      obtain ⟨hc, hs⟩ := List.forall_mem_cons.mp h
      rw [List.splitOnP_cons_eq_if_modifyHead, List.splitOnP_cons_eq_if_modifyHead, hc, ih hs]
  rw [words, words, hsplit]

/-! ## Trimming -/

@[simp] theorem words_dropWhile (s : List α) : words p (s.dropWhile p) = words p s := by
  induction s with
  | nil => rfl
  | cons c s ih =>
    by_cases hc : p c
    · rw [List.dropWhile_cons_of_pos hc, ih, words_cons_sep hc]
    · rw [List.dropWhile_cons_of_neg hc]

@[simp] theorem words_rdropWhile (s : List α) : words p (s.rdropWhile p) = words p s := by
  induction s using List.reverseRecOn with
  | nil => rfl
  | append_singleton s c ih =>
    by_cases hc : p c
    · rw [List.rdropWhile_concat_pos _ _ _ hc, ih, words_append_sep hc, words_nil, List.append_nil]
    · rw [List.rdropWhile_concat_neg _ _ _ hc]

@[simp] theorem words_trim (s : List α) : words p (trim p s) = words p s := by
  rw [trim, words_rdropWhile, words_dropWhile]

theorem trim_head (h : (trim p s).head? = some c) : p c = false := by
  have hprefix : trim p s <+: s.dropWhile p := List.rdropWhile_prefix _ _
  have hhead : (s.dropWhile p).head? = some c := by
    rw [List.head?_eq_some_iff] at h ⊢
    obtain ⟨s', hs'⟩ := h
    obtain ⟨t, ht⟩ := hprefix
    exact ⟨s' ++ t, by rw [← ht, hs']; rfl⟩
  have hnot := List.head?_dropWhile_not p s
  rw [hhead] at hnot
  simpa using hnot

theorem trim_getLast (h : (trim p s).getLast? = some c) : p c = false := by
  have hne : trim p s ≠ [] := by
    intro hnil
    simp [hnil] at h
  have hlast : (trim p s).getLast hne = c := by
    rw [List.getLast?_eq_some_getLast hne] at h
    exact Option.some.inj h
  rw [← hlast]
  exact (Bool.not_eq_true _).mp (List.rdropWhile_last_not p (s.dropWhile p) hne)

/-! ## Words by their first character -/

variable {p}

theorem words_cons (hc : p c = false) (s : List α) :
    words p (c :: s) = (c :: s.takeWhile (!p ·)) :: words p (s.dropWhile (!p ·)) := by
  have hword : ∀ d ∈ c :: s.takeWhile (!p ·), p d = false := by
    intro d hd
    rcases List.mem_cons.mp hd with rfl | hd
    · exact hc
    · simpa using List.mem_takeWhile_imp hd
  have hsplit : c :: s = (c :: s.takeWhile (!p ·)) ++ s.dropWhile (!p ·) := by
    rw [List.cons_append, List.takeWhile_append_dropWhile]
  cases hrest : s.dropWhile (!p ·) with
  | nil =>
    rw [hsplit, hrest, List.append_nil, words_singleton (List.cons_ne_nil _ _) hword, words_nil]
  | cons d rest =>
    have hd : p d = true := by
      have hnot := List.head?_dropWhile_not (!p ·) s
      rw [hrest] at hnot
      simpa using hnot
    rw [hsplit, hrest, words_append_sep hd, words_singleton (List.cons_ne_nil _ _) hword,
      words_cons_sep hd]
    rfl

/-! ## Collapsing -/

/-- The list with one `sep` for every run of separators. With `pending`, a run has begun. -/
def collapse (p : α → Bool) (sep : α) : (pending : Bool) → List α → List α
  | pending, [] => if pending then [sep] else []
  | pending, c :: s =>
    if p c then collapse p sep true s
    else (if pending then [sep, c] else [c]) ++ collapse p sep false s

theorem collapse_sep {sep : α} (hc : p c = true) (pending : Bool) (s : List α) :
    collapse p sep pending (c :: s) = collapse p sep true s := by
  rw [collapse, if_pos hc]

theorem collapse_cons {sep : α} (hc : p c = false) (pending : Bool) (s : List α) :
    collapse p sep pending (c :: s) =
      (if pending then [sep, c] else [c]) ++ collapse p sep false s := by
  rw [collapse, if_neg (by simp [hc])]

theorem collapse_append {sep : α} (hc : p c = false) (pending : Bool) (s t : List α) :
    collapse p sep pending (s ++ c :: t) =
      collapse p sep pending s ++ c :: collapse p sep false t := by
  induction s generalizing pending with
  | nil =>
    rw [List.nil_append, collapse_cons hc]
    cases pending <;> rfl
  | cons d s ih =>
    rw [List.cons_append]
    by_cases hd : p d = true
    · rw [collapse_sep hd, collapse_sep hd, ih]
    · have hd' : p d = false := by simpa using hd
      rw [collapse_cons hd', collapse_cons hd', ih, List.append_assoc]

theorem mem_collapse {sep : α} {pending : Bool} (h : c ∈ collapse p sep pending s) :
    c = sep ∨ c ∈ s := by
  induction s generalizing pending with
  | nil =>
    cases pending with
    | false => cases h
    | true => exact .inl (List.mem_singleton.mp h)
  | cons d s ih =>
    by_cases hd : p d = true
    · rw [collapse_sep hd] at h
      exact (ih h).imp_right (List.mem_cons_of_mem d)
    · rw [collapse_cons (by simpa using hd)] at h
      rcases List.mem_append.mp h with h | h
      · have hpair : c = sep ∨ c = d := by
          cases pending with
          | false => exact .inr (List.mem_singleton.mp h)
          | true => exact List.mem_pair.mp h
        exact hpair.imp_right fun hcd => List.mem_cons.mpr (.inl hcd)
      · exact (ih h).imp_right (List.mem_cons_of_mem d)

theorem collapse_ne_nil {sep : α} {pending : Bool} (hs : s ≠ []) :
    collapse p sep pending s ≠ [] := by
  induction s generalizing pending with
  | nil => exact absurd rfl hs
  | cons d s ih =>
    by_cases hd : p d = true
    · rw [collapse_sep hd]
      cases s with
      | nil => simp [collapse]
      | cons c s => exact ih (List.cons_ne_nil _ _)
    · rw [collapse_cons (by simpa using hd)]
      cases pending <;> simp

/-- A list whose ends are no separators: its words with one separator between them. -/
theorem intercalate_words {sep : α} (hlast : ∀ d ∈ s.getLast?, p d = false) :
    (s ≠ [] → collapse p sep true s = sep :: [sep].intercalate (words p s)) ∧
    ((∀ d ∈ s.head?, p d = false) → collapse p sep false s = [sep].intercalate (words p s)) := by
  induction s with
  | nil => exact ⟨fun h => absurd rfl h, fun _ => by simp [collapse]⟩
  | cons c s ih =>
    by_cases hs : s = []
    · subst hs
      have hc : p c = false := hlast c rfl
      rw [collapse_cons hc, collapse_cons hc,
        words_singleton (List.cons_ne_nil _ _) (by simpa using hc)]
      simp [collapse]
    · have ih' := ih fun d hd => hlast d (by
        obtain ⟨d', s', rfl⟩ := List.exists_cons_of_ne_nil hs
        rwa [List.getLast?_cons_cons])
      by_cases hc : p c = true
      · refine ⟨fun _ => ?_, fun hhead => ?_⟩
        · rw [collapse_sep hc, words_cons_sep hc, ih'.1 hs]
        · rw [hhead c rfl] at hc
          cases hc
      · have hc' : p c = false := by simpa using hc
        have hcollapse : collapse p sep false (c :: s) =
            [sep].intercalate (words p (c :: s)) := by
          obtain ⟨d, t, rfl⟩ := List.exists_cons_of_ne_nil hs
          rw [collapse_cons hc', words_cons hc']
          by_cases hd : p d = true
          · -- the first word is `c`
            have hwords : words p (d :: t) ≠ [] := by
              intro hnil
              have hall := flatten_words p (d :: t)
              rw [hnil] at hall
              have hlast' := hlast ((d :: t).getLast (List.cons_ne_nil _ _)) (by
                rw [List.getLast?_cons_cons, List.getLast?_eq_some_getLast (List.cons_ne_nil _ _)]
                rfl)
              have hmem : (d :: t).getLast (List.cons_ne_nil _ _) ∈ (d :: t).filter (!p ·) :=
                List.mem_filter.mpr ⟨List.getLast_mem _, by simp [hlast']⟩
              rw [← hall] at hmem
              cases hmem
            obtain ⟨word, rest, hrest⟩ := List.exists_cons_of_ne_nil hwords
            have htake : (d :: t).takeWhile (!p ·) = [] := by simp [hd]
            have hdrop : (d :: t).dropWhile (!p ·) = d :: t := by simp [hd]
            have hrec := ih'.1 hs
            rw [collapse_sep hd] at hrec ⊢
            rw [htake, hdrop, hrec, hrest]
            simp [List.intercalate]
          · have hd' : p d = false := by simpa using hd
            have hrec := ih'.2 (by simpa using hd')
            have htake : (d :: t).takeWhile (!p ·) = d :: t.takeWhile (!p ·) := by simp [hd']
            have hdrop : (d :: t).dropWhile (!p ·) = t.dropWhile (!p ·) := by simp [hd']
            rw [hrec, words_cons hd', htake, hdrop]
            cases words p (t.dropWhile (!p ·)) with
            | nil => simp [List.intercalate]
            | cons word rest => simp [List.intercalate]
        refine ⟨fun _ => ?_, fun _ => hcollapse⟩
        rw [← hcollapse, collapse_cons hc', collapse_cons hc']
        rfl

theorem length_collapse_le (sep : α) (pending : Bool) (s : List α) :
    (collapse p sep pending s).length ≤ s.length + if pending then 1 else 0 := by
  induction s generalizing pending with
  | nil => cases pending <;> simp [collapse]
  | cons c s ih =>
    by_cases hc : p c = true
    · rw [collapse_sep hc]
      have hrec := ih true
      simp only [if_true, List.length_cons] at hrec ⊢
      omega
    · rw [collapse_cons (by simpa using hc)]
      have hrec := ih false
      cases pending <;> simp at hrec ⊢ <;> omega

/-- A list without two separators in a row, all of which are `sep`. -/
theorem collapse_eq_self_iff {sep : α} (hsep : p sep = true) (hs : ∀ c ∈ s, p c = true → c = sep) :
    (collapse p sep false s = s ↔ s.IsChain fun a b => ¬(a = sep ∧ b = sep)) ∧
    (collapse p sep true s = sep :: s ↔ (sep :: s).IsChain fun a b => ¬(a = sep ∧ b = sep)) := by
  induction s with
  | nil => simp [collapse]
  | cons c s ih =>
    obtain ⟨hc, hs'⟩ := List.forall_mem_cons.mp hs
    have ih' := ih hs'
    by_cases hpc : p c = true
    · obtain rfl := hc hpc
      rw [collapse_sep hpc, collapse_sep hpc]
      refine ⟨ih'.2, ?_⟩
      constructor
      · intro h
        -- too short
        have hle := length_collapse_le (p := p) c true s
        rw [h] at hle
        simp only [List.length_cons, if_true] at hle
        omega
      · intro h
        exact absurd ⟨rfl, rfl⟩ (List.isChain_cons_cons.mp h).1
    · have hpc' : p c = false := by simpa using hpc
      have hne : c ≠ sep := by
        rintro rfl
        rw [hsep] at hpc'
        cases hpc'
      rw [collapse_cons hpc', collapse_cons hpc', List.isChain_cons_cons]
      have htail : (c :: s).IsChain (fun a b => ¬(a = sep ∧ b = sep)) ↔
          s.IsChain fun a b => ¬(a = sep ∧ b = sep) := by
        cases s with
        | nil => simp
        | cons d s =>
          rw [List.isChain_cons_cons]
          simp [hne]
      rw [htail, ← ih'.1]
      simp [hne]

variable (p)

/-! ## Splitting at runs -/

/-- Both ways of splitting begin with the same piece and then give the same words. -/
theorem splitRuns_spec (s : List α) : ∃ piece pieces runs, s.splitOnP p = piece :: pieces ∧
    splitRuns p s = piece :: runs ∧ (s.head?.any p = true → piece = []) ∧
    pieces.filter (fun word => !word.isEmpty) = runs.filter (fun word => !word.isEmpty) := by
  induction s with
  | nil => exact ⟨[], [], [], by simp, rfl, by simp, rfl⟩
  | cons c s ih =>
    obtain ⟨piece, pieces, runs, hsplit, hruns, hhead, hfilter⟩ := ih
    rw [List.splitOnP_cons_eq_if_modifyHead, splitRuns, hsplit, hruns]
    by_cases hc : p c
    · by_cases hrun : s.head?.any p
      · obtain rfl := hhead hrun
        exact ⟨[], [] :: pieces, runs, by simp [hc], by simp [hc, hrun], by simp,
          by simpa using hfilter⟩
      · exact ⟨[], piece :: pieces, piece :: runs, by simp [hc], by simp [hc, hrun], by simp,
          by simp [List.filter_cons, hfilter]⟩
    · exact ⟨c :: piece, pieces, runs, by simp [hc], by simp [hc], by simp [hc], hfilter⟩

theorem splitRuns_ne_nil (s : List α) : splitRuns p s ≠ [] := by
  obtain ⟨piece, pieces, runs, -, hruns, -⟩ := splitRuns_spec p s
  simp [hruns]

theorem words_eq_filter (s : List α) :
    words p s = (splitRuns p s).filter (fun word => !word.isEmpty) := by
  obtain ⟨piece, pieces, runs, hsplit, hruns, -, hfilter⟩ := splitRuns_spec p s
  rw [words, hsplit, hruns, List.filter_cons, List.filter_cons, hfilter]

/-- Where the list does not end with a separator, only the first piece can be empty. -/
theorem splitRuns_tail (h : ∀ c, s.getLast? = some c → p c = false) :
    ∀ piece ∈ (splitRuns p s).tail, piece ≠ [] := by
  induction s with
  | nil => simp [splitRuns]
  | cons c s ih =>
    cases s with
    | nil =>
      have hc : p c = false := h c rfl
      simp [splitRuns, hc]
    | cons c' s =>
      have htail := ih fun d hd => h d (by rwa [List.getLast?_cons_cons])
      obtain ⟨piece, runs, hruns⟩ := List.exists_cons_of_ne_nil (splitRuns_ne_nil p (c' :: s))
      rw [hruns, List.tail_cons] at htail
      rw [splitRuns, hruns]
      by_cases hc : p c
      · by_cases hc' : p c'
        · simpa [hc, hc'] using htail
        · -- the next piece begins with `c'`
          have hpiece : piece ≠ [] := by
            rintro rfl
            rw [splitRuns, if_neg hc'] at hruns
            obtain ⟨piece', runs', hruns'⟩ :=
              List.exists_cons_of_ne_nil (splitRuns_ne_nil p s)
            simp [hruns'] at hruns
          simpa [hc, hc', hpiece] using htail
      · simpa [hc] using htail

/-- Trimming and splitting at runs gives the words, or one empty piece. -/
theorem splitRuns_trim (s : List α) :
    splitRuns p (trim p s) = if words p s = [] then [[]] else words p s := by
  rw [← words_trim]
  cases htrim : trim p s with
  | nil => simp [splitRuns]
  | cons c t =>
    have hc : p c = false := trim_head p (by rw [htrim]; rfl)
    have hlast : ∀ d, (c :: t).getLast? = some d → p d = false :=
      fun d hd => trim_getLast p (by rw [htrim]; exact hd)
    have htail := splitRuns_tail p hlast
    obtain ⟨piece, runs, hruns⟩ := List.exists_cons_of_ne_nil (splitRuns_ne_nil p t)
    have hpieces : splitRuns p (c :: t) = (c :: piece) :: runs := by
      rw [splitRuns, hruns, hc]
      rfl
    rw [hpieces, List.tail_cons] at htail
    have hwords : words p (c :: t) = (c :: piece) :: runs := by
      rw [words_eq_filter, hpieces, List.filter_eq_self.mpr]
      intro word hword
      rcases List.mem_cons.mp hword with rfl | hword
      · rfl
      · simpa using htail word hword
    rw [hwords, hpieces]
    rfl

/-! ## The first occurrence of a piece -/

section FirstOccurrence

variable {α : Type} [BEq α]

/-- What precedes the first `close`, and what follows it. -/
def splitAtFirst (close : List α) : List α → Option (List α × List α)
  | [] => none
  | c :: s =>
    if close.isPrefixOf (c :: s) then some ([], (c :: s).drop close.length)
    else (splitAtFirst close s).map fun (before, rest) => (c :: before, rest)

variable [LawfulBEq α] {close s before rest : List α}

theorem splitAtFirst_eq (h : splitAtFirst close s = some (before, rest)) :
    s = before ++ (close ++ rest) := by
  induction s generalizing before with
  | nil => cases h
  | cons c s ih =>
    rw [splitAtFirst] at h
    split_ifs at h with hclose
    · cases h
      obtain ⟨t, ht⟩ := List.isPrefixOf_iff_prefix.mp hclose
      rw [← ht, List.drop_left, List.nil_append]
    · obtain ⟨⟨before', rest'⟩, hrec, heq⟩ := Option.map_eq_some_iff.mp h
      cases heq
      rw [ih hrec]
      rfl

theorem splitAtFirst_suffix (h : splitAtFirst close s = some (before, rest)) : rest <:+ s := by
  rw [splitAtFirst_eq h, ← List.append_assoc]
  exact List.suffix_append _ _

/-- What was found is found in a longer list. -/
theorem splitAtFirst_append (h : splitAtFirst close s = some (before, rest)) (t : List α) :
    splitAtFirst close (s ++ t) = some (before, rest ++ t) := by
  induction s generalizing before with
  | nil => cases h
  | cons c s ih =>
    have hlength : close.length ≤ (c :: s).length := by
      rw [splitAtFirst_eq h, List.length_append, List.length_append]
      omega
    have hpre : close.isPrefixOf (c :: s ++ t) = close.isPrefixOf (c :: s) := by
      rw [Bool.eq_iff_iff, List.isPrefixOf_iff_prefix, List.isPrefixOf_iff_prefix]
      constructor
      · intro h
        exact List.prefix_of_prefix_length_le h (List.prefix_append _ t) hlength
      · exact fun h => h.trans (List.prefix_append _ t)
    rw [splitAtFirst] at h
    rw [List.cons_append, splitAtFirst, ← List.cons_append, hpre]
    split_ifs at h ⊢ with hclose
    · cases h
      rw [List.drop_append_of_le_length hlength]
    · obtain ⟨⟨before', rest'⟩, hrec, heq⟩ := Option.map_eq_some_iff.mp h
      cases heq
      rw [ih hrec]
      rfl

theorem splitAtFirst_eq_none_iff (hclose : close ≠ []) :
    splitAtFirst close s = none ↔ ¬close <:+: s := by
  induction s with
  | nil => simp [splitAtFirst, hclose]
  | cons c s ih =>
    rw [splitAtFirst, List.infix_cons_iff, ← List.isPrefixOf_iff_prefix]
    split_ifs with hpre
    · simp [hpre]
    · simp [hpre, ih]

/-- An element that `close` does not have ends every search before it. -/
theorem splitAtFirst_append_cons {c : α} (hc : c ∉ close) (hclose : close ≠ [])
    (hs : ¬close <:+: s) (t : List α) :
    splitAtFirst close (s ++ c :: t) =
      (splitAtFirst close t).map fun (before, rest) => (s ++ c :: before, rest) := by
  have hpre : ∀ s', ¬close <+: s' → ¬close <+: s' ++ c :: t := by
    intro s' hs' h
    rcases List.prefix_or_prefix_of_prefix h (List.prefix_append s' (c :: t)) with h' | h'
    · exact hs' h'
    · obtain ⟨u, rfl⟩ := h'
      cases u with
      | nil => exact hs' (by simp)
      | cons d u =>
        rw [List.prefix_append_right_inj, List.cons_prefix_cons] at h
        exact hc (by simp [h.1])
  induction s with
  | nil =>
    have hnot : close.isPrefixOf (c :: t) = false := by
      rw [← Bool.not_eq_true, List.isPrefixOf_iff_prefix]
      exact hpre [] (by simpa using hclose)
    rw [List.nil_append, splitAtFirst, hnot]
    rfl
  | cons d s ih =>
    rw [List.infix_cons_iff, not_or] at hs
    have hnot : close.isPrefixOf (d :: s ++ c :: t) = false := by
      rw [← Bool.not_eq_true, List.isPrefixOf_iff_prefix]
      exact hpre _ hs.1
    rw [List.cons_append, splitAtFirst, ← List.cons_append, hnot, ih hs.2, Option.map_map]
    cases splitAtFirst close t <;> rfl

end FirstOccurrence

end Words
