import EasyJob.Lib.Words

/-!
# Windows command lines

How a program splits its command line: the name of the program, and the arguments after it.

* `split_eq_words`: without double quotes, at blanks and tabs.
* `countP_split_le`: other characters than quotes and backslashes are not multiplied.
* `splitFrom_quoted_iff`: when a text between double quotes is read as it is.
-/

namespace WindowsArgs

open Words

def isBlank (c : Char) : Bool := c == ' ' || c == '\t'

/-- The rest of a command line: inside an argument or before the next one, inside double quotes or
    not, after `backslashes` backslashes, with what the argument has so far. Backslashes are
    literal unless they precede a double quote, where two stand for one and an odd one makes the
    quote literal; so does a quote after a closing quote. -/
def splitFrom (inArg inQuotes : Bool) (backslashes : ℕ) (arg : List Char) :
    List Char → List (List Char)
  | [] => if inArg then [arg ++ List.replicate backslashes '\\'] else []
  | '\\' :: s => splitFrom true inQuotes (backslashes + 1) arg s
  | '"' :: s =>
    let arg' := arg ++ List.replicate (backslashes / 2) '\\'
    if backslashes % 2 = 1 then splitFrom true inQuotes 0 (arg' ++ ['"']) s
    else if inQuotes then
      match s with
      | '"' :: s' => splitFrom true true 0 (arg' ++ ['"']) s'
      | s => splitFrom true false 0 arg' s
    else splitFrom true true 0 arg' s
  | c :: s =>
    if isBlank c && !inQuotes then
      if inArg then (arg ++ List.replicate backslashes '\\') :: splitFrom false false 0 [] s
      else splitFrom false false 0 [] s
    else splitFrom true inQuotes 0 (arg ++ List.replicate backslashes '\\' ++ [c]) s

def split (s : List Char) : List (List Char) := splitFrom false false 0 [] s

/-- The name of the program at the start of a command line, and the rest: a double quote only
    opens or closes, a backslash is one, and outside quotes a blank ends the name. -/
def programName (inQuotes : Bool) : List Char → List Char × List Char
  | [] => ([], [])
  | c :: s =>
    if c = '"' then programName (!inQuotes) s
    else if isBlank c && !inQuotes then ([], s)
    else ((c :: (programName inQuotes s).1), (programName inQuotes s).2)

/-- The arguments of a program, its name first. -/
def argv (s : List Char) : List (List Char) :=
  (programName false s).1 :: split (programName false s).2

/-! ## Without double quotes -/

theorem splitFrom_cons (inArg inQuotes : Bool) (backslashes : ℕ) (arg : List Char) {c : Char}
    (hslash : c ≠ '\\') (hquote : c ≠ '"') (s : List Char) :
    splitFrom inArg inQuotes backslashes arg (c :: s) =
      if isBlank c && !inQuotes then
        if inArg then (arg ++ List.replicate backslashes '\\') :: splitFrom false false 0 [] s
        else splitFrom false false 0 [] s
      else splitFrom true inQuotes 0 (arg ++ List.replicate backslashes '\\' ++ [c]) s := by
  rw [splitFrom]
  · exact hslash
  · exact hquote

theorem splitFrom_eq {s : List Char} (hs : '"' ∉ s) :
    splitFrom false false 0 [] s = words isBlank s ∧
    ∀ backslashes arg, splitFrom true false backslashes arg s =
      (arg ++ List.replicate backslashes '\\' ++ s.takeWhile (!isBlank ·)) ::
        words isBlank (s.dropWhile (!isBlank ·)) := by
  induction s with
  | nil => simp [splitFrom]
  | cons c s ih =>
    obtain ⟨hquote, hs'⟩ := not_or.mp (mt List.mem_cons.mpr hs)
    obtain ⟨ihOut, ihIn⟩ := ih hs'
    by_cases hslash : c = '\\'
    · subst hslash
      have hblank : isBlank '\\' = false := rfl
      refine ⟨?_, fun backslashes arg => ?_⟩
      · rw [splitFrom, ihIn, words_cons hblank]
        rfl
      · rw [splitFrom, ihIn, List.takeWhile_cons, List.dropWhile_cons, hblank,
          List.replicate_succ']
        simp
    · by_cases hblank : isBlank c = true
      · refine ⟨?_, fun backslashes arg => ?_⟩
        · rw [splitFrom_cons _ _ _ _ hslash (Ne.symm hquote), words_cons_sep hblank, hblank]
          exact ihOut
        · rw [splitFrom_cons _ _ _ _ hslash (Ne.symm hquote), hblank, ihOut]
          simp [hblank, words_cons_sep hblank]
      · have hblank' : isBlank c = false := by simpa using hblank
        refine ⟨?_, fun backslashes arg => ?_⟩
        · rw [splitFrom_cons _ _ _ _ hslash (Ne.symm hquote), words_cons hblank', hblank']
          simp [ihIn]
        · rw [splitFrom_cons _ _ _ _ hslash (Ne.symm hquote), hblank']
          simp [ihIn, hblank']

/-- Without double quotes backslashes are literal, and the arguments are the words. -/
theorem split_eq_words {s : List Char} (hs : '"' ∉ s) : split s = words isBlank s :=
  (splitFrom_eq hs).1

/-! ## What the arguments are made of -/

theorem countP_splitFrom_le {p : Char → Bool} (hquote : p '"' = false) (hslash : p '\\' = false)
    (inArg inQuotes : Bool) (backslashes : ℕ) (arg s : List Char) :
    (splitFrom inArg inQuotes backslashes arg s).flatten.countP p ≤ arg.countP p + s.countP p := by
  have hliteral : ∀ n : ℕ, (List.replicate n '\\').countP p = 0 := by
    intro n
    simp [List.countP_replicate, hslash]
  fun_induction splitFrom inArg inQuotes backslashes arg s with
  | case1 => simp [List.countP_append, hliteral]
  | case2 => simp
  | case3 inArg inQuotes backslashes arg s ih => simpa [hslash] using ih
  | case4 | case5 | case6 | case7 =>
    -- a double quote, after what the backslashes before it stand for
    simp_all +zetaDelta [List.countP_append, List.countP_replicate]
  | case8 inQuotes backslashes arg c s hslash' hquote' hblank ih =>
    simp only [List.flatten_cons, List.countP_append, hliteral, List.countP_cons,
      List.countP_nil] at ih ⊢
    omega
  | case9 =>
    simp only [List.countP_cons, List.countP_nil] at *
    omega
  | case10 inArg inQuotes backslashes arg c s hslash' hquote' hblank ih =>
    simp only [List.countP_append, hliteral, List.countP_cons, List.countP_nil] at ih ⊢
    omega

theorem countP_split_le {p : Char → Bool} (hquote : p '"' = false) (hslash : p '\\' = false)
    (s : List Char) : (split s).flatten.countP p ≤ s.countP p := by
  have hle := countP_splitFrom_le hquote hslash false false 0 [] s
  rwa [List.countP_nil, Nat.zero_add] at hle

/-! ## A word before a blank -/

/-- Neither a separator nor with a meaning of its own. -/
def isPlain (c : Char) : Bool := c != '"' && c != '\\' && !isBlank c

theorem splitFrom_plain (inArg : Bool) (arg : List Char) {c : Char} (hc : isPlain c = true)
    (s : List Char) :
    splitFrom inArg false 0 arg (c :: s) = splitFrom true false 0 (arg ++ [c]) s := by
  simp only [isPlain, Bool.and_eq_true, bne_iff_ne] at hc
  obtain ⟨⟨hquote, hslash⟩, hblank⟩ := hc
  rw [splitFrom_cons _ _ _ _ hslash hquote, if_neg (by simpa using hblank)]
  simp

theorem splitFrom_word {word : List Char} (hne : word ≠ []) (hword : word.all isPlain = true)
    (rest : List Char) :
    splitFrom false false 0 [] (word ++ ' ' :: rest) = word :: splitFrom false false 0 [] rest := by
  have hinside : ∀ arg, splitFrom true false 0 arg (word ++ ' ' :: rest) =
      (arg ++ word) :: splitFrom false false 0 [] rest := by
    clear hne
    induction word with
    | nil =>
      intro arg
      rw [List.nil_append, splitFrom_cons _ _ _ _ (by decide) (by decide), if_pos (by decide)]
      simp
    | cons c word ih =>
      intro arg
      obtain ⟨hc, hword'⟩ := Bool.and_eq_true_iff.mp hword
      rw [List.cons_append, splitFrom_plain _ _ hc, ih hword', List.append_assoc]
      rfl
  obtain ⟨c, word, rfl⟩ := List.exists_cons_of_ne_nil hne
  obtain ⟨hc, -⟩ := Bool.and_eq_true_iff.mp hword
  have hfirst := hinside []
  rw [List.cons_append, splitFrom_plain _ _ hc] at hfirst ⊢
  exact hfirst

/-! ## Between double quotes -/

theorem programName_quoted {name : List Char} (hname : '"' ∉ name) (rest : List Char) :
    programName false ('"' :: (name ++ '"' :: ' ' :: rest)) = (name, rest) := by
  have hinside : programName true (name ++ '"' :: ' ' :: rest) = (name, rest) := by
    induction name with
    | nil => rfl
    | cons c name ih =>
      obtain ⟨hc, hname'⟩ := not_or.mp (mt List.mem_cons.mpr hname)
      rw [List.cons_append, programName, if_neg (Ne.symm hc), if_neg (by simp), ih hname']
  exact hinside

/-- Between double quotes a text is read as it is; `backslashes` are the last of it. -/
theorem splitFrom_quoted {s : List Char} (hs : '"' ∉ s) : ∃ backslashes arg,
    (∀ rest, splitFrom true true 0 [] (s ++ rest) = splitFrom true true backslashes arg rest) ∧
    arg ++ List.replicate backslashes '\\' = s ∧
    (backslashes = 0 ↔ s.getLast? ≠ some '\\') := by
  induction s using List.reverseRecOn with
  | nil => exact ⟨0, [], fun _ => rfl, rfl, by simp⟩
  | append_singleton s c ih =>
    rw [List.mem_append, List.mem_singleton, not_or] at hs
    obtain ⟨backslashes, arg, hsplit, harg, -⟩ := ih hs.1
    have hsnoc : ∀ rest, splitFrom true true 0 [] (s ++ [c] ++ rest) =
        splitFrom true true backslashes arg (c :: rest) := by
      intro rest
      rw [List.append_assoc, List.singleton_append, hsplit]
    by_cases hslash : c = '\\'
    · subst hslash
      refine ⟨backslashes + 1, arg, fun rest => ?_, ?_, by simp⟩
      · rw [hsnoc, splitFrom]
      · rw [List.replicate_succ', ← List.append_assoc, harg]
    · refine ⟨0, s ++ [c], fun rest => ?_, by simp, by simp [hslash]⟩
      rw [hsnoc, splitFrom_cons _ _ _ _ hslash (Ne.symm hs.2), if_neg (by simp), harg]

theorem splitFrom_open (inArg : Bool) (arg s : List Char) :
    splitFrom inArg false 0 arg ('"' :: s) = splitFrom true true 0 arg s := by
  rw [splitFrom.eq_def]
  simp

/-- A double quote at the end of the line, after backslashes. -/
theorem splitFrom_close (inArg : Bool) (backslashes : ℕ) (arg : List Char) :
    splitFrom inArg true backslashes arg ['"'] =
      if backslashes % 2 = 1 then [arg ++ List.replicate (backslashes / 2) '\\' ++ ['"']]
      else [arg ++ List.replicate (backslashes / 2) '\\'] := by
  split_ifs with hodd <;> simp [splitFrom, hodd]

/-- A text between double quotes at the end of the line is one argument, the same text exactly
    where no backslash precedes the closing quote. -/
theorem splitFrom_quoted_iff {s : List Char} (hs : '"' ∉ s) (inArg : Bool) :
    splitFrom inArg false 0 [] ('"' :: (s ++ ['"'])) = [s] ↔ s.getLast? ≠ some '\\' := by
  obtain ⟨backslashes, arg, hsplit, harg, hlast⟩ := splitFrom_quoted hs
  have hlength : arg.length + backslashes = s.length := by
    rw [← harg, List.length_append, List.length_replicate]
  rw [splitFrom_open, hsplit, splitFrom_close, ← hlast]
  split_ifs with hodd
  · -- the quote becomes part of the argument
    constructor
    · intro h
      have hmem : '"' ∈ s := by
        rw [← (List.cons.inj h).1]
        simp
      exact absurd hmem hs
    · intro h
      rw [h] at hodd
      cases hodd
  · constructor
    · intro h
      have heq := congrArg List.length (List.cons.inj h).1
      simp only [List.length_append, List.length_replicate] at heq
      omega
    · intro h
      rw [h] at harg ⊢
      rw [harg]

end WindowsArgs
