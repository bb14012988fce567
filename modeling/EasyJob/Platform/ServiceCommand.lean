import EasyJob.Lib.WindowsArgs
import EasyJob.Scheduler.Evaluator

/-!
# The command line of the Windows service

Model of `windows_service_image_path` (`crates/platform/src/startup.rs` lines 54–61) and of
`parse_data_dir_from_qc` (`apps/desktop/src-tauri/src/startup.rs` lines 103–116), on texts:
`Path::display` gives a path as it is.

* `argv_windowsServiceImagePath`: what the service is started with.
* `parseDataDirFromQc_iff`: what the desktop reads in a text with the command line.
* `windowsServiceImagePath_iff`: when both are the data directory.
-/

namespace EasyJob.Platform

open EasyJob.Scheduler (isWhitespace splitWhitespace)
open Words

/-! ## The functions -/

/-- Model of `windows_service_image_path` (lines 55–61). -/
def windowsServiceImagePath (agentExe dataDir : List Char) : List Char :=
  ['"'] ++ agentExe ++ "\" --service --data-dir \"".toList ++ dataDir ++ ['"']

def marker : List Char := "--data-dir".toList

/-- The value after the marker: up to the next quote, or the next word. -/
def dataDirValue (after : List Char) : Option (List Char) :=
  let rest := after.dropWhile isWhitespace
  let quoted := rest.head? == some '"'
  let rest := if quoted then rest.tail else rest
  if quoted then some (rest.takeWhile (· != '"'))
  else (splitWhitespace rest).head?

/-- Model of `parse_data_dir_from_qc` (lines 104–116). -/
def parseDataDirFromQc (text : List Char) : Option (List Char) :=
  (splitAtFirst marker text).bind fun (_, after) => dataDirValue after

/-! ## The arguments of the service -/

/-- Between the agent and the data directory. -/
def switches : List Char := " --service --data-dir ".toList

theorem windowsServiceImagePath_eq (agentExe dataDir : List Char) :
    windowsServiceImagePath agentExe dataDir =
      '"' :: (agentExe ++ '"' :: (switches ++ '"' :: (dataDir ++ ['"']))) := by
  have hfixed : "\" --service --data-dir \"".toList = '"' :: (switches ++ ['"']) := by decide
  simp [windowsServiceImagePath, hfixed]

/-- The service gets its data directory exactly where that does not end in a backslash. -/
theorem argv_windowsServiceImagePath {agentExe dataDir : List Char} (hagent : '"' ∉ agentExe)
    (hdata : '"' ∉ dataDir) :
    WindowsArgs.argv (windowsServiceImagePath agentExe dataDir) =
        [agentExe, "--service".toList, "--data-dir".toList, dataDir] ↔
      dataDir.getLast? ≠ some '\\' := by
  have hswitches : switches =
      ' ' :: ("--service".toList ++ ' ' :: ("--data-dir".toList ++ [' '])) := by decide
  have hname := WindowsArgs.programName_quoted hagent
    ("--service".toList ++ ' ' :: ("--data-dir".toList ++ ' ' :: ('"' :: (dataDir ++ ['"']))))
  have himage : windowsServiceImagePath agentExe dataDir = '"' :: (agentExe ++ '"' :: ' ' ::
      ("--service".toList ++ ' ' :: ("--data-dir".toList ++ ' ' ::
        ('"' :: (dataDir ++ ['"']))))) := by
    rw [windowsServiceImagePath_eq, hswitches]
    simp only [List.cons_append, List.append_assoc, List.nil_append]
  have hargv : WindowsArgs.argv (windowsServiceImagePath agentExe dataDir) =
      agentExe :: "--service".toList :: "--data-dir".toList ::
        WindowsArgs.split ('"' :: (dataDir ++ ['"'])) := by
    rw [WindowsArgs.argv, himage, hname, WindowsArgs.split,
      WindowsArgs.splitFrom_word (by decide) (by decide),
      WindowsArgs.splitFrom_word (by decide) (by decide)]
    rfl
  rw [hargv, ← WindowsArgs.splitFrom_quoted_iff hdata false]
  simp only [List.cons.injEq, true_and]
  rfl

/-! ## What the desktop reads -/

/-- The data directory stands after an earlier marker: in quotes, as a word, or as the switches of
    the command line themselves. -/
def Names (after dataDir : List Char) : Prop :=
  (∃ t, after.dropWhile isWhitespace = '"' :: (dataDir ++ t) ∧ (t = [] ∨ t.head? = some '"')) ∨
  (∃ c t, after.dropWhile isWhitespace = dataDir ++ c :: t ∧ isWhitespace c = true ∧
    dataDir ≠ [] ∧ ∀ d ∈ dataDir, isWhitespace d = false) ∨
  (after.dropWhile isWhitespace = [] ∧ dataDir = switches)

/-- The value in quotes. -/
theorem dataDirValue_quoted {after s : List Char}
    (h : after.dropWhile isWhitespace = '"' :: s) :
    dataDirValue after = some (s.takeWhile (· != '"')) := by
  rw [dataDirValue, h]
  rfl

/-- The value without quotes. -/
theorem dataDirValue_word {after s : List Char} {c : Char}
    (h : after.dropWhile isWhitespace = c :: s) (hquote : c ≠ '"') :
    dataDirValue after = some (c :: s.takeWhile (!isWhitespace ·)) := by
  have hc : isWhitespace c = false := by
    have hnot := List.head?_dropWhile_not isWhitespace after
    rw [h] at hnot
    simpa using hnot
  have hhead : ((c :: s).head? == some '"') = false := by simpa using hquote
  have hwords : (splitWhitespace (c :: s)).head? = some (c :: s.takeWhile (!isWhitespace ·)) :=
    congrArg List.head? (words_cons hc s)
  rw [dataDirValue, h, hhead]
  exact hwords

/-- Up to a quote. -/
theorem takeWhile_quote (s t : List Char) :
    (s ++ '"' :: t).takeWhile (· != '"') = s.takeWhile (· != '"') := by
  rw [List.takeWhile_append]
  split_ifs with h
  · have hall : s.takeWhile (· != '"') = s :=
      (List.takeWhile_prefix _).eq_of_length h
    simp [hall]
  · rfl

theorem takeWhile_quote_eq_iff {s dataDir : List Char} (hdata : '"' ∉ dataDir) :
    s.takeWhile (· != '"') = dataDir ↔
      ∃ t, s = dataDir ++ t ∧ (t = [] ∨ t.head? = some '"') := by
  constructor
  · intro h
    refine ⟨s.dropWhile (· != '"'), ?_, ?_⟩
    · rw [← h, List.takeWhile_append_dropWhile]
    · have hnot := List.head?_dropWhile_not (· != '"') s
      cases hrest : s.dropWhile (· != '"') with
      | nil => exact .inl rfl
      | cons c t =>
        rw [hrest] at hnot
        exact .inr (by simpa using hnot)
  · rintro ⟨t, rfl, ht⟩
    have hall : ∀ c ∈ dataDir, (c != '"') = true := by
      intro c hc
      rw [bne_iff_ne]
      rintro rfl
      exact hdata hc
    rw [List.takeWhile_append_of_pos hall]
    rcases ht with rfl | ht
    · simp
    · obtain ⟨u, rfl⟩ := List.head?_eq_some_iff.mp ht
      simp

/-- A word is one before a quote exactly where it ends before the quote. -/
theorem takeWhile_word_eq_iff {s rest word : List Char} (hword : '"' ∉ word) :
    (s ++ '"' :: rest).takeWhile (!isWhitespace ·) = word ↔
      ∃ c t, s = word ++ c :: t ∧ isWhitespace c = true ∧ ∀ d ∈ word, isWhitespace d = false := by
  constructor
  · intro h
    rw [List.takeWhile_append] at h
    split_ifs at h with hall
    · -- then the quote is part of the word
      have hmem : '"' ∈ word := by
        rw [← h, List.takeWhile_cons_of_pos (by decide)]
        simp
      exact absurd hmem hword
    · have hrest : s.dropWhile (!isWhitespace ·) ≠ [] := by
        intro hnil
        have hsplit := List.takeWhile_append_dropWhile (p := (!isWhitespace ·)) (l := s)
        rw [hnil, List.append_nil] at hsplit
        exact hall (congrArg List.length hsplit)
      obtain ⟨c, t, ht⟩ := List.exists_cons_of_ne_nil hrest
      have hnot := List.head?_dropWhile_not (!isWhitespace ·) s
      rw [ht] at hnot
      refine ⟨c, t, ?_, by simpa using hnot, fun d hd => ?_⟩
      · rw [← h, ← ht, List.takeWhile_append_dropWhile]
      · rw [← h] at hd
        simpa using List.mem_takeWhile_imp hd
  · rintro ⟨c, t, rfl, hc, hall⟩
    have hpos : ∀ d ∈ word, (!isWhitespace d) = true := fun d hd => by simp [hall d hd]
    rw [List.append_assoc, List.takeWhile_append_of_pos hpos, List.cons_append,
      List.takeWhile_cons_of_neg (by simp [hc]), List.append_nil]

/-- What is read where the marker stands before the switches. -/
theorem dataDirValue_eq_iff {dataDir : List Char} (hdata : '"' ∉ dataDir)
    (after rest : List Char) :
    dataDirValue (after ++ '"' :: (switches ++ '"' :: rest)) = some dataDir ↔
      Names after dataDir := by
  have hswitches : switches.takeWhile (· != '"') = switches := by decide
  have hdrop : (after ++ '"' :: (switches ++ '"' :: rest)).dropWhile isWhitespace =
      if (after.dropWhile isWhitespace).isEmpty then
        ('"' :: (switches ++ '"' :: rest)).dropWhile isWhitespace
      else after.dropWhile isWhitespace ++ '"' :: (switches ++ '"' :: rest) :=
    List.dropWhile_append
  cases hafter : after.dropWhile isWhitespace with
  | nil =>
    rw [hafter] at hdrop
    rw [dataDirValue_quoted hdrop, takeWhile_quote, hswitches, Names, hafter]
    constructor
    · exact fun h => .inr (.inr ⟨rfl, (Option.some.inj h).symm⟩)
    · rintro (⟨t, h, -⟩ | ⟨c, t, h, -⟩ | ⟨-, h⟩)
      · cases h
      · simp at h
      · rw [h]
  | cons c s =>
    rw [hafter, List.isEmpty_cons, if_neg (by simp), List.cons_append] at hdrop
    have hc : isWhitespace c = false := by
      have hnot := List.head?_dropWhile_not isWhitespace after
      rw [hafter] at hnot
      simpa using hnot
    by_cases hquote : c = '"'
    · subst hquote
      rw [dataDirValue_quoted hdrop, takeWhile_quote, Option.some.injEq,
        takeWhile_quote_eq_iff hdata, Names, hafter]
      constructor
      · rintro ⟨t, rfl, ht⟩
        exact .inl ⟨t, rfl, ht⟩
      · rintro (⟨t, h, ht⟩ | ⟨c, t, h, -, hne, -⟩ | ⟨h, -⟩)
        · exact ⟨t, (List.cons.inj h).2, ht⟩
        · -- the word would begin with the quote
          obtain ⟨d, word, rfl⟩ := List.exists_cons_of_ne_nil hne
          obtain ⟨rfl, -⟩ := List.cons.inj h
          exact absurd List.mem_cons_self hdata
        · cases h
    · rw [dataDirValue_word hdrop hquote, Names, hafter, Option.some.injEq]
      constructor
      · intro h
        have hword : '"' ∉ dataDir.tail := fun hmem => hdata (List.mem_of_mem_tail hmem)
        rw [← h] at hword ⊢
        obtain ⟨d, t, ht, hd, hall⟩ := (takeWhile_word_eq_iff hword).mp rfl
        refine .inr (.inl ⟨d, t, ?_, hd, List.cons_ne_nil _ _, ?_⟩)
        · rw [List.cons_append]
          exact congrArg (c :: ·) ht
        · intro e he
          rcases List.mem_cons.mp he with rfl | he
          · exact hc
          · exact hall e he
      · rintro (⟨t, h, -⟩ | ⟨d, t, h, hd, hne, hall⟩ | ⟨h, -⟩)
        · exact absurd (List.cons.inj h).1 hquote
        · obtain ⟨e, word, rfl⟩ := List.exists_cons_of_ne_nil hne
          obtain ⟨rfl, hs⟩ := List.cons.inj h
          have hword : '"' ∉ word := fun hmem => hdata (List.mem_cons_of_mem _ hmem)
          rw [(takeWhile_word_eq_iff hword).mpr
            ⟨d, t, hs, hd, fun f hf => hall f (List.mem_cons_of_mem _ hf)⟩]
        · cases h

/-! ## Both readings -/

/-- What the desktop reads in a text with the command line. -/
theorem parseDataDirFromQc_iff {agentExe dataDir : List Char} (hdata : '"' ∉ dataDir)
    (before after : List Char) :
    parseDataDirFromQc (before ++ windowsServiceImagePath agentExe dataDir ++ after) =
        some dataDir ↔
      ¬marker <:+: before ++ '"' :: agentExe ∨ ∃ p t,
        splitAtFirst marker (before ++ '"' :: agentExe) = some (p, t) ∧ Names t dataDir := by
  have hmarker : marker ≠ [] := by decide
  have htext : before ++ windowsServiceImagePath agentExe dataDir ++ after =
      before ++ '"' :: agentExe ++ '"' :: (switches ++ '"' :: (dataDir ++ '"' :: after)) := by
    rw [windowsServiceImagePath_eq]
    simp
  rw [parseDataDirFromQc, htext]
  cases hearlier : splitAtFirst marker (before ++ '"' :: agentExe) with
  | none =>
    have hnot := (splitAtFirst_eq_none_iff hmarker).mp hearlier
    have hswitches : splitAtFirst marker switches = some (" --service ".toList, [' ']) := by decide
    rw [splitAtFirst_append_cons (by decide) hmarker hnot, splitAtFirst_append hswitches]
    have hvalue : dataDirValue (' ' :: '"' :: (dataDir ++ '"' :: after)) = some dataDir := by
      have hdrop : (' ' :: '"' :: (dataDir ++ '"' :: after)).dropWhile isWhitespace =
          '"' :: (dataDir ++ '"' :: after) := rfl
      rw [dataDirValue_quoted hdrop, takeWhile_quote,
        (takeWhile_quote_eq_iff hdata).mpr ⟨[], by simp, .inl rfl⟩]
    exact ⟨fun _ => .inl hnot, fun _ => hvalue⟩
  | some found =>
    obtain ⟨p, t⟩ := found
    have hinfix : marker <:+: before ++ '"' :: agentExe := by
      rw [← not_not (a := marker <:+: _), ← splitAtFirst_eq_none_iff hmarker, hearlier]
      simp
    rw [splitAtFirst_append hearlier, Option.bind_some, dataDirValue_eq_iff hdata]
    constructor
    · exact fun h => .inr ⟨p, t, rfl, h⟩
    · rintro (h | ⟨p', t', heq, h⟩)
      · exact absurd hinfix h
      · cases heq
        exact h

/-- The service and the desktop agree on the data directory exactly where it does not end in a
    backslash, and no marker stands before it, or the first one before itself. -/
theorem windowsServiceImagePath_iff {agentExe dataDir : List Char} (hagent : '"' ∉ agentExe)
    (hdata : '"' ∉ dataDir) (before after : List Char) :
    (WindowsArgs.argv (windowsServiceImagePath agentExe dataDir) =
        [agentExe, "--service".toList, "--data-dir".toList, dataDir] ∧
      parseDataDirFromQc (before ++ windowsServiceImagePath agentExe dataDir ++ after) =
        some dataDir) ↔
    dataDir.getLast? ≠ some '\\' ∧
      (¬marker <:+: before ++ '"' :: agentExe ∨ ∃ p t,
        splitAtFirst marker (before ++ '"' :: agentExe) = some (p, t) ∧ Names t dataDir) := by
  rw [argv_windowsServiceImagePath hagent hdata, parseDataDirFromQc_iff hdata]

theorem windowsServiceImagePath_programData :
    (WindowsArgs.argv (windowsServiceImagePath "C:\\Program Files\\easyJob\\agent.exe".toList
        "C:\\ProgramData\\easyJob data".toList) =
      ["C:\\Program Files\\easyJob\\agent.exe".toList, "--service".toList, "--data-dir".toList,
        "C:\\ProgramData\\easyJob data".toList] ∧
      parseDataDirFromQc ("        BINARY_PATH_NAME   : ".toList ++
        windowsServiceImagePath "C:\\Program Files\\easyJob\\agent.exe".toList
          "C:\\ProgramData\\easyJob data".toList ++ "\r\n        LOAD_ORDER_GROUP   : ".toList) =
        some "C:\\ProgramData\\easyJob data".toList) :=
  (windowsServiceImagePath_iff (by decide) (by decide) _ _).mpr
    ⟨by decide, .inl ((splitAtFirst_eq_none_iff (by decide)).mp (by decide +kernel))⟩

/-- A drive root escapes the closing quote, and a directory named after the switch is read. -/
theorem windowsServiceImagePath_driveRoot :
    WindowsArgs.argv (windowsServiceImagePath "C:\\easyJob\\agent.exe".toList "D:\\".toList) ≠
      ["C:\\easyJob\\agent.exe".toList, "--service".toList, "--data-dir".toList, "D:\\".toList] ∧
    parseDataDirFromQc ("        BINARY_PATH_NAME   : ".toList ++
        windowsServiceImagePath "C:\\use --data-dir\\agent.exe".toList "D:\\jobs".toList) ≠
      some "D:\\jobs".toList := by
  have hargv : WindowsArgs.argv
      (windowsServiceImagePath "C:\\easyJob\\agent.exe".toList "D:\\".toList) =
        ["C:\\easyJob\\agent.exe".toList, "--service".toList, "--data-dir".toList,
          "D:\"".toList] := by
    decide +kernel
  have hparse : parseDataDirFromQc ("        BINARY_PATH_NAME   : ".toList ++
      windowsServiceImagePath "C:\\use --data-dir\\agent.exe".toList "D:\\jobs".toList) =
        some "\\agent.exe\"".toList := by
    decide +kernel
  rw [hargv, hparse]
  decide

end EasyJob.Platform
