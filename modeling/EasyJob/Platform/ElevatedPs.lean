import EasyJob.Lib.PowerShell
import EasyJob.Lib.WindowsArgs

/-!
# The elevated PowerShell command lines

Model of `quote_ps_arg`, `elevated_ps` and the two commands that run the agent elevated
(`crates/platform/src/startup.rs` lines 63–99), on paths as texts. `run_elevated` passes the
arguments to `powershell.exe` as they are. The arguments end at the agent's call: how PowerShell
writes the command line of the agent itself is not modelled.

* `quotePsArg_token_iff`: when a quoted argument is one token with its value.
* `elevated_call`, `elevated_not_of_curly`: what the inner PowerShell is given to run.
* `windowsInstallElevated_iff`: when it runs the agent with its arguments and nothing else.
-/

namespace EasyJob.Platform

open PowerShell Words

/-! ## Building the command -/

/-- Model of `quote_ps_arg` (lines 63–65). -/
def quotePsArg (s : List Char) : List Char :=
  '\'' :: (s.flatMap fun c => if c = '\'' then ['\'', '\''] else [c]) ++ ['\'']

/-- Model of `elevated_ps` (lines 67–80): the program and its arguments. -/
def elevatedPs (script : List Char) : List Char × List (List Char) :=
  ("powershell.exe".toList,
    ["-NoProfile".toList, "-NonInteractive".toList, "-Command".toList,
      "Start-Process powershell.exe -ArgumentList ".toList ++
        quotePsArg ("-NoProfile -NonInteractive -Command ".toList ++ script) ++
        " -Verb RunAs -Wait".toList])

/-- Model of `windows_install_elevated_ps` (lines 83–90). -/
def windowsInstallElevatedPs (agentExe dataDir : List Char) : List Char × List (List Char) :=
  elevatedPs ("& ".toList ++ quotePsArg agentExe ++ " --install-service --data-dir ".toList ++
    quotePsArg dataDir)

/-- Model of `windows_uninstall_elevated_ps` (lines 93–99). -/
def windowsUninstallElevatedPs (agentExe : List Char) : List Char × List (List Char) :=
  elevatedPs ("& ".toList ++ quotePsArg agentExe ++ " --uninstall-service".toList)

/-! ## Running it -/

/-- What `powershell.exe` is given to run: what follows `-Command`, with single blanks. -/
def commandText : List (List Char) → Option (List Char)
  | noProfile :: nonInteractive :: command :: rest =>
    if noProfile = "-NoProfile".toList ∧ nonInteractive = "-NonInteractive".toList ∧
        command = "-Command".toList then
      some ([' '].intercalate rest)
    else none
  | _ => none

/-- The command line of the program that `Start-Process` starts elevated, after its name. -/
def startProcess (cmd : Command) : Option (List Char) :=
  match cmd.args with
  | [.word file, .word argumentList, .str line, .word verb, .word runAs, .word wait] =>
    if cmd.name = "Start-Process".toList ∧ file = "powershell.exe".toList ∧
        argumentList = "-ArgumentList".toList ∧ verb = "-Verb".toList ∧ runAs = "RunAs".toList ∧
        wait = "-Wait".toList then
      some line
    else none
  | _ => none

/-- What runs elevated: the outer PowerShell reads its text as one `Start-Process`, whose
    argument list is split again for the inner one. -/
def elevated (args : List (List Char)) : Option (List (List Command)) := do
  let outer ← commandText args
  match ← script outer with
  | [[cmd]] =>
    let line ← startProcess cmd
    let inner ← commandText (WindowsArgs.split line)
    script inner
  | _ => none

/-- One program runs elevated, with these arguments, and nothing else. -/
def RunsOnly (invocation : List Char × List (List Char)) (program : List Char)
    (argv : List (List Char)) : Prop :=
  invocation.1 = "powershell.exe".toList ∧ ∃ cmd, elevated invocation.2 = some [[cmd]] ∧
    cmd.name = program ∧ cmd.args.map Token.text = argv

/-- The text of a path: no control characters and no double quote. -/
def IsPathText (path : List Char) : Prop := ∀ c ∈ path, c ≠ '"' ∧ 32 ≤ c.toNat

theorem straight_of_all {s : List Char} (h : s.all (!isCurlyQuote ·) = true) :
    ∀ c ∈ s, isCurlyQuote c = false :=
  fun c hc => by simpa using List.all_eq_true.mp h c hc

/-- No typographic quote, and no two blanks in a row. -/
def Unaltered (path : List Char) : Prop :=
  (∀ c ∈ path, isCurlyQuote c = false) ∧ path.IsChain fun a b => ¬(a = ' ' ∧ b = ' ')

/-! ## Quoting -/

theorem quotePsArg_append (s rest : List Char) :
    quotePsArg s ++ rest = '\'' :: (double s ++ '\'' :: rest) := by
  simp [quotePsArg, double]

theorem countP_double {p : Char → Bool} (hp : p '\'' = false) (s : List Char) :
    (double s).countP p = s.countP p := by
  induction s with
  | nil => rfl
  | cons c s ih =>
    rw [double_cons, List.countP_append, ih, List.countP_cons]
    by_cases hc : c = '\''
    · subst hc
      simp [hp]
    · rw [if_neg hc, List.countP_singleton]
      omega

theorem countP_quotePsArg (s : List Char) :
    (quotePsArg s).countP isCurlyQuote = s.countP isCurlyQuote := by
  have hquote := quotePsArg_append s []
  rw [List.append_nil] at hquote
  rw [hquote, List.countP_cons, List.countP_append, countP_double (by decide)]
  simp [show isCurlyQuote '\'' = false by decide]

theorem mem_quotePsArg {c : Char} {s : List Char} (h : c ∈ quotePsArg s) : c = '\'' ∨ c ∈ s := by
  have hdouble : ∀ d ∈ s, c ∈ (if d = '\'' then ['\'', '\''] else [d]) → c = '\'' ∨ c ∈ s := by
    intro d hd hc
    split_ifs at hc
    · exact .inl (by simpa using hc)
    · obtain rfl := List.mem_singleton.mp hc
      exact .inr hd
  rcases List.mem_append.mp h with h | h
  · rcases List.mem_cons.mp h with rfl | h
    · exact .inl rfl
    · obtain ⟨d, hd, hc⟩ := List.mem_flatMap.mp h
      exact hdouble d hd hc
  · exact .inl (List.mem_singleton.mp h)

theorem mem_quotePsArg_of_mem {c : Char} {s : List Char} (h : c ∈ s) : c ∈ quotePsArg s := by
  refine List.mem_append_left _ (List.mem_cons_of_mem _ (List.mem_flatMap.mpr ⟨c, h, ?_⟩))
  split_ifs with hc
  · simp [hc]
  · exact List.mem_singleton_self c

theorem quotePsArg_token_of_curly {s : List Char} (hs : ∃ c ∈ s, isCurlyQuote c = true) :
    tokens (quotePsArg s) ≠ some [.str s] := by
  intro h
  rw [← List.append_nil (quotePsArg s), quotePsArg_append] at h
  have hlt := countP_tokens_string_lt hs h
  have hcount : (double s ++ ['\'']).countP isCurlyQuote = s.countP isCurlyQuote := by
    rw [List.countP_append, countP_double (by decide), List.countP_singleton]
    rfl
  rw [hcount] at hlt
  simp [Token.text] at hlt

/-- A quoted argument is one token with its value if and only if no typographic quote is in it. -/
theorem quotePsArg_token_iff (s : List Char) :
    tokens (quotePsArg s) = some [.str s] ↔ ∀ c ∈ s, isCurlyQuote c = false := by
  constructor
  · intro h c hc
    by_contra hcurly
    exact quotePsArg_token_of_curly ⟨c, hc, by simpa using hcurly⟩ h
  · intro hs
    rw [← List.append_nil (quotePsArg s), quotePsArg_append, tokens_string hs rfl, tokens_nil]
    rfl

/-! ## The outer PowerShell -/

/-- The argument list of the inner PowerShell. -/
def innerArgs (script : List Char) : List Char :=
  "-NoProfile -NonInteractive -Command ".toList ++ script

theorem commandText_outer (text : List Char) :
    commandText ["-NoProfile".toList, "-NonInteractive".toList, "-Command".toList, text] =
      some text := by
  rw [commandText, if_pos ⟨rfl, rfl, rfl⟩]
  simp

theorem commandText_elevatedPs (script : List Char) :
    commandText (elevatedPs script).2 =
      some ("Start-Process powershell.exe -ArgumentList ".toList ++
        quotePsArg (innerArgs script) ++ " -Verb RunAs -Wait".toList) :=
  commandText_outer _

theorem tokens_outer (line : List Char) :
    tokens ("Start-Process powershell.exe -ArgumentList ".toList ++ quotePsArg line ++
        " -Verb RunAs -Wait".toList) =
      (tokens ('\'' :: (double line ++ '\'' :: " -Verb RunAs -Wait".toList))).map fun ts =>
        .word "Start-Process".toList :: .word "powershell.exe".toList ::
          .word "-ArgumentList".toList :: ts := by
  have htext : "Start-Process powershell.exe -ArgumentList ".toList =
      "Start-Process".toList ++ ' ' :: ("powershell.exe".toList ++ ' ' ::
        ("-ArgumentList".toList ++ [' '])) := by decide
  rw [List.append_assoc, quotePsArg_append, htext]
  simp only [List.append_assoc, List.cons_append, List.nil_append]
  rw [tokens_word_blank (by decide) (by decide), tokens_word_blank (by decide) (by decide),
    tokens_word_blank (by decide) (by decide)]
  simp only [Option.map_map]
  rfl

theorem tokens_verb : tokens " -Verb RunAs -Wait".toList =
    some [.word "-Verb".toList, .word "RunAs".toList, .word "-Wait".toList] := by
  have htext : " -Verb RunAs -Wait".toList =
      ' ' :: ("-Verb".toList ++ ' ' :: ("RunAs".toList ++ ' ' :: ("-Wait".toList ++ []))) := by
    decide
  rw [htext, tokens_blank rfl, tokens_word_blank (by decide) (by decide),
    tokens_word_blank (by decide) (by decide),
    tokens_word (by decide) (fun c hc => List.all_eq_true.mp (by decide) c hc) rfl, tokens_nil]
  rfl

/-- Without typographic quotes the inner PowerShell gets its arguments. -/
theorem script_outer {line : List Char} (hline : ∀ c ∈ line, isCurlyQuote c = false) :
    ∃ cmd, script ("Start-Process powershell.exe -ArgumentList ".toList ++ quotePsArg line ++
        " -Verb RunAs -Wait".toList) = some [[cmd]] ∧ startProcess cmd = some line := by
  refine ⟨⟨"Start-Process".toList, [.word "powershell.exe".toList, .word "-ArgumentList".toList,
    .str line, .word "-Verb".toList, .word "RunAs".toList, .word "-Wait".toList]⟩, ?_, ?_⟩
  · have htokens : tokens ("Start-Process powershell.exe -ArgumentList ".toList ++
        quotePsArg line ++ " -Verb RunAs -Wait".toList) =
          some [.word "Start-Process".toList, .word "powershell.exe".toList,
            .word "-ArgumentList".toList, .str line, .word "-Verb".toList, .word "RunAs".toList,
            .word "-Wait".toList] := by
      rw [tokens_outer, tokens_string hline rfl, tokens_verb]
      rfl
    exact script_of_tokens htokens (by simp) (by simp) (by simp) (by rfl)
  · rfl

/-- With one, no command of the outer PowerShell holds all of them. -/
theorem script_outer_lt {line : List Char} (hline : ∃ c ∈ line, isCurlyQuote c = true)
    {pipelines : List (List Command)}
    (h : script ("Start-Process powershell.exe -ArgumentList ".toList ++ quotePsArg line ++
      " -Verb RunAs -Wait".toList) = some pipelines)
    {pipeline : List Command} (hpipeline : pipeline ∈ pipelines) {cmd : Command}
    (hcmd : cmd ∈ pipeline) {line' : List Char} (hline' : startProcess cmd = some line') :
    line'.countP isCurlyQuote < line.countP isCurlyQuote := by
  obtain ⟨ts, hts, hsub⟩ := sublist_of_script h hpipeline hcmd
  have hargs : line'.countP isCurlyQuote ≤
      (cmd.name ++ cmd.args.flatMap Token.text).countP isCurlyQuote := by
    unfold startProcess at hline'
    split at hline'
    · rename_i hargs
      split_ifs at hline'
      cases hline'
      simp only [hargs, List.flatMap_cons, List.countP_append, Token.text]
      omega
    · cases hline'
  rw [tokens_outer] at hts
  obtain ⟨ts', hts', rfl⟩ := Option.map_eq_some_iff.mp hts
  have hlt := countP_tokens_string_lt hline hts'
  have hfixed : ("Start-Process".toList.countP isCurlyQuote = 0 ∧
      "powershell.exe".toList.countP isCurlyQuote = 0 ∧
      "-ArgumentList".toList.countP isCurlyQuote = 0) ∧
      ('\'' :: " -Verb RunAs -Wait".toList).countP isCurlyQuote = 0 := by decide
  have hle := hsub.countP_le (p := isCurlyQuote)
  simp only [List.flatMap_cons, List.countP_append, Token.text, hfixed] at hle
  rw [List.countP_append, hfixed.2, countP_double (by decide)] at hlt
  rw [List.countP_append] at hargs
  omega

/-! ## The argument list, split and joined again -/

theorem double_append (s t : List Char) : double (s ++ t) = double s ++ double t :=
  List.flatMap_append

theorem collapse_double {p : Char → Bool} (hp : p '\'' = false) (pending : Bool)
    (s : List Char) : collapse p ' ' pending (double s) = double (collapse p ' ' pending s) := by
  induction s generalizing pending with
  | nil => cases pending <;> rfl
  | cons c s ih =>
    rw [double_cons]
    by_cases hc : p c = true
    · have hne : c ≠ '\'' := by
        rintro rfl
        rw [hp] at hc
        cases hc
      rw [if_neg hne, List.singleton_append, collapse_sep hc, collapse_sep hc, ih]
    · have hc' : p c = false := by simpa using hc
      rw [collapse_cons hc', double_append, ← ih]
      by_cases hquote : c = '\''
      · subst hquote
        rw [if_pos rfl, List.cons_append, List.singleton_append, collapse_cons hp,
          collapse_cons hp]
        cases pending <;> rfl
      · rw [if_neg hquote, List.singleton_append, collapse_cons hc']
        cases pending <;> simp [double, hquote]

/-- What is left of a text with a quoted argument in it. -/
theorem collapse_quotePsArg {p : Char → Bool} (hp : p '\'' = false) (before s rest : List Char) :
    collapse p ' ' false (before ++ quotePsArg s ++ rest) =
      collapse p ' ' false before ++ quotePsArg (collapse p ' ' false s) ++
        collapse p ' ' false rest := by
  rw [List.append_assoc, quotePsArg_append, collapse_append hp, collapse_append hp,
    collapse_double hp, List.append_assoc, quotePsArg_append]

theorem commandText_inner {script : List Char} (hscript : '"' ∉ script)
    (hhead : ∀ c ∈ script.head?, WindowsArgs.isBlank c = false)
    (hlast : ∀ c ∈ script.getLast?, WindowsArgs.isBlank c = false) :
    commandText (WindowsArgs.split (innerArgs script)) =
      some (collapse WindowsArgs.isBlank ' ' false script) := by
  have hfixed : "-NoProfile -NonInteractive -Command ".toList =
      "-NoProfile".toList ++ ' ' :: ("-NonInteractive".toList ++
        ' ' :: ("-Command".toList ++ [' '])) := by decide
  have htext : innerArgs script = "-NoProfile".toList ++ ' ' :: ("-NonInteractive".toList ++
      ' ' :: ("-Command".toList ++ ' ' :: script)) := by
    have happend := congrArg (· ++ script) hfixed
    simp only [List.append_assoc, List.cons_append, List.nil_append] at happend
    exact happend
  have hquote : '"' ∉ innerArgs script := by
    intro hmem
    rcases List.mem_append.mp hmem with hmem | hmem
    · exact absurd hmem (by decide)
    · exact hscript hmem
  have hword : ∀ {s : List Char}, s ≠ [] → s.all (!WindowsArgs.isBlank ·) = true →
      words WindowsArgs.isBlank s = [s] := by
    intro s hne hall
    exact words_singleton hne fun c hc => by simpa using List.all_eq_true.mp hall c hc
  rw [WindowsArgs.split_eq_words hquote, htext, words_append_sep rfl, words_append_sep rfl,
    words_append_sep rfl, hword (by decide) (by decide), hword (by decide) (by decide),
    hword (by decide) (by decide)]
  rw [(intercalate_words hlast).2 hhead]
  rfl

theorem elevated_eq {script : List Char} (hscript : '"' ∉ script)
    (hcurly : ∀ c ∈ script, isCurlyQuote c = false)
    (hhead : ∀ c ∈ script.head?, WindowsArgs.isBlank c = false)
    (hlast : ∀ c ∈ script.getLast?, WindowsArgs.isBlank c = false) :
    elevated (elevatedPs script).2 =
      PowerShell.script (collapse WindowsArgs.isBlank ' ' false script) := by
  have hline : ∀ c ∈ innerArgs script, isCurlyQuote c = false := by
    intro c hc
    rcases List.mem_append.mp hc with hc | hc
    · exact (Bool.not_eq_true _).mp fun h => absurd (List.any_eq_true.mpr ⟨c, hc, h⟩) (by decide)
    · exact hcurly c hc
  obtain ⟨cmd, hcmd, hstart⟩ := script_outer hline
  rw [elevated, commandText_elevatedPs, Option.bind_eq_bind, Option.bind_some, hcmd,
    Option.bind_eq_bind, Option.bind_some]
  simp only [hstart, Option.bind_some, commandText_inner hscript hhead hlast]

/-! ## What runs -/

theorem countP_intercalate {p : Char → Bool} {sep : Char} (hsep : p sep = false)
    (pieces : List (List Char)) :
    ([sep].intercalate pieces).countP p = pieces.flatten.countP p := by
  induction pieces with
  | nil => rfl
  | cons piece pieces ih =>
    cases pieces with
    | nil => simp
    | cons piece' pieces =>
      rw [List.intercalate_cons_cons, List.countP_append, List.countP_append, ih,
        List.countP_singleton, List.flatten_cons, List.countP_append, hsep]
      simp

/-- A typographic quote does not reach the command that runs elevated. -/
theorem elevated_not_of_curly {script : List Char} (hcurly : ∃ c ∈ script, isCurlyQuote c = true)
    {program : List Char} {argv : List (List Char)}
    (hcount : script.countP isCurlyQuote ≤ (program ++ argv.flatten).countP isCurlyQuote) :
    ¬RunsOnly (elevatedPs script) program argv := by
  rintro ⟨-, cmd, helevated, rfl, rfl⟩
  have hline : ∃ c ∈ innerArgs script, isCurlyQuote c = true := by
    obtain ⟨c, hc, hquote⟩ := hcurly
    exact ⟨c, List.mem_append_right _ hc, hquote⟩
  rw [elevated, commandText_elevatedPs, Option.bind_eq_bind, Option.bind_some] at helevated
  obtain ⟨pipelines, hpipelines, h⟩ := Option.bind_eq_some_iff.mp helevated
  split at h
  · rename_i start
    obtain ⟨line, hstart, h⟩ := Option.bind_eq_some_iff.mp h
    obtain ⟨inner, hinner, hscript⟩ := Option.bind_eq_some_iff.mp h
    -- one is lost in the outer PowerShell, and none comes back
    have hlt := script_outer_lt hline hpipelines (List.mem_singleton_self _)
      (List.mem_singleton_self _) hstart
    have hsplit := WindowsArgs.countP_split_le (p := isCurlyQuote) (by decide) (by decide) line
    have hinnerLe : inner.countP isCurlyQuote ≤
        (WindowsArgs.split line).flatten.countP isCurlyQuote := by
      unfold commandText at hinner
      split at hinner
      · rename_i hargs
        split_ifs at hinner
        cases hinner
        rw [countP_intercalate (by decide), hargs]
        simp only [List.flatten_cons, List.countP_append]
        omega
      · cases hinner
    have hscriptLe := countP_script_le isCurlyQuote hscript (List.mem_singleton_self _)
      (List.mem_singleton_self _)
    have hfixed : "-NoProfile -NonInteractive -Command ".toList.countP isCurlyQuote = 0 := by
      decide
    have hbody : (innerArgs script).countP isCurlyQuote = script.countP isCurlyQuote :=
      List.countP_append.trans (by rw [hfixed, Nat.zero_add])
    rw [← List.flatMap_def] at hcount
    omega
  · cases h

/-- The call of a quoted program with arguments. -/
theorem script_call {program rest : List Char} {ts : List Token}
    (hprogram : ∀ c ∈ program, isCurlyQuote c = false) (hne : program ≠ [])
    (hrest : isEnd rest = true) (hts : tokens rest = some ts) (hargs : ts.all Token.isArg = true) :
    script ("& ".toList ++ quotePsArg program ++ rest) = some [[⟨program, ts⟩]] := by
  have htokens : tokens ("& ".toList ++ quotePsArg program ++ rest) =
      some (.ampersand :: .str program :: ts) := by
    have htext : "& ".toList = ['&', ' '] := rfl
    rw [List.append_assoc, quotePsArg_append, htext, List.cons_append, List.cons_append,
      List.nil_append, tokens_ampersand, tokens_blank rfl, tokens_string hprogram hrest, hts]
    rfl
  have hnot : ∀ t : Token, t.isArg = false → t ∉ Token.ampersand :: .str program :: ts ∨
      t = .ampersand := by
    intro t ht
    by_contra hmem
    obtain ⟨hmem, hne'⟩ := not_or.mp hmem
    rcases List.mem_cons.mp (not_not.mp hmem) with rfl | hmem
    · exact hne' rfl
    · rcases List.mem_cons.mp hmem with rfl | hmem
      · cases ht
      · rw [List.all_eq_true.mp hargs t hmem] at ht
        cases ht
  refine script_of_tokens htokens (List.cons_ne_nil _ _) ((hnot _ rfl).resolve_right (by simp))
    ((hnot _ rfl).resolve_right (by simp)) ?_
  have hprogram' : program.isEmpty = false := by simpa using hne
  simp [command, Token.isArg, Token.text, hprogram', hargs]

/-! ## Installing -/

/-- A call whose arguments have no typographic quotes: the path of the program is what is left of
    it. -/
theorem elevated_call {agentExe tail : List Char} {ts : List Token} (hagent : IsPathText agentExe)
    (hne : agentExe ≠ []) (hcurly : ∀ c ∈ agentExe, isCurlyQuote c = false)
    (htail : ∀ c ∈ tail, c ≠ '"' ∧ isCurlyQuote c = false)
    (hlast : ∃ c, tail.getLast? = some c ∧ WindowsArgs.isBlank c = false)
    (hend : isEnd (collapse WindowsArgs.isBlank ' ' false tail) = true)
    (hts : tokens (collapse WindowsArgs.isBlank ' ' false tail) = some ts)
    (hargs : ts.all Token.isArg = true) :
    elevated (elevatedPs ("& ".toList ++ quotePsArg agentExe ++ tail)).2 =
      some [[⟨collapse WindowsArgs.isBlank ' ' false agentExe, ts⟩]] := by
  have hamp : "& ".toList = ['&', ' '] := rfl
  have hchars : ∀ c ∈ "& ".toList ++ quotePsArg agentExe ++ tail,
      c ≠ '"' ∧ isCurlyQuote c = false := by
    intro c hc
    rcases List.mem_append.mp hc with hc | hc
    · rcases List.mem_append.mp hc with hc | hc
      · rw [hamp] at hc
        rcases List.mem_pair.mp hc with rfl | rfl <;> decide
      · rcases mem_quotePsArg hc with rfl | hc
        · decide
        · exact ⟨(hagent c hc).1, hcurly c hc⟩
    · exact htail c hc
  have hcollapse : collapse WindowsArgs.isBlank ' ' false
      ("& ".toList ++ quotePsArg agentExe ++ tail) =
        "& ".toList ++ quotePsArg (collapse WindowsArgs.isBlank ' ' false agentExe) ++
          collapse WindowsArgs.isBlank ' ' false tail := by
    rw [collapse_quotePsArg rfl]
    rfl
  rw [elevated_eq (fun h => (hchars _ h).1 rfl) (fun c hc => (hchars c hc).2), hcollapse,
    script_call _ (collapse_ne_nil hne) hend hts hargs]
  · intro c hc
    rcases mem_collapse hc with rfl | hc
    · decide
    · exact hcurly c hc
  · rintro c ⟨⟩
    rfl
  · obtain ⟨c, hc, hblank⟩ := hlast
    rw [List.getLast?_append, hc]
    rintro c ⟨⟩
    exact hblank

theorem collapse_eq_self_iff_path {path : List Char} (hpath : IsPathText path) :
    collapse WindowsArgs.isBlank ' ' false path = path ↔
      path.IsChain fun a b => ¬(a = ' ' ∧ b = ' ') := by
  refine (collapse_eq_self_iff rfl fun c hc hblank => ?_).1
  rcases Bool.or_eq_true_iff.mp hblank with h | h
  · exact eq_of_beq h
  · obtain rfl := eq_of_beq h
    exact absurd (hpath _ hc).2 (by decide)

/-- With a typographic quote in a path nothing runs as it should. -/
theorem windowsInstallElevated_not_of_curly {agentExe dataDir : List Char}
    (hcurly : ∃ c ∈ agentExe ++ dataDir, isCurlyQuote c = true) :
    ¬RunsOnly (windowsInstallElevatedPs agentExe dataDir) agentExe
      ["--install-service".toList, "--data-dir".toList, dataDir] := by
  have hamp : "& ".toList.countP isCurlyQuote = 0 := by decide
  have hargs : " --install-service --data-dir ".toList.countP isCurlyQuote = 0 := by decide
  refine elevated_not_of_curly ?_ ?_
  · obtain ⟨c, hc, hquote⟩ := hcurly
    refine ⟨c, ?_, hquote⟩
    rcases List.mem_append.mp hc with hc | hc
    · exact List.mem_append_left _ (List.mem_append_left _
        (List.mem_append_right _ (mem_quotePsArg_of_mem hc)))
    · exact List.mem_append_right _ (mem_quotePsArg_of_mem hc)
  · simp only [List.countP_append, countP_quotePsArg, hamp, hargs, List.flatten_cons,
      List.flatten_nil, List.countP_nil]
    omega

theorem windowsInstallElevated_of_straight {agentExe dataDir : List Char}
    (hagent : IsPathText agentExe) (hne : agentExe ≠ []) (hdata : IsPathText dataDir)
    (hcurlyAgent : ∀ c ∈ agentExe, isCurlyQuote c = false)
    (hcurlyData : ∀ c ∈ dataDir, isCurlyQuote c = false) :
    elevated (windowsInstallElevatedPs agentExe dataDir).2 =
      some [[⟨collapse WindowsArgs.isBlank ' ' false agentExe,
        [.word "--install-service".toList, .word "--data-dir".toList,
          .str (collapse WindowsArgs.isBlank ' ' false dataDir)]⟩]] := by
  have htext : " --install-service --data-dir ".toList =
      ' ' :: ("--install-service".toList ++ ' ' :: ("--data-dir".toList ++ [' '])) := by decide
  have hcollapse : collapse WindowsArgs.isBlank ' ' false
      (" --install-service --data-dir ".toList ++ quotePsArg dataDir) =
        " --install-service --data-dir ".toList ++
          quotePsArg (collapse WindowsArgs.isBlank ' ' false dataDir) := by
    have hquote := collapse_quotePsArg (p := WindowsArgs.isBlank) rfl
      " --install-service --data-dir ".toList dataDir []
    have hfixed : collapse WindowsArgs.isBlank ' ' false " --install-service --data-dir ".toList =
        " --install-service --data-dir ".toList := by decide
    rw [hfixed, List.append_nil] at hquote
    exact hquote.trans (List.append_nil _)
  have htokens : tokens (" --install-service --data-dir ".toList ++
      quotePsArg (collapse WindowsArgs.isBlank ' ' false dataDir)) =
        some [.word "--install-service".toList, .word "--data-dir".toList,
          .str (collapse WindowsArgs.isBlank ' ' false dataDir)] := by
    have hstring := (quotePsArg_token_iff (collapse WindowsArgs.isBlank ' ' false dataDir)).mpr
      fun c hc => by
        rcases mem_collapse hc with rfl | hc
        · decide
        · exact hcurlyData c hc
    rw [htext]
    simp only [List.append_assoc, List.cons_append, List.nil_append]
    rw [tokens_blank rfl, tokens_word_blank (by decide) (by decide),
      tokens_word_blank (by decide) (by decide), hstring]
    rfl
  rw [windowsInstallElevatedPs, List.append_assoc]
  refine elevated_call hagent hne hcurlyAgent ?_ ⟨'\'', ?_, rfl⟩ ?_ ?_ rfl
  · intro c hc
    rcases List.mem_append.mp hc with hc | hc
    · have hall : " --install-service --data-dir ".toList.all
          (fun c => c != '"' && !isCurlyQuote c) = true := by decide
      simpa using List.all_eq_true.mp hall c hc
    · rcases mem_quotePsArg hc with rfl | hc
      · decide
      · exact ⟨(hdata c hc).1, hcurlyData c hc⟩
  · rw [List.getLast?_append, quotePsArg, List.getLast?_append]
    rfl
  · rw [hcollapse]
    rfl
  · rw [hcollapse, htokens]

/-- The agent runs elevated with its arguments, and nothing else does, if and only if neither path
    has a typographic single quote or two blanks in a row: `quote_ps_arg` doubles U+0027 only, and
    the text of the inner PowerShell is put together again with single blanks. -/
theorem windowsInstallElevated_iff {agentExe dataDir : List Char} (hagent : IsPathText agentExe)
    (hne : agentExe ≠ []) (hdata : IsPathText dataDir) :
    (RunsOnly (windowsInstallElevatedPs agentExe dataDir) agentExe
        ["--install-service".toList, "--data-dir".toList, dataDir] ↔
      Unaltered agentExe ∧ Unaltered dataDir) ∧
    ∀ s, tokens (quotePsArg s) = some [.str s] ↔ ∀ c ∈ s, isCurlyQuote c = false := by
  refine ⟨?_, quotePsArg_token_iff⟩
  by_cases hcurly : ∃ c ∈ agentExe ++ dataDir, isCurlyQuote c = true
  · refine iff_of_false (windowsInstallElevated_not_of_curly hcurly) ?_
    rintro ⟨hagent', hdata'⟩
    obtain ⟨c, hc, hquote⟩ := hcurly
    rcases List.mem_append.mp hc with hc | hc
    · rw [hagent'.1 c hc] at hquote
      cases hquote
    · rw [hdata'.1 c hc] at hquote
      cases hquote
  · have hstraight : ∀ c ∈ agentExe ++ dataDir, isCurlyQuote c = false := by
      intro c hc
      by_contra hquote
      exact hcurly ⟨c, hc, by simpa using hquote⟩
    have hcurlyAgent : ∀ c ∈ agentExe, isCurlyQuote c = false :=
      fun c hc => hstraight c (List.mem_append_left _ hc)
    have hcurlyData : ∀ c ∈ dataDir, isCurlyQuote c = false :=
      fun c hc => hstraight c (List.mem_append_right _ hc)
    have helevated := windowsInstallElevated_of_straight hagent hne hdata hcurlyAgent hcurlyData
    have hruns : RunsOnly (windowsInstallElevatedPs agentExe dataDir) agentExe
          ["--install-service".toList, "--data-dir".toList, dataDir] ↔
        collapse WindowsArgs.isBlank ' ' false agentExe = agentExe ∧
          collapse WindowsArgs.isBlank ' ' false dataDir = dataDir := by
      constructor
      · rintro ⟨-, cmd, hcmd, hname, hargs⟩
        rw [helevated] at hcmd
        cases hcmd
        refine ⟨hname, ?_⟩
        simpa [Token.text] using hargs
      · rintro ⟨hcollapseAgent, hcollapseData⟩
        exact ⟨rfl, _, helevated, hcollapseAgent, by simp [Token.text, hcollapseData]⟩
    rw [hruns, collapse_eq_self_iff_path hagent, collapse_eq_self_iff_path hdata]
    exact ⟨fun h => ⟨⟨hcurlyAgent, h.1⟩, hcurlyData, h.2⟩, fun h => ⟨h.1.2, h.2.2⟩⟩

theorem windowsInstallElevated_programData :
    RunsOnly (windowsInstallElevatedPs "C:\\Program Files\\easyJob\\agent.exe".toList
      "C:\\ProgramData\\O'Brien; $x".toList) "C:\\Program Files\\easyJob\\agent.exe".toList
        ["--install-service".toList, "--data-dir".toList,
          "C:\\ProgramData\\O'Brien; $x".toList] :=
  (windowsInstallElevated_iff (by simp [IsPathText]) (by simp) (by simp [IsPathText])).1.mpr
    ⟨⟨straight_of_all (by decide), by decide⟩, ⟨straight_of_all (by decide), by decide⟩⟩

/-- A typographic apostrophe is lost, so is one of two blanks, and what follows a doubled
    quotation mark runs as a command. -/
theorem windowsInstallElevated_apostrophe :
    ¬RunsOnly (windowsInstallElevatedPs "C:\\easyJob\\agent.exe".toList "D:\\O’Brien".toList)
      "C:\\easyJob\\agent.exe".toList
        ["--install-service".toList, "--data-dir".toList, "D:\\O’Brien".toList] ∧
    elevated (windowsInstallElevatedPs "C:\\easyJob\\agent.exe".toList "D:\\a  b".toList).2 =
      some [[⟨"C:\\easyJob\\agent.exe".toList, [.word "--install-service".toList,
        .word "--data-dir".toList, .str "D:\\a b".toList]⟩]] ∧
    elevated (windowsInstallElevatedPs "C:\\easyJob\\agent.exe".toList
        "D:\\a‘‘; calc; & ‘‘b".toList).2 =
      some [[⟨"C:\\easyJob\\agent.exe".toList, [.word "--install-service".toList,
        .word "--data-dir".toList, .str "D:\\a".toList]⟩], [⟨"calc".toList, []⟩],
        [⟨"b".toList, []⟩]] ∧
    tokens (quotePsArg "O’Brien".toList) ≠ some [.str "O’Brien".toList] := by
  refine ⟨windowsInstallElevated_not_of_curly ⟨'’', by decide, by decide⟩, ?_, by decide +kernel,
    quotePsArg_token_of_curly ⟨'’', by decide, by decide⟩⟩
  exact windowsInstallElevated_of_straight (by simp [IsPathText]) (by simp) (by simp [IsPathText])
    (straight_of_all (by decide)) (straight_of_all (by decide))

/-! ## Uninstalling -/

/-- The same of the agent that removes the service. -/
theorem windowsUninstallElevated_iff {agentExe : List Char} (hagent : IsPathText agentExe)
    (hne : agentExe ≠ []) :
    RunsOnly (windowsUninstallElevatedPs agentExe) agentExe ["--uninstall-service".toList] ↔
      Unaltered agentExe := by
  have hfixed : collapse WindowsArgs.isBlank ' ' false " --uninstall-service".toList =
      ' ' :: ("--uninstall-service".toList ++ []) := by decide
  by_cases hcurly : ∃ c ∈ agentExe, isCurlyQuote c = true
  · obtain ⟨c, hc, hquote⟩ := hcurly
    refine iff_of_false (elevated_not_of_curly ⟨c, List.mem_append_left _
      (List.mem_append_right _ (mem_quotePsArg_of_mem hc)), hquote⟩ ?_) ?_
    · have hamp : "& ".toList.countP isCurlyQuote = 0 := by decide
      have hargs : " --uninstall-service".toList.countP isCurlyQuote = 0 := by decide
      simp only [List.countP_append, countP_quotePsArg, hamp, hargs]
      omega
    · rintro ⟨hstraight, -⟩
      rw [hstraight c hc] at hquote
      cases hquote
  · have hstraight : ∀ c ∈ agentExe, isCurlyQuote c = false := by
      intro c hc
      by_contra hquote
      exact hcurly ⟨c, hc, by simpa using hquote⟩
    have helevated : elevated (windowsUninstallElevatedPs agentExe).2 =
        some [[⟨collapse WindowsArgs.isBlank ' ' false agentExe,
          [.word "--uninstall-service".toList]⟩]] := by
      refine elevated_call hagent hne hstraight ?_ ⟨'e', rfl, rfl⟩ ?_ ?_ rfl
      · intro c hc
        have hall : " --uninstall-service".toList.all
            (fun c => c != '"' && !isCurlyQuote c) = true := by decide
        simpa using List.all_eq_true.mp hall c hc
      · rw [hfixed]
        rfl
      · rw [hfixed, tokens_blank rfl, tokens_word (by decide)
          (fun c hc => List.all_eq_true.mp (by decide) c hc) rfl, tokens_nil]
        rfl
    rw [Unaltered, and_iff_right hstraight, ← collapse_eq_self_iff_path hagent]
    refine ⟨?_, fun hcollapse => ⟨rfl, _, helevated, hcollapse, rfl⟩⟩
    rintro ⟨-, cmd, hcmd, hname, -⟩
    rw [helevated] at hcmd
    cases hcmd
    exact hname

end EasyJob.Platform
