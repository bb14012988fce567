import EasyJob.Lib.PosixShell
import EasyJob.Scheduler.Evaluator
import Mathlib.Data.List.DropRight

/-!
# The scripts run as administrator

Model of `macos_install_script`, `macos_prepare_data_dir_script`, `macos_uninstall_script` and
`sh_single_quote` (`crates/platform/src/startup.rs` lines 188–244), on texts. `run_macos_admin`
passes them to `/bin/sh` as they are.

* `readLine_shSingleQuote`: a quoted text is part of a word with its value.
* `statements_install`, `statements_uninstall`: the scripts, statement by statement.
* `macosScripts_perform`: what the shell does with them.
-/

namespace EasyJob.Platform

open PosixShell
open EasyJob.Scheduler (isWhitespace)

/-! ## Building the scripts -/

/-- `str::trim_end` -/
def trimEnd (s : List Char) : List Char := s.rdropWhile isWhitespace

/-- Model of `sh_single_quote` (lines 242–244). -/
def shSingleQuote (s : List Char) : List Char :=
  '\'' :: (s.flatMap fun c => if c = '\'' then "'\"'\"'".toList else [c]) ++ ['\'']

/-- Model of `macos_prepare_data_dir_script` (lines 215–228). -/
def macosPrepareDataDirScript (dataDir : List Char) : List Char :=
  ["DATA_DIR=".toList, shSingleQuote dataDir, "\n".toList,
    "mkdir -p \"$DATA_DIR/logs\"\n".toList,
    "chown -R root:staff \"$DATA_DIR\"\n".toList,
    "chmod 775 \"$DATA_DIR\" \"$DATA_DIR/logs\"\n".toList,
    "chmod -R g+rwX \"$DATA_DIR\"\n".toList].flatten

/-- Model of `macos_install_script` (lines 192–212). -/
def macosInstallScript (plistPath plistContent dataDir : List Char) : List Char :=
  ["set -e\n".toList,
    trimEnd (macosPrepareDataDirScript dataDir), "\n".toList,
    "PLIST_PATH=".toList, shSingleQuote plistPath, "\n".toList,
    "mkdir -p /Library/LaunchDaemons\n".toList,
    "cat > \"$PLIST_PATH\" <<'EASYJOB_PLIST_EOF'\n".toList,
    trimEnd plistContent, "\n".toList,
    "EASYJOB_PLIST_EOF\n".toList,
    "chown root:wheel \"$PLIST_PATH\"\n".toList,
    "chmod 644 \"$PLIST_PATH\"\n".toList,
    "/bin/launchctl bootout system \"$PLIST_PATH\" 2>/dev/null || true\n".toList,
    "/bin/launchctl bootstrap system \"$PLIST_PATH\"\n".toList].flatten

/-- Model of `macos_uninstall_script` (lines 230–240). -/
def macosUninstallScript (plistPath : List Char) : List Char :=
  ["set -e\n".toList,
    "PLIST_PATH=".toList, shSingleQuote plistPath, "\n".toList,
    "/bin/launchctl bootout system \"$PLIST_PATH\" 2>/dev/null || true\n".toList,
    "rm -f \"$PLIST_PATH\"\n".toList].flatten

/-! ## What they should do -/

/-- A command without redirections. -/
def call (program : String) (args : List (List Char)) : Action :=
  .run (program.toList :: args) [] none

def prepareActions (dataDir : List Char) : List (List Action) :=
  [[.assign "DATA_DIR".toList dataDir],
    [call "mkdir" ["-p".toList, dataDir ++ "/logs".toList]],
    [call "chown" ["-R".toList, "root:staff".toList, dataDir]],
    [call "chmod" ["775".toList, dataDir, dataDir ++ "/logs".toList]],
    [call "chmod" ["-R".toList, "g+rwX".toList, dataDir]]]

/-- `launchctl bootout`, whose failure is ignored. -/
def bootoutActions (plistPath : List Char) : List Action :=
  [.run ["/bin/launchctl".toList, "bootout".toList, "system".toList, plistPath]
    [(2, "/dev/null".toList)] none, call "true" []]

/-- The plist content is written with one newline in the place of its trailing white space. -/
def installActions (plistPath plistContent dataDir : List Char) : List (List Action) :=
  [.errexit] :: prepareActions dataDir ++
    [[.assign "PLIST_PATH".toList plistPath],
      [call "mkdir" ["-p".toList, "/Library/LaunchDaemons".toList]],
      [.run ["cat".toList] [(1, plistPath)] (some (trimEnd plistContent ++ ['\n']))],
      [call "chown" ["root:wheel".toList, plistPath]],
      [call "chmod" ["644".toList, plistPath]],
      bootoutActions plistPath,
      [call "/bin/launchctl" ["bootstrap".toList, "system".toList, plistPath]]]

def uninstallActions (plistPath : List Char) : List (List Action) :=
  [[.errexit], [.assign "PLIST_PATH".toList plistPath], bootoutActions plistPath,
    [call "rm" ["-f".toList, plistPath]]]

/-! ## Quoting -/

/-- A quoted text is part of a word with its value. -/
theorem readLine_shSingleQuote (s : List Char) (w : Word) (ts : List Token) (rest : List Char) :
    readLine (.unquoted w) ts (shSingleQuote s ++ rest) =
      readLine (.unquoted (w ++ s.map Piece.quoted)) ts rest := by
  have hopen : ∀ t, readLine (.unquoted w) ts ('\'' :: t) = readLine (.single w) ts t := by
    intro t
    have hsteps : steps (.unquoted w) ts ['\''] = some (.single w, ts ++ []) := rfl
    rw [List.append_nil] at hsteps
    exact readLine_steps (by decide) hsteps t
  have hbody : ∀ w : Word, readLine (.single w) ts
      ((s.flatMap fun c => if c = '\'' then "'\"'\"'".toList else [c]) ++ '\'' :: rest) =
        readLine (.unquoted (w ++ s.map Piece.quoted)) ts rest := by
    induction s with
    | nil =>
      intro w
      have hsteps : steps (.single w) ts ['\''] = some (.unquoted w, ts ++ []) := rfl
      rw [List.append_nil] at hsteps
      show readLine (.single w) ts ('\'' :: rest) = readLine (.unquoted (w ++ [])) ts rest
      rw [List.append_nil]
      exact readLine_steps (by decide) hsteps rest
    | cons c s ih =>
      intro w
      rw [List.flatMap_cons, List.append_assoc]
      by_cases hc : c = '\''
      · -- the quotes are closed, the quote stands in double quotes, and they are opened again
        subst hc
        have hsteps : steps (.single w) ts "'\"'\"'".toList =
            some (.single (w ++ [.quoted '\'']), ts ++ [] ++ [] ++ [] ++ [] ++ []) := rfl
        simp only [List.append_nil] at hsteps
        rw [if_pos rfl, readLine_steps (by decide) hsteps, ih]
        simp
      · rw [if_neg hc, List.singleton_append, readLine_single_cons hc, ih]
        simp
  have happend : shSingleQuote s ++ rest = '\'' ::
      ((s.flatMap fun c => if c = '\'' then "'\"'\"'".toList else [c]) ++ '\'' :: rest) :=
    List.append_assoc _ _ _
  rw [happend, hopen, hbody]

/-- At the start of a word it is all of it so far. -/
theorem readLine_between_shSingleQuote (s : List Char) (ts : List Token) (rest : List Char) :
    readLine .between ts (shSingleQuote s ++ rest) =
      readLine (.unquoted (s.map Piece.quoted)) ts rest := by
  have hbetween : ∀ t, readLine .between ts ('\'' :: t) = readLine (.single []) (ts ++ []) t :=
    readLine_steps (by decide) (rfl : steps .between ts ['\''] = some (.single [], ts ++ []))
  have hunquoted : ∀ t, readLine (.unquoted []) ts ('\'' :: t) =
      readLine (.single []) (ts ++ []) t :=
    readLine_steps (by decide) (rfl : steps (.unquoted []) ts ['\''] = some (.single [], ts ++ []))
  have hquote := readLine_shSingleQuote s [] ts rest
  rw [List.nil_append] at hquote
  rw [← hquote]
  exact (hbetween _).trans (hunquoted _).symm

/-! ## The lines -/

section Lines

variable (env : Env) (rest : List Char)

def plain (s : String) : Word := s.toList.map .plain

/-- A parameter in double quotes, with what follows it there. -/
def parameter (name suffix : String) : Word := .parameter name.toList :: suffix.toList.map .quoted

@[simp] theorem expand_plainWord (s : String) : expand env (plain s) = s.toList :=
  expand_plain env s.toList

@[simp] theorem expand_parameterWord (name suffix : String) :
    expand env (parameter name suffix) = env name.toList ++ suffix.toList := by
  rw [parameter, expand_parameter, expand_quoted]

/-- A line of words, without its newline and with it. -/
theorem statement_words {line : String} {text : List Char}
    (htext : text = line.toList ++ ['\n']) (hline : '\n' ∉ line.toList) {w : Word}
    {ws : List Word} (h : parseLine line.toList = some [⟨[], w :: ws, [], []⟩]) :
    statement env (text ++ rest) = some ([.run ((w :: ws).map (expand env)) [] none], rest) := by
  rw [htext, List.append_assoc]
  exact statement_line hline h rfl rfl rest

theorem statement_setE : statement env ("set -e\n".toList ++ rest) = some ([.errexit], rest) := by
  have hparse : parseLine "set -e".toList = some [⟨[], [plain "set", plain "-e"], [], []⟩] := by rfl
  refine (statement_words env rest (by decide) (by decide) hparse).trans ?_
  simp only [List.map_cons, List.map_nil, expand_plainWord]
  rfl

theorem statement_mkdirLogs :
    statement env ("mkdir -p \"$DATA_DIR/logs\"\n".toList ++ rest) =
      some ([call "mkdir" ["-p".toList, env "DATA_DIR".toList ++ "/logs".toList]], rest) := by
  have hparse : parseLine "mkdir -p \"$DATA_DIR/logs\"".toList =
      some [⟨[], [plain "mkdir", plain "-p", parameter "DATA_DIR" "/logs"], [], []⟩] := by rfl
  refine (statement_words env rest (by decide) (by decide) hparse).trans ?_
  simp [call]

theorem statement_chownDataDir :
    statement env ("chown -R root:staff \"$DATA_DIR\"\n".toList ++ rest) =
      some ([call "chown" ["-R".toList, "root:staff".toList, env "DATA_DIR".toList]], rest) := by
  have hparse : parseLine "chown -R root:staff \"$DATA_DIR\"".toList =
      some [⟨[], [plain "chown", plain "-R", plain "root:staff", parameter "DATA_DIR" ""],
        [], []⟩] := by rfl
  refine (statement_words env rest (by decide) (by decide) hparse).trans ?_
  simp [call]

theorem statement_chmodDataDir :
    statement env ("chmod 775 \"$DATA_DIR\" \"$DATA_DIR/logs\"\n".toList ++ rest) =
      some ([call "chmod" ["775".toList, env "DATA_DIR".toList,
        env "DATA_DIR".toList ++ "/logs".toList]], rest) := by
  have hparse : parseLine "chmod 775 \"$DATA_DIR\" \"$DATA_DIR/logs\"".toList =
      some [⟨[], [plain "chmod", plain "775", parameter "DATA_DIR" "",
        parameter "DATA_DIR" "/logs"], [], []⟩] := by rfl
  refine (statement_words env rest (by decide) (by decide) hparse).trans ?_
  simp [call]

theorem statement_chmodGroup :
    statement env ("chmod -R g+rwX \"$DATA_DIR\"\n".toList ++ rest) =
      some ([call "chmod" ["-R".toList, "g+rwX".toList, env "DATA_DIR".toList]], rest) := by
  have hparse : parseLine "chmod -R g+rwX \"$DATA_DIR\"".toList =
      some [⟨[], [plain "chmod", plain "-R", plain "g+rwX", parameter "DATA_DIR" ""], [], []⟩] := by
    rfl
  refine (statement_words env rest (by decide) (by decide) hparse).trans ?_
  simp [call]

theorem statement_mkdirDaemons :
    statement env ("mkdir -p /Library/LaunchDaemons\n".toList ++ rest) =
      some ([call "mkdir" ["-p".toList, "/Library/LaunchDaemons".toList]], rest) := by
  have hparse : parseLine "mkdir -p /Library/LaunchDaemons".toList =
      some [⟨[], [plain "mkdir", plain "-p", plain "/Library/LaunchDaemons"], [], []⟩] := by rfl
  refine (statement_words env rest (by decide) (by decide) hparse).trans ?_
  simp [call]

theorem statement_chownPlist :
    statement env ("chown root:wheel \"$PLIST_PATH\"\n".toList ++ rest) =
      some ([call "chown" ["root:wheel".toList, env "PLIST_PATH".toList]], rest) := by
  have hparse : parseLine "chown root:wheel \"$PLIST_PATH\"".toList =
      some [⟨[], [plain "chown", plain "root:wheel", parameter "PLIST_PATH" ""], [], []⟩] := by rfl
  refine (statement_words env rest (by decide) (by decide) hparse).trans ?_
  simp [call]

theorem statement_chmodPlist :
    statement env ("chmod 644 \"$PLIST_PATH\"\n".toList ++ rest) =
      some ([call "chmod" ["644".toList, env "PLIST_PATH".toList]], rest) := by
  have hparse : parseLine "chmod 644 \"$PLIST_PATH\"".toList =
      some [⟨[], [plain "chmod", plain "644", parameter "PLIST_PATH" ""], [], []⟩] := by rfl
  refine (statement_words env rest (by decide) (by decide) hparse).trans ?_
  simp [call]

theorem statement_bootstrap :
    statement env ("/bin/launchctl bootstrap system \"$PLIST_PATH\"\n".toList ++ rest) =
      some ([call "/bin/launchctl" ["bootstrap".toList, "system".toList,
        env "PLIST_PATH".toList]], rest) := by
  have hparse : parseLine "/bin/launchctl bootstrap system \"$PLIST_PATH\"".toList =
      some [⟨[], [plain "/bin/launchctl", plain "bootstrap", plain "system",
        parameter "PLIST_PATH" ""], [], []⟩] := by rfl
  refine (statement_words env rest (by decide) (by decide) hparse).trans ?_
  simp [call]

theorem statement_rm :
    statement env ("rm -f \"$PLIST_PATH\"\n".toList ++ rest) =
      some ([call "rm" ["-f".toList, env "PLIST_PATH".toList]], rest) := by
  have hparse : parseLine "rm -f \"$PLIST_PATH\"".toList =
      some [⟨[], [plain "rm", plain "-f", parameter "PLIST_PATH" ""], [], []⟩] := by rfl
  refine (statement_words env rest (by decide) (by decide) hparse).trans ?_
  simp [call]

/-- A line that assigns a quoted text. -/
theorem statement_assign {before : List Char} {w : Word} {name : List Char}
    (hbefore : '\n' ∉ before) (h : steps .between [] before = some (.unquoted w, []))
    (hname : ∀ value, assignment (w ++ value) = some (name, value)) (s : List Char) :
    statement env (before ++ (shSingleQuote s ++ ('\n' :: rest))) =
      some ([.assign name s], rest) := by
  have hread : readLine .between [] (before ++ (shSingleQuote s ++ '\n' :: rest)) =
      some ([.word (w ++ s.map .quoted)], rest) := by
    rw [readLine_steps hbefore h, readLine_shSingleQuote, readLine_newline rfl]
    rfl
  have hcommand : command false [.word (w ++ s.map .quoted)] =
      some ⟨[(name, s.map .quoted)], [], [], []⟩ := by
    simp [command, hname]
  have hsplit : [Token.word (w ++ s.map .quoted)].splitOn .orElse =
      [[.word (w ++ s.map .quoted)]] := List.splitOn_eq_singleton (by simp)
  simp [statement, hread, hsplit, hcommand, Command.action]

theorem statement_dataDir (s : List Char) :
    statement env ("DATA_DIR=".toList ++ (shSingleQuote s ++ ("\n".toList ++ rest))) =
      some ([.assign "DATA_DIR".toList s], rest) :=
  statement_assign env rest (w := plain "DATA_DIR=") (by decide) (by rfl) (fun _ => rfl) s

theorem statement_plistPath (s : List Char) :
    statement env ("PLIST_PATH=".toList ++ (shSingleQuote s ++ ("\n".toList ++ rest))) =
      some ([.assign "PLIST_PATH".toList s], rest) :=
  statement_assign env rest (w := plain "PLIST_PATH=") (by decide) (by rfl) (fun _ => rfl) s

/-- `launchctl bootout`, or `true`. -/
theorem statement_bootout :
    statement env
        ("/bin/launchctl bootout system \"$PLIST_PATH\" 2>/dev/null || true\n".toList ++ rest) =
      some (bootoutActions (env "PLIST_PATH".toList), rest) := by
  have htext : "/bin/launchctl bootout system \"$PLIST_PATH\" 2>/dev/null || true\n".toList =
      "/bin/launchctl bootout system \"$PLIST_PATH\" 2>/dev/null || true".toList ++ ['\n'] := by
    decide
  have hparse :
      parseLine "/bin/launchctl bootout system \"$PLIST_PATH\" 2>/dev/null || true".toList =
        some [⟨[], [plain "/bin/launchctl", plain "bootout", plain "system",
          parameter "PLIST_PATH" ""], [(2, plain "/dev/null")], []⟩,
            ⟨[], [plain "true"], [], []⟩] := by rfl
  rw [htext, List.append_assoc]
  refine (statement_line (by decide) hparse rfl rfl rest).trans ?_
  simp only [List.map_cons, List.map_nil, expand_plainWord, expand_parameterWord]
  simp
  rfl

/-- The here-document with the plist. -/
theorem statement_cat {content : List Char}
    (hcontent : "EASYJOB_PLIST_EOF".toList ∉ content.splitOn '\n') :
    statement env ("cat > \"$PLIST_PATH\" <<'EASYJOB_PLIST_EOF'\n".toList ++
        (content ++ ("\n".toList ++ ("EASYJOB_PLIST_EOF\n".toList ++ rest)))) =
      some ([.run ["cat".toList] [(1, env "PLIST_PATH".toList)] (some (content ++ ['\n']))],
        rest) := by
  have htext : "cat > \"$PLIST_PATH\" <<'EASYJOB_PLIST_EOF'\n".toList =
      "cat > \"$PLIST_PATH\" <<'EASYJOB_PLIST_EOF'".toList ++ ['\n'] := by decide
  have hparse : parseLine "cat > \"$PLIST_PATH\" <<'EASYJOB_PLIST_EOF'".toList =
      some [⟨[], [plain "cat"], [(1, parameter "PLIST_PATH" "")],
        ["EASYJOB_PLIST_EOF".toList.map .quoted]⟩] := by rfl
  have hdelim : "EASYJOB_PLIST_EOF\n".toList = "EASYJOB_PLIST_EOF".toList ++ ['\n'] := by decide
  have hbody : hereDoc "EASYJOB_PLIST_EOF".toList []
      (content ++ ("\n".toList ++ ("EASYJOB_PLIST_EOF\n".toList ++ rest))) =
        some (content ++ ['\n'], rest) := by
    rw [hdelim, List.append_assoc]
    exact hereDoc_lines (by decide) hcontent rest
  rw [htext, List.append_assoc]
  refine (statement_hereDoc (by decide) hparse rfl rfl hbody rfl).trans ?_
  simp

end Lines

/-! ## The scripts -/

theorem statements_prepare (env : Env) (dataDir rest : List Char) :
    statements env (macosPrepareDataDirScript dataDir ++ rest) =
      (statements (env.set "DATA_DIR".toList dataDir) rest).map (prepareActions dataDir ++ ·) := by
  have hdir : env.set "DATA_DIR".toList dataDir "DATA_DIR".toList = dataDir := if_pos rfl
  delta macosPrepareDataDirScript
  simp only [List.flatten_cons, List.flatten_nil, List.append_nil, List.append_assoc]
  rw [statements_of_statement (statement_dataDir env _ dataDir) rfl,
    statements_of_statement (statement_mkdirLogs _ _) rfl,
    statements_of_statement (statement_chownDataDir _ _) rfl,
    statements_of_statement (statement_chmodDataDir _ _) rfl,
    statements_of_statement (statement_chmodGroup _ _) rfl, hdir]
  simp only [Option.map_map]
  rfl

theorem trimEnd_prepare (dataDir : List Char) :
    trimEnd (macosPrepareDataDirScript dataDir) ++ "\n".toList =
      macosPrepareDataDirScript dataDir := by
  have hlast : "chmod -R g+rwX \"$DATA_DIR\"\n".toList =
      "chmod -R g+rwX \"$DATA_DIR".toList ++ ['"'] ++ ['\n'] := by decide
  obtain ⟨before, hbefore⟩ : ∃ before,
      macosPrepareDataDirScript dataDir = before ++ ['"'] ++ ['\n'] := by
    refine ⟨["DATA_DIR=".toList, shSingleQuote dataDir, "\n".toList,
      "mkdir -p \"$DATA_DIR/logs\"\n".toList, "chown -R root:staff \"$DATA_DIR\"\n".toList,
      "chmod 775 \"$DATA_DIR\" \"$DATA_DIR/logs\"\n".toList,
      "chmod -R g+rwX \"$DATA_DIR".toList].flatten, ?_⟩
    delta macosPrepareDataDirScript
    rw [hlast]
    simp only [List.flatten_cons, List.flatten_nil, List.append_nil, List.append_assoc]
  rw [hbefore, trimEnd, List.rdropWhile_concat_pos _ _ _ (by decide),
    List.rdropWhile_concat_neg _ _ _ (by decide)]
  rfl

/-- What the script runs once the plist is written. -/
def launchScript : List Char :=
  ["chown root:wheel \"$PLIST_PATH\"\n".toList,
    "chmod 644 \"$PLIST_PATH\"\n".toList,
    "/bin/launchctl bootout system \"$PLIST_PATH\" 2>/dev/null || true\n".toList,
    "/bin/launchctl bootstrap system \"$PLIST_PATH\"\n".toList].flatten

def launchActions (plistPath : List Char) : List (List Action) :=
  [[call "chown" ["root:wheel".toList, plistPath]],
    [call "chmod" ["644".toList, plistPath]],
    bootoutActions plistPath,
    [call "/bin/launchctl" ["bootstrap".toList, "system".toList, plistPath]]]

theorem statements_launch (env : Env) :
    statements env launchScript = some (launchActions (env "PLIST_PATH".toList)) := by
  delta launchScript
  simp only [List.flatten_cons, List.flatten_nil]
  rw [statements_of_statement (statement_chownPlist _ _) rfl,
    statements_of_statement (statement_chmodPlist _ _) rfl,
    statements_of_statement (statement_bootout _ _) rfl,
    statements_of_statement (statement_bootstrap _ []) rfl, statements_nil]
  rfl

/-- The script up to the here-document. -/
theorem statements_install_prepared (env : Env) (plistPath plistContent dataDir : List Char) :
    statements env (macosInstallScript plistPath plistContent dataDir) =
      (statements ((env.set "DATA_DIR".toList dataDir).set "PLIST_PATH".toList plistPath)
        ("cat > \"$PLIST_PATH\" <<'EASYJOB_PLIST_EOF'\n".toList ++ (trimEnd plistContent ++
          ("\n".toList ++ ("EASYJOB_PLIST_EOF\n".toList ++ launchScript))))).map
        ([.errexit] :: prepareActions dataDir ++ [[.assign "PLIST_PATH".toList plistPath],
          [call "mkdir" ["-p".toList, "/Library/LaunchDaemons".toList]]] ++ ·) := by
  delta macosInstallScript launchScript
  simp only [List.flatten_cons, List.flatten_nil]
  rw [← List.append_assoc (trimEnd (macosPrepareDataDirScript dataDir)), trimEnd_prepare,
    statements_of_statement (statement_setE env _) rfl, statements_prepare,
    statements_of_statement (statement_plistPath _ _ plistPath) rfl,
    statements_of_statement (statement_mkdirDaemons _ _) rfl]
  simp only [Option.map_map]
  rfl

theorem statements_install (env : Env) (plistPath : List Char) {plistContent : List Char}
    (hcontent : "EASYJOB_PLIST_EOF".toList ∉ (trimEnd plistContent).splitOn '\n')
    (dataDir : List Char) :
    statements env (macosInstallScript plistPath plistContent dataDir) =
      some (installActions plistPath plistContent dataDir) := by
  have hpath : (env.set "DATA_DIR".toList dataDir).set "PLIST_PATH".toList plistPath
      "PLIST_PATH".toList = plistPath := if_pos rfl
  rw [statements_install_prepared, statements_of_statement (statement_cat _ _ hcontent) rfl,
    statements_launch, hpath]
  rfl

/-- Where the delimiter is the last line of the content, it ends the here-document, and the
    delimiter of the script is run as a command. -/
theorem statements_install_delimiter (env : Env) (plistPath : List Char)
    {plistContent before : List Char}
    (hcontent : trimEnd plistContent = before ++ '\n' :: "EASYJOB_PLIST_EOF".toList)
    (hbefore : "EASYJOB_PLIST_EOF".toList ∉ before.splitOn '\n') (dataDir : List Char) :
    statements env (macosInstallScript plistPath plistContent dataDir) =
      some ([.errexit] :: prepareActions dataDir ++ [[.assign "PLIST_PATH".toList plistPath],
        [call "mkdir" ["-p".toList, "/Library/LaunchDaemons".toList]]] ++
          ([.run ["cat".toList] [(1, plistPath)] (some (before ++ ['\n']))] ::
            [call "EASYJOB_PLIST_EOF" []] :: launchActions plistPath)) := by
  have hpath : (env.set "DATA_DIR".toList dataDir).set "PLIST_PATH".toList plistPath
      "PLIST_PATH".toList = plistPath := if_pos rfl
  have hdelim : "EASYJOB_PLIST_EOF\n".toList = "EASYJOB_PLIST_EOF".toList ++ ['\n'] := by decide
  have htext : trimEnd plistContent ++ ("\n".toList ++ ("EASYJOB_PLIST_EOF\n".toList ++
      launchScript)) = before ++ ("\n".toList ++ ("EASYJOB_PLIST_EOF\n".toList ++
        ("EASYJOB_PLIST_EOF\n".toList ++ launchScript))) := by
    rw [hcontent, hdelim, List.append_assoc, List.append_assoc]
    rfl
  have hparse : parseLine "EASYJOB_PLIST_EOF".toList =
      some [⟨[], [plain "EASYJOB_PLIST_EOF"], [], []⟩] := by rfl
  rw [statements_install_prepared, htext, statements_of_statement (statement_cat _ _ hbefore) rfl,
    statements_of_statement (statement_words _ _ hdelim (by decide) hparse) rfl,
    statements_launch, hpath, List.map_cons, List.map_nil, expand_plainWord]
  rfl

theorem statements_uninstall (env : Env) (plistPath : List Char) :
    statements env (macosUninstallScript plistPath) = some (uninstallActions plistPath) := by
  have hpath : env.set "PLIST_PATH".toList plistPath "PLIST_PATH".toList = plistPath := if_pos rfl
  delta macosUninstallScript
  simp only [List.flatten_cons, List.flatten_nil]
  rw [statements_of_statement (statement_setE env _) rfl,
    statements_of_statement (statement_plistPath _ _ plistPath) rfl,
    statements_of_statement (statement_bootout _ _) rfl,
    statements_of_statement (statement_rm _ []) rfl, hpath, statements_nil]
  rfl

/-! ## Without U+0000 -/

theorem nul_not_mem_shSingleQuote {s : List Char} (hs : '\x00' ∉ s) :
    '\x00' ∉ shSingleQuote s := by
  intro h
  rcases List.mem_append.mp h with h | h
  · rcases List.mem_cons.mp h with h | h
    · exact absurd h (by decide)
    · obtain ⟨c, hc, hnul⟩ := List.mem_flatMap.mp h
      split_ifs at hnul
      · exact absurd hnul (by decide)
      · exact hs (List.mem_singleton.mp hnul ▸ hc)
  · exact absurd h (by decide)

theorem nul_not_mem_prepare {dataDir : List Char} (hdir : '\x00' ∉ dataDir) :
    '\x00' ∉ macosPrepareDataDirScript dataDir := by
  have hquote := nul_not_mem_shSingleQuote hdir
  delta macosPrepareDataDirScript
  simp only [List.flatten_cons, List.flatten_nil, List.mem_append, not_or]
  exact ⟨by decide, hquote, by decide, by decide, by decide, by decide, by decide, by decide⟩

theorem nul_not_mem_install {plistPath plistContent dataDir : List Char}
    (hpath : '\x00' ∉ plistPath) (hcontent : '\x00' ∉ plistContent) (hdir : '\x00' ∉ dataDir) :
    '\x00' ∉ macosInstallScript plistPath plistContent dataDir := by
  have hquote := nul_not_mem_shSingleQuote hpath
  have hprepare : '\x00' ∉ trimEnd (macosPrepareDataDirScript dataDir) :=
    fun h => nul_not_mem_prepare hdir ((List.rdropWhile_prefix _ _).subset h)
  have htrim : '\x00' ∉ trimEnd plistContent :=
    fun h => hcontent ((List.rdropWhile_prefix _ _).subset h)
  delta macosInstallScript
  simp only [List.flatten_cons, List.flatten_nil, List.mem_append, not_or]
  exact ⟨by decide, hprepare, by decide, by decide, hquote, by decide, by decide, by decide, htrim,
    by decide, by decide, by decide, by decide, by decide, by decide, by decide⟩

theorem nul_not_mem_uninstall {plistPath : List Char} (hpath : '\x00' ∉ plistPath) :
    '\x00' ∉ macosUninstallScript plistPath := by
  have hquote := nul_not_mem_shSingleQuote hpath
  delta macosUninstallScript
  simp only [List.flatten_cons, List.flatten_nil, List.mem_append, not_or]
  exact ⟨by decide, by decide, hquote, by decide, by decide, by decide, by decide⟩

/-! ## What the shell does -/

theorem macosInstallScript_performs (env : Env) {plistPath plistContent dataDir : List Char}
    (hpath : '\x00' ∉ plistPath) (hnul : '\x00' ∉ plistContent) (hdir : '\x00' ∉ dataDir)
    (hcontent : "EASYJOB_PLIST_EOF".toList ∉ (trimEnd plistContent).splitOn '\n') :
    Performs env (macosInstallScript plistPath plistContent dataDir)
      (installActions plistPath plistContent dataDir) := by
  refine performs_of_script ?_ ?_
  · rw [script, if_neg (nul_not_mem_install hpath hnul hdir), statements_install env _ hcontent]
  · delta installActions prepareActions bootoutActions
    simp

theorem macosPrepareDataDirScript_performs (env : Env) {dataDir : List Char}
    (hdir : '\x00' ∉ dataDir) :
    Performs env (macosPrepareDataDirScript dataDir) (prepareActions dataDir) := by
  have hstatements := statements_prepare env dataDir []
  rw [List.append_nil, statements_nil, Option.map_some, List.append_nil] at hstatements
  refine performs_of_script ?_ ?_
  · rw [script, if_neg (nul_not_mem_prepare hdir), hstatements]
  · delta prepareActions
    simp

theorem macosUninstallScript_performs (env : Env) {plistPath : List Char}
    (hpath : '\x00' ∉ plistPath) :
    Performs env (macosUninstallScript plistPath) (uninstallActions plistPath) := by
  refine performs_of_script ?_ ?_
  · rw [script, if_neg (nul_not_mem_uninstall hpath), statements_uninstall]
  · delta uninstallActions bootoutActions
    simp

/-- The three scripts do what they should, whatever the paths are; the plist content must not hold
    the delimiter as a line once its trailing white space is gone. -/
theorem macosScripts_perform (env : Env) {plistPath plistContent dataDir : List Char}
    (hpath : '\x00' ∉ plistPath) (hnul : '\x00' ∉ plistContent) (hdir : '\x00' ∉ dataDir)
    (hcontent : "EASYJOB_PLIST_EOF".toList ∉ (trimEnd plistContent).splitOn '\n') :
    Performs env (macosInstallScript plistPath plistContent dataDir)
      (installActions plistPath plistContent dataDir) ∧
    Performs env (macosPrepareDataDirScript dataDir) (prepareActions dataDir) ∧
    Performs env (macosUninstallScript plistPath) (uninstallActions plistPath) ∧
    ∀ s, ∃ w, readLine .between [] (shSingleQuote s) = some ([.word w], []) ∧
      expand env w = s := by
  refine ⟨macosInstallScript_performs env hpath hnul hdir hcontent,
    macosPrepareDataDirScript_performs env hdir, macosUninstallScript_performs env hpath,
    fun s => ⟨s.map .quoted, ?_, expand_quoted env s⟩⟩
  have hquote := readLine_between_shSingleQuote s [] []
  rw [List.append_nil] at hquote
  rw [hquote]
  rfl

theorem macosScripts_perform_daemon :
    Performs (fun _ => []) (macosInstallScript "/Library/O'Brien\n$(id)/easyjob.plist".toList
        "<plist/>\n\n".toList "/Users/Shared/it's; rm -rf /".toList)
      (installActions "/Library/O'Brien\n$(id)/easyjob.plist".toList "<plist/>\n\n".toList
        "/Users/Shared/it's; rm -rf /".toList) :=
  (macosScripts_perform (fun _ => []) (by decide) (by decide) (by decide) (by decide)).1

/-- The delimiter with a blank after it is no line of the content, but the last line of what is
    left of it: the shell runs it as a command. -/
theorem macosInstallScript_delimiter :
    "EASYJOB_PLIST_EOF".toList ∉ "<plist/>\nEASYJOB_PLIST_EOF ".toList.splitOn '\n' ∧
    ¬Performs (fun _ => []) (macosInstallScript "/Library/easyjob.plist".toList
        "<plist/>\nEASYJOB_PLIST_EOF ".toList "/Users/Shared/easyJob".toList)
      (installActions "/Library/easyjob.plist".toList "<plist/>\nEASYJOB_PLIST_EOF ".toList
        "/Users/Shared/easyJob".toList) ∧
    (script (fun _ => []) (macosInstallScript "/Library/easyjob.plist".toList
        "<plist/>\nEASYJOB_PLIST_EOF ".toList "/Users/Shared/easyJob".toList)).any
      (fun statements => statements.contains [call "EASYJOB_PLIST_EOF" []]) = true := by
  have hread : script (fun _ => []) (macosInstallScript "/Library/easyjob.plist".toList
      "<plist/>\nEASYJOB_PLIST_EOF ".toList "/Users/Shared/easyJob".toList) = some _ :=
    (if_neg (nul_not_mem_install (by decide) (by decide) (by decide))).trans
      (statements_install_delimiter _ _ (by decide : _ = "<plist/>".toList ++ _) (by decide) _)
  refine ⟨by decide, fun h => ?_, ?_⟩
  · have hinstall := hread.symm.trans h.1
    exact absurd hinstall (by decide)
  · rw [hread]
    decide

end EasyJob.Platform
