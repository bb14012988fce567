import Mathlib.Data.List.Basic
import Mathlib.Tactic.Common

/-!
# Shell scripts

A sublanguage of the POSIX shell: lines of simple commands, joined by `||`, with assignments,
single and double quotes, parameters in double quotes, output redirections and one quoted
here-document a line. Every other text has no reading here: escapes, substitutions, patterns,
unquoted parameters, compound commands and comments.

* `readLine_single_cons`: what stands in single quotes is part of a word as it is.
* `hereDoc_lines`: a here-document ends at its delimiter.
* `performs_of_script`: what is performed when commands fail, and when none does.
* `simpleCommand_words`: the words of a command without quotes.
-/

namespace PosixShell

/-! ## Words -/

inductive Piece
  | plain (c : Char)
  | quoted (c : Char)
  /-- A parameter in double quotes: one piece, whatever its value. -/
  | parameter (name : List Char)
  deriving DecidableEq, Repr

abbrev Word := List Piece

abbrev Env := List Char → List Char

def Piece.value (env : Env) : Piece → List Char
  | .plain c => [c]
  | .quoted c => [c]
  | .parameter name => env name

/-- What a word stands for. -/
def expand (env : Env) (w : Word) : List Char := w.flatMap (Piece.value env)

/-! ## Tokens -/

inductive Token
  | word (w : Word)
  | orElse
  | output (fd : ℕ)
  | hereDoc
  deriving DecidableEq, Repr

/-- Where in a line the reader stands: between words, in a word and its quotes, with a name after
    `$` in double quotes, or in an operator. -/
inductive Mode
  | between
  | unquoted (w : Word)
  | single (w : Word)
  | double (w : Word)
  | dollar (w : Word) (name : List Char)
  | pipe
  | less
  | lessLess
  deriving DecidableEq, Repr

def isBlank (c : Char) : Bool := c == ' ' || c == '\t'

/-- What a word is made of outside quotes. -/
def isPlain (c : Char) : Bool :=
  c.isAlphanum || ['_', '-', '.', '/', ':', '=', '+', ',', '@', '%'].contains c

def isNameChar (c : Char) : Bool := c.isAlphanum || c == '_'

def isName (name : List Char) : Bool :=
  name.all isNameChar && name.head?.any fun c => !c.isDigit

/-- A character of a word, outside quotes. -/
def stepWord (w : Word) (c : Char) : Option (Mode × List Token) :=
  if c = '\'' then some (.single w, [])
  else if c = '"' then some (.double w, [])
  else if isPlain c then some (.unquoted (w ++ [.plain c]), [])
  else none

/-- A character between words. -/
def stepBetween (c : Char) : Option (Mode × List Token) :=
  if isBlank c then some (.between, [])
  else if c = '|' then some (.pipe, [])
  else if c = '<' then some (.less, [])
  else if c = '>' then some (.between, [.output 1])
  else stepWord [] c

/-- A blank or an operator after a word. A digit before `>` says what is redirected. -/
def endWord (w : Word) (c : Char) : Option (Mode × List Token) :=
  match w, c with
  | [.plain d], '>' =>
    if d.isDigit then some (.between, [.output (d.toNat - '0'.toNat)])
    else some (.between, [.word [.plain d], .output 1])
  | [.plain d], '<' => if d.isDigit then none else some (.less, [.word [.plain d]])
  | w, c => (stepBetween c).map fun (mode, ts) => (mode, .word w :: ts)

/-- A character in double quotes. -/
def stepDouble (w : Word) (c : Char) : Option (Mode × List Token) :=
  if c = '"' then some (.unquoted w, [])
  else if c = '$' then some (.dollar w [], [])
  else if c = '\\' ∨ c = '\x60' then none
  else some (.double (w ++ [.quoted c]), [])

def step : Mode → Char → Option (Mode × List Token)
  | .between, c => stepBetween c
  | .unquoted w, c =>
    if isBlank c ∨ c = '|' ∨ c = '<' ∨ c = '>' then endWord w c else stepWord w c
  | .single w, c =>
    if c = '\'' then some (.unquoted w, []) else some (.single (w ++ [.quoted c]), [])
  | .double w, c => stepDouble w c
  | .dollar w name, c =>
    if isNameChar c then some (.dollar w (name ++ [c]), [])
    else if isName name then stepDouble (w ++ [.parameter name]) c
    else none
  | .pipe, c => if c = '|' then some (.between, [.orElse]) else none
  | .less, c => if c = '<' then some (.lessLess, [.hereDoc]) else none
  | .lessLess, c => if c = '-' ∨ c = '<' then none else stepBetween c

/-- What is left to say at the end of a line, where a line can end. -/
def endLine : Mode → Option (List Token)
  | .between => some []
  | .unquoted w => some [.word w]
  | _ => none

/-- The tokens up to the end of the line, after `ts`, and the rest. -/
def readLine (mode : Mode) (ts : List Token) : List Char → Option (List Token × List Char)
  | [] => (endLine mode).map fun last => (ts ++ last, [])
  | c :: s =>
    match c == '\n', endLine mode with
    | true, some last => some (ts ++ last, s)
    | _, _ =>
      match step mode c with
      | some (mode', ts') => readLine mode' (ts ++ ts') s
      | none => none

/-! ## Commands -/

structure Command where
  assigns : List (List Char × Word)
  words : List Word
  outputs : List (ℕ × Word)
  hereDocs : List Word
  deriving DecidableEq, Repr

/-- The longest name a word begins with. -/
def splitName : Word → List Char × Word
  | .plain c :: w =>
    if isNameChar c then ((c :: (splitName w).1), (splitName w).2) else ([], .plain c :: w)
  | w => ([], w)

/-- `name=value` -/
def assignment (w : Word) : Option (List Char × Word) :=
  match splitName w with
  | (name, .plain '=' :: value) => if isName name then some (name, value) else none
  | _ => none

def reserved : List String :=
  ["case", "do", "done", "elif", "else", "esac", "fi", "for", "function", "if", "in", "select",
    "then", "time", "until", "while"]

def isReserved (w : Word) : Bool := reserved.any fun word => w == word.toList.map Piece.plain

/-- A simple command; no assignments after the first word. -/
def command (inWords : Bool) : List Token → Option Command
  | [] => some ⟨[], [], [], []⟩
  | .word w :: ts =>
    match inWords, assignment w with
    | false, some assign =>
      (command false ts).map fun cmd => { cmd with assigns := assign :: cmd.assigns }
    | _, _ =>
      if !inWords && isReserved w then none
      else (command true ts).map fun cmd => { cmd with words := w :: cmd.words }
  | .output fd :: .word w :: ts =>
    (command inWords ts).map fun cmd => { cmd with outputs := (fd, w) :: cmd.outputs }
  | .hereDoc :: .word w :: ts =>
    (command inWords ts).map fun cmd => { cmd with hereDocs := w :: cmd.hereDocs }
  | _ => none

/-- What a simple command does: assign a value, or run a program with its arguments, output files
    and input. -/
inductive Action
  | assign (name value : List Char)
  | run (argv : List (List Char)) (outputs : List (ℕ × List Char)) (input : Option (List Char))
  deriving DecidableEq, Repr

def Command.action (env : Env) (input : Option (List Char)) (cmd : Command) : Option Action :=
  match cmd.assigns, cmd.words, cmd.outputs, cmd.hereDocs with
  | [(name, value)], [], [], [] => some (.assign name (expand env value))
  | [], w :: ws, outputs, hereDocs =>
    some (.run ((w :: ws).map (expand env)) (outputs.map fun (fd, file) => (fd, expand env file))
      (if hereDocs.isEmpty then none else input))
  | _, _, _, _ => none

/-- The delimiter of a here-document without expansions: some of it is quoted. -/
def delimiter (w : Word) : Option (List Char) :=
  if w.all (fun piece => match piece with | .parameter _ => false | _ => true) &&
      w.any (fun piece => match piece with | .quoted _ => true | _ => false) then
    some (expand (fun _ => []) w)
  else none

/-- The lines up to the delimiter, after `line`, and the rest. -/
def hereDoc (delim line : List Char) : List Char → Option (List Char × List Char)
  | [] => if line = delim then some ([], []) else none
  | c :: s =>
    if c = '\n' then
      if line = delim then some ([], s)
      else (hereDoc delim [] s).map fun (body, rest) => (line ++ '\n' :: body, rest)
    else hereDoc delim (line ++ [c]) s

/-- The first line with its here-document: the commands, of which each runs where the ones before
    it have failed, and the rest. -/
def statement (env : Env) (s : List Char) : Option (List Action × List Char) := do
  let (ts, rest) ← readLine .between [] s
  let cmds ← (ts.splitOn .orElse).mapM (command false)
  match cmds.flatMap Command.hereDocs with
  | [] => do
    let actions ← cmds.mapM (Command.action env none)
    pure (actions, rest)
  | [w] => do
    let delim ← delimiter w
    let (body, rest) ← hereDoc delim [] rest
    let actions ← cmds.mapM (Command.action env (some body))
    pure (actions, rest)
  | _ => none

def Env.set (env : Env) (name value : List Char) : Env := fun n => if n = name then value else env n

/-- The parameters after a statement. -/
def assigned (env : Env) : List Action → Option Env
  | [.assign name value] => some (env.set name value)
  | actions =>
    if actions.all (fun action => match action with | .run .. => true | _ => false) then some env
    else none

theorem readLine_length {mode : Mode} {ts ts' : List Token} {s rest : List Char}
    (h : readLine mode ts s = some (ts', rest)) : rest.length ≤ s.length - 1 := by
  induction s generalizing mode ts with
  | nil =>
    obtain ⟨last, -, heq⟩ := Option.map_eq_some_iff.mp h
    cases heq
    exact Nat.le_refl _
  | cons c s ih =>
    rw [readLine] at h
    split at h
    · cases h
      exact Nat.le_refl _
    · split at h
      · have hrec := ih h
        simp only [List.length_cons]
        omega
      · cases h

theorem hereDoc_length {delim line s body rest : List Char}
    (h : hereDoc delim line s = some (body, rest)) : rest.length ≤ s.length := by
  induction s generalizing line body with
  | nil =>
    rw [hereDoc] at h
    split_ifs at h
    cases h
    exact Nat.le_refl _
  | cons c s ih =>
    rw [hereDoc] at h
    split_ifs at h
    · cases h
      exact Nat.le_succ _
    · obtain ⟨⟨body', rest'⟩, hrec, heq⟩ := Option.map_eq_some_iff.mp h
      cases heq
      exact Nat.le_succ_of_le (ih hrec)
    · exact Nat.le_succ_of_le (ih h)

theorem statement_length {env : Env} {c : Char} {s rest : List Char} {actions : List Action}
    (h : statement env (c :: s) = some (actions, rest)) : rest.length < (c :: s).length := by
  obtain ⟨⟨ts, rest'⟩, hline, h⟩ := Option.bind_eq_some_iff.mp h
  have hle := readLine_length hline
  simp only [List.length_cons, Nat.add_sub_cancel] at hle
  obtain ⟨cmds, hcmds, h⟩ := Option.bind_eq_some_iff.mp h
  split at h
  · obtain ⟨actions', hactions, h⟩ := Option.bind_eq_some_iff.mp h
    cases h
    exact Nat.lt_succ_of_le hle
  · obtain ⟨delim, hdelim, h⟩ := Option.bind_eq_some_iff.mp h
    obtain ⟨⟨body, rest''⟩, hbody, h⟩ := Option.bind_eq_some_iff.mp h
    obtain ⟨actions', hactions, h⟩ := Option.bind_eq_some_iff.mp h
    cases h
    exact Nat.lt_succ_of_le (Nat.le_trans (hereDoc_length hbody) hle)
  · cases h

/-- The statements of a script. -/
def statements (env : Env) : List Char → Option (List (List Action))
  | [] => some []
  | c :: s =>
    match _h : statement env (c :: s) with
    | some (actions, rest) =>
      match assigned env actions with
      | some env' => (statements env' rest).map (actions :: ·)
      | none => none
    | none => none
termination_by s => s.length
decreasing_by exact statement_length _h

/-- A script has no U+0000. -/
def script (env : Env) (s : List Char) : Option (List (List Action)) :=
  if '\x00' ∈ s then none else statements env s

/-! ## Performing a script -/

/-- `set -e` -/
def Action.errexit : Action := .run ["set".toList, "-e".toList] [] none

section Run

variable (succeeds : List Action → Action → Bool)

/-- The commands of a statement until one succeeds, after what was done before: what has been done,
    and whether one succeeded. Assignments succeed. -/
def runStatement (done : List Action) : List Action → List Action × Bool
  | [] => (done, false)
  | action :: actions =>
    match action with
    | .assign .. => (done ++ [action], true)
    | .run .. =>
      if succeeds done action then (done ++ [action], true)
      else runStatement (done ++ [action]) actions

/-- The actions of a script in the order they are performed. After `set -e` it ends with the first
    statement that fails. -/
def run (done : List Action) : List (List Action) → List Action
  | [] => done
  | actions :: rest =>
    let (done', succeeded) := runStatement succeeds done actions
    if !succeeded && done'.contains Action.errexit then done' else run done' rest

theorem mem_runStatement {done actions : List Action} {action : Action}
    (h : action ∈ (runStatement succeeds done actions).1) : action ∈ done ∨ action ∈ actions := by
  induction actions generalizing done with
  | nil => exact .inl h
  | cons first actions ih =>
    have hfirst : action ∈ done ++ [first] → action ∈ done ∨ action ∈ first :: actions := by
      intro hmem
      rcases List.mem_append.mp hmem with hmem | hmem
      · exact .inl hmem
      · exact .inr (List.mem_cons.mpr (.inl (List.mem_singleton.mp hmem)))
    cases first with
    | assign name value => exact hfirst h
    | run argv outputs input =>
      rw [runStatement] at h
      split_ifs at h
      · exact hfirst h
      · rcases ih h with hmem | hmem
        · exact hfirst hmem
        · exact .inr (List.mem_cons_of_mem _ hmem)

/-- Whatever fails, nothing but the commands of the script is run. -/
theorem mem_run {done : List Action} {script : List (List Action)} {action : Action}
    (h : action ∈ run succeeds done script) : action ∈ done ∨ action ∈ script.flatten := by
  induction script generalizing done with
  | nil => exact .inl h
  | cons actions rest ih =>
    have hstatement : action ∈ (runStatement succeeds done actions).1 →
        action ∈ done ∨ action ∈ actions := mem_runStatement succeeds
    have hmem : action ∈ (runStatement succeeds done actions).1 ∨ action ∈ rest.flatten := by
      rw [run] at h
      dsimp only at h
      split_ifs at h
      · exact .inl h
      · exact ih h
    rw [List.flatten_cons, List.mem_append, ← or_assoc]
    exact hmem.imp_left hstatement

end Run

/-- Where every command succeeds, the first of every statement is performed. -/
theorem run_of_succeeds {succeeds : List Action → Action → Bool}
    (hsucceeds : ∀ done action, succeeds done action = true) {script : List (List Action)}
    (h : ∀ actions ∈ script, actions ≠ []) (done : List Action) :
    run succeeds done script = done ++ script.filterMap List.head? := by
  induction script generalizing done with
  | nil => simp [run]
  | cons actions rest ih =>
    obtain ⟨hne, hrest⟩ := List.forall_mem_cons.mp h
    obtain ⟨action, actions, rfl⟩ := List.exists_cons_of_ne_nil hne
    have hstatement : runStatement succeeds done (action :: actions) =
        (done ++ [action], true) := by
      cases action with
      | assign name value => rfl
      | run argv outputs input => rw [runStatement, if_pos (hsucceeds _ _)]
    rw [run, hstatement]
    simp [ih hrest]

/-- What a shell does with a script. -/
def perform (succeeds : List Action → Action → Bool) (env : Env) (s : List Char) :
    Option (List Action) :=
  (script env s).map (run succeeds [])

/-- The script has these statements and no others: whatever fails, nothing else is performed, and
    each of them is where nothing fails. -/
def Performs (env : Env) (s : List Char) (expected : List (List Action)) : Prop :=
  script env s = some expected ∧ ∀ succeeds, ∃ done, perform succeeds env s = some done ∧
    (∀ action ∈ done, action ∈ expected.flatten) ∧
    ((∀ before action, succeeds before action = true) → done = expected.filterMap List.head?)

theorem performs_of_script {env : Env} {s : List Char} {expected : List (List Action)}
    (h : script env s = some expected) (hne : ∀ actions ∈ expected, actions ≠ []) :
    Performs env s expected := by
  refine ⟨h, fun succeeds => ⟨run succeeds [] expected, by rw [perform, h]; rfl, ?_, ?_⟩⟩
  · intro action haction
    exact (mem_run succeeds haction).resolve_left List.not_mem_nil
  · intro hsucceeds
    exact run_of_succeeds hsucceeds hne []

/-! ## Reading what was written -/

/-- The characters of a line outside single quotes. -/
def steps (mode : Mode) (ts : List Token) : List Char → Option (Mode × List Token)
  | [] => some (mode, ts)
  | c :: s =>
    match step mode c with
    | some (mode', ts') => steps mode' (ts ++ ts') s
    | none => none

theorem readLine_steps {mode mode' : Mode} {ts ts' : List Token} {line : List Char}
    (hline : '\n' ∉ line) (h : steps mode ts line = some (mode', ts')) (rest : List Char) :
    readLine mode ts (line ++ rest) = readLine mode' ts' rest := by
  induction line generalizing mode ts with
  | nil =>
    cases h
    rfl
  | cons c line ih =>
    obtain ⟨hc, hline'⟩ := not_or.mp (mt List.mem_cons.mpr hline)
    have hne : (c == '\n') = false := by simpa using Ne.symm hc
    rw [steps] at h
    rw [List.cons_append, readLine, hne]
    split at h
    · exact ih hline' h
    · cases h

/-- What stands in single quotes is part of the word as it is. -/
theorem readLine_single_cons {c : Char} (hc : c ≠ '\'') (w : Word) (ts : List Token)
    (s : List Char) :
    readLine (.single w) ts (c :: s) = readLine (.single (w ++ [.quoted c])) ts s := by
  have hstep : step (.single w) c = some (.single (w ++ [.quoted c]), []) := if_neg hc
  rw [readLine, hstep]
  simp [endLine]

/-- A line ends. -/
theorem readLine_newline {mode : Mode} {ts last : List Token} (h : endLine mode = some last)
    (rest : List Char) : readLine mode ts ('\n' :: rest) = some (ts ++ last, rest) := by
  rw [readLine, h]
  rfl

theorem hereDoc_delim {delim line s : List Char} (hs : '\n' ∉ s) (h : line ++ s = delim)
    (rest : List Char) : hereDoc delim line (s ++ '\n' :: rest) = some ([], rest) := by
  induction s generalizing line with
  | nil =>
    obtain rfl : line = delim := by simpa using h
    simp [hereDoc]
  | cons c s ih =>
    obtain ⟨hc, hs'⟩ := not_or.mp (mt List.mem_cons.mpr hs)
    rw [List.cons_append, hereDoc, if_neg (Ne.symm hc)]
    exact ih hs' (by simpa using h)

theorem hereDoc_lines_from {delim : List Char} (hdelim : '\n' ∉ delim) {line content : List Char}
    (hline : '\n' ∉ line) (hcontent : delim ∉ (line ++ content).splitOn '\n')
    (rest : List Char) :
    hereDoc delim line (content ++ '\n' :: (delim ++ '\n' :: rest)) =
      some (line ++ content ++ ['\n'], rest) := by
  induction content generalizing line with
  | nil =>
    rw [List.append_nil, List.splitOn_eq_singleton hline, List.mem_singleton] at hcontent
    rw [List.nil_append, hereDoc, if_pos rfl, if_neg (Ne.symm hcontent),
      hereDoc_delim hdelim (List.nil_append delim)]
    simp
  | cons c content ih =>
    rw [List.cons_append, hereDoc]
    by_cases hc : c = '\n'
    · subst hc
      rw [List.splitOn_append_cons_self_of_not_mem hline, List.mem_cons, not_or] at hcontent
      rw [if_pos rfl, if_neg (Ne.symm hcontent.1), ih List.not_mem_nil hcontent.2]
      simp
    · rw [if_neg hc, ih (by simp [hline, Ne.symm hc]) (by simpa using hcontent)]
      simp

/-- A here-document ends at its delimiter. -/
theorem hereDoc_lines {delim content : List Char} (hdelim : '\n' ∉ delim)
    (hcontent : delim ∉ content.splitOn '\n') (rest : List Char) :
    hereDoc delim [] (content ++ '\n' :: (delim ++ '\n' :: rest)) =
      some (content ++ ['\n'], rest) :=
  hereDoc_lines_from hdelim List.not_mem_nil hcontent rest

/-! ## A script, statement by statement -/

@[simp] theorem expand_plain (env : Env) (s : List Char) : expand env (s.map .plain) = s := by
  induction s with
  | nil => rfl
  | cons c s ih => exact congrArg (c :: ·) ih

@[simp] theorem expand_quoted (env : Env) (s : List Char) : expand env (s.map .quoted) = s := by
  induction s with
  | nil => rfl
  | cons c s ih => exact congrArg (c :: ·) ih

@[simp] theorem expand_parameter (env : Env) (name : List Char) (w : Word) :
    expand env (.parameter name :: w) = env name ++ expand env w := rfl

/-- The commands of a line whose quotes hold no newline. -/
def parseLine (line : List Char) : Option (List Command) := do
  let (mode, ts) ← steps .between [] line
  let last ← endLine mode
  ((ts ++ last).splitOn .orElse).mapM (command false)

theorem readLine_of_parseLine {line : List Char} {cmds : List Command} (hline : '\n' ∉ line)
    (h : parseLine line = some cmds) (rest : List Char) :
    ∃ ts, readLine .between [] (line ++ '\n' :: rest) = some (ts, rest) ∧
      (ts.splitOn .orElse).mapM (command false) = some cmds := by
  obtain ⟨⟨mode, ts⟩, hsteps, h⟩ := Option.bind_eq_some_iff.mp h
  obtain ⟨last, hlast, hcmds⟩ := Option.bind_eq_some_iff.mp h
  exact ⟨ts ++ last, (readLine_steps hline hsteps _).trans (readLine_newline hlast rest), hcmds⟩

/-- A line without a here-document. -/
theorem statement_line {env : Env} {line : List Char} {cmds : List Command}
    {actions : List Action} (hline : '\n' ∉ line) (h : parseLine line = some cmds)
    (hhere : cmds.flatMap Command.hereDocs = [])
    (hactions : cmds.mapM (Command.action env none) = some actions) (rest : List Char) :
    statement env (line ++ '\n' :: rest) = some (actions, rest) := by
  obtain ⟨ts, hread, hcmds⟩ := readLine_of_parseLine hline h rest
  simp [statement, hread, hcmds, hhere, hactions]

/-- A line with a here-document. -/
theorem statement_hereDoc {env : Env} {line delim body rest rest' : List Char} {w : Word}
    {cmds : List Command} {actions : List Action} (hline : '\n' ∉ line)
    (h : parseLine line = some cmds) (hhere : cmds.flatMap Command.hereDocs = [w])
    (hdelim : delimiter w = some delim) (hbody : hereDoc delim [] rest = some (body, rest'))
    (hactions : cmds.mapM (Command.action env (some body)) = some actions) :
    statement env (line ++ '\n' :: rest) = some (actions, rest') := by
  obtain ⟨ts, hread, hcmds⟩ := readLine_of_parseLine hline h rest
  simp [statement, hread, hcmds, hhere, hdelim, hbody, hactions]

@[simp] theorem statements_nil (env : Env) : statements env [] = some [] := by rw [statements]

theorem statements_of_statement {env env' : Env} {s rest : List Char} {actions : List Action}
    (h : statement env s = some (actions, rest)) (henv : assigned env actions = some env') :
    statements env s = (statements env' rest).map (actions :: ·) := by
  have hs : s ≠ [] := by
    rintro rfl
    cases h
  obtain ⟨c, s, rfl⟩ := List.exists_cons_of_ne_nil hs
  rw [statements]
  split
  · rename_i actions' rest' h'
    rw [h] at h'
    cases h'
    simp only [henv]
  · rename_i h'
    rw [h] at h'
    cases h'

/-! ## Pipelines -/

/-- A simple command by itself, without assignments and redirections: the words it is run with. -/
def simpleCommand (env : Env) (s : List Char) : Option (List (List Char)) := do
  let (ts, []) ← readLine .between [] s | none
  let cmd ← command false ts
  match cmd.action env none with
  | some (.run argv [] none) => some argv
  | _ => none

/-- The commands of one line, in which every `|` passes the output of a command to the next one:
    nothing is quoted. -/
def pipeline (env : Env) (s : List Char) : Option (List (List (List Char))) :=
  if s.any ['\'', '"', '<', '\n', '\x00'].contains then none
  else (s.splitOn '|').mapM (simpleCommand env)

/-- What the last command of a pipeline reads, where `writes argv input` is what a command
    writes. -/
def pipedInput {β : Type*} (writes : List (List Char) → β → β) (input : β) :
    List (List (List Char)) → β
  | argv :: argv' :: argvs => pipedInput writes (writes argv input) (argv' :: argvs)
  | _ => input

/-- Blanks, operators and quotes end a plain word. -/
theorem ne_of_isPlain {c mark : Char} (hc : isPlain c = true)
    (hmark : mark ∈ [' ', '\t', '\n', '|', '<', '>', '\'', '"']) : c ≠ mark := by
  rintro rfl
  have hmarks : [' ', '\t', '\n', '|', '<', '>', '\'', '"'].all (fun c => !isPlain c) = true := by
    decide
  have hnot := List.all_eq_true.mp hmarks c hmark
  rw [hc] at hnot
  cases hnot

theorem stepWord_plain {c : Char} (hc : isPlain c = true) (w : Word) :
    stepWord w c = some (.unquoted (w ++ [.plain c]), []) := by
  rw [stepWord, if_neg (ne_of_isPlain hc (by decide)), if_neg (ne_of_isPlain hc (by decide)),
    if_pos hc]

theorem steps_plain {s : List Char} (hs : ∀ c ∈ s, isPlain c = true) (w : Word)
    (ts : List Token) :
    steps (.unquoted w) ts s = some (.unquoted (w ++ s.map .plain), ts) := by
  induction s generalizing w with
  | nil => rw [List.map_nil, List.append_nil, steps]
  | cons c s ih =>
    obtain ⟨hc, hs⟩ := List.forall_mem_cons.mp hs
    have hstep : step (.unquoted w) c = some (.unquoted (w ++ [.plain c]), []) := by
      have hword : ¬(isBlank c = true ∨ c = '|' ∨ c = '<' ∨ c = '>') := by
        simp [isBlank, ne_of_isPlain hc]
      rw [step, if_neg hword, stepWord_plain hc]
    rw [steps, hstep]
    simp only [List.append_nil]
    rw [ih hs, List.append_assoc]
    rfl

/-- A word without quotes, up to a blank. -/
theorem readLine_word {s : List Char} (hne : s ≠ []) (hs : ∀ c ∈ s, isPlain c = true)
    (ts : List Token) (rest : List Char) :
    readLine .between ts (s ++ ' ' :: rest) =
      readLine .between (ts ++ [.word (s.map .plain)]) rest := by
  obtain ⟨c, s, rfl⟩ := List.exists_cons_of_ne_nil hne
  have hc : isPlain c = true := hs c List.mem_cons_self
  have hline : '\n' ∉ c :: s := fun hmem => ne_of_isPlain (hs _ hmem) (by decide) rfl
  have hfirst : step .between c = some (.unquoted [.plain c], []) := by
    have hblank : ¬isBlank c = true := by simp [isBlank, ne_of_isPlain hc]
    rw [step, stepBetween, if_neg hblank, if_neg (ne_of_isPlain hc (by decide)),
      if_neg (ne_of_isPlain hc (by decide)), if_neg (ne_of_isPlain hc (by decide)),
      stepWord_plain hc]
    rfl
  have hsteps : steps .between ts (c :: s) = some (.unquoted ((c :: s).map .plain), ts) := by
    rw [steps, hfirst]
    simp only [List.append_nil]
    exact steps_plain (fun c hmem => hs c (List.mem_cons_of_mem _ hmem)) _ _
  have hblank : step (.unquoted ((c :: s).map .plain)) ' ' =
      some (.between, [.word ((c :: s).map .plain)]) := by
    simp [step, endWord, isBlank, stepBetween]
  have hend : (' ' == '\n') = false := rfl
  rw [readLine_steps hline hsteps, readLine, hend, hblank]

theorem readLine_words {ws : List (List Char)}
    (hws : ∀ w ∈ ws, w ≠ [] ∧ ∀ c ∈ w, isPlain c = true) (ts : List Token) :
    readLine .between ts (ws.flatMap (· ++ [' '])) =
      some (ts ++ ws.map fun w => .word (w.map .plain), []) := by
  induction ws generalizing ts with
  | nil => rfl
  | cons w ws ih =>
    obtain ⟨⟨hne, hw⟩, hws⟩ := List.forall_mem_cons.mp hws
    rw [List.flatMap_cons, List.append_assoc, List.singleton_append, readLine_word hne hw, ih hws,
      List.append_assoc]
    rfl

theorem command_words (ws : List Word) :
    command true (ws.map .word) = some ⟨[], ws, [], []⟩ := by
  induction ws with
  | nil => rfl
  | cons w ws ih =>
    rw [List.map_cons, command]
    · simp [ih]
    · simp

theorem command_first {w : Word} (hassign : assignment w = none) (hreserved : isReserved w = false)
    (ts : List Token) : command false (.word w :: ts) =
      (command true ts).map fun cmd => { cmd with words := w :: cmd.words } := by
  conv_lhs => unfold command
  simp [hassign, hreserved]

/-- The words of a command without quotes. -/
theorem simpleCommand_words {env : Env} {w : List Char} {ws : List (List Char)}
    (hws : ∀ w' ∈ w :: ws, w' ≠ [] ∧ ∀ c ∈ w', isPlain c = true)
    (hassign : assignment (w.map .plain) = none) (hreserved : isReserved (w.map .plain) = false) :
    simpleCommand env ((w :: ws).flatMap (· ++ [' '])) = some (w :: ws) := by
  have hcommand : command false ((w :: ws).map fun w => Token.word (w.map .plain)) =
      some ⟨[], (w :: ws).map fun w => w.map .plain, [], []⟩ := by
    have hrest := command_words (ws.map fun w => w.map Piece.plain)
    rw [List.map_map] at hrest
    rw [List.map_cons, command_first hassign hreserved]
    exact (congrArg _ hrest).trans rfl
  have hvalues : ((w :: ws).map fun w => w.map Piece.plain).map (expand env) = w :: ws := by
    rw [List.map_map]
    exact (List.map_congr_left fun w _ => expand_plain env w).trans (List.map_id _)
  unfold simpleCommand
  rw [readLine_words hws, List.nil_append]
  show (command false _).bind _ = _
  rw [hcommand]
  show some (((w :: ws).map fun w => w.map Piece.plain).map (expand env)) = _
  rw [hvalues]

end PosixShell
