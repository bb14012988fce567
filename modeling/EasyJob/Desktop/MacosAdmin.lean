import EasyJob.Lib.Base64
import EasyJob.Lib.PosixShell
import EasyJob.Lib.Words

/-!
# Scripts run with administrator privileges

Model of `base64_encode` and of the command that `run_macos_admin` builds with it
(`apps/desktop/src-tauri/src/startup.rs` lines 301–307 and 331–354). What `osascript` does with
the command is modelled as far as its one string literal; `echo` and `base64` are parameters.

* `base64Encode_eq`: the loop writes standard Base64.
* `base64Encode_standard`: what an encoding looks like, and that the shell of the administrator
  reads the script.
-/

namespace EasyJob.Desktop

open PosixShell

/-! ## base64_encode -/

/-- `TABLE` (line 333). -/
def base64Table : List Char :=
  "ABCDEFGHIJKLMNOPQRSTUVWXYZabcdefghijklmnopqrstuvwxyz0123456789+/".toList

/-- `TABLE[(n & 63) as usize] as char`; the index is below 64. -/
def tableChar (n : UInt32) : Char := base64Table.getD (n &&& 63).toNat ' '

/-- The body of the loop (lines 336–351). -/
def encodeChunk (chunk : List UInt8) : List Char :=
  let b0 := (chunk.getD 0 0).toUInt32
  let b1 := (chunk.getD 1 0).toUInt32
  let b2 := (chunk.getD 2 0).toUInt32
  let n := b0 <<< 16 ||| b1 <<< 8 ||| b2
  [tableChar (n >>> 18), tableChar (n >>> 12),
    if 1 < chunk.length then tableChar (n >>> 6) else '=',
    if 2 < chunk.length then tableChar n else '=']

/-- `input.chunks(3)` -/
def chunks3 : List UInt8 → List (List UInt8)
  | b0 :: b1 :: b2 :: rest => [b0, b1, b2] :: chunks3 rest
  | [] => []
  | chunk => [chunk]

/-- Model of `base64_encode` (lines 331–354). -/
def base64Encode (input : List UInt8) : List Char := (chunks3 input).flatMap encodeChunk

/-! ## run_macos_admin -/

/-- The AppleScript source that `run_macos_admin` passes to `osascript` (lines 303–307). -/
def macosAdminSource (script : List UInt8) : List Char :=
  "do shell script \"/bin/echo ".toList ++ base64Encode script ++
    " | /usr/bin/base64 -D | /bin/sh\" with administrator privileges".toList

/-- The escapes of an AppleScript string. -/
def escaped : Char → Option Char
  | '"' => some '"'
  | '\\' => some '\\'
  | 'n' => some '\n'
  | 'r' => some '\r'
  | 't' => some '\t'
  | _ => none

/-- The value of an AppleScript string up to its closing quote, and the rest; `escape` says
    whether the last character was a backslash. -/
def stringLiteral (escape : Bool) : List Char → Option (List Char × List Char)
  | [] => none
  | c :: s =>
    if escape then do
      let c' ← escaped c
      let (value, rest) ← stringLiteral false s
      some (c' :: value, rest)
    else if c = '"' then some ([], s)
    else if c = '\\' then stringLiteral true s
    else do
      let (value, rest) ← stringLiteral false s
      some (c :: value, rest)

/-- The command line that an AppleScript source runs as the administrator. -/
def doShellScript (source : List Char) : Option (List Char) := do
  let literal ← source.dropPrefix? "do shell script \"".toList
  let (line, rest) ← stringLiteral false literal
  if rest = " with administrator privileges".toList then some line else none

/-- The bytes of a text of ASCII characters. -/
def ascii (s : List Char) : List UInt8 := s.map fun c => c.toNat.toUInt8

/-- What `echo` and `base64` do: `writes argv input` is what a program writes. A word that begins
    with `-` could be an option of `echo`. -/
structure PipePrograms (writes : List (List Char) → List UInt8 → List UInt8) : Prop where
  echo_word : ∀ input word, (∀ c ∈ word, isPlain c = true) → word.head? ≠ some '-' →
    writes ["/bin/echo".toList, word] input = ascii (word ++ ['\n'])
  echo_nothing : ∀ input, writes ["/bin/echo".toList] input = ascii ['\n']
  base64 : ∀ text bytes, Base64.decode text = some bytes →
    writes ["/usr/bin/base64".toList, "-D".toList] (ascii (text ++ ['\n'])) = bytes

/-! ## Standard Base64 -/

theorem tableChar_eq (n : UInt32) : tableChar n = Base64.symbol (n.toNat % 64) := by
  have hindex : (n &&& 63).toNat = n.toNat % 64 := by
    rw [UInt32.toNat_and]
    exact Nat.and_two_pow_sub_one_eq_mod n.toNat 6
  have hlt : n.toNat % 64 < base64Table.length := by
    have hlength : base64Table.length = 64 := Base64.length_alphabet
    omega
  have htable : base64Table = Base64.alphabet := rfl
  rw [tableChar, hindex, Base64.symbol, List.getD_eq_getElem _ _ hlt,
    List.getD_eq_getElem _ _ (htable ▸ hlt)]
  rfl

theorem toNat_shiftLeft_byte (b : UInt8) {k : ℕ} (hk : k ≤ 16) :
    (b.toUInt32 <<< UInt32.ofNat k).toNat = b.toNat <<< k := by
  have hb := b.toNat_lt
  have hshift : (UInt32.ofNat k).toNat % 32 = k := by
    rw [UInt32.toNat_ofNat']
    omega
  have hlt : b.toNat <<< k < 2 ^ 32 := by
    rw [Nat.shiftLeft_eq]
    calc b.toNat * 2 ^ k < 2 ^ 8 * 2 ^ 16 :=
          Nat.mul_lt_mul_of_lt_of_le hb (Nat.pow_le_pow_right (by decide) hk) (by decide)
      _ ≤ 2 ^ 32 := by decide
  rw [UInt32.toNat_shiftLeft, hshift, UInt8.toNat_toUInt32, Nat.mod_eq_of_lt hlt]

/-- The 24 bits of a chunk. -/
theorem toNat_packed (b0 b1 b2 : UInt8) :
    (b0.toUInt32 <<< 16 ||| b1.toUInt32 <<< 8 ||| b2.toUInt32).toNat =
      (b0.toNat * 256 + b1.toNat) * 256 + b2.toNat := by
  have h1 : b1.toNat <<< 8 < 2 ^ 16 := by
    rw [Nat.shiftLeft_eq]
    exact Nat.mul_lt_mul_of_pos_right b1.toNat_lt (by decide)
  have hhigh : b0.toNat <<< 16 ||| b1.toNat <<< 8 = (b0.toNat * 256 + b1.toNat) <<< 8 := by
    rw [← Nat.shiftLeft_add_eq_or_of_lt h1, Nat.shiftLeft_eq, Nat.shiftLeft_eq, Nat.shiftLeft_eq]
    omega
  rw [UInt32.toNat_or, UInt32.toNat_or]
  have hb0 : (b0.toUInt32 <<< 16).toNat = b0.toNat <<< 16 := toNat_shiftLeft_byte b0 (by decide)
  have hb1 : (b1.toUInt32 <<< 8).toNat = b1.toNat <<< 8 := toNat_shiftLeft_byte b1 (by decide)
  rw [hb0, hb1, UInt8.toNat_toUInt32, hhigh, ← Nat.shiftLeft_add_eq_or_of_lt b2.toNat_lt,
    Nat.shiftLeft_eq]

theorem tableChar_shiftRight (n : UInt32) {k : ℕ} (hk : k < 32) :
    tableChar (n >>> UInt32.ofNat k) = Base64.symbol (n.toNat / 2 ^ k % 64) := by
  have hshift : (UInt32.ofNat k).toNat % 32 = k := by
    rw [UInt32.toNat_ofNat']
    omega
  rw [tableChar_eq, UInt32.toNat_shiftRight, hshift, Nat.shiftRight_eq_div_pow]

/-- The characters of the 24 bits of a chunk. -/
theorem encodeChunk_eq (chunk : List UInt8) :
    let n := ((chunk.getD 0 0).toNat * 256 + (chunk.getD 1 0).toNat) * 256 +
      (chunk.getD 2 0).toNat
    encodeChunk chunk = [Base64.symbol (n / 2 ^ 18 % 64), Base64.symbol (n / 2 ^ 12 % 64),
      if 1 < chunk.length then Base64.symbol (n / 2 ^ 6 % 64) else '=',
      if 2 < chunk.length then Base64.symbol (n % 64) else '='] := by
  intro n
  have h18 : ∀ m : UInt32, tableChar (m >>> 18) = Base64.symbol (m.toNat / 2 ^ 18 % 64) :=
    fun m => tableChar_shiftRight m (by decide)
  have h12 : ∀ m : UInt32, tableChar (m >>> 12) = Base64.symbol (m.toNat / 2 ^ 12 % 64) :=
    fun m => tableChar_shiftRight m (by decide)
  have h6 : ∀ m : UInt32, tableChar (m >>> 6) = Base64.symbol (m.toNat / 2 ^ 6 % 64) :=
    fun m => tableChar_shiftRight m (by decide)
  unfold encodeChunk
  simp only [h18, h12, h6, tableChar_eq, toNat_packed]
  rfl

/-- A chunk is a group of Base64, filled up with `=`. -/
theorem encodeChunk_group {chunk : List UInt8} (hpos : chunk ≠ []) (hle : chunk.length ≤ 3) :
    encodeChunk chunk = Base64.group chunk ++ List.replicate (3 - chunk.length) '=' := by
  rw [encodeChunk_eq]
  rcases chunk with _ | ⟨x, _ | ⟨y, _ | ⟨z, _ | ⟨b, bytes⟩⟩⟩⟩
  · exact absurd rfl hpos
  · have h0 : x.toNat * 256 * 256 / 262144 % 64 = x.toNat * 16 / 64 % 64 := by omega
    have h1 : x.toNat * 256 * 256 / 4096 % 64 = x.toNat * 16 % 64 := by omega
    simp [Base64.group, Base64.digits, Base64.number, Base64.unit, h0, h1]
  · have h0 : (x.toNat * 256 + y.toNat) * 256 / 262144 % 64 =
        (x.toNat * 256 + y.toNat) * 4 / 64 / 64 % 64 := by omega
    have h1 : (x.toNat * 256 + y.toNat) * 256 / 4096 % 64 =
        (x.toNat * 256 + y.toNat) * 4 / 64 % 64 := by omega
    have h2 : (x.toNat * 256 + y.toNat) * 256 / 64 % 64 =
        (x.toNat * 256 + y.toNat) * 4 % 64 := by omega
    simp [Base64.group, Base64.digits, Base64.number, Base64.unit, h0, h1, h2]
  · simp [Base64.group, Base64.digits, Base64.number, Base64.unit, Nat.div_div_eq_div_mul]
  · simp only [List.length_cons] at hle
    omega

/-- The loop writes standard Base64. -/
theorem base64Encode_eq (input : List UInt8) : base64Encode input = Base64.encode input := by
  unfold base64Encode
  induction input using Base64.encode.induct with
  | case1 => rfl
  | case2 x =>
    show encodeChunk [x] ++ [] = _
    rw [List.append_nil, encodeChunk_group (by simp) (by simp)]
    rfl
  | case3 x y =>
    show encodeChunk [x, y] ++ [] = _
    rw [List.append_nil, encodeChunk_group (by simp) (by simp)]
    rfl
  | case4 x y z bytes ih =>
    rw [chunks3, List.flatMap_cons, ih, Base64.encode, encodeChunk_group (by simp) (by simp)]
    simp

/-! ## The command line -/

theorem isPlain_of_mem_encode {input : List UInt8} :
    ∀ c ∈ base64Encode input, isPlain c = true ∧ c ≠ '-' ∧ c ≠ '\\' := by
  have halphabet : Base64.alphabet.all (fun c => isPlain c && c != '-' && c != '\\') = true := by
    decide +kernel
  have hsymbol : ∀ c ∈ Base64.alphabet, isPlain c = true ∧ c ≠ '-' ∧ c ≠ '\\' := by
    intro c hc
    have hall := List.all_eq_true.mp halphabet c hc
    simpa [and_assoc] using hall
  rw [base64Encode_eq]
  exact Base64.forall_mem_encode hsymbol (by decide) input

/-- Without quotes and backslashes, a string is its own value. -/
theorem stringLiteral_append {s : List Char} (hs : ∀ c ∈ s, c ≠ '"' ∧ c ≠ '\\')
    (t : List Char) : stringLiteral false (s ++ t) =
      (stringLiteral false t).map fun (value, rest) => (s ++ value, rest) := by
  induction s with
  | nil =>
    show stringLiteral false t = _
    cases stringLiteral false t <;> rfl
  | cons c s ih =>
    obtain ⟨⟨hquote, hescape⟩, hs⟩ := List.forall_mem_cons.mp hs
    rw [List.cons_append, stringLiteral, if_neg Bool.false_ne_true, if_neg hquote, if_neg hescape,
      ih hs]
    cases stringLiteral false t <;> rfl

/-- The line that is run. -/
def adminLine (script : List UInt8) : List Char :=
  "/bin/echo ".toList ++ base64Encode script ++ " | /usr/bin/base64 -D | /bin/sh".toList

/-- Characters that the string or the line would read in another way. -/
def marks : List Char := ['\'', '"', '<', '\n', '\x00', '\\']

theorem mem_adminLine {script : List UInt8} : ∀ c ∈ adminLine script, c ∉ marks := by
  have hecho : "/bin/echo ".toList.all (fun c => !marks.contains c) = true := by decide +kernel
  have hrest : " | /usr/bin/base64 -D | /bin/sh".toList.all
      (fun c => !marks.contains c) = true := by decide +kernel
  have hmarks : marks.all (fun c => !isPlain c) = true := by decide
  intro c hc
  rcases List.mem_append.mp hc with hc | hc
  · rcases List.mem_append.mp hc with hc | hc
    · simpa using List.all_eq_true.mp hecho c hc
    · intro hmark
      have hnot := List.all_eq_true.mp hmarks c hmark
      rw [(isPlain_of_mem_encode c hc).1] at hnot
      cases hnot
  · simpa using List.all_eq_true.mp hrest c hc

theorem macosAdminSource_eq (script : List UInt8) : macosAdminSource script =
    "do shell script \"".toList ++
      (adminLine script ++ '"' :: " with administrator privileges".toList) := by
  have hfirst : "do shell script \"/bin/echo ".toList =
      "do shell script \"".toList ++ "/bin/echo ".toList := by decide
  have hlast : " | /usr/bin/base64 -D | /bin/sh\" with administrator privileges".toList =
      " | /usr/bin/base64 -D | /bin/sh".toList ++
        '"' :: " with administrator privileges".toList := by decide
  delta macosAdminSource adminLine
  rw [hfirst, hlast]
  simp only [List.append_assoc]

theorem doShellScript_macosAdminSource (script : List UInt8) :
    doShellScript (macosAdminSource script) = some (adminLine script) := by
  have hdrop : (macosAdminSource script).dropPrefix? "do shell script \"".toList =
      some (adminLine script ++ '"' :: " with administrator privileges".toList) := by
    rw [macosAdminSource_eq]
    exact List.dropPrefix?_append_of_beq _ (beq_self_eq_true _)
  have hplain : ∀ c ∈ adminLine script, c ≠ '"' ∧ c ≠ '\\' := by
    intro c hc
    have hmark := mem_adminLine c hc
    simp only [marks, List.mem_cons, not_or] at hmark
    exact ⟨hmark.2.1, hmark.2.2.2.2.2.1⟩
  have hliteral : stringLiteral false
      (adminLine script ++ '"' :: " with administrator privileges".toList) =
      some (adminLine script, " with administrator privileges".toList) := by
    rw [stringLiteral_append hplain, stringLiteral, if_neg Bool.false_ne_true, if_pos rfl,
      Option.map_some]
    dsimp only
    rw [List.append_nil]
  unfold doShellScript
  rw [hdrop]
  show (stringLiteral false _).bind _ = _
  rw [hliteral, Option.bind_some]
  exact if_pos rfl

/-- `echo` has the encoding as its one argument, if it is not empty. -/
def adminCommands (script : List UInt8) : List (List (List Char)) :=
  [if script = [] then ["/bin/echo".toList] else ["/bin/echo".toList, base64Encode script],
    ["/usr/bin/base64".toList, "-D".toList], ["/bin/sh".toList]]

theorem base64Encode_ne_nil {script : List UInt8} (h : script ≠ []) : base64Encode script ≠ [] := by
  intro hnil
  have hdecode := Base64.decode_encode script
  rw [← base64Encode_eq, hnil] at hdecode
  exact h (Option.some.inj hdecode).symm

theorem simpleCommand_echo (env : Env) (script : List UInt8) :
    simpleCommand env ("/bin/echo ".toList ++ base64Encode script ++ [' ']) =
      some (if script = [] then ["/bin/echo".toList]
        else ["/bin/echo".toList, base64Encode script]) := by
  by_cases hscript : script = []
  · subst hscript
    rfl
  · have hpiece : "/bin/echo ".toList ++ base64Encode script ++ [' '] =
        ["/bin/echo".toList, base64Encode script].flatMap (· ++ [' ']) := by
      have hecho : "/bin/echo ".toList = "/bin/echo".toList ++ [' '] := by decide
      rw [hecho]
      simp
    rw [hpiece, if_neg hscript]
    refine simpleCommand_words ?_ rfl rfl
    intro w hw
    rcases List.mem_cons.mp hw with rfl | hw
    · have hplain : "/bin/echo".toList.all isPlain = true := by decide
      exact ⟨by decide, List.all_eq_true.mp hplain⟩
    · rw [List.mem_singleton.mp hw]
      exact ⟨base64Encode_ne_nil hscript, fun c hc => (isPlain_of_mem_encode c hc).1⟩

theorem pipeline_adminLine (env : Env) (script : List UInt8) :
    pipeline env (adminLine script) = some (adminCommands script) := by
  have hquiet : (adminLine script).any ['\'', '"', '<', '\n', '\x00'].contains = false := by
    rw [List.any_eq_false]
    intro c hc hmark
    exact mem_adminLine c hc (List.mem_append_left ['\\'] (List.contains_iff_mem.mp hmark))
  have hpieces : (adminLine script).splitOn '|' =
      ["/bin/echo ".toList ++ base64Encode script ++ [' '], " /usr/bin/base64 -D ".toList,
        " /bin/sh".toList] := by
    have hrest : " | /usr/bin/base64 -D | /bin/sh".toList =
        [' '] ++ '|' :: (" /usr/bin/base64 -D ".toList ++ '|' :: " /bin/sh".toList) := by decide
    have hencoded : '|' ∉ base64Encode script := fun hmem =>
      ne_of_isPlain (isPlain_of_mem_encode _ hmem).1 (by decide) rfl
    have hfirst : '|' ∉ "/bin/echo ".toList ++ base64Encode script ++ [' '] := by
      simp only [List.mem_append, not_or]
      exact ⟨⟨by decide, hencoded⟩, by decide⟩
    have hsecond : '|' ∉ " /usr/bin/base64 -D ".toList := by decide
    have hthird : '|' ∉ " /bin/sh".toList := by decide
    delta adminLine
    rw [hrest, ← List.append_assoc, List.splitOn_append_cons_self_of_not_mem hfirst,
      List.splitOn_append_cons_self_of_not_mem hsecond, List.splitOn_eq_singleton hthird]
  have hbase64 : simpleCommand env " /usr/bin/base64 -D ".toList =
      some ["/usr/bin/base64".toList, "-D".toList] := rfl
  have hsh : simpleCommand env " /bin/sh".toList = some ["/bin/sh".toList] := rfl
  rw [pipeline, hquiet, if_neg Bool.false_ne_true, hpieces]
  simp only [List.mapM_cons, List.mapM_nil, simpleCommand_echo, hbase64, hsh]
  rfl

/-! ## What the shell reads -/

theorem pipedInput_adminCommands {writes : List (List Char) → List UInt8 → List UInt8}
    (hwrites : PipePrograms writes) (script stdin : List UInt8) :
    pipedInput writes stdin (adminCommands script) = script := by
  have hdecode : Base64.decode (base64Encode script) = some script := by
    rw [base64Encode_eq]
    exact Base64.decode_encode script
  have hecho : writes (if script = [] then ["/bin/echo".toList]
      else ["/bin/echo".toList, base64Encode script]) stdin =
      ascii (base64Encode script ++ ['\n']) := by
    split_ifs with hscript
    · rw [hwrites.echo_nothing, hscript]
      rfl
    · refine hwrites.echo_word stdin _ (fun c hc => (isPlain_of_mem_encode c hc).1) fun hhead => ?_
      exact (isPlain_of_mem_encode '-' (List.mem_of_head? hhead)).2.1 rfl
  show writes ["/usr/bin/base64".toList, "-D".toList]
    (writes (if script = [] then _ else _) stdin) = script
  rw [hecho, hwrites.base64 _ _ hdecode]

/-- The output of `base64_encode` is four characters for each three bytes begun, of the alphabet
    but for the `=` at the end, and decodes to the input; none of its characters ends the string or
    the word it stands in, and the shell of the administrator reads the script. -/
theorem base64Encode_standard (input : List UInt8) :
    (base64Encode input).length = 4 * (input.length ⌈/⌉ 3) ∧
    (∃ symbols : List Char,
      base64Encode input = symbols ++ List.replicate (Base64.padding input.length) '=' ∧
      ∀ c ∈ symbols, c ∈ Base64.alphabet) ∧
    Base64.decode (base64Encode input) = some input ∧
    (∀ c ∈ base64Encode input, isPlain c = true ∧ c ≠ '"' ∧ c ≠ '\\') ∧
    doShellScript (macosAdminSource input) = some (adminLine input) ∧
    (∀ env, pipeline env (adminLine input) = some (adminCommands input)) ∧
    ∀ writes, PipePrograms writes →
      ∀ stdin, pipedInput writes stdin (adminCommands input) = input := by
  refine ⟨?_, ?_, ?_, fun c hc => ?_, doShellScript_macosAdminSource input,
    fun env => pipeline_adminLine env input,
    fun writes hwrites stdin => pipedInput_adminCommands hwrites input stdin⟩
  · rw [base64Encode_eq]
    exact Base64.length_encode input
  · rw [base64Encode_eq]
    exact Base64.encode_symbols input
  · rw [base64Encode_eq]
    exact Base64.decode_encode input
  · obtain ⟨hplain, -, hescape⟩ := isPlain_of_mem_encode c hc
    exact ⟨hplain, ne_of_isPlain hplain (by decide), hescape⟩

example : base64Encode (ascii "foobar".toList) = "Zm9vYmFy".toList ∧
    base64Encode (ascii "fo".toList) = "Zm8=".toList ∧
    base64Encode (ascii "f".toList) = "Zg==".toList := by decide

/-- `echo` without options, and `base64 -D`, which skips line ends. -/
def macosPrograms (argv : List (List Char)) (input : List UInt8) : List UInt8 :=
  if argv = ["/usr/bin/base64".toList, "-D".toList] then
    (Base64.decode ((input.map fun b => Char.ofNat b.toNat).filter (· ≠ '\n'))).getD []
  else ascii ([' '].intercalate argv.tail ++ ['\n'])

theorem map_ofNat_ascii {s : List Char} (hs : ∀ c ∈ s, c.toNat < 256) :
    ((ascii s).map fun b => Char.ofNat b.toNat) = s := by
  rw [ascii, List.map_map]
  refine (List.map_congr_left fun c hc => ?_).trans (List.map_id s)
  show Char.ofNat (UInt8.ofNat c.toNat).toNat = c
  rw [UInt8.toNat_ofNat_of_lt' (hs c hc), Char.ofNat_toNat]

theorem macosPrograms_pipe : PipePrograms macosPrograms where
  echo_word input word _ _ := by
    have hargv : ["/bin/echo".toList, word] ≠ ["/usr/bin/base64".toList, "-D".toList] := by
      intro heq
      have hne : "/bin/echo".toList ≠ "/usr/bin/base64".toList := by decide
      exact hne (List.cons.inj heq).1
    rw [macosPrograms, if_neg hargv]
    simp
  echo_nothing input := rfl
  base64 text bytes hdecode := by
    obtain rfl := Base64.decode_eq_some_iff.mp hdecode
    have halphabet : Base64.alphabet.all (fun c => c.toNat < 256 && c != '\n') = true := by
      decide +kernel
    have hmem : ∀ c ∈ Base64.encode bytes, c.toNat < 256 ∧ c ≠ '\n' := by
      refine Base64.forall_mem_encode (fun c hc => ?_) (by decide) bytes
      simpa using List.all_eq_true.mp halphabet c hc
    have hlt : ∀ c ∈ Base64.encode bytes ++ ['\n'], c.toNat < 256 := by
      intro c hc
      rcases List.mem_append.mp hc with hc | hc
      · exact (hmem c hc).1
      · rw [List.mem_singleton.mp hc]
        decide
    have hskip : (Base64.encode bytes ++ ['\n']).filter (· ≠ '\n') = Base64.encode bytes := by
      rw [List.filter_append, List.filter_eq_self.mpr fun c hc => decide_eq_true (hmem c hc).2]
      exact List.append_nil _
    rw [macosPrograms, if_pos rfl, map_ofNat_ascii hlt, hskip, hdecode, Option.getD_some]

theorem base64Encode_standard_true :
    pipedInput macosPrograms [] (adminCommands (ascii "true".toList)) = ascii "true".toList :=
  (base64Encode_standard (ascii "true".toList)).2.2.2.2.2.2 macosPrograms macosPrograms_pipe []

end EasyJob.Desktop
