import EasyJob.Lib.PropertyList

/-!
# The plist of the daemon

Model of `macos_daemon_plist` and `macos_daemon_plist_for_label`
(`crates/platform/src/startup.rs` lines 139–186), on texts: `Path::display` gives a path as it is.

* `decodeDocument_eq`: what the property list decodes to where its texts are read.
* `not_roundTrips_of_lt`: with a `<` in a path it does not give the paths back.
* `macosDaemonPlist_iff`: when it gives them back.
-/

namespace EasyJob.Platform

open Xml PropertyList
open Words (splitAtFirst splitAtFirst_append)

/-! ## Building the plist -/

/-- `Path::join` on Unix. -/
def pathJoin (path name : List Char) : List Char :=
  if name.head? = some '/' then name
  else if path.isEmpty ∨ path.getLast? = some '/' then path ++ name
  else path ++ '/' :: name

/-- Model of `MACOS_DAEMON_LABEL` (line 19). -/
def macosDaemonLabel : List Char := "com.easyjob.agent".toList

/-- The standard output of the daemon. -/
def outLog (dataDir : List Char) : List Char :=
  pathJoin (pathJoin dataDir "logs".toList) "daemon.out.log".toList

/-- The standard error of the daemon. -/
def errLog (dataDir : List Char) : List Char :=
  pathJoin (pathJoin dataDir "logs".toList) "daemon.err.log".toList

/-- Model of `macos_daemon_plist_for_label` (lines 145–186). -/
def macosDaemonPlistForLabel (label agentExe dataDir : List Char) : List Char :=
  ["<?xml version=\"1.0\" encoding=\"UTF-8\"?>\n".toList,
    "<!DOCTYPE plist PUBLIC \"-//Apple//DTD PLIST 1.0//EN\" ".toList,
    "\"http://www.apple.com/DTDs/PropertyList-1.0.dtd\">\n".toList,
    "<plist version=\"1.0\">\n".toList,
    "<dict>\n".toList,
    "    <key>Label</key>\n".toList,
    "    <string>".toList, label, "</string>\n".toList,
    "    <key>ProgramArguments</key>\n".toList,
    "    <array>\n".toList,
    "        <string>".toList, agentExe, "</string>\n".toList,
    "        <string>--daemon</string>\n".toList,
    "        <string>--data-dir</string>\n".toList,
    "        <string>".toList, dataDir, "</string>\n".toList,
    "    </array>\n".toList,
    "    <key>RunAtLoad</key>\n".toList,
    "    <true/>\n".toList,
    "    <key>KeepAlive</key>\n".toList,
    "    <true/>\n".toList,
    "    <key>Umask</key>\n".toList,
    "    <integer>2</integer>\n".toList,
    "    <key>StandardOutPath</key>\n".toList,
    "    <string>".toList, outLog dataDir, "</string>\n".toList,
    "    <key>StandardErrorPath</key>\n".toList,
    "    <string>".toList, errLog dataDir, "</string>\n".toList,
    "</dict>\n".toList,
    "</plist>\n".toList].flatten

/-- Model of `macos_daemon_plist` (lines 140–142). -/
def macosDaemonPlist (agentExe dataDir : List Char) : List Char :=
  macosDaemonPlistForLabel macosDaemonLabel agentExe dataDir

/-! ## What it should decode to -/

/-- The plist decodes to a dictionary with these arguments and log files. -/
def RoundTrips (agentExe dataDir : List Char) : Prop :=
  ∃ entries, decodeDocument (macosDaemonPlist agentExe dataDir) = some (.dict entries) ∧
    entries.lookup "ProgramArguments".toList = some (.array [.string agentExe,
      .string "--daemon".toList, .string "--data-dir".toList, .string dataDir]) ∧
    entries.lookup "StandardOutPath".toList = some (.string (outLog dataDir)) ∧
    entries.lookup "StandardErrorPath".toList = some (.string (errLog dataDir))

/-- Character data that stands for itself: no reference, no tag, no carriage return, and not the
    end of a CDATA section. -/
def IsPlainText (s : List Char) : Prop :=
  '&' ∉ s ∧ '<' ∉ s ∧ '\r' ∉ s ∧ ¬[']', ']', '>'] <:+: s

/-! ## The text, part by part -/

def doctype : List Char :=
  "<!DOCTYPE plist PUBLIC \"-//Apple//DTD PLIST 1.0//EN\" ".toList ++
    "\"http://www.apple.com/DTDs/PropertyList-1.0.dtd\">".toList

/-- The declaration and the document type declaration. -/
def xmlHead : List Char := "<?xml version=\"1.0\" encoding=\"UTF-8\"?>\n".toList ++ doctype

/-- The start tag of the root has an attribute. -/
def plistTag : List Char := "\n<plist version=\"1.0\">".toList

def startTag (name : String) : Token := .startTag name.toList

def endTag (name : String) : Token := .endTag name.toList

/-- The tags up to the program, each with what is before it. -/
def labelParts : List (List Char × Token) :=
  [("\n".toList, startTag "dict"), ("\n    ".toList, startTag "key"),
    ("Label".toList, endTag "key"), ("\n    ".toList, startTag "string"),
    ("com.easyjob.agent".toList, endTag "string"), ("\n    ".toList, startTag "key"),
    ("ProgramArguments".toList, endTag "key"), ("\n    ".toList, startTag "array"),
    ("\n        ".toList, startTag "string")]

/-- From the program to the data directory. -/
def programParts : List (List Char × Token) :=
  [([], endTag "string"), ("\n        ".toList, startTag "string"),
    ("--daemon".toList, endTag "string"), ("\n        ".toList, startTag "string"),
    ("--data-dir".toList, endTag "string"), ("\n        ".toList, startTag "string")]

/-- From the data directory to the standard output. -/
def dataDirParts : List (List Char × Token) :=
  [([], endTag "string"), ("\n    ".toList, endTag "array"), ("\n    ".toList, startTag "key"),
    ("RunAtLoad".toList, endTag "key"), ("\n    ".toList, .emptyTag "true".toList),
    ("\n    ".toList, startTag "key"), ("KeepAlive".toList, endTag "key"),
    ("\n    ".toList, .emptyTag "true".toList), ("\n    ".toList, startTag "key"),
    ("Umask".toList, endTag "key"), ("\n    ".toList, startTag "integer"),
    ("2".toList, endTag "integer"), ("\n    ".toList, startTag "key"),
    ("StandardOutPath".toList, endTag "key"), ("\n    ".toList, startTag "string")]

/-- From the standard output to the standard error. -/
def outLogParts : List (List Char × Token) :=
  [([], endTag "string"), ("\n    ".toList, startTag "key"),
    ("StandardErrorPath".toList, endTag "key"), ("\n    ".toList, startTag "string")]

/-- After the standard error. -/
def errLogParts : List (List Char × Token) :=
  [([], endTag "string"), ("\n".toList, endTag "dict"), ("\n".toList, endTag "plist")]

/-- The text after the head, with these four texts in their places. -/
def plistContent (agentExe dataDir out err : List Char) : List Char :=
  plistTag ++ (renderParts labelParts ++ (agentExe ++ (renderParts programParts ++ (dataDir ++
    (renderParts dataDirParts ++ (out ++ (renderParts outLogParts ++ (err ++
      (renderParts errLogParts ++ ['\n'])))))))))

/-- A character of the fixed parts: one XML allows, not the end of a line by itself, and not the
    beginning of a reference, a declaration or an instruction. -/
def isFixedChar (c : Char) : Bool := isChar c && c != '\r' && !isOpener c

theorem isFixedChar_parts (parts : List (List Char × Token))
    (h : parts ∈ [labelParts, programParts, dataDirParts, outLogParts, errLogParts]) :
    (renderParts parts).all isFixedChar = true := by
  have hall : [labelParts, programParts, dataDirParts, outLogParts, errLogParts].all
      (fun parts => (renderParts parts).all isFixedChar) = true := by
    decide +kernel
  exact List.all_eq_true.mp hall parts h

theorem isFixedChar_plistTag : plistTag.all isFixedChar = true := by decide +kernel

section FixedText

variable {s : List Char} (h : s.all isFixedChar = true)
include h

theorem isChar_fixed : s.all isChar = true := by
  rw [List.all_eq_true] at h ⊢
  intro c hc
  have hfixed := h c hc
  simp only [isFixedChar, Bool.and_eq_true] at hfixed
  exact hfixed.1.1

theorem return_not_mem_fixed : '\r' ∉ s := fun hmem =>
  absurd (List.all_eq_true.mp h _ hmem) (by decide)

theorem countP_fixed : s.countP isOpener = 0 := by
  rw [List.countP_eq_zero]
  intro c hc hopener
  have hfixed := List.all_eq_true.mp h c hc
  simp [isFixedChar, hopener] at hfixed

end FixedText

theorem macosDaemonPlist_eq (agentExe dataDir : List Char) :
    macosDaemonPlist agentExe dataDir =
      xmlHead ++ plistContent agentExe dataDir (outLog dataDir) (errLog dataDir) := by
  have hlabel : ["<?xml version=\"1.0\" encoding=\"UTF-8\"?>\n".toList,
      "<!DOCTYPE plist PUBLIC \"-//Apple//DTD PLIST 1.0//EN\" ".toList,
      "\"http://www.apple.com/DTDs/PropertyList-1.0.dtd\">\n".toList,
      "<plist version=\"1.0\">\n".toList, "<dict>\n".toList, "    <key>Label</key>\n".toList,
      "    <string>".toList, macosDaemonLabel, "</string>\n".toList,
      "    <key>ProgramArguments</key>\n".toList, "    <array>\n".toList,
      "        <string>".toList].flatten = xmlHead ++ (plistTag ++ renderParts labelParts) := by
    decide +kernel
  have hprogram : ["</string>\n".toList, "        <string>--daemon</string>\n".toList,
      "        <string>--data-dir</string>\n".toList, "        <string>".toList].flatten =
        renderParts programParts := by
    decide +kernel
  have hdataDir : ["</string>\n".toList, "    </array>\n".toList,
      "    <key>RunAtLoad</key>\n".toList, "    <true/>\n".toList,
      "    <key>KeepAlive</key>\n".toList, "    <true/>\n".toList,
      "    <key>Umask</key>\n".toList, "    <integer>2</integer>\n".toList,
      "    <key>StandardOutPath</key>\n".toList, "    <string>".toList].flatten =
        renderParts dataDirParts := by
    decide +kernel
  have hout : ["</string>\n".toList, "    <key>StandardErrorPath</key>\n".toList,
      "    <string>".toList].flatten = renderParts outLogParts := by
    decide +kernel
  have herr : ["</string>\n".toList, "</dict>\n".toList, "</plist>\n".toList].flatten =
      renderParts errLogParts ++ ['\n'] := by
    decide +kernel
  have hsplit : macosDaemonPlist agentExe dataDir =
      (["<?xml version=\"1.0\" encoding=\"UTF-8\"?>\n".toList,
        "<!DOCTYPE plist PUBLIC \"-//Apple//DTD PLIST 1.0//EN\" ".toList,
        "\"http://www.apple.com/DTDs/PropertyList-1.0.dtd\">\n".toList,
        "<plist version=\"1.0\">\n".toList, "<dict>\n".toList, "    <key>Label</key>\n".toList,
        "    <string>".toList, macosDaemonLabel, "</string>\n".toList,
        "    <key>ProgramArguments</key>\n".toList, "    <array>\n".toList,
        "        <string>".toList] ++ ([agentExe] ++ (["</string>\n".toList,
        "        <string>--daemon</string>\n".toList,
        "        <string>--data-dir</string>\n".toList, "        <string>".toList] ++ ([dataDir] ++
        (["</string>\n".toList, "    </array>\n".toList,
        "    <key>RunAtLoad</key>\n".toList, "    <true/>\n".toList,
        "    <key>KeepAlive</key>\n".toList, "    <true/>\n".toList,
        "    <key>Umask</key>\n".toList, "    <integer>2</integer>\n".toList,
        "    <key>StandardOutPath</key>\n".toList,
        "    <string>".toList] ++ ([outLog dataDir] ++ (["</string>\n".toList,
        "    <key>StandardErrorPath</key>\n".toList, "    <string>".toList] ++ ([errLog dataDir] ++
        ["</string>\n".toList, "</dict>\n".toList, "</plist>\n".toList])))))))).flatten := rfl
  rw [hsplit]
  simp only [List.flatten_append, List.flatten_singleton, hlabel, hprogram, hdataDir, hout, herr]
  delta plistContent
  simp only [List.append_assoc]

/-! ## The tokens -/

theorem lex_plistTag (rest : List Char) :
    lex (plistTag ++ rest) =
      (lex rest).map fun ts => .char '\n' :: .startTag "plist".toList :: ts := by
  have htag : plistTag = '\n' :: '<' :: "plist version=\"1.0\">".toList := by decide
  have hnewline : ∀ s, lexToken '\n' s = some (.char '\n', s) := by
    intro s
    rw [lexToken, if_neg (by decide), if_neg (by decide), if_neg fun h => absurd h.1 (by decide)]
  have hplist : lexToken '<' ("plist version=\"1.0\">".toList ++ rest) =
      some (.startTag "plist".toList, rest) := by rfl
  rw [htag, List.cons_append, List.cons_append, lex_cons (hnewline _), lex_cons hplist,
    Option.map_map]
  rfl

/-- Character data before a tag. -/
theorem lex_text_parts {s : List Char} (hs : '<' ∉ s) (parts : List (List Char × Token))
    (h : parts.all isCleanPart = true) (hhead : ∃ tag parts', parts = ([], tag) :: parts')
    (rest : List Char) :
    lex (s ++ (renderParts parts ++ rest)) =
      (lex s).bind fun ts => (lex rest).map fun ts' => ts ++ (partsTokens parts ++ ts') := by
  have hlex := lex_parts h rest
  obtain ⟨tag, parts', rfl⟩ := hhead
  have htag : tag.isTag = true := by
    rw [List.all_cons, Bool.and_eq_true] at h
    exact (Bool.and_eq_true_iff.mp h.1).2
  obtain ⟨-, t, ht⟩ := lex_tag htag []
  have hrender : renderParts (([], tag) :: parts') ++ rest =
      '<' :: (t ++ (renderParts parts' ++ rest)) := by
    simp [renderParts, ht]
  rw [hrender] at hlex ⊢
  rw [lex_append hs, hlex]
  simp only [Option.map_map]
  rfl

/-- The tokens of the content, with those of the four texts in their places. -/
def contentTokens (agentExe dataDir out err : List Token) : List Token :=
  .char '\n' :: .startTag "plist".toList :: (partsTokens labelParts ++ (agentExe ++
    (partsTokens programParts ++ (dataDir ++ (partsTokens dataDirParts ++ (out ++
      (partsTokens outLogParts ++ (err ++ (partsTokens errLogParts ++ [.char '\n'])))))))))

theorem lex_plistContent {agentExe dataDir out err : List Char} (hagent : '<' ∉ agentExe)
    (hdata : '<' ∉ dataDir) (hout : '<' ∉ out) (herr : '<' ∉ err) :
    lex (plistContent agentExe dataDir out err) =
      (lex agentExe).bind fun agentExe' => (lex dataDir).bind fun dataDir' =>
        (lex out).bind fun out' => (lex err).map fun err' =>
          contentTokens agentExe' dataDir' out' err' := by
  have hnewline : lex ['\n'] = some [.char '\n'] := lex_clean (by decide) (by decide) (by decide)
  delta plistContent
  rw [lex_plistTag, lex_parts (by decide),
    lex_text_parts hagent programParts (by decide) ⟨_, _, rfl⟩,
    lex_text_parts hdata dataDirParts (by decide) ⟨_, _, rfl⟩,
    lex_text_parts hout outLogParts (by decide) ⟨_, _, rfl⟩,
    lex_text_parts herr errLogParts (by decide) ⟨_, _, rfl⟩, hnewline]
  cases lex agentExe with
  | none => rfl
  | some agentExe' =>
    cases lex dataDir with
    | none => rfl
    | some dataDir' =>
      cases lex out with
      | none => rfl
      | some out' => cases lex err <;> rfl

/-! ## The tree -/

def space (s : String) : List Node := s.toList.map .char

def textElement (name : String) (s : List Char) : Node := .element name.toList (s.map .char)

def arrayNodes (agentExe dataDir : List Char) : List Node :=
  space "\n        " ++ (textElement "string" agentExe :: (space "\n        " ++
    (textElement "string" "--daemon".toList :: (space "\n        " ++
      (textElement "string" "--data-dir".toList :: (space "\n        " ++
        (textElement "string" dataDir :: space "\n    ")))))))

def dictNodes (agentExe dataDir out err : List Char) : List Node :=
  space "\n    " ++ (textElement "key" "Label".toList :: (space "\n    " ++
    (textElement "string" "com.easyjob.agent".toList :: (space "\n    " ++
    (textElement "key" "ProgramArguments".toList :: (space "\n    " ++
    (.element "array".toList (arrayNodes agentExe dataDir) :: (space "\n    " ++
    (textElement "key" "RunAtLoad".toList :: (space "\n    " ++
    (.element "true".toList [] :: (space "\n    " ++
    (textElement "key" "KeepAlive".toList :: (space "\n    " ++
    (.element "true".toList [] :: (space "\n    " ++
    (textElement "key" "Umask".toList :: (space "\n    " ++
    (textElement "integer" "2".toList :: (space "\n    " ++
    (textElement "key" "StandardOutPath".toList :: (space "\n    " ++
    (textElement "string" out :: (space "\n    " ++
    (textElement "key" "StandardErrorPath".toList :: (space "\n    " ++
    (textElement "string" err :: space "\n")))))))))))))))))))))))))))

theorem build_contentTokens (agentExe dataDir out err : List Char) :
    build [] [] (contentTokens (agentExe.map .char) (dataDir.map .char) (out.map .char)
        (err.map .char)) =
      some [.char '\n', .element "plist".toList (space "\n" ++
        [.element "dict".toList (dictNodes agentExe dataDir out err)] ++ space "\n"),
          .char '\n'] := by
  have hchar : ∀ stack children c ts,
      build stack children (.char c :: ts) = build stack (children ++ [.char c]) ts :=
    fun _ _ _ _ => rfl
  delta contentTokens partsTokens labelParts programParts dataDirParts outLogParts errLogParts
    startTag endTag
  simp only [List.flatMap_cons, List.flatMap_nil, List.map_nil, List.append_assoc,
    List.cons_append, List.nil_append, List.append_nil, hchar, build_chars, build_startTag,
    build_endTag, build_emptyTag]
  rfl

/-! ## The values -/

theorem decode_string (s : List Char) : decode (textElement "string" s) = some (.string s) := by
  rw [textElement, decode, if_pos rfl, chars_chars]
  rfl

/-- An entry of a dictionary, with the white space before its key and its value. -/
theorem decodeEntries_entry {between : String} (hbetween : between.toList.all isSpace = true)
    (key : List Char) {node : Node} {v : Value} (hv : decode node = some v) (nodes : List Node) :
    decodeEntries none (space "\n    " ++ (textElement "key" key ::
        (space between ++ (node :: nodes)))) =
      (decodeEntries none nodes).map ((key, v) :: ·) := by
  rw [space, decodeEntries_space (by decide), textElement, decodeEntries, if_pos rfl,
    chars_chars, Option.bind_some, space, decodeEntries_space hbetween, decodeEntries_value hv]

theorem decode_array (agentExe dataDir : List Char) :
    decode (.element "array".toList (arrayNodes agentExe dataDir)) =
      some (.array [.string agentExe, .string "--daemon".toList, .string "--data-dir".toList,
        .string dataDir]) := by
  have hspace : ∀ nodes, decodeAll (space "\n        " ++ nodes) = decodeAll nodes :=
    decodeAll_space (by decide)
  have hend : decodeAll (space "\n    ") = some [] := by rfl
  have hnodes : decodeAll (arrayNodes agentExe dataDir) =
      some [.string agentExe, .string "--daemon".toList, .string "--data-dir".toList,
        .string dataDir] := by
    delta arrayNodes
    rw [hspace, decodeAll_value (decode_string agentExe), hspace,
      decodeAll_value (decode_string _), hspace, decodeAll_value (decode_string _), hspace,
      decodeAll_value (decode_string dataDir), hend]
    rfl
  have harray : ∀ nodes, decode (.element "array".toList nodes) = (decodeAll nodes).map .array :=
    fun _ => rfl
  rw [harray, hnodes]
  rfl

/-- The dictionary of the daemon. -/
def daemonEntries (agentExe dataDir out err : List Char) : List (List Char × Value) :=
  [("Label".toList, .string "com.easyjob.agent".toList),
    ("ProgramArguments".toList, .array [.string agentExe, .string "--daemon".toList,
      .string "--data-dir".toList, .string dataDir]),
    ("RunAtLoad".toList, .bool true), ("KeepAlive".toList, .bool true),
    ("Umask".toList, .scalar "integer".toList "2".toList),
    ("StandardOutPath".toList, .string out), ("StandardErrorPath".toList, .string err)]

theorem decode_dict (agentExe dataDir out err : List Char) :
    decode (.element "dict".toList (dictNodes agentExe dataDir out err)) =
      some (.dict (daemonEntries agentExe dataDir out err)) := by
  have htrue : decode (.element "true".toList []) = some (.bool true) := by rfl
  have hinteger : decode (textElement "integer" "2".toList) =
      some (.scalar "integer".toList "2".toList) := by rfl
  have hspace : "\n    ".toList.all isSpace = true := by decide
  have hend : decodeEntries none (space "\n") = some [] := by rfl
  have hnodes : decodeEntries none (dictNodes agentExe dataDir out err) =
      some (daemonEntries agentExe dataDir out err) := by
    delta dictNodes
    rw [decodeEntries_entry hspace _ (decode_string _),
      decodeEntries_entry hspace _ (decode_array agentExe dataDir),
      decodeEntries_entry hspace _ htrue, decodeEntries_entry hspace _ htrue,
      decodeEntries_entry hspace _ hinteger, decodeEntries_entry hspace _ (decode_string out),
      decodeEntries_entry hspace _ (decode_string err), hend]
    rfl
  have hdict : ∀ nodes,
      decode (.element "dict".toList nodes) = (decodeEntries none nodes).map .dict :=
    fun _ => rfl
  rw [hdict, hnodes]
  rfl

/-! ## The document -/

theorem prolog_xmlHead (content : List Char) : prolog (xmlHead ++ content) = some content := by
  have hdeclaration : splitAtFirst ['?', '>'] xmlHead =
      some ("<?xml version=\"1.0\" encoding=\"UTF-8\"".toList, '\n' :: doctype) := by
    decide +kernel
  have hdoctype : splitAtFirst ['>'] doctype = some (doctype.dropLast, []) := by decide +kernel
  have hbracket : doctype.dropLast.contains '[' = false := by decide +kernel
  have hxml : "<?xml ".toList.isPrefixOf (xmlHead ++ content) = true := by rfl
  have hspace : ('\n' :: doctype ++ content).dropWhile isSpace = doctype ++ content := by rfl
  have hstart : "<!DOCTYPE ".toList.isPrefixOf (doctype ++ content) = true := by rfl
  delta prolog
  simp only [hxml, if_true, splitAtFirst_append hdeclaration, Option.map_some,
    Option.bind_eq_bind, Option.bind_some, hspace, hstart, splitAtFirst_append hdoctype, hbracket,
    List.nil_append]
  rfl

theorem normalize_text_parts (s : List Char) (parts : List (List Char × Token))
    (hreturn : '\r' ∉ renderParts parts) (hhead : ∃ t, renderParts parts = '<' :: t)
    (rest : List Char) :
    normalize (s ++ (renderParts parts ++ rest)) =
      normalize s ++ (renderParts parts ++ normalize rest) := by
  have hparts := normalize_append hreturn rest
  obtain ⟨t, ht⟩ := hhead
  rw [← hparts, ht, List.cons_append, Xml.normalize,
    normalizeFrom_append (by decide) (by decide), Xml.normalize]
  rfl

theorem normalize_plist (agentExe dataDir out err : List Char) :
    normalize (xmlHead ++ plistContent agentExe dataDir out err) =
      xmlHead ++ plistContent (normalize agentExe) (normalize dataDir) (normalize out)
        (normalize err) := by
  have hnewline : normalize ['\n'] = ['\n'] := by rfl
  have hlabel := return_not_mem_fixed (isFixedChar_parts labelParts (by simp))
  have hprogram := return_not_mem_fixed (isFixedChar_parts programParts (by simp))
  have hdataDir := return_not_mem_fixed (isFixedChar_parts dataDirParts (by simp))
  have hout := return_not_mem_fixed (isFixedChar_parts outLogParts (by simp))
  have herr := return_not_mem_fixed (isFixedChar_parts errLogParts (by simp))
  delta plistContent
  rw [normalize_append (by decide +kernel),
    normalize_append (return_not_mem_fixed isFixedChar_plistTag), normalize_append hlabel,
    normalize_text_parts agentExe programParts hprogram ⟨_, rfl⟩,
    normalize_text_parts dataDir dataDirParts hdataDir ⟨_, rfl⟩,
    normalize_text_parts out outLogParts hout ⟨_, rfl⟩,
    normalize_text_parts err errLogParts herr ⟨_, rfl⟩, hnewline]

/-! ## The log files -/

theorem pathJoin_eq (path : List Char) {name : List Char} (hname : name.head? ≠ some '/') :
    ∃ suffix, pathJoin path name = path ++ suffix ∧ ∀ c ∈ suffix, c = '/' ∨ c ∈ name := by
  rw [pathJoin, if_neg hname]
  split_ifs
  · exact ⟨name, rfl, fun c hc => .inr hc⟩
  · exact ⟨'/' :: name, rfl, fun c hc => List.mem_cons.mp hc⟩

/-- A log file is in a directory of the data directory. -/
theorem log_eq (dataDir : List Char) {name : List Char}
    (hname : name = "daemon.out.log".toList ∨ name = "daemon.err.log".toList) :
    ∃ suffix, pathJoin (pathJoin dataDir "logs".toList) name = dataDir ++ suffix ∧
      ∀ c ∈ suffix, isChar c = true ∧ c ≠ '<' ∧ c ≠ '>' ∧ c ≠ '&' ∧ c ≠ '\r' := by
  have hall : "/logsdaemon.out.err.log".toList.all (fun c => isChar c && c != '<' && c != '>' &&
      c != '&' && c != '\r') = true := by decide
  have hnames : ∀ c, c = '/' ∨ c ∈ "logs".toList ∨ c ∈ name →
      c ∈ "/logsdaemon.out.err.log".toList := by
    have hlogs : "logs".toList ⊆ "/logsdaemon.out.err.log".toList := by decide
    have hname' : name ⊆ "/logsdaemon.out.err.log".toList := by
      rcases hname with rfl | rfl <;> decide
    rintro c (rfl | hc | hc)
    · decide
    · exact hlogs hc
    · exact hname' hc
  have hhead : name.head? ≠ some '/' := by
    rcases hname with rfl | rfl <;> decide
  obtain ⟨logs, hlogs, hlogsChars⟩ :=
    pathJoin_eq dataDir (by decide : "logs".toList.head? ≠ some '/')
  obtain ⟨file, hfile, hfileChars⟩ := pathJoin_eq (dataDir ++ logs) hhead
  refine ⟨logs ++ file, by rw [hlogs, hfile, List.append_assoc], fun c hc => ?_⟩
  have hmem : c ∈ "/logsdaemon.out.err.log".toList := by
    rcases List.mem_append.mp hc with hc | hc
    · exact hnames c ((hlogsChars c hc).imp_right .inl)
    · exact hnames c ((hfileChars c hc).imp_right .inr)
  simpa [and_assoc] using List.all_eq_true.mp hall c hmem

theorem lt_not_mem_log {dataDir : List Char} (h : '<' ∉ dataDir) {name : List Char}
    (hname : name = "daemon.out.log".toList ∨ name = "daemon.err.log".toList) :
    '<' ∉ pathJoin (pathJoin dataDir "logs".toList) name := by
  obtain ⟨suffix, hlog, hsuffix⟩ := log_eq dataDir hname
  rw [hlog]
  exact fun hmem => (List.mem_append.mp hmem).elim h fun hc => (hsuffix _ hc).2.1 rfl

/-- A log file is plain text where the data directory is. -/
theorem isPlainText_log {dataDir : List Char} (h : IsPlainText dataDir) {name : List Char}
    (hname : name = "daemon.out.log".toList ∨ name = "daemon.err.log".toList) :
    IsPlainText (pathJoin (pathJoin dataDir "logs".toList) name) := by
  obtain ⟨suffix, hlog, hsuffix⟩ := log_eq dataDir hname
  obtain ⟨hamp, hlt, hreturn, hcdata⟩ := h
  rw [hlog]
  refine ⟨?_, ?_, ?_, ?_⟩
  · exact fun hmem => (List.mem_append.mp hmem).elim hamp fun hc => (hsuffix _ hc).2.2.2.1 rfl
  · exact fun hmem => (List.mem_append.mp hmem).elim hlt fun hc => (hsuffix _ hc).2.1 rfl
  · exact fun hmem => (List.mem_append.mp hmem).elim hreturn fun hc => (hsuffix _ hc).2.2.2.2 rfl
  · have hgt : '>' ∉ suffix := fun hc => (hsuffix _ hc).2.2.1 rfl
    exact fun hinfix => hcdata (infix_of_append_right (t := [']', ']']) hgt hinfix)

theorem isChar_plist {agentExe dataDir : List Char} (hagent : ∀ c ∈ agentExe, isChar c = true)
    (hdata : ∀ c ∈ dataDir, isChar c = true) :
    (macosDaemonPlist agentExe dataDir).all isChar = true := by
  have hlog : ∀ name, name = "daemon.out.log".toList ∨ name = "daemon.err.log".toList →
      (pathJoin (pathJoin dataDir "logs".toList) name).all isChar = true := by
    intro name hname
    obtain ⟨suffix, hlog, hsuffix⟩ := log_eq dataDir hname
    rw [hlog, List.all_append, List.all_eq_true.mpr hdata, Bool.true_and]
    exact List.all_eq_true.mpr fun c hc => (hsuffix c hc).1
  have hout : (outLog dataDir).all isChar = true := hlog _ (.inl rfl)
  have herr : (errLog dataDir).all isChar = true := hlog _ (.inr rfl)
  have hparts : ∀ parts ∈ [labelParts, programParts, dataDirParts, outLogParts, errLogParts],
      (renderParts parts).all isChar = true := fun _ h => isChar_fixed (isFixedChar_parts _ h)
  rw [macosDaemonPlist_eq]
  delta plistContent
  simp only [List.all_append, Bool.and_eq_true]
  exact ⟨by decide +kernel, isChar_fixed isFixedChar_plistTag, hparts _ (by simp),
    List.all_eq_true.mpr hagent, hparts _ (by simp), List.all_eq_true.mpr hdata,
    hparts _ (by simp), hout, hparts _ (by simp), herr, hparts _ (by simp), by decide⟩

/-! ## What the plist decodes to -/

/-- The dictionary is the only value. -/
theorem decodeAll_dict (agentExe dataDir out err : List Char) :
    decodeAll (space "\n" ++ [.element "dict".toList (dictNodes agentExe dataDir out err)] ++
        space "\n") = some [.dict (daemonEntries agentExe dataDir out err)] := by
  have hend : decodeAll ("\n".toList.map .char) = some [] := by rfl
  rw [List.append_assoc, space, decodeAll_space (by decide), List.singleton_append,
    decodeAll_value (decode_dict agentExe dataDir out err), hend]
  rfl

theorem prolog_plist (agentExe dataDir : List Char) :
    prolog (normalize (macosDaemonPlist agentExe dataDir)) =
      some (plistContent (normalize agentExe) (normalize dataDir) (normalize (outLog dataDir))
        (normalize (errLog dataDir))) := by
  rw [macosDaemonPlist_eq, normalize_plist, prolog_xmlHead]

/-- Without a `<` in a path, the document is read where its four texts are. -/
theorem lex_plist {agentExe dataDir : List Char} (hagent : '<' ∉ agentExe)
    (hdata : '<' ∉ dataDir) :
    lex (plistContent (normalize agentExe) (normalize dataDir) (normalize (outLog dataDir))
        (normalize (errLog dataDir))) =
      (lex (normalize agentExe)).bind fun agentExe' =>
        (lex (normalize dataDir)).bind fun dataDir' =>
          (lex (normalize (outLog dataDir))).bind fun out' =>
            (lex (normalize (errLog dataDir))).map fun err' =>
              contentTokens agentExe' dataDir' out' err' := by
  have hnormal : ∀ {s : List Char}, '<' ∉ s → '<' ∉ normalize s := fun h =>
    mt (mem_normalizeFrom (by decide) (by decide) false _).mp h
  exact lex_plistContent (hnormal hagent) (hnormal hdata)
    (hnormal (lt_not_mem_log hdata (.inl rfl))) (hnormal (lt_not_mem_log hdata (.inr rfl)))

/-- Where the four texts are read, the plist decodes to what they stand for. -/
theorem decodeDocument_eq {agentExe dataDir : List Char}
    (hagent : ∀ c ∈ agentExe, isChar c = true) (hdata : ∀ c ∈ dataDir, isChar c = true)
    (hagentLt : '<' ∉ agentExe) (hdataLt : '<' ∉ dataDir) {a d o e : List Char}
    (ha : lex (normalize agentExe) = some (a.map .char))
    (hd : lex (normalize dataDir) = some (d.map .char))
    (ho : lex (normalize (outLog dataDir)) = some (o.map .char))
    (he : lex (normalize (errLog dataDir)) = some (e.map .char)) :
    decodeDocument (macosDaemonPlist agentExe dataDir) = some (.dict (daemonEntries a d o e)) := by
  have hlex := lex_plist hagentLt hdataLt
  rw [ha, hd, ho, he] at hlex
  have hbuild : build [] [] (contentTokens (a.map .char) (d.map .char) (o.map .char)
      (e.map .char)) = some (['\n'].map .char ++ .element "plist".toList (space "\n" ++
        [.element "dict".toList (dictNodes a d o e)] ++ space "\n") :: ['\n'].map .char) :=
    build_contentTokens a d o e
  have hparse := parse_eq_some (isChar_plist hagent hdata) (prolog_plist agentExe dataDir) hlex
    hbuild (by decide) (by decide)
  exact decodeDocument_eq_some hparse (decodeAll_dict a d o e)

/-- Where it decodes to something and no path has a `<`, the four texts are read. -/
theorem exists_of_decodeDocument {agentExe dataDir : List Char} (hagentLt : '<' ∉ agentExe)
    (hdataLt : '<' ∉ dataDir) {v : Value}
    (h : decodeDocument (macosDaemonPlist agentExe dataDir) = some v) :
    ∃ a d o e, lex (normalize agentExe) = some (List.map .char a) ∧
      lex (normalize dataDir) = some (List.map .char d) ∧
      lex (normalize (outLog dataDir)) = some (List.map .char o) ∧
      lex (normalize (errLog dataDir)) = some (List.map .char e) := by
  have hchars : ∀ {s : List Char} {ts : List Token}, '<' ∉ s → lex (normalize s) = some ts →
      ∃ cs, lex (normalize s) = some (List.map .char cs) := by
    intro s ts hs hts
    have hnormal : '<' ∉ normalize s := mt (mem_normalizeFrom (by decide) (by decide) false _).mp hs
    obtain ⟨⟨cs, rfl, -⟩, -⟩ := lex_charData hnormal hts
    exact ⟨cs, hts⟩
  have hsome : (lex (plistContent (normalize agentExe) (normalize dataDir)
      (normalize (outLog dataDir)) (normalize (errLog dataDir)))).isSome := by
    rw [Option.isSome_iff_ne_none]
    intro hnone
    have hparse := parse_eq_none (prolog_plist agentExe dataDir) hnone
    unfold decodeDocument at h
    rw [hparse] at h
    cases h
  rw [lex_plist hagentLt hdataLt] at hsome
  obtain ⟨ts, hts⟩ := Option.isSome_iff_exists.mp hsome
  obtain ⟨agentExe', hagent', hts⟩ := Option.bind_eq_some_iff.mp hts
  obtain ⟨dataDir', hdata', hts⟩ := Option.bind_eq_some_iff.mp hts
  obtain ⟨out', hout', hts⟩ := Option.bind_eq_some_iff.mp hts
  obtain ⟨err', herr', -⟩ := Option.map_eq_some_iff.mp hts
  obtain ⟨a, ha⟩ := hchars hagentLt hagent'
  obtain ⟨d, hd⟩ := hchars hdataLt hdata'
  obtain ⟨o, ho⟩ := hchars (lt_not_mem_log hdataLt (.inl rfl)) hout'
  obtain ⟨e, he⟩ := hchars (lt_not_mem_log hdataLt (.inr rfl)) herr'
  exact ⟨a, d, o, e, ha, hd, ho, he⟩

/-! ## A `<` in a path -/

theorem countP_plistContent (agentExe dataDir out err : List Char) :
    (plistContent agentExe dataDir out err).countP isOpener =
      agentExe.countP isOpener + dataDir.countP isOpener + out.countP isOpener +
        err.countP isOpener := by
  have hparts : ∀ parts ∈ [labelParts, programParts, dataDirParts, outLogParts, errLogParts],
      (renderParts parts).countP isOpener = 0 := fun _ h => countP_fixed (isFixedChar_parts _ h)
  have hnewline : ['\n'].countP isOpener = 0 := by decide
  delta plistContent
  simp only [List.countP_append, countP_fixed isFixedChar_plistTag, hparts labelParts (by simp),
    hparts programParts (by simp), hparts dataDirParts (by simp), hparts outLogParts (by simp),
    hparts errLogParts (by simp), hnewline]
  omega

/-- What the dictionary gives back is in the text of the root. -/
theorem countP_le_of_roundTrips {agentExe dataDir : List Char} (h : RoundTrips agentExe dataDir) :
    ∃ root, parse (macosDaemonPlist agentExe dataDir) = some root ∧ ∀ p : Char → Bool,
      agentExe.countP p + dataDir.countP p + (outLog dataDir).countP p +
        (errLog dataDir).countP p ≤ root.text.countP p := by
  obtain ⟨entries, hdecode, harguments, hout, herr⟩ := h
  unfold decodeDocument at hdecode
  split at hdecode
  · rename_i name children hparse
    split_ifs at hdecode
    split at hdecode
    · rename_i v hvalues
      cases hdecode
      refine ⟨_, hparse, fun p => ?_⟩
      have htext : entriesText entries = valuesText [.dict entries] := by
        rw [valuesText, valuesText, List.append_nil, Value.text]
      have hroot := (text_sublist_of_decodeAll hvalues).countP_le (p := p)
      have hlookups := lookups_le (p := p) (by decide) (by decide) (by decide) harguments hout herr
      have harray : agentExe.countP p + dataDir.countP p ≤
          (Value.array [.string agentExe, .string "--daemon".toList, .string "--data-dir".toList,
            .string dataDir]).text.countP p := by
        simp only [Value.text, valuesText, List.countP_append, List.append_nil]
        omega
      rw [text_element]
      rw [← htext] at hroot
      have hout' : (Value.string (outLog dataDir)).text.countP p = (outLog dataDir).countP p := rfl
      have herr' : (Value.string (errLog dataDir)).text.countP p = (errLog dataDir).countP p := rfl
      omega
    · cases hdecode
  · cases hdecode

/-- A `<` in a text would have to come from a CDATA section, whose `!` the text has lost. -/
theorem not_roundTrips_of_lt {agentExe dataDir : List Char}
    (hlt : '<' ∈ agentExe ∨ '<' ∈ dataDir) : ¬RoundTrips agentExe dataDir := by
  intro h
  obtain ⟨root, hparse, hcount⟩ := countP_le_of_roundTrips h
  have hmem : '<' ∈ root.text := by
    have hpos : ∀ {s : List Char}, '<' ∈ s → 0 < s.countP (· == '<') :=
      fun hs => List.countP_pos_iff.mpr ⟨'<', hs, rfl⟩
    have hroot := hcount (· == '<')
    have hrootPos : 0 < root.text.countP (· == '<') := by
      rcases hlt with hlt | hlt <;> have := hpos hlt <;> omega
    obtain ⟨c, hc, heq⟩ := List.countP_pos_iff.mp hrootPos
    rwa [beq_iff_eq.mp heq] at hc
  have hlost := (countP_parse hparse (prolog_plist agentExe dataDir)).2 hmem
  have hkept := hcount isOpener
  have hnormal : ∀ s, (normalize s).countP isOpener = s.countP isOpener :=
    countP_normalizeFrom (by decide) (by decide) false
  rw [countP_plistContent, hnormal, hnormal, hnormal, hnormal] at hlost
  omega

/-! ## When it gives the paths back -/

/-- Plain text stands for itself. -/
theorem lex_plainText {s : List Char} (h : IsPlainText s) :
    lex (normalize s) = some (s.map .char) := by
  obtain ⟨hamp, hlt, hreturn, hcdata⟩ := h
  have hnormal : normalize s = s := by
    have happend := normalize_append hreturn []
    rwa [List.append_nil, show normalize [] = [] from rfl, List.append_nil] at happend
  rw [hnormal]
  exact lex_clean hlt hamp hcdata

/-- What stands for itself is plain text. -/
theorem isPlainText_of_lex {s : List Char} (hlt : '<' ∉ s)
    (h : lex (normalize s) = some (s.map .char)) : IsPlainText s := by
  have hnormalLt : '<' ∉ normalize s :=
    mt (mem_normalizeFrom (by decide) (by decide) false _).mp hlt
  obtain ⟨⟨cs, hcs, hlength⟩, hcdata⟩ := lex_charData hnormalLt h
  have hle := length_normalizeFrom_le false s
  have hinj : Function.Injective Token.char := fun _ _ h => Token.char.inj h
  have heq : s = cs := hinj.list_map hcs
  rw [← heq] at hlength
  have hcount : (normalize s).count '&' = 0 := by
    change (normalize s).length ≤ s.length at hle
    omega
  have hamp := List.count_eq_zero.mp hcount
  have hclean := lex_clean hnormalLt hamp hcdata
  have hnormal : normalize s = s := hinj.list_map (Option.some.inj (hclean.symm.trans h))
  have hreturn := return_not_mem_normalizeFrom false s
  change '\r' ∉ normalize s at hreturn
  rw [hnormal] at hamp hreturn hcdata
  exact ⟨hamp, hlt, hreturn, hcdata⟩

/-- The arguments and the log files come back exactly where no path has a character with a
    meaning of its own. -/
theorem macosDaemonPlist_iff {agentExe dataDir : List Char}
    (hagent : ∀ c ∈ agentExe, isChar c = true) (hdata : ∀ c ∈ dataDir, isChar c = true) :
    RoundTrips agentExe dataDir ↔ IsPlainText agentExe ∧ IsPlainText dataDir := by
  constructor
  · intro h
    have hagentLt : '<' ∉ agentExe := fun hmem => not_roundTrips_of_lt (.inl hmem) h
    have hdataLt : '<' ∉ dataDir := fun hmem => not_roundTrips_of_lt (.inr hmem) h
    obtain ⟨entries, hdecode, harguments, -, -⟩ := h
    obtain ⟨a, d, o, e, ha, hd, ho, he⟩ := exists_of_decodeDocument hagentLt hdataLt hdecode
    have hdict := decodeDocument_eq hagent hdata hagentLt hdataLt ha hd ho he
    obtain rfl : entries = daemonEntries a d o e := by
      rw [hdecode] at hdict
      exact Value.dict.inj (Option.some.inj hdict)
    have hlookup : (daemonEntries a d o e).lookup "ProgramArguments".toList =
        some (.array [.string a, .string "--daemon".toList, .string "--data-dir".toList,
          .string d]) := by rfl
    rw [hlookup] at harguments
    injection harguments with harguments
    injection harguments with harguments
    injection harguments with hagent' harguments
    injection harguments with _ harguments
    injection harguments with _ harguments
    injection harguments with hdata' _
    injection hagent' with hagent'
    injection hdata' with hdata'
    subst hagent' hdata'
    exact ⟨isPlainText_of_lex hagentLt ha, isPlainText_of_lex hdataLt hd⟩
  · rintro ⟨hagentPlain, hdataPlain⟩
    exact ⟨_, decodeDocument_eq hagent hdata hagentPlain.2.1 hdataPlain.2.1
      (lex_plainText hagentPlain) (lex_plainText hdataPlain)
      (lex_plainText (isPlainText_log hdataPlain (.inl rfl)))
      (lex_plainText (isPlainText_log hdataPlain (.inr rfl))), rfl, rfl, rfl⟩

theorem macosDaemonPlist_iff_library :
    RoundTrips "/Applications/EasyJob.app/Contents/MacOS/easyjob-agent".toList
      "/Library/Application Support/EasyJob".toList ↔
    IsPlainText "/Applications/EasyJob.app/Contents/MacOS/easyjob-agent".toList ∧
      IsPlainText "/Library/Application Support/EasyJob".toList :=
  macosDaemonPlist_iff (List.all_eq_true.mp (by decide)) (List.all_eq_true.mp (by decide))

/-- A directory `R&D` in one of the paths makes the plist one that is not read. -/
theorem not_roundTrips_ampersand :
    ¬RoundTrips "/Applications/R&D/EasyJob.app/Contents/MacOS/easyjob-agent".toList
        "/Library/Application Support/EasyJob".toList ∧
      ¬RoundTrips "/Applications/EasyJob.app/Contents/MacOS/easyjob-agent".toList
        "/Users/R&D/EasyJob".toList := by
  constructor
  · rintro ⟨entries, hdecode, -⟩
    obtain ⟨a, d, o, e, ha, -⟩ := exists_of_decodeDocument (by decide) (by decide) hdecode
    have hnone : lex (normalize
        "/Applications/R&D/EasyJob.app/Contents/MacOS/easyjob-agent".toList) = none := by
      decide +kernel
    rw [hnone] at ha
    cases ha
  · rintro ⟨entries, hdecode, -⟩
    obtain ⟨a, d, o, e, -, hd, -⟩ := exists_of_decodeDocument (by decide) (by decide) hdecode
    have hnone : lex (normalize "/Users/R&D/EasyJob".toList) = none := by decide +kernel
    rw [hnone] at hd
    cases hd

end EasyJob.Platform
