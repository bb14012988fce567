import EasyJob.Domain.Width
import EasyJob.Executor.Capture
import EasyJob.Ipc.Protocol

/-!
# The lines that the agent writes

Model of the frames with task outputs and stored data, from `service.rs`: the
`execution.output` events (lines 297–326), and the responses of
`execution.get_output` (lines 978–1002), `execution.list` (lines 938–953),
`task.list` (lines 609–615) and `task.overview` (lines 895–937). A client reads
lines of at most `MAX_FRAME_LENGTH` bytes and stops at the first longer one.

* `frame_fits_iff`: which of these lines fit, by the texts, records, runs and tasks in
  them.
* `frame_fails`: 2 MiB of control characters, or twice 2 MiB of letters.
-/

namespace EasyJob.Agent

open EasyJob.Chrono EasyJob.Domain EasyJob.Executor EasyJob.Ipc

/-- `MAX_FRAME_LENGTH` (`crates/ipc/src/transport.rs` line 3). -/
def maxFrameLength : ℕ := 4 * 1024 * 1024

/-! ## Frames -/

inductive OutputStream
  | stdout | stderr
  deriving DecidableEq, Repr

def OutputStream.name : OutputStream → String
  | .stdout => "stdout"
  | .stderr => "stderr"

/-- `ExecutionOutputRecord` (`execution_repo.rs` lines 8–13). -/
structure ExecutionOutputRecord where
  stream : String
  content : String
  createdAt : String
  deriving DecidableEq, Repr

def ExecutionOutputRecord.toJson (r : ExecutionOutputRecord) : Json :=
  .obj [("content", .str r.content), ("created_at", .str r.createdAt), ("stream", .str r.stream)]

/-- What `task.overview` collects for one task. -/
structure TaskOverview where
  task : Task
  lastRun : Option Execution
  nextFireAt : TriggerId → Option DateTime

variable (texts : ChronoTexts)

/-- `LastRunOverview` (lines 482–488). -/
def lastRunToJson (run : Execution) : Json :=
  .obj [("duration_ms", optionToJson natToJson run.durationMs),
    ("error_message", optionToJson Json.str run.errorMessage),
    ("exit_code", optionToJson intToJson run.exitCode),
    ("finished_at", optionToJson (dateTimeToJson texts) run.finishedAt),
    ("started_at", dateTimeToJson texts run.startedAt),
    ("status", run.status.toJson)]

/-- `TaskOverviewEntry` (lines 490–495). -/
def TaskOverview.toJson (o : TaskOverview) : Json :=
  .obj [("last_run", optionToJson (lastRunToJson texts) o.lastRun),
    ("task_id", uuidToJson o.task.id.uuid),
    ("triggers", .arr (o.task.triggers.map fun tr =>
      .obj [("next_fire_at", optionToJson (dateTimeToJson texts) (o.nextFireAt tr.id)),
        ("trigger_id", uuidToJson tr.id.uuid)]))]

/-- The event of lines 303–311 and 317–325. -/
def outputEvent (execId : ExecutionId) (taskId : TaskId) (stream : OutputStream)
    (content : String) : IpcEvent :=
  ⟨"execution.output", .obj [("content", .str content), ("execution_id", uuidToJson execId.uuid),
    ("stream", .str stream.name), ("task_id", uuidToJson taskId.uuid)]⟩

/-- A line of the agent, by what it is made from. -/
inductive AgentLine
  /-- An output event, for what was read from the pipe. -/
  | output (execId : ExecutionId) (taskId : TaskId) (stream : OutputStream) (platform : Platform)
      (encoding : Option ScriptEncoding) (reads : List (List UInt8))
  | getOutput (reqId : String) (records : List ExecutionOutputRecord)
  | executionList (reqId : String) (runs : List Execution)
  | taskList (reqId : String) (tasks : List Task)
  | taskOverview (reqId : String) (entries : List TaskOverview)

/-- `IpcResponse::success`. -/
def successToJson (reqId : String) (data : Json) : Json :=
  responseToJson reqId true (some data) none

def AgentLine.toJson : AgentLine → Json
  | .output execId taskId stream platform encoding reads =>
    (outputEvent execId taskId stream
      (decodeOutput platform (capture reads).buf encoding)).toJson
  | .getOutput reqId records => successToJson reqId (.arr (records.map (·.toJson)))
  | .executionList reqId runs => successToJson reqId (.arr (runs.map (·.toJson texts)))
  | .taskList reqId tasks => successToJson reqId (.arr (tasks.map (·.toJson texts)))
  | .taskOverview reqId entries => successToJson reqId (.arr (entries.map (·.toJson texts)))

/-- The length of the line in bytes. -/
def AgentLine.length (line : AgentLine) : ℕ := Json.utf8Size (line.toJson texts).render

/-- `LinesCodec` accepts the line. -/
def AgentLine.Fits (line : AgentLine) : Prop := line.length texts ≤ maxFrameLength

/-! ## Widths -/

def ExecutionOutputRecord.width (r : ExecutionOutputRecord) : ℕ :=
  36 + Json.stringWidth r.content + Json.stringWidth r.createdAt + Json.stringWidth r.stream

def lastRunWidth (run : Execution) : ℕ :=
  85 + optionWidth natWidth run.durationMs + optionWidth Json.stringWidth run.errorMessage +
    optionWidth intWidth run.exitCode + optionWidth (dateTimeWidth texts) run.finishedAt +
    dateTimeWidth texts run.startedAt + run.status.width

def TaskOverview.width (o : TaskOverview) : ℕ :=
  74 + optionWidth (lastRunWidth texts) o.lastRun +
    arrayWidth (fun tr => 69 + optionWidth (dateTimeWidth texts) (o.nextFireAt tr.id))
      o.task.triggers

/-- A response with a list of things. -/
def responseWidth {α : Type} (width : α → ℕ) (reqId : String) (data : List α) : ℕ :=
  38 + Json.stringWidth reqId + arrayWidth width data

/-- The width of a line, from the data in it. -/
def AgentLine.width : AgentLine → ℕ
  | .output _ _ _ platform encoding reads =>
    169 + Json.stringWidth (decodeOutput platform (capped reads.flatten) encoding)
  | .getOutput reqId records => responseWidth ExecutionOutputRecord.width reqId records
  | .executionList reqId runs => responseWidth (Execution.width texts) reqId runs
  | .taskList reqId tasks => responseWidth (Task.width texts) reqId tasks
  | .taskOverview reqId entries => responseWidth (TaskOverview.width texts) reqId entries

theorem size_success {α : Type} {toJson : α → Json} {width : α → ℕ}
    (h : ∀ x, (toJson x).size = width x) (reqId : String) (data : List α) :
    (successToJson reqId (.arr (data.map toJson))).size = responseWidth width reqId data := by
  have hnames : Json.escapedSize "id" = 2 ∧ Json.escapedSize "ok" = 2 ∧
      Json.escapedSize "data" = 4 ∧ Json.escapedSize "error" = 5 ∧ Json.null.size = 4 ∧
      (Json.bool true).size = 4 := by decide
  simp only [successToJson, responseToJson, Option.getD_some, Option.map_none, Option.getD_none,
    size_obj, Json.sizeMembers, size_str, size_array h, hnames]
  unfold responseWidth
  omega

theorem ExecutionOutputRecord.size_toJson (r : ExecutionOutputRecord) :
    r.toJson.size = r.width := by
  have hnames : Json.escapedSize "content" = 7 ∧ Json.escapedSize "created_at" = 10 ∧
      Json.escapedSize "stream" = 6 := by decide
  simp only [toJson, size_obj, Json.sizeMembers, size_str, hnames]
  unfold width
  omega

theorem size_lastRun (run : Execution) :
    (lastRunToJson texts run).size = lastRunWidth texts run := by
  have hnames : Json.escapedSize "duration_ms" = 11 ∧ Json.escapedSize "error_message" = 13 ∧
      Json.escapedSize "exit_code" = 9 ∧ Json.escapedSize "finished_at" = 11 ∧
      Json.escapedSize "started_at" = 10 ∧ Json.escapedSize "status" = 6 := by decide
  simp only [lastRunToJson, size_obj, Json.sizeMembers, hnames, size_option size_nat,
    size_option size_str, size_option size_int, size_option (size_dateTime texts), size_dateTime,
    run.status.size_toJson]
  unfold lastRunWidth
  omega

theorem TaskOverview.size_toJson (o : TaskOverview) : (o.toJson texts).size = o.width texts := by
  have hnames : Json.escapedSize "last_run" = 8 ∧ Json.escapedSize "task_id" = 7 ∧
      Json.escapedSize "triggers" = 8 ∧ Json.escapedSize "next_fire_at" = 12 ∧
      Json.escapedSize "trigger_id" = 10 := by decide
  have htrigger (tr : Trigger) : (Json.obj [("next_fire_at",
      optionToJson (dateTimeToJson texts) (o.nextFireAt tr.id)),
      ("trigger_id", uuidToJson tr.id.uuid)]).size =
      69 + optionWidth (dateTimeWidth texts) (o.nextFireAt tr.id) := by
    simp only [size_obj, Json.sizeMembers, hnames, size_option (size_dateTime texts), size_uuid]
    omega
  simp only [toJson, size_obj, Json.sizeMembers, hnames, size_option (size_lastRun texts),
    size_uuid, size_array htrigger]
  unfold width
  omega

theorem size_outputEvent (execId : ExecutionId) (taskId : TaskId) (stream : OutputStream)
    (content : String) :
    (outputEvent execId taskId stream content).toJson.size = 169 + Json.stringWidth content := by
  have hnames : Json.escapedSize "event" = 5 ∧ (Json.str "execution.output").size = 18 ∧
      Json.escapedSize "data" = 4 ∧ Json.escapedSize "content" = 7 ∧
      Json.escapedSize "execution_id" = 12 ∧ Json.escapedSize "stream" = 6 ∧
      Json.escapedSize "task_id" = 7 := by decide
  have hstream : (Json.str stream.name).size = 8 := by cases stream <;> decide
  have hcontent : (Json.str content).size = Json.stringWidth content := size_str content
  simp only [outputEvent, IpcEvent.toJson, size_obj, Json.sizeMembers, size_uuid, hstream, hcontent,
    hnames]
  omega

/-- The length of a line is its width. -/
theorem AgentLine.length_eq (line : AgentLine) : line.length texts = line.width texts := by
  rw [AgentLine.length, Json.utf8Size_render]
  cases line with
  | output execId taskId stream platform encoding reads =>
    rw [AgentLine.toJson, size_outputEvent, capture_buf]
    rfl
  | getOutput reqId records => exact size_success ExecutionOutputRecord.size_toJson reqId records
  | executionList reqId runs => exact size_success (Execution.size_toJson texts) reqId runs
  | taskList reqId tasks => exact size_success (Task.size_toJson texts) reqId tasks
  | taskOverview reqId entries => exact size_success (TaskOverview.size_toJson texts) reqId entries

/-! ## Which lines fit -/

/-- The reader of a client on lines that the agent writes (`client.rs` lines 76–101): it
    leaves its loop at the first error, and all pending calls are dropped. -/
def readerStops : List AgentLine → Bool
  | [] => false
  | line :: lines => if line.length texts ≤ maxFrameLength then readerStops lines else true

/-- A character of a string literal takes at most six bytes. -/
theorem escapeSize_le (c : Char) : Json.escapeSize c ≤ 6 := by
  have hutf8 : c.utf8Size ≤ 4 := Char.utf8Size_le_four c
  unfold Json.escapeSize
  split_ifs <;> omega

/-- Six bytes for each byte that was read as UTF-8. -/
theorem stringWidth_fromUtf8Lossy_le (bytes : List UInt8) :
    Json.stringWidth (fromUtf8Lossy bytes) ≤ 2 + 6 * bytes.length := by
  have hsum (text : List Char) : (text.map Json.escapeSize).sum ≤ 6 * text.length := by
    induction text with
    | nil => exact Nat.le_refl 0
    | cons c text ih =>
      have hc := escapeSize_le c
      rw [List.map_cons, List.sum_cons, List.length_cons]
      omega
  have hlength := Utf8.length_lossy_le bytes
  have htext := hsum (Utf8.lossy bytes)
  rw [← Json.escapedSize_eq, Json.escapedSize, fromUtf8Lossy, String.toList_ofList]
  omega

/-- A byte that JSON writes as two, and one that it writes as six. -/
def isShortByte (b : UInt8) : Bool := Json.isShortEscape (Char.ofNat b.toNat)

def isLongByte (b : UInt8) : Bool := Json.isLongEscape (Char.ofNat b.toNat)

/-- The width of ASCII output, by the bytes. -/
theorem stringWidth_ascii {bytes : List UInt8} (h : ∀ b ∈ bytes, b < 0x80) :
    Json.stringWidth (fromUtf8Lossy bytes) =
      2 + bytes.length + bytes.countP isShortByte + 5 * bytes.countP isLongByte := by
  have hsize : Json.utf8Size (bytes.map fun b => Char.ofNat b.toNat) = bytes.length := by
    have hone : ∀ n < 128, (Char.ofNat n).utf8Size = 1 := by decide
    induction bytes with
    | nil => rfl
    | cons b bytes ih =>
      have hb : b.toNat < 128 := UInt8.lt_iff_toNat_lt.mp (h b List.mem_cons_self)
      rw [List.map_cons, Json.utf8Size_cons, hone _ hb,
        ih fun b' hb' => h b' (List.mem_cons_of_mem _ hb'), List.length_cons, Nat.add_comm]
  rw [Json.stringWidth, fromUtf8Lossy, String.toList_ofList, Utf8.lossy_ascii h, hsize,
    List.countP_map, List.countP_map]
  rfl

theorem AgentLine.fits_iff (line : AgentLine) : line.Fits texts ↔ line.width texts ≤ 4194304 := by
  rw [AgentLine.Fits, AgentLine.length_eq, maxFrameLength]

/-- The captured text decides about an output event. -/
theorem fits_output_iff (execId : ExecutionId) (taskId : TaskId) (stream : OutputStream)
    (platform : Platform) (encoding : Option ScriptEncoding) (reads : List (List UInt8)) :
    (AgentLine.output execId taskId stream platform encoding reads).Fits texts ↔
      Json.stringWidth (decodeOutput platform (capped reads.flatten) encoding) ≤ 4194135 := by
  rw [AgentLine.fits_iff, AgentLine.width]
  omega

theorem readerStops_eq_false_iff (lines : List AgentLine) :
    readerStops texts lines = false ↔ ∀ line ∈ lines, line.Fits texts := by
  induction lines with
  | nil => simp [readerStops]
  | cons line lines ih =>
    rw [readerStops, List.forall_mem_cons]
    split_ifs with hline
    · exact ih.trans (and_iff_right hline).symm
    · simp [AgentLine.Fits, hline]

/-- The notice at the end of a capture that was cut off is in ASCII too. -/
theorem capped_ascii {bytes : List UInt8} (h : ∀ b ∈ bytes, b < 0x80) :
    ∀ b ∈ capped bytes, b < 0x80 := by
  intro b hb
  unfold capped at hb
  split_ifs at hb
  · exact h b hb
  · rcases List.mem_append.mp hb with hb | hb
    · exact h b (List.mem_of_mem_take hb)
    · exact truncationSuffix_ascii b hb

/-- Which lines fit? An output event fits if and only if the captured text, as UTF-8, with one
    byte more for each quote, backslash and short escape and five more for each other control
    character, has at most 4194135 bytes; a response, if and only if its id and the records,
    runs, tasks or overview entries in it have together the width of 4 MiB. A client reads all of
    a sequence of lines if and only if each of them fits. For output in ASCII the captured bytes
    count; the output of a process as UTF-8 always fits up to 699022 bytes. -/
theorem frame_fits_iff :
    (∀ execId taskId stream platform encoding reads,
      (AgentLine.output execId taskId stream platform encoding reads).Fits texts ↔
        Json.stringWidth (decodeOutput platform (capped reads.flatten) encoding) ≤ 4194135) ∧
    (∀ reqId records, (AgentLine.getOutput reqId records).Fits texts ↔
      38 + Json.stringWidth reqId + arrayWidth ExecutionOutputRecord.width records ≤ 4194304) ∧
    (∀ reqId runs, (AgentLine.executionList reqId runs).Fits texts ↔
      38 + Json.stringWidth reqId + arrayWidth (Execution.width texts) runs ≤ 4194304) ∧
    (∀ reqId tasks, (AgentLine.taskList reqId tasks).Fits texts ↔
      38 + Json.stringWidth reqId + arrayWidth (Task.width texts) tasks ≤ 4194304) ∧
    (∀ reqId entries, (AgentLine.taskOverview reqId entries).Fits texts ↔
      38 + Json.stringWidth reqId + arrayWidth (TaskOverview.width texts) entries ≤ 4194304) ∧
    (∀ lines : List AgentLine, readerStops texts lines = false ↔
      ∀ line ∈ lines, line.Fits texts) ∧
    (∀ execId taskId stream platform reads, (∀ b ∈ reads.flatten, b < 0x80) →
      ((AgentLine.output execId taskId stream platform (some .Utf8) reads).Fits texts ↔
        (capped reads.flatten).length + (capped reads.flatten).countP isShortByte +
          5 * (capped reads.flatten).countP isLongByte ≤ 4194133)) ∧
    (∀ execId taskId stream platform reads, reads.flatten.length ≤ 699022 →
      (AgentLine.output execId taskId stream platform (some .Utf8) reads).Fits texts) := by
  refine ⟨fits_output_iff texts, fun _ _ => AgentLine.fits_iff texts _,
    fun _ _ => AgentLine.fits_iff texts _, fun _ _ => AgentLine.fits_iff texts _,
    fun _ _ => AgentLine.fits_iff texts _, readerStops_eq_false_iff texts, ?_, ?_⟩
  · intro execId taskId stream platform reads hascii
    rw [fits_output_iff, decodeOutput, stringWidth_ascii (capped_ascii hascii)]
    omega
  · intro execId taskId stream platform reads hreads
    have hcapped : capped reads.flatten = reads.flatten :=
      if_pos (Nat.le_trans hreads (by decide))
    have hsize := stringWidth_fromUtf8Lossy_le reads.flatten
    rw [fits_output_iff, hcapped]
    show Json.stringWidth (fromUtf8Lossy reads.flatten) ≤ 4194135
    omega

/-- A process that has written 2 MiB of the byte 1. -/
def controlReads : List (List UInt8) := List.replicate 512 (List.replicate 4096 1)

def controlLine : AgentLine := .output ⟨1⟩ ⟨2⟩ .stdout .unix none controlReads

/-- Two actions have each written 2 MiB of the letter `a`. -/
def longRecord : ExecutionOutputRecord :=
  ⟨"stdout", String.ofList (List.replicate (2 * 1024 * 1024) 'a'),
    "2026-01-01T00:00:00.123456789+00:00"⟩

def historyLine : AgentLine := .getOutput "r" [longRecord, longRecord]

/-- These lines hold no instants. -/
def noTexts : ChronoTexts := ⟨fun _ => "", fun _ => ""⟩

theorem stringWidth_replicate (n : ℕ) (c : Char) :
    Json.stringWidth (String.ofList (List.replicate n c)) = 2 + n * Json.escapeSize c := by
  rw [← Json.escapedSize_eq, Json.escapedSize, String.toList_ofList, List.map_replicate]
  simp

theorem controlLine_length : controlLine.length noTexts = 171 + 12582912 := by
  have hflatten : controlReads.flatten = List.replicate (512 * 4096) 1 :=
    List.flatten_replicate_replicate
  have hcapped : capped controlReads.flatten = controlReads.flatten := by
    apply if_pos
    rw [hflatten, List.length_replicate]
    decide
  have hascii : ∀ b ∈ controlReads.flatten, b < (0x80 : UInt8) := by
    intro b hb
    rw [hflatten] at hb
    rw [List.eq_of_mem_replicate hb]
    decide
  have hdecoded : fromUtf8Lossy controlReads.flatten =
      String.ofList (List.replicate (512 * 4096) (Char.ofNat 1)) := by
    rw [fromUtf8Lossy, Utf8.lossy_ascii hascii, hflatten, List.map_replicate]
    congr 1
  have hescape : Json.escapeSize (Char.ofNat 1) = 6 := by decide
  have hdefault (bytes : List UInt8) : decodeOutput .unix bytes none = fromUtf8Lossy bytes := rfl
  rw [AgentLine.length_eq, controlLine, AgentLine.width, hcapped, hdefault, hdecoded,
    stringWidth_replicate, hescape]

theorem longRecord_width : longRecord.width = 2097235 := by
  have hstream : Json.stringWidth longRecord.stream = 8 := by decide
  have hcreated : Json.stringWidth longRecord.createdAt = 37 := by decide
  have hescape : Json.escapeSize 'a' = 1 := by decide
  have hcontent : Json.stringWidth longRecord.content = 2 + 2 * 1024 * 1024 := by
    rw [longRecord, stringWidth_replicate, hescape]
  rw [ExecutionOutputRecord.width, hstream, hcreated, hcontent]

theorem historyLine_length : historyLine.length noTexts = 4194514 := by
  have hid : Json.stringWidth "r" = 3 := by decide
  rw [AgentLine.length_eq, historyLine, AgentLine.width, responseWidth, arrayWidth, hid,
    List.map_cons, List.map_cons, List.map_nil, longRecord_width, List.sum_cons, List.sum_cons,
    List.sum_nil, List.length_cons, List.length_cons, List.length_nil]
  rfl

/-- Neither the event nor the response fits, and either ends the reader of a client. -/
theorem frame_fails :
    ¬controlLine.Fits noTexts ∧ ¬historyLine.Fits noTexts ∧
      readerStops noTexts [controlLine] = true ∧ readerStops noTexts [historyLine] = true := by
  have hnot (line : AgentLine) (h : maxFrameLength < line.length noTexts) :
      ¬line.Fits noTexts ∧ readerStops noTexts [line] = true :=
    ⟨by unfold AgentLine.Fits; omega, if_neg (by omega)⟩
  obtain ⟨h₁, h₁'⟩ := hnot controlLine (by rw [controlLine_length, maxFrameLength]; omega)
  obtain ⟨h₂, h₂'⟩ := hnot historyLine (by rw [historyLine_length, maxFrameLength]; omega)
  exact ⟨h₁, h₂, h₁', h₂'⟩

end EasyJob.Agent
