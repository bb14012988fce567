import EasyJob.Domain.Task
import EasyJob.Lib.Utf8

/-!
# The captured output of a process

Model of `read_stream_capped` (`crates/executor/src/runner.rs` lines 182–211) on
the reads that the pipe delivers, and of `decode_output`
(`crates/platform/src/process.rs` lines 6–75).

* `capture_buf`: the buffer is the stream, cut off at 2 MiB, for every way in
  which the stream was split into reads.
-/

namespace EasyJob.Executor

open EasyJob.Domain

def maxOutputBytes : ℕ := 2 * 1024 * 1024

def truncationSuffix : List UInt8 := "\n... [output truncated]".toUTF8.toList

theorem truncationSuffix_ascii : ∀ b ∈ truncationSuffix, b < 0x80 := by decide +kernel

structure Capture where
  buf : List UInt8
  truncated : Bool

/-- One read of the loop (lines 190–207). -/
def captureChunk (s : Capture) (chunk : List UInt8) : Capture :=
  if s.truncated then s
  else if s.buf.length + chunk.length ≤ maxOutputBytes then { s with buf := s.buf ++ chunk }
  else
    let rem := maxOutputBytes - s.buf.length
    { buf := s.buf ++ chunk.take rem ++ truncationSuffix, truncated := true }

/-- The buffer after these reads. -/
def capture (chunks : List (List UInt8)) : Capture := chunks.foldl captureChunk ⟨[], false⟩

/-- The stream, cut off where it exceeds the limit. -/
def capped (stream : List UInt8) : List UInt8 :=
  if stream.length ≤ maxOutputBytes then stream
  else stream.take maxOutputBytes ++ truncationSuffix

theorem captureChunk_capped (stream chunk : List UInt8) :
    captureChunk ⟨capped stream, decide (maxOutputBytes < stream.length)⟩ chunk =
      ⟨capped (stream ++ chunk), decide (maxOutputBytes < (stream ++ chunk).length)⟩ := by
  rcases Nat.lt_or_ge maxOutputBytes stream.length with hlong | hshort
  · -- the stream was cut off before
    have hall : maxOutputBytes < (stream ++ chunk).length := by
      rw [List.length_append]
      omega
    have htake : (stream ++ chunk).take maxOutputBytes = stream.take maxOutputBytes :=
      List.take_append_of_le_length (by omega)
    simp only [captureChunk, decide_eq_true hlong, if_true, decide_eq_true hall]
    rw [capped, capped, if_neg (by omega), if_neg (by omega), htake]
  · have hno : ¬maxOutputBytes < stream.length := by omega
    have hbuf : capped stream = stream := by rw [capped, if_pos hshort]
    simp only [captureChunk, hbuf, decide_eq_false hno, Bool.false_eq_true, if_false]
    split_ifs with hfits
    · rw [← List.length_append] at hfits
      have hno' : ¬maxOutputBytes < (stream ++ chunk).length := by omega
      rw [capped, if_pos hfits, decide_eq_false hno']
    · rw [← List.length_append] at hfits
      have hcut : maxOutputBytes < (stream ++ chunk).length := by omega
      rw [capped, if_neg hfits, decide_eq_true hcut, List.take_append,
        List.take_of_length_le hshort]

/-- The buffer is the stream so far, cut off at the limit, however it was read. -/
theorem capture_eq (chunks : List (List UInt8)) :
    capture chunks = ⟨capped chunks.flatten, decide (maxOutputBytes < chunks.flatten.length)⟩ := by
  have hfold (stream : List UInt8) :
      chunks.foldl captureChunk ⟨capped stream, decide (maxOutputBytes < stream.length)⟩ =
        ⟨capped (stream ++ chunks.flatten),
          decide (maxOutputBytes < (stream ++ chunks.flatten).length)⟩ := by
    induction chunks generalizing stream with
    | nil => simp
    | cons chunk chunks ih =>
      rw [List.foldl_cons, captureChunk_capped, ih, List.flatten_cons, List.append_assoc]
  exact hfold []

theorem capture_buf (chunks : List (List UInt8)) :
    (capture chunks).buf = capped chunks.flatten := by
  rw [capture_eq]

/-! ## Decoding -/

/-- `String::from_utf8_lossy`. -/
def fromUtf8Lossy (bytes : List UInt8) : String := String.ofList (Utf8.lossy bytes)

/-- Where an agent runs: on Windows with the operating system's decoder for code page
    936, else without. -/
inductive Platform
  | windows (codePage936 : List UInt8 → String)
  | unix

/-- Model of `decode_output` (lines 10–75). -/
def decodeOutput (platform : Platform) (bytes : List UInt8) (encoding : Option ScriptEncoding) :
    String :=
  match encoding, platform with
  | some .Utf8, _ => fromUtf8Lossy bytes
  | _, .windows codePage936 => codePage936 bytes
  | _, .unix => fromUtf8Lossy bytes

end EasyJob.Executor
