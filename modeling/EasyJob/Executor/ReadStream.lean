import EasyJob.Executor.Capture

/-!
# Reading a pipe

The loop of `read_stream_capped` (`crates/executor/src/runner.rs` lines 187–207)
with the array that it reads into. A read writes its bytes over the front of the
array and leaves the others of earlier reads behind it; the slices of the array
that are stored afterwards panic if they are out of range.

* `store_eq`: a turn does what `captureChunk` does with the bytes of the read.
* `readStreamCapped_exact`: the buffer at every moment, for every way in which
  the stream is split into reads.
-/

namespace EasyJob.Executor

/-- `[0u8; 4096]`. -/
def chunkSize : ℕ := 4096

/-- The panic of a slice `[..index]` of an array of length `length`. -/
structure OutOfRange where
  index : ℕ
  length : ℕ
  deriving DecidableEq, Repr

/-- `&chunk[..n]`. -/
def sliceTo (chunk : List UInt8) (n : ℕ) : Except OutOfRange (List UInt8) :=
  if n ≤ chunk.length then .ok (chunk.take n) else .error ⟨n, chunk.length⟩

/-- The variables of the loop, with what is in the pipe. -/
structure ReadStream where
  unread : List UInt8
  chunk : List UInt8
  buf : List UInt8
  truncated : Bool
  chunk_length : chunk.length = chunkSize

def ReadStream.start (stream : List UInt8) : ReadStream where
  unread := stream
  chunk := List.replicate chunkSize 0
  buf := []
  truncated := false
  chunk_length := List.length_replicate

/-- `pipe.read(&mut chunk)` when `size` bytes are there to be read, or fewer at the end of the
    stream: the number of bytes that were read. -/
def ReadStream.read (s : ReadStream) (size : ℕ) : ℕ × ReadStream :=
  let n := min (min size chunkSize) s.unread.length
  (n, { s with
    unread := s.unread.drop n
    chunk := s.unread.take n ++ s.chunk.drop n
    chunk_length := by
      rw [List.length_append, List.length_take, List.length_drop, s.chunk_length]
      omega })

/-- What the loop does with the `n` bytes that were read (lines 194–206). It holds the lock of
    the buffer meanwhile. -/
def ReadStream.store (s : ReadStream) (n : ℕ) : Except OutOfRange ReadStream :=
  if s.truncated then .ok s
  else if s.buf.length + n ≤ maxOutputBytes then do
    let part ← sliceTo s.chunk n
    .ok { s with buf := s.buf ++ part }
  else do
    let rem := maxOutputBytes - s.buf.length
    let part ← sliceTo s.chunk rem
    .ok { s with buf := s.buf ++ part ++ truncationSuffix, truncated := true }

/-- The loop, for the sizes of the reads until now (lines 190–207). -/
def readStreamCapped : (sizes : List ℕ) → ReadStream → Except OutOfRange ReadStream
  | [], s => .ok s
  | size :: sizes, s =>
    let (n, s) := s.read size
    if n = 0 then .ok s
    else do
      let s ← s.store n
      readStreamCapped sizes s

/-! ## One turn -/

theorem sliceTo_ok {chunk : List UInt8} {n : ℕ} (h : n ≤ chunk.length) :
    sliceTo chunk n = .ok (chunk.take n) := if_pos h

/-- Storing `n` bytes is capturing the first `n` bytes of the array: no slice is out of range. -/
theorem store_eq (s : ReadStream) {n : ℕ} (hn : n ≤ chunkSize) :
    ∃ s', s.store n = .ok s' ∧ s'.unread = s.unread ∧
      (⟨s'.buf, s'.truncated⟩ : Capture) =
        captureChunk ⟨s.buf, s.truncated⟩ (s.chunk.take n) := by
  have hlength : (s.chunk.take n).length = n := by
    rw [List.length_take, s.chunk_length]
    omega
  unfold ReadStream.store captureChunk
  dsimp only
  rw [hlength]
  by_cases htruncated : s.truncated = true
  · rw [if_pos htruncated, if_pos htruncated]
    exact ⟨s, rfl, rfl, rfl⟩
  rw [if_neg htruncated, if_neg htruncated]
  by_cases hfits : s.buf.length + n ≤ maxOutputBytes
  · rw [if_pos hfits, if_pos hfits, sliceTo_ok (by rw [s.chunk_length]; exact hn)]
    exact ⟨_, rfl, rfl, rfl⟩
  · -- the part that still fits is shorter than the read
    have hrem : maxOutputBytes - s.buf.length ≤ n := by omega
    rw [if_neg hfits, if_neg hfits, List.take_take, min_eq_left hrem]
    rw [sliceTo_ok (by rw [s.chunk_length]; exact hrem.trans hn)]
    exact ⟨_, rfl, rfl, rfl⟩

/-! ## The loop -/

/-- The bytes of `seen` have been read: the buffer holds them, cut off at the limit. -/
structure ReadStream.Holds (s : ReadStream) (seen : List UInt8) : Prop where
  buf : s.buf = capped seen
  truncated : s.truncated = decide (maxOutputBytes < seen.length)

theorem ReadStream.Holds.turn {s : ReadStream} {seen : List UInt8} (h : s.Holds seen) (size : ℕ) :
    ∃ s', (s.read size).2.store (s.read size).1 = .ok s' ∧
      s'.unread = s.unread.drop (s.read size).1 ∧
      s'.Holds (seen ++ s.unread.take (s.read size).1) := by
  set n := (s.read size).1 with hn
  have hle : n ≤ chunkSize ∧ n ≤ s.unread.length := by
    rw [hn]
    unfold ReadStream.read
    dsimp only
    omega
  have hchunk : (s.read size).2.chunk.take n = s.unread.take n := by
    refine List.take_left' ?_
    rw [List.length_take]
    exact min_eq_left hle.2
  obtain ⟨s', hstore, hunread, hcapture⟩ := store_eq (s.read size).2 hle.1
  rw [hchunk, show (s.read size).2.buf = s.buf from rfl,
    show (s.read size).2.truncated = s.truncated from rfl, h.buf, h.truncated,
    captureChunk_capped, Capture.mk.injEq] at hcapture
  exact ⟨s', hstore, hunread, hcapture.1, hcapture.2⟩

theorem readStreamCapped_spec {sizes : List ℕ} {s : ReadStream} {seen : List UInt8}
    (hsizes : ∀ size ∈ sizes, 1 ≤ size ∧ size ≤ chunkSize) (h : s.Holds seen) :
    ∃ s', readStreamCapped sizes s = .ok s' ∧ s'.unread = s.unread.drop sizes.sum ∧
      s'.Holds (seen ++ s.unread.take sizes.sum) := by
  induction sizes generalizing s seen with
  | nil => exact ⟨s, rfl, rfl, by simpa using h⟩
  | cons size sizes ih =>
    obtain ⟨⟨hpos, hle⟩, hrest⟩ := List.forall_mem_cons.mp hsizes
    have hn : (s.read size).1 = min size s.unread.length := by
      unfold ReadStream.read
      dsimp only
      omega
    unfold readStreamCapped
    dsimp only
    rw [List.sum_cons]
    split_ifs with hend
    · -- the end of the stream
      have hnil : s.unread = [] := List.length_eq_zero_iff.mp (by omega)
      refine ⟨_, rfl, ?_, ?_⟩
      · simp [ReadStream.read, hnil]
      · simpa [hnil] using ⟨h.buf, h.truncated⟩
    · obtain ⟨s₁, hstore, hunread, hholds⟩ := h.turn size
      obtain ⟨s₂, hloop, hunread₂, hholds₂⟩ := ih hrest hholds
      have htake : s.unread.take (s.read size).1 = s.unread.take size := by
        rw [hn, List.take_eq_take_iff]
        omega
      have hdrop : s.unread.drop (s.read size).1 = s.unread.drop size := by
        rw [hn, List.drop_eq_drop_iff]
        omega
      rw [hunread, hdrop, List.drop_drop] at hunread₂
      rw [hunread, hdrop, htake, List.append_assoc, ← List.take_add] at hholds₂
      refine ⟨s₂, ?_, hunread₂, hholds₂⟩
      rw [hstore]
      exact hloop

/-- For every stream and every way in which it is split into reads, the loop ends without a
    slice out of range, has taken from the pipe all bytes of its reads, and leaves them in the
    buffer, cut off after 2 MiB. At the end of the stream these are all its bytes. -/
theorem readStreamCapped_exact (stream : List UInt8) (sizes : List ℕ)
    (hsizes : ∀ size ∈ sizes, 1 ≤ size ∧ size ≤ chunkSize) :
    ∃ s, readStreamCapped sizes (.start stream) = .ok s ∧ s.unread = stream.drop sizes.sum ∧
      s.buf = capped (stream.take sizes.sum) ∧
      (stream.length ≤ sizes.sum → s.buf =
        if stream.length ≤ maxOutputBytes then stream
        else stream.take maxOutputBytes ++ truncationSuffix) := by
  have hstart : (ReadStream.start stream).Holds [] := ⟨rfl, rfl⟩
  obtain ⟨s, hloop, hunread, hholds⟩ := readStreamCapped_spec hsizes hstart
  refine ⟨s, hloop, hunread, hholds.buf, fun hend => ?_⟩
  rw [hholds.buf, List.nil_append]
  change capped (stream.take sizes.sum) = _
  rw [List.take_of_length_le hend]
  rfl

/-- Five bytes, in a read of two and one of three. -/
theorem readStreamCapped_exact_two :
    ∃ s, readStreamCapped [2, 3] (.start [104, 101, 108, 108, 111]) = .ok s ∧
      s.buf = [104, 101, 108, 108, 111] := by
  obtain ⟨s, hloop, -, -, hend⟩ :=
    readStreamCapped_exact [104, 101, 108, 108, 111] [2, 3] (by decide)
  exact ⟨s, hloop, hend (by decide)⟩

end EasyJob.Executor
