import AndroidSdk.Lib.Records
import AndroidSdk.Lib.Text
import Mathlib.Data.List.GetD
import Mathlib.Data.List.Infix

/-! # Filtering the chunks of a PNG file

`PngChunkFilter` (`libs/androidfw/PngChunkFilter.cpp`) is a stream that hands out the bytes of a PNG
file in memory without the chunks that libpng does not need. A window of bytes to hand out is moved
over the file; the file is cut behind its first `IEND` chunk.

* **`PngChunkFilter`** — the stream, with `next`, `backUp` and `rewind`.
* **`pngChunks`** — the chunks of a file up to the first `IEND`, if all of them are whole.
* **`Session`** — what a caller has got from the stream by some calls.
* **`pngChunkFilter_exact`** — that is the signature and the allowed chunks. -/

namespace AndroidSdk.Androidfw

open Lib

/-! ## The stream -/

/-- `kPngSignature`. -/
def kPngSignature : List UInt8 := [0x89, 0x50, 0x4e, 0x47, 0x0d, 0x0a, 0x1a, 0x0a]

/-- `kPngSignatureSize`. -/
def kPngSignatureSize : ℕ := 8

/-- `kMinChunkHeaderSize`: length, type and checksum. -/
def kMinChunkHeaderSize : ℕ := 12

/-- `u32`. -/
def u32 (a b c d : UInt8) : UInt32 :=
  a.toUInt32 <<< 24 ||| b.toUInt32 <<< 16 ||| c.toUInt32 <<< 8 ||| d.toUInt32

/-- `kPngChunkIHDR`. -/
def kPngChunkIHDR : UInt32 := u32 73 72 68 82

/-- `kPngChunkIDAT`. -/
def kPngChunkIDAT : UInt32 := u32 73 68 65 84

/-- `kPngChunkIEND`. -/
def kPngChunkIEND : UInt32 := u32 73 69 78 68

/-- `kPngChunkPLTE`. -/
def kPngChunkPLTE : UInt32 := u32 80 76 84 69

/-- `kPngChunktRNS`. -/
def kPngChunktRNS : UInt32 := u32 116 82 78 83

/-- `kPngChunksRGB`. -/
def kPngChunksRGB : UInt32 := u32 115 82 71 66

/-- `Peek32LE`, which reads the most significant byte first. -/
def peek32LE (data : List UInt8) : UInt32 :=
  let word := (data.getD 0 0).toUInt32
  let word := word <<< 8 ||| (data.getD 1 0).toUInt32
  let word := word <<< 8 ||| (data.getD 2 0).toUInt32
  word <<< 8 ||| (data.getD 3 0).toUInt32

/-- `IsPngChunkAllowed`. -/
def isPngChunkAllowed (type : UInt32) : Bool :=
  type = kPngChunkIHDR ∨ type = kPngChunkIDAT ∨ type = kPngChunkIEND ∨ type = kPngChunkPLTE
    ∨ type = kPngChunktRNS ∨ type = kPngChunksRGB

/-- `%08x`. -/
def hex8 (n : ℕ) : String :=
  let digits := Nat.toDigits 16 n
  String.ofList (List.replicate (8 - digits.length) '0' ++ digits)

/-- The message for a file with another signature. -/
def noSignatureMsg : String := "file does not start with PNG signature"

/-- The message for a chunk without room for its header. -/
def noSpaceMsg (windowEnd size : ℕ) : String :=
  "Not enough space for a PNG chunk @ byte " ++ toString windowEnd ++ "/" ++ toString size

/-- The message for a chunk that is longer than the rest of the file. -/
def tooLargeMsg (chunkType : UInt32) (chunkLen windowEnd size : ℕ) : String :=
  "PNG chunk type " ++ hex8 chunkType.toNat ++ " is too large: chunk length is "
    ++ toString chunkLen ++ " but chunk starts at byte "
    ++ toString (windowEnd + kMinChunkHeaderSize) ++ "/" ++ toString size

/-- `PngChunkFilter`. -/
structure PngChunkFilter where
  data : List UInt8
  windowStart : ℕ
  windowEnd : ℕ
  errorMsg : String
  deriving DecidableEq

namespace PngChunkFilter

/-- The constructor. -/
def ofData (data : List UInt8) : PngChunkFilter :=
  if kPngSignature <+: data then ⟨data, 0, kPngSignatureSize, ""⟩ else ⟨data, 0, 0, noSignatureMsg⟩

/-- `HadError`. -/
def hadError (f : PngChunkFilter) : Bool := f.errorMsg ≠ ""

/-- `ConsumeWindow`: a buffer is given by its position in the data and its length. -/
def consumeWindow (f : PngChunkFilter) : Option (ℕ × ℕ) × PngChunkFilter :=
  if f.windowStart ≠ f.windowEnd then
    (some (f.windowStart, f.windowEnd - f.windowStart), { f with windowStart := f.windowEnd })
  else (none, f)

/-- The loop of `Next`, which advances the window as far as possible. Each round passes a chunk, so
the length of the data bounds their number. -/
def advanceWindow : ℕ → PngChunkFilter → PngChunkFilter
  | 0, f => f
  | fuel + 1, f =>
      if f.windowEnd < f.data.length then
        if f.data.length - f.windowEnd < kMinChunkHeaderSize then
          { f with errorMsg := noSpaceMsg f.windowEnd f.data.length }
        else
          let chunkLen := (peek32LE (f.data.drop f.windowEnd)).toNat
          let chunkType := peek32LE (f.data.drop (f.windowEnd + 4))
          if chunkLen > f.data.length - f.windowEnd - kMinChunkHeaderSize then
            { f with errorMsg := tooLargeMsg chunkType chunkLen f.windowEnd f.data.length }
          else
            let chunkEnd := f.windowEnd + (kMinChunkHeaderSize + chunkLen)
            if isPngChunkAllowed chunkType then
              -- there may be garbage behind the last chunk, so the data is cut there
              if chunkType = kPngChunkIEND then
                { f with windowEnd := chunkEnd, data := f.data.take chunkEnd }
              else advanceWindow fuel { f with windowEnd := chunkEnd }
            else if f.windowStart ≠ f.windowEnd then f
            else advanceWindow fuel { f with windowStart := chunkEnd, windowEnd := chunkEnd }
      else f

/-- `Next`: a buffer, or none if there is an error or nothing is left. -/
def next (f : PngChunkFilter) : Option (ℕ × ℕ) × PngChunkFilter :=
  if f.hadError then (none, f)
  -- the window is not empty if `BackUp` was called
  else if f.windowStart ≠ f.windowEnd then f.consumeWindow
  else
    let f := advanceWindow f.data.length f
    if f.hadError then (none, f) else f.consumeWindow

/-- `BackUp`, for no more bytes than the last buffer had. -/
def backUp (count : ℕ) (f : PngChunkFilter) : PngChunkFilter :=
  if f.hadError then f else { f with windowStart := f.windowStart - count }

/-- `Rewind`. -/
def rewind (f : PngChunkFilter) : Bool × PngChunkFilter :=
  if f.hadError then (false, f)
  else (true, { f with windowStart := 0, windowEnd := kPngSignatureSize })

end PngChunkFilter

/-! ## The chunks of a file -/

/-- The length of the first chunk, if it is neither truncated nor too long. -/
def chunkSize (data : List UInt8) : Option ℕ :=
  if data.length < kMinChunkHeaderSize then none
  else if (peek32LE data).toNat > data.length - kMinChunkHeaderSize then none
  else some (kMinChunkHeaderSize + (peek32LE data).toNat)

/-- The type of a chunk. -/
def chunkType (chunk : List UInt8) : UInt32 := peek32LE (chunk.drop 4)

/-- Whether a chunk ends the file. -/
def isLastChunk (chunk : List UInt8) : Bool := chunkType chunk = kPngChunkIEND

/-- The chunks of a file behind its signature, up to the first `IEND` chunk or the end of the file;
none if a truncated or over-long chunk comes before. -/
def pngChunks (data : List UInt8) : Option (List (List UInt8)) :=
  records chunkSize isLastChunk (data.drop kPngSignatureSize)

/-- What is left of a file: the signature and the allowed chunks. -/
def filtered (chunks : List (List UInt8)) : List UInt8 :=
  kPngSignature ++ (chunks.filter fun chunk => isPngChunkAllowed (chunkType chunk)).flatten

/-! ## Calls -/

/-- A call of the stream. -/
inductive Call where
  | next
  | backUp (count : ℕ)
  | rewind
  deriving DecidableEq

/-- What a caller has: the stream, the bytes since the last `Rewind` without those that were backed
up, how many bytes may be backed up, the buffers of all calls, and whether the last call was a
`Next` that failed. -/
structure Session where
  filter : PngChunkFilter
  delivered : List UInt8
  returned : ℕ
  windows : List (ℕ × ℕ)
  failed : Bool
  deriving DecidableEq

/-- Before all calls. -/
def Session.start (data : List UInt8) : Session := ⟨.ofData data, [], 0, [], false⟩

/-- One call. Bytes are backed up directly after they were returned only. -/
def Session.call (data : List UInt8) (s : Session) : Call → Option Session
  | .next =>
      match s.filter.next with
      | (some (start, len), filter) =>
          some ⟨filter, s.delivered ++ (data.drop start).take len, len, s.windows ++ [(start, len)],
            false⟩
      | (none, filter) => some { s with filter, returned := 0, failed := true }
  | .backUp count =>
      if count ≤ s.returned then
        some { s with
          filter := s.filter.backUp count
          delivered := s.delivered.take (s.delivered.length - count)
          returned := 0
          failed := false }
      else none
  | .rewind =>
      some { s with filter := s.filter.rewind.2, delivered := [], returned := 0, failed := false }

/-! ## One chunk -/

/-- A word depends on its four bytes only. -/
theorem peek32LE_append {data : List UInt8} (h : 4 ≤ data.length) (rest : List UInt8) :
    peek32LE (data ++ rest) = peek32LE data := by
  have hget (i : ℕ) (hi : i < 4) : (data ++ rest).getD i 0 = data.getD i 0 :=
    List.getD_append data rest 0 i (by omega)
  unfold peek32LE
  rw [hget 0 (by omega), hget 1 (by omega), hget 2 (by omega), hget 3 (by omega)]

/-- The length of a chunk that fits. -/
theorem chunkSize_eq_some_iff {data : List UInt8} {n : ℕ} :
    chunkSize data = some n
      ↔ kMinChunkHeaderSize + (peek32LE data).toNat = n ∧ n ≤ data.length := by
  unfold chunkSize
  split_ifs with hspace hlarge
  · simp only [false_iff, not_and]
    omega
  · simp only [false_iff, not_and]
    omega
  · rw [Option.some_inj, and_iff_left_of_imp]
    omega

/-- A whole chunk is cut off wherever it stands. -/
theorem chunkSize_take {data : List UInt8} {n : ℕ} (h : chunkSize data = some n)
    (rest : List UInt8) : chunkSize (data.take n ++ rest) = some (data.take n).length := by
  obtain ⟨hn, hle⟩ := chunkSize_eq_some_iff.mp h
  have hlen : (data.take n).length = n := List.length_take_of_le hle
  have hheader : 4 ≤ (data.take n).length := by
    rw [hlen, ← hn, kMinChunkHeaderSize]
    omega
  have hpeek : peek32LE (data.take n) = peek32LE data := by
    rw [← peek32LE_append hheader (data.drop n), List.take_append_drop]
  rw [chunkSize_eq_some_iff, peek32LE_append hheader, hpeek, hlen]
  refine ⟨hn, ?_⟩
  rw [List.length_append, hlen]
  exact Nat.le_add_right n _

/-- The type of a whole chunk. -/
theorem chunkType_take {data : List UInt8} {n : ℕ} (h : chunkSize data = some n) :
    chunkType (data.take n) = peek32LE (data.drop 4) := by
  obtain ⟨hn, hle⟩ := chunkSize_eq_some_iff.mp h
  have hheader : 4 ≤ ((data.take n).drop 4).length := by
    rw [List.length_drop, List.length_take_of_le hle, ← hn, kMinChunkHeaderSize]
    omega
  have hdrop : (data.take n).drop 4 ++ data.drop n = data.drop 4 := by
    conv_rhs => rw [← List.take_append_drop n data, List.drop_append_of_le_length
      (by rw [List.length_take_of_le hle, ← hn, kMinChunkHeaderSize]; omega)]
  rw [chunkType, ← peek32LE_append hheader (data.drop n), hdrop]

/-- A whole chunk fits. -/
theorem add_le_of_chunkSize {data : List UInt8} {k n : ℕ} (hle : k ≤ data.length)
    (h : chunkSize (data.drop k) = some n) : k + n ≤ data.length := by
  have hfits := (chunkSize_eq_some_iff.mp h).2
  rw [List.length_drop] at hfits
  omega

/-- A whole chunk is not empty. -/
theorem take_chunkSize_ne_nil {data : List UInt8} {n : ℕ} (h : chunkSize data = some n) :
    data.take n ≠ [] := by
  obtain ⟨hn, hle⟩ := chunkSize_eq_some_iff.mp h
  refine List.ne_nil_of_length_pos ?_
  rw [List.length_take_of_le hle, ← hn, kMinChunkHeaderSize]
  omega

/-- One more chunk is left in the file if it is allowed. -/
theorem filtered_append (chunks : List (List UInt8)) (chunk : List UInt8) :
    filtered (chunks ++ [chunk])
      = filtered chunks ++ if isPngChunkAllowed (chunkType chunk) then chunk else [] := by
  unfold filtered
  rw [List.filter_append, List.flatten_append, ← List.append_assoc]
  congr 1
  by_cases hallowed : isPngChunkAllowed (chunkType chunk) = true
  · simp [hallowed]
  · simp [hallowed]

/-! ## The window -/

/-- The message for a chunk without room for its header is one. -/
theorem noSpaceMsg_ne (windowEnd size : ℕ) : noSpaceMsg windowEnd size ≠ "" := by
  unfold noSpaceMsg
  repeat apply append_ne_empty
  decide

/-- The message for a chunk that is too long is one. -/
theorem tooLargeMsg_ne (chunkType : UInt32) (chunkLen windowEnd size : ℕ) :
    tooLargeMsg chunkType chunkLen windowEnd size ≠ "" := by
  unfold tooLargeMsg
  repeat apply append_ne_empty
  decide

namespace PngChunkFilter

/-- The bytes of the window. -/
def window (f : PngChunkFilter) : List UInt8 :=
  (f.data.drop f.windowStart).take (f.windowEnd - f.windowStart)

/-- What is left of the file up to the end of the window. -/
inductive Reached (f : PngChunkFilter) : List UInt8 → Prop
  /-- Whole chunks were passed, none of them the last. -/
  | passed (run : List UInt8) (chunks : List (List UInt8))
      (hpasses : Passes chunkSize isLastChunk run chunks)
      (hdrop : f.data.drop kPngSignatureSize = run ++ f.data.drop f.windowEnd) :
      Reached f (filtered chunks)
  /-- The window is at the end of the file. -/
  | ended (chunks : List (List UInt8)) (hend : f.windowEnd = f.data.length)
      (hchunks : pngChunks f.data = some chunks) : Reached f (filtered chunks)

/-- What was reached is about the data and the end of the window. -/
theorem Reached.congr {f f' : PngChunkFilter} {kept : List UInt8} (h : Reached f kept)
    (hdata : f'.data = f.data) (hend : f'.windowEnd = f.windowEnd) : Reached f' kept := by
  cases h with
  | passed run chunks hpasses hdrop =>
      exact .passed run chunks hpasses (by rw [hdata, hdrop, hend])
  | ended chunks hend' hchunks =>
      exact .ended chunks (by rw [hend, hend', hdata]) (by rw [hdata, hchunks])

/-- At the end of the file all its chunks were reached. -/
theorem Reached.of_end {f : PngChunkFilter} {kept : List UInt8} (h : Reached f kept)
    (hend : f.windowEnd = f.data.length) :
    ∃ chunks, pngChunks f.data = some chunks ∧ kept = filtered chunks := by
  cases h with
  | passed run chunks hpasses hdrop =>
      refine ⟨chunks, ?_, rfl⟩
      rw [pngChunks, hdrop, hpasses, hend, List.drop_length, records_nil, Option.map_some,
        List.append_nil]
  | ended chunks _ hchunks => exact ⟨chunks, hchunks, rfl⟩

/-- Before the end of the file there are chunks to come. -/
theorem Reached.of_lt {f : PngChunkFilter} {kept : List UInt8} (h : Reached f kept)
    (hlt : f.windowEnd < f.data.length) :
    ∃ run chunks, Passes chunkSize isLastChunk run chunks
      ∧ f.data.drop kPngSignatureSize = run ++ f.data.drop f.windowEnd
      ∧ kept = filtered chunks := by
  cases h with
  | passed run chunks hpasses hdrop => exact ⟨run, chunks, hpasses, hdrop, rfl⟩
  | ended _ hend _ => exact absurd hend hlt.ne

/-- Where the stream stands after `delivered` was handed out. -/
structure Exact (data : List UInt8) (f : PngChunkFilter) (delivered : List UInt8) : Prop where
  data_prefix : f.data <+: data
  signature : kPngSignature <+: f.data
  chunks_eq : pngChunks f.data = pngChunks data
  start_le : f.windowStart ≤ f.windowEnd
  end_le : f.windowEnd ≤ f.data.length
  chunks_none : f.hadError = true → pngChunks data = none
  reached : f.hadError = false → Reached f (delivered ++ f.window)

/-- The window after the signature. -/
theorem reached_signature {f : PngChunkFilter} (hsig : kPngSignature <+: f.data)
    (hstart : f.windowStart = 0) (hend : f.windowEnd = kPngSignatureSize) :
    Reached f ([] ++ f.window) := by
  have hwindow : [] ++ f.window = filtered [] := by
    rw [List.nil_append, window, hstart, hend, List.drop_zero, Nat.sub_zero]
    exact (List.prefix_iff_eq_take.mp hsig).symm.trans (List.append_nil _).symm
  rw [hwindow]
  exact .passed [] [] .nil (by rw [hend, List.nil_append])

/-- An empty window has no bytes. -/
theorem window_of_empty {f : PngChunkFilter} (h : f.windowStart = f.windowEnd) : f.window = [] := by
  rw [window, h, Nat.sub_self, List.take_zero]

/-- The window grows by a chunk. -/
theorem window_extend {f : PngChunkFilter} {n : ℕ} (hle : f.windowStart ≤ f.windowEnd) :
    { f with windowEnd := f.windowEnd + n }.window
      = f.window ++ (f.data.drop f.windowEnd).take n := by
  have hsub : f.windowEnd + n - f.windowStart = (f.windowEnd - f.windowStart) + n := by omega
  have hdrop : f.windowStart + (f.windowEnd - f.windowStart) = f.windowEnd := by omega
  unfold window
  rw [hsub, List.take_add, List.drop_drop, hdrop]

/-- A round of the loop at a bad chunk. -/
theorem advanceWindow_of_bad {f : PngChunkFilter} (hlt : f.windowEnd < f.data.length)
    (hbad : chunkSize (f.data.drop f.windowEnd) = none) (fuel : ℕ) :
    ∃ msg, msg ≠ "" ∧ f.advanceWindow (fuel + 1) = { f with errorMsg := msg } := by
  unfold chunkSize at hbad
  rw [List.length_drop] at hbad
  rw [advanceWindow, if_pos hlt]
  by_cases hspace : f.data.length - f.windowEnd < kMinChunkHeaderSize
  · exact ⟨_, noSpaceMsg_ne _ _, if_pos hspace⟩
  · rw [if_neg hspace] at hbad ⊢
    refine ⟨_, tooLargeMsg_ne _ _ _ _, if_pos ?_⟩
    by_contra hfits
    rw [if_neg hfits] at hbad
    exact Option.some_ne_none _ hbad

/-- A round of the loop at a whole chunk. -/
theorem advanceWindow_of_size {f : PngChunkFilter} {n : ℕ} (hlt : f.windowEnd < f.data.length)
    (hsize : chunkSize (f.data.drop f.windowEnd) = some n) (fuel : ℕ) :
    f.advanceWindow (fuel + 1) =
      if isPngChunkAllowed (chunkType ((f.data.drop f.windowEnd).take n)) then
        if isLastChunk ((f.data.drop f.windowEnd).take n) then
          { f with windowEnd := f.windowEnd + n, data := f.data.take (f.windowEnd + n) }
        else advanceWindow fuel { f with windowEnd := f.windowEnd + n }
      else if f.windowStart ≠ f.windowEnd then f
      else advanceWindow fuel
        { f with windowStart := f.windowEnd + n, windowEnd := f.windowEnd + n } := by
  obtain ⟨hn, hle⟩ := chunkSize_eq_some_iff.mp hsize
  rw [List.length_drop] at hle
  rw [advanceWindow, if_pos hlt, if_neg (by omega), isLastChunk, chunkType_take hsize,
    List.drop_drop, ← hn]
  simp only [decide_eq_true_eq]
  exact if_neg (by omega)

/-- `Next` without an error before. -/
theorem next_of_not_hadError {f : PngChunkFilter} (hno : f.hadError = false) :
    f.next =
      if f.windowStart ≠ f.windowEnd then f.consumeWindow
      else if (f.advanceWindow f.data.length).hadError then (none, f.advanceWindow f.data.length)
      else (f.advanceWindow f.data.length).consumeWindow := by
  rw [next, if_neg (by rw [hno]; exact Bool.false_ne_true)]

/-- Nothing is handed out of an empty window. -/
theorem consumeWindow_none {f f' : PngChunkFilter} (h : f.consumeWindow = (none, f')) :
    f.windowStart = f.windowEnd ∧ f' = f := by
  unfold consumeWindow at h
  split_ifs at h with hwindow
  · simp at h
  · exact ⟨not_not.mp hwindow, (Prod.mk.inj h).2.symm⟩

/-- The last chunk is an allowed one. -/
theorem isPngChunkAllowed_of_isLastChunk {chunk : List UInt8} (h : isLastChunk chunk = true) :
    isPngChunkAllowed (chunkType chunk) = true := by
  rw [of_decide_eq_true h]
  decide

namespace Exact

variable {data : List UInt8} {f : PngChunkFilter} {delivered : List UInt8}

/-- A bad chunk before the end of the file. -/
theorem pngChunks_eq_none (h : Exact data f delivered) (hno : f.hadError = false)
    (hlt : f.windowEnd < f.data.length) (hbad : chunkSize (f.data.drop f.windowEnd) = none) :
    pngChunks data = none := by
  obtain ⟨run, chunks, hpasses, hdrop, _⟩ := (h.reached hno).of_lt hlt
  have hne : f.data.drop f.windowEnd ≠ [] := by
    rw [ne_eq, List.drop_eq_nil_iff]
    omega
  rw [← h.chunks_eq, pngChunks, hdrop, hpasses, records_of_bad hne hbad, Option.map_none]

/-- An error is reported for a bad chunk. -/
theorem fail (h : Exact data f delivered) (hno : f.hadError = false)
    (hlt : f.windowEnd < f.data.length) (hbad : chunkSize (f.data.drop f.windowEnd) = none)
    {msg : String} (hmsg : msg ≠ "") : Exact data { f with errorMsg := msg } delivered where
  data_prefix := h.data_prefix
  signature := h.signature
  chunks_eq := h.chunks_eq
  start_le := h.start_le
  end_le := h.end_le
  chunks_none := fun _ => h.pngChunks_eq_none hno hlt hbad
  reached := fun herror => absurd herror (by simp [hadError, hmsg])

section Chunk

variable {n : ℕ} (h : Exact data f delivered) (hno : f.hadError = false)
  (hlt : f.windowEnd < f.data.length) (hsize : chunkSize (f.data.drop f.windowEnd) = some n)
include h hno hlt hsize

/-- One more chunk is passed if it is not the last. -/
theorem reached_pass {f' : PngChunkFilter} (hdata : f'.data = f.data)
    (hend : f'.windowEnd = f.windowEnd + n)
    (hlast : isLastChunk ((f.data.drop f.windowEnd).take n) = false) :
    Reached f' ((delivered ++ f.window)
      ++ if isPngChunkAllowed (chunkType ((f.data.drop f.windowEnd).take n))
          then (f.data.drop f.windowEnd).take n else []) := by
  obtain ⟨run, chunks, hpasses, hdrop, hkept⟩ := (h.reached hno).of_lt hlt
  rw [hkept, ← filtered_append]
  refine .passed (run ++ (f.data.drop f.windowEnd).take n) _
    (hpasses.append (passes_record (take_chunkSize_ne_nil hsize) (chunkSize_take hsize) hlast)) ?_
  rw [hdata, hdrop, hend, List.append_assoc, ← List.drop_drop, List.take_append_drop]

/-- **An allowed chunk** gets into the window. -/
theorem keep (hallowed : isPngChunkAllowed (chunkType ((f.data.drop f.windowEnd).take n)) = true)
    (hlast : isLastChunk ((f.data.drop f.windowEnd).take n) = false) :
    Exact data { f with windowEnd := f.windowEnd + n } delivered where
  data_prefix := h.data_prefix
  signature := h.signature
  chunks_eq := h.chunks_eq
  start_le := h.start_le.trans (Nat.le_add_right _ n)
  end_le := add_le_of_chunkSize h.end_le hsize
  chunks_none := fun herror => h.chunks_none herror
  reached := fun _ => by
    have hreached : Reached { f with windowEnd := f.windowEnd + n } _ :=
      reached_pass h hno hlt hsize rfl rfl hlast
    rwa [if_pos hallowed, List.append_assoc, ← window_extend h.start_le] at hreached

/-- **Another chunk** is passed by an empty window. -/
theorem strip (hallowed : ¬ isPngChunkAllowed (chunkType ((f.data.drop f.windowEnd).take n)) = true)
    (hlast : isLastChunk ((f.data.drop f.windowEnd).take n) = false)
    (hempty : f.windowStart = f.windowEnd) :
    Exact data { f with windowStart := f.windowEnd + n, windowEnd := f.windowEnd + n }
      delivered where
  data_prefix := h.data_prefix
  signature := h.signature
  chunks_eq := h.chunks_eq
  start_le := le_rfl
  end_le := add_le_of_chunkSize h.end_le hsize
  chunks_none := fun herror => h.chunks_none herror
  reached := fun _ => by
    have hreached :
        Reached { f with windowStart := f.windowEnd + n, windowEnd := f.windowEnd + n } _ :=
      reached_pass h hno hlt hsize rfl rfl hlast
    rw [if_neg hallowed, window_of_empty hempty, List.append_nil] at hreached
    rwa [window_of_empty rfl]

/-- **The last chunk** gets into the window, and the data ends behind it. -/
theorem keepLast
    (hallowed : isPngChunkAllowed (chunkType ((f.data.drop f.windowEnd).take n)) = true)
    (hlast : isLastChunk ((f.data.drop f.windowEnd).take n) = true) :
    Exact data { f with windowEnd := f.windowEnd + n, data := f.data.take (f.windowEnd + n) }
      delivered := by
  have hle := add_le_of_chunkSize h.end_le hsize
  have hlen : (f.data.take (f.windowEnd + n)).length = f.windowEnd + n := List.length_take_of_le hle
  obtain ⟨run, chunks, hpasses, hdrop, hkept⟩ := (h.reached hno).of_lt hlt
  have hrun : kPngSignatureSize + run.length = f.windowEnd := by
    have hlength := congrArg List.length hdrop
    have hsignature : kPngSignatureSize ≤ f.data.length := h.signature.length_le
    rw [List.length_append, List.length_drop, List.length_drop] at hlength
    omega
  -- the chunks of the whole data and of the data up to here are the same
  have hrecords (rest : List UInt8) :
      records chunkSize isLastChunk (run ++ ((f.data.drop f.windowEnd).take n ++ rest))
        = some (chunks ++ [(f.data.drop f.windowEnd).take n]) := by
    rw [hpasses, records_of_last (take_chunkSize_ne_nil hsize) (chunkSize_take hsize) hlast,
      Option.map_some]
  have hwhole : pngChunks f.data = some (chunks ++ [(f.data.drop f.windowEnd).take n]) := by
    rw [pngChunks, hdrop, ← hrecords ((f.data.drop f.windowEnd).drop n), List.take_append_drop]
  have hcut : pngChunks (f.data.take (f.windowEnd + n))
      = some (chunks ++ [(f.data.drop f.windowEnd).take n]) := by
    have hchunk : (f.data.take (f.windowEnd + n)).drop kPngSignatureSize
        = run ++ (f.data.drop f.windowEnd).take n := by
      rw [List.drop_take, hdrop, List.take_append, List.take_of_length_le (by omega)]
      congr 2
      omega
    rw [← hrecords [], List.append_nil, pngChunks, hchunk]
  exact
    { data_prefix := (List.take_prefix _ f.data).trans h.data_prefix
      signature := List.prefix_take_iff.mpr ⟨h.signature, by
        rw [← hrun, Nat.add_assoc]
        exact Nat.le_add_right kPngSignatureSize _⟩
      chunks_eq := by rw [hcut, ← hwhole, h.chunks_eq]
      start_le := h.start_le.trans (Nat.le_add_right _ n)
      end_le := hlen.ge
      chunks_none := fun herror => h.chunks_none herror
      reached := fun _ => by
        have hwindow : { f with
            windowEnd := f.windowEnd + n, data := f.data.take (f.windowEnd + n) }.window
              = f.window ++ (f.data.drop f.windowEnd).take n := by
          rw [← window_extend h.start_le, window, window, List.drop_take, List.take_take, min_self]
        rw [hwindow, ← List.append_assoc, hkept]
        have hfiltered := filtered_append chunks ((f.data.drop f.windowEnd).take n)
        rw [if_pos hallowed] at hfiltered
        rw [← hfiltered]
        exact .ended _ hlen.symm hcut }

end Chunk

/-- **The loop** keeps what was handed out exact, and it leaves an empty window at the end of the
data only. -/
theorem advanceWindow {fuel : ℕ} (h : Exact data f delivered) (hno : f.hadError = false)
    (hfuel : f.data.length ≤ f.windowEnd + fuel) :
    Exact data (f.advanceWindow fuel) delivered
      ∧ ((f.advanceWindow fuel).hadError = false →
        (f.advanceWindow fuel).windowStart = (f.advanceWindow fuel).windowEnd →
          (f.advanceWindow fuel).windowEnd = (f.advanceWindow fuel).data.length) := by
  induction fuel generalizing f with
  | zero => exact ⟨h, fun _ _ => le_antisymm h.end_le hfuel⟩
  | succ fuel ih =>
      by_cases hlt : f.windowEnd < f.data.length
      case neg =>
        rw [PngChunkFilter.advanceWindow, if_neg hlt]
        exact ⟨h, fun _ _ => le_antisymm h.end_le (Nat.le_of_not_lt hlt)⟩
      cases hsize : chunkSize (f.data.drop f.windowEnd) with
      | none =>
          obtain ⟨msg, hmsg, hround⟩ := advanceWindow_of_bad hlt hsize fuel
          rw [hround]
          refine ⟨h.fail hno hlt hsize hmsg, fun herror => absurd herror ?_⟩
          simp [hadError, hmsg]
      | some n =>
          have hpos : 0 < n := by
            have hn := (chunkSize_eq_some_iff.mp hsize).1
            rw [kMinChunkHeaderSize] at hn
            omega
          have hstart := h.start_le
          rw [advanceWindow_of_size hlt hsize fuel]
          split_ifs with hallowed hlast hwindow
          · exact ⟨h.keepLast hno hlt hsize hallowed hlast, fun _ hempty =>
              absurd hempty (Nat.ne_of_lt (by simp only; omega))⟩
          · exact ih (h.keep hno hlt hsize hallowed (Bool.eq_false_iff.mpr hlast)) hno
              (by simp only; omega)
          -- the window is handed out before a chunk is stripped
          · exact ⟨h, fun _ hempty => absurd hempty hwindow⟩
          · have hlast : isLastChunk ((f.data.drop f.windowEnd).take n) = false :=
              Bool.eq_false_iff.mpr fun hlast => hallowed (isPngChunkAllowed_of_isLastChunk hlast)
            exact ih (h.strip hno hlt hsize hallowed hlast (not_not.mp hwindow)) hno
              (by simp only; omega)

/-- A buffer lies in the file, and its bytes are those of the window. -/
theorem consumeWindow (h : Exact data f delivered) (hno : f.hadError = false) {start len : ℕ}
    {f' : PngChunkFilter} (hconsume : f.consumeWindow = (some (start, len), f')) :
    Exact data f' (delivered ++ (data.drop start).take len) ∧ f'.windowStart = start + len
      ∧ start + len ≤ data.length := by
  have hstart := h.start_le
  have hend := h.end_le
  have hlen := h.data_prefix.length_le
  unfold PngChunkFilter.consumeWindow at hconsume
  split_ifs at hconsume
  case neg => simp at hconsume
  rw [Prod.mk.injEq, Option.some_inj, Prod.mk.injEq] at hconsume
  obtain ⟨⟨rfl, rfl⟩, rfl⟩ := hconsume
  refine ⟨⟨h.data_prefix, h.signature, h.chunks_eq, le_rfl, h.end_le, h.chunks_none, fun _ => ?_⟩,
    by simp only; omega, by omega⟩
  have hbytes : (data.drop f.windowStart).take (f.windowEnd - f.windowStart) = f.window := by
    obtain ⟨rest, hrest⟩ := h.data_prefix
    rw [← hrest, List.drop_append_of_le_length (by omega), List.take_append_of_le_length
      (by rw [List.length_drop]; omega)]
    rfl
  have hempty : { f with windowStart := f.windowEnd }.window = [] := window_of_empty rfl
  rw [hbytes, hempty, List.append_nil]
  exact (h.reached hno).congr rfl rfl

/-- `Next` hands out the window. -/
theorem next_some (h : Exact data f delivered) {start len : ℕ} {f' : PngChunkFilter}
    (hnext : f.next = (some (start, len), f')) :
    Exact data f' (delivered ++ (data.drop start).take len) ∧ f'.windowStart = start + len
      ∧ start + len ≤ data.length := by
  cases hno : f.hadError with
  | true => simp [next, hno] at hnext
  | false =>
      rw [next_of_not_hadError hno] at hnext
      split_ifs at hnext with hwindow herror
      · exact h.consumeWindow hno hnext
      · simp at hnext
      · exact (h.advanceWindow hno (Nat.le_add_left _ _)).1.consumeWindow
          (Bool.eq_false_iff.mpr herror) hnext

/-- `Next` fails after an error or at the end of the data. -/
theorem next_none (h : Exact data f delivered) {f' : PngChunkFilter}
    (hnext : f.next = (none, f')) :
    Exact data f' delivered ∧ (f'.hadError = false →
      f'.windowStart = f'.windowEnd ∧ f'.windowEnd = f'.data.length) := by
  cases hno : f.hadError with
  | true =>
      rw [next, if_pos hno, Prod.mk.injEq] at hnext
      obtain ⟨_, rfl⟩ := hnext
      exact ⟨h, fun hno' => absurd (hno'.symm.trans hno) Bool.false_ne_true⟩
  | false =>
      obtain ⟨hexact, hempty⟩ := h.advanceWindow hno (Nat.le_add_left f.data.length f.windowEnd)
      rw [next_of_not_hadError hno] at hnext
      split_ifs at hnext with hwindow herror
      · exact absurd (consumeWindow_none hnext).1 hwindow
      · rw [Prod.mk.injEq] at hnext
        obtain ⟨_, rfl⟩ := hnext
        exact ⟨hexact, fun hno' => absurd (hno'.symm.trans herror) Bool.false_ne_true⟩
      · obtain ⟨hwindow', rfl⟩ := consumeWindow_none hnext
        exact ⟨hexact, fun hno' => ⟨hwindow', hempty hno' hwindow'⟩⟩

/-- `BackUp` takes back the last bytes that were handed out. -/
theorem backUp {count : ℕ} (hcount : count ≤ f.windowStart)
    (h : Exact data f (delivered ++ (data.drop (f.windowStart - count)).take count)) :
    Exact data (f.backUp count) delivered := by
  have hstart := h.start_le
  have hend := h.end_le
  unfold PngChunkFilter.backUp
  split_ifs with herror
  · exact ⟨h.data_prefix, h.signature, h.chunks_eq, hstart, hend, h.chunks_none,
      fun hno => absurd (hno.symm.trans herror) Bool.false_ne_true⟩
  refine ⟨h.data_prefix, h.signature, h.chunks_eq, (Nat.sub_le _ _).trans hstart, hend,
    h.chunks_none, fun hno => ?_⟩
  have hreached := h.reached hno
  have hwindow : { f with windowStart := f.windowStart - count }.window
      = (data.drop (f.windowStart - count)).take count ++ f.window := by
    obtain ⟨rest, hrest⟩ := h.data_prefix
    have hsub : f.windowEnd - (f.windowStart - count)
        = count + (f.windowEnd - f.windowStart) := by omega
    have hadd : f.windowStart - count + count = f.windowStart := by omega
    rw [← hrest, List.drop_append_of_le_length (by omega), List.take_append_of_le_length
      (by rw [List.length_drop]; omega), window, window, hsub, List.take_add, List.drop_drop, hadd]
  rw [hwindow, ← List.append_assoc]
  exact hreached.congr rfl rfl

/-- `Rewind` starts again. -/
theorem rewind (h : Exact data f delivered) : Exact data f.rewind.2 [] := by
  unfold PngChunkFilter.rewind
  split_ifs with herror
  · exact ⟨h.data_prefix, h.signature, h.chunks_eq, h.start_le, h.end_le, h.chunks_none,
      fun hno => absurd (hno.symm.trans herror) Bool.false_ne_true⟩
  · exact ⟨h.data_prefix, h.signature, h.chunks_eq, Nat.zero_le _, h.signature.length_le,
      h.chunks_none, fun _ => reached_signature h.signature rfl rfl⟩

/-- The stream of a file with the signature. -/
theorem ofData (hsig : kPngSignature <+: data) : Exact data (.ofData data) [] := by
  unfold PngChunkFilter.ofData
  rw [if_pos hsig]
  exact ⟨List.prefix_refl data, hsig, rfl, Nat.zero_le _, hsig.length_le,
    fun herror => absurd herror Bool.false_ne_true, fun _ => reached_signature hsig rfl rfl⟩

end Exact

end PngChunkFilter

/-! ## Every order of calls -/

/-- What holds after every call. -/
structure Session.Inv (data : List UInt8) (s : Session) : Prop where
  exact : s.filter.Exact data s.delivered
  returned_le : s.returned ≤ s.filter.windowStart
  returned_suffix :
    (data.drop (s.filter.windowStart - s.returned)).take s.returned <:+ s.delivered
  windows_le : ∀ w ∈ s.windows, w.1 + w.2 ≤ data.length
  at_end : s.failed = true → s.filter.hadError = false → s.filter.windowEnd = s.filter.data.length
    ∧ s.filter.windowStart = s.filter.windowEnd

namespace Session.Inv

variable {data : List UInt8} {s s' : Session}

/-- Before all calls. -/
theorem start (hsig : kPngSignature <+: data) : (Session.start data).Inv data where
  exact := .ofData hsig
  returned_le := Nat.zero_le _
  returned_suffix := List.nil_suffix
  windows_le := fun _ hw => absurd hw List.not_mem_nil
  at_end := fun hfailed => absurd hfailed Bool.false_ne_true

/-- `Next`. -/
theorem next (h : s.Inv data) (hcall : s.call data .next = some s') : s'.Inv data := by
  unfold Session.call at hcall
  rcases hnext : s.filter.next with ⟨_ | ⟨start, len⟩, filter⟩ <;> rw [hnext] at hcall <;>
    obtain rfl := Option.some.inj hcall
  · obtain ⟨hexact, hend⟩ := h.exact.next_none hnext
    exact ⟨hexact, Nat.zero_le _, List.nil_suffix, h.windows_le,
      fun _ hno => ⟨(hend hno).2, (hend hno).1⟩⟩
  · obtain ⟨hexact, hstart, hle⟩ := h.exact.next_some hnext
    refine ⟨hexact, ?_, ?_, ?_, fun hfailed => absurd hfailed Bool.false_ne_true⟩
    · simp only [hstart]
      exact Nat.le_add_left len start
    · simp only [hstart, Nat.add_sub_cancel]
      exact List.suffix_append _ _
    · intro w hw
      rcases List.mem_append.mp hw with hw | hw
      · exact h.windows_le w hw
      · rw [List.mem_singleton.mp hw]
        exact hle

/-- `BackUp`. -/
theorem backUp {count : ℕ} (h : s.Inv data) (hcall : s.call data (.backUp count) = some s') :
    s'.Inv data := by
  simp only [Session.call] at hcall
  split_ifs at hcall with hcount
  obtain rfl := Option.some.inj hcall
  have hle := h.returned_le
  -- the bytes that are taken back are the last ones
  have hback : (data.drop (s.filter.windowStart - count)).take count <:+ s.delivered := by
    refine List.IsSuffix.trans ?_ h.returned_suffix
    have hsplit : s.returned = (s.returned - count) + count := by omega
    have hdrop : s.filter.windowStart - s.returned + (s.returned - count)
        = s.filter.windowStart - count := by omega
    conv_rhs => rw [hsplit, List.take_add, List.drop_drop, ← hsplit, hdrop]
    exact List.suffix_append _ _
  have hlen : ((data.drop (s.filter.windowStart - count)).take count).length = count := by
    have hstart := h.exact.start_le
    have hend := h.exact.end_le
    have hdata := h.exact.data_prefix.length_le
    rw [List.length_take, List.length_drop]
    omega
  obtain ⟨kept, hkept⟩ := hback
  have htake : s.delivered.take (s.delivered.length - count) = kept := by
    rw [← hkept, List.length_append, hlen, Nat.add_sub_cancel, List.take_left]
  refine ⟨?_, Nat.zero_le _, List.nil_suffix, h.windows_le,
    fun hfailed => absurd hfailed Bool.false_ne_true⟩
  have hexact := h.exact
  rw [← hkept] at hexact
  rw [htake]
  exact hexact.backUp (hcount.trans hle)

/-- `Rewind`. -/
theorem rewind (h : s.Inv data) (hcall : s.call data .rewind = some s') : s'.Inv data := by
  obtain rfl := Option.some.inj hcall
  exact ⟨h.exact.rewind, Nat.zero_le _, List.nil_suffix, h.windows_le,
    fun hfailed => absurd hfailed Bool.false_ne_true⟩

/-- **One call** keeps the invariant. -/
theorem call {c : Call} (h : s.Inv data) (hcall : s.call data c = some s') : s'.Inv data := by
  cases c with
  | next => exact h.next hcall
  | backUp count => exact h.backUp hcall
  | rewind => exact h.rewind hcall

/-- **All calls** keep the invariant. -/
theorem calls {calls : List Call} (h : s.Inv data)
    (hrun : calls.foldlM (Session.call data) s = some s') : s'.Inv data := by
  induction calls generalizing s with
  | nil =>
      obtain rfl := Option.some.inj hrun
      exact h
  | cons c calls ih =>
      rw [List.foldlM_cons] at hrun
      obtain ⟨s₁, hcall, hrest⟩ := Option.bind_eq_some_iff.mp hrun
      exact ih (h.call hcall) hrest

/-- After a `Next` that failed there is an error just when a bad chunk comes before the end. -/
theorem hadError_iff (h : s.Inv data) (hfailed : s.failed = true) :
    s.filter.hadError = true ↔ pngChunks data = none := by
  refine ⟨h.exact.chunks_none, fun hnone => ?_⟩
  by_contra herror
  have hno := Bool.eq_false_iff.mpr herror
  obtain ⟨chunks, hchunks, _⟩ := (h.exact.reached hno).of_end (h.at_end hfailed hno).1
  rw [h.exact.chunks_eq, hnone] at hchunks
  exact Option.some_ne_none chunks hchunks.symm

/-- After a `Next` that failed without an error, all that is left of the file was handed out. -/
theorem delivered_eq (h : s.Inv data) (hfailed : s.failed = true)
    (hno : s.filter.hadError = false) :
    ∃ chunks, pngChunks data = some chunks ∧ s.delivered = filtered chunks := by
  obtain ⟨hend, hempty⟩ := h.at_end hfailed hno
  obtain ⟨chunks, hchunks, hkept⟩ := (h.exact.reached hno).of_end hend
  rw [h.exact.chunks_eq] at hchunks
  rw [PngChunkFilter.window_of_empty hempty, List.append_nil] at hkept
  exact ⟨chunks, hchunks, hkept⟩

end Session.Inv

/-- **Filtering is exact**: after any calls that end with a `Next` that failed, an error is reported
just when a truncated or over-long chunk comes before the first `IEND`; without one, the bytes since
the last `Rewind` are the signature and the allowed chunks; all buffers lie inside the data. -/
theorem pngChunkFilter_exact {data : List UInt8} (hsig : kPngSignature <+: data)
    (calls : List Call) {s : Session}
    (hrun : calls.foldlM (Session.call data) (Session.start data) = some s)
    (hfailed : s.failed = true) :
    (s.filter.hadError = true ↔ pngChunks data = none)
      ∧ (s.filter.hadError = false →
        ∃ chunks, pngChunks data = some chunks ∧ s.delivered = filtered chunks)
      ∧ ∀ w ∈ s.windows, w.1 + w.2 ≤ data.length :=
  have h := (Session.Inv.start hsig).calls hrun
  ⟨h.hadError_iff hfailed, h.delivered_eq hfailed, h.windows_le⟩

/-- A file with a text chunk and a byte behind `IEND`. -/
def textPng : List UInt8 :=
  kPngSignature ++ [0, 0, 0, 0, 73, 72, 68, 82, 1, 2, 3, 4]
    ++ [0, 0, 0, 1, 116, 69, 88, 116, 65, 1, 2, 3, 4] ++ [0, 0, 0, 0, 73, 69, 78, 68, 1, 2, 3, 4]
    ++ [7]

/-- The file above is read twice, with bytes backed up. -/
theorem pngChunkFilter_exact_textPng :
    ∃ s, [Call.next, .backUp 5, .next, .next, .rewind, .next, .next, .next, .next].foldlM
        (Session.call textPng) (Session.start textPng) = some s ∧ s.failed = true
      ∧ (s.filter.hadError = true ↔ pngChunks textPng = none)
      ∧ (s.filter.hadError = false →
        ∃ chunks, pngChunks textPng = some chunks ∧ s.delivered = filtered chunks)
      ∧ ∀ w ∈ s.windows, w.1 + w.2 ≤ textPng.length :=
  have hrun : [Call.next, .backUp 5, .next, .next, .rewind, .next, .next, .next, .next].foldlM
      (Session.call textPng) (Session.start textPng) = some
        ⟨⟨textPng.take 45, 45, 45, ""⟩, textPng.take 20 ++ (textPng.take 45).drop 33, 0,
          [(0, 8), (3, 5), (8, 12), (0, 8), (8, 12), (33, 12)], true⟩ := by rfl
  ⟨_, hrun, rfl, pngChunkFilter_exact (by decide) _ hrun rfl⟩

end AndroidSdk.Androidfw
