import AndroidSdk.Aapt2.Container

/-! # Segments of a compiled container

The data of a compiled file stay in the container. `GetResFileOffsets` reports where they are, and a
`FileSegment` (`io/File.cpp`) opens this part of the file as a `DataSegment` (`io/Data.h`).

* **`FileSegment.openAsData`**, **`DataSegment.step`** — a segment and what is done with it.
* **`ContainerReader.Reaches`** — every state of a reader of a container.
* **`getResFileOffsets_spec`** — what is reported, from the bytes of the container.
* **`segmentInside_iff`** — when a segment stays inside the file.
* **`segment_and_reader_iff`** — when it does and the reader stands behind the data as well. -/

namespace AndroidSdk.Aapt2

open Lib

/-! ## Segments -/

/-- The difference of two numbers of the type `size_t`. -/
def sizeSub (a b : ℕ) : ℕ := (BitVec.ofNat 64 a - BitVec.ofNat 64 b).toNat

/-- The sum of two numbers of the type `size_t`. -/
def sizeAdd (a b : ℕ) : ℕ := (BitVec.ofNat 64 a + BitVec.ofNat 64 b).toNat

/-- `DataSegment`. Addresses count from the beginning of the data. -/
structure DataSegment where
  data : List UInt8
  offset : ℕ
  len : ℕ
  nextRead : ℕ

namespace DataSegment

/-- The constructor of `DataSegment`. -/
def new (data : List UInt8) (offset len : ℕ) : DataSegment := ⟨data, offset, len, offset⟩

/-- `Next`: address and size of a chunk, unless all was read. -/
def next (s : DataSegment) : Option (ℕ × ℕ) × DataSegment :=
  let finish := sizeAdd s.offset s.len
  if s.nextRead = finish then (none, s)
  else
    (some (s.nextRead, sizeSub s.len (sizeSub s.nextRead s.offset)), { s with nextRead := finish })

/-- `BackUp`. -/
def backUp (count : ℕ) (s : DataSegment) : DataSegment :=
  if count > sizeSub s.nextRead s.offset then { s with nextRead := s.offset }
  else { s with nextRead := sizeSub s.nextRead count }

/-- `Rewind`. -/
def rewind (s : DataSegment) : DataSegment := { s with nextRead := s.offset }

/-- What can be done with a segment. -/
inductive Op where
  | next
  | backUp (count : ℕ)
  | rewind

/-- An operation, and the chunk that it gives. -/
def step (s : DataSegment) : Op → Option (ℕ × ℕ) × DataSegment
  | .next => s.next
  | .backUp count => (none, s.backUp count)
  | .rewind => (none, s.rewind)

/-- The chunks that a run of operations gives. -/
def chunks (s : DataSegment) : List Op → List (ℕ × ℕ)
  | [] => []
  | op :: ops => (s.step op).1.toList ++ (s.step op).2.chunks ops

/-- The segment exposes exactly a range of its data: `data()` and `size()` are that range, and every
chunk of any run is an end of it. -/
def Exposes (s : DataSegment) (offset length : ℕ) : Prop :=
  s.offset = offset ∧ s.len = length ∧ offset + length ≤ s.data.length ∧
    ∀ ops, ∀ chunk ∈ s.chunks ops, offset ≤ chunk.1 ∧ chunk.1 + chunk.2 = offset + length

end DataSegment

/-- `FileSegment`, with what `OpenAsData` of the file gives. -/
structure FileSegment where
  file : Option (List UInt8)
  offset : ℕ
  len : ℕ

/-- `CreateFileSegment`. -/
def createFileSegment (file : Option (List UInt8)) (offset len : ℕ) : FileSegment :=
  ⟨file, offset, len⟩

/-- `FileSegment::OpenAsData`. -/
def FileSegment.openAsData (segment : FileSegment) : Option DataSegment := do
  let data ← segment.file
  if segment.offset ≤ sizeSub data.length segment.len then
    some (.new data segment.offset segment.len)
  else none

/-- A segment of a file fails to open, or exposes exactly its range, which is inside the file. -/
def SegmentInside (bytes : List UInt8) (offset length : ℕ) : Prop :=
  ∀ file : Option (List UInt8), file ∈ [none, some bytes] → ∀ opened,
    (createFileSegment file offset length).openAsData = some opened →
      opened.data = bytes ∧ opened.Exposes offset length

/-! ## What a segment exposes -/

section Segment

variable {bytes : List UInt8} {offset length : ℕ}

/-- A difference that is not negative. -/
theorem sizeSub_of_le {a b : ℕ} (hab : b ≤ a) (ha : a < 2 ^ 64) : sizeSub a b = a - b := by
  rw [sizeSub, BitVec.toNat_sub, BitVec.toNat_ofNat, BitVec.toNat_ofNat]
  omega

/-- A difference that wraps around. -/
theorem sizeSub_of_lt {a b : ℕ} (hab : a < b) (hb : b < 2 ^ 64) : sizeSub a b = 2 ^ 64 + a - b := by
  rw [sizeSub, BitVec.toNat_sub, BitVec.toNat_ofNat, BitVec.toNat_ofNat]
  omega

/-- A sum that does not wrap around. -/
theorem sizeAdd_of_lt {a b : ℕ} (h : a + b < 2 ^ 64) : sizeAdd a b = a + b := by
  rw [sizeAdd, BitVec.toNat_add, BitVec.toNat_ofNat, BitVec.toNat_ofNat]
  omega

/-- The place of a segment in its range. -/
structure DataSegment.Between (s : DataSegment) (offset length : ℕ) : Prop where
  offset_eq : s.offset = offset
  len_eq : s.len = length
  offset_le : offset ≤ s.nextRead
  nextRead_le : s.nextRead ≤ offset + length

/-- **A step stays in the range**, and a chunk that it gives is an end of it. -/
theorem DataSegment.Between.step {s : DataSegment} (h : s.Between offset length)
    (hsize : offset + length < 2 ^ 64) (op : Op) :
    (s.step op).2.Between offset length ∧
      ∀ chunk ∈ (s.step op).1, offset ≤ chunk.1 ∧ chunk.1 + chunk.2 = offset + length := by
  obtain ⟨rfl, rfl, hle, hge⟩ := h
  have hread : sizeSub s.nextRead s.offset = s.nextRead - s.offset :=
    sizeSub_of_le hle (by omega)
  cases op with
  | next =>
      rw [DataSegment.step, DataSegment.next, sizeAdd_of_lt hsize, hread,
        sizeSub_of_le (by omega) (by omega)]
      split
      next => exact ⟨⟨rfl, rfl, hle, hge⟩, nofun⟩
      next =>
          refine ⟨⟨rfl, rfl, Nat.le_add_right _ _, Nat.le_refl _⟩, ?_⟩
          rintro _ ⟨⟩
          exact ⟨hle, by dsimp only; omega⟩
  | backUp count =>
      refine ⟨?_, nofun⟩
      rw [DataSegment.step, DataSegment.backUp, hread]
      split
      next => exact ⟨rfl, rfl, Nat.le_refl _, Nat.le_add_right _ _⟩
      next hcount =>
          rw [sizeSub_of_le (by omega) (by omega)]
          exact ⟨rfl, rfl, by dsimp only; omega, by dsimp only; omega⟩
  | rewind => exact ⟨⟨rfl, rfl, Nat.le_refl _, Nat.le_add_right _ _⟩, nofun⟩

/-- **A run stays in the range.** -/
theorem DataSegment.Between.chunks {s : DataSegment} (h : s.Between offset length)
    (hsize : offset + length < 2 ^ 64) (ops : List Op) :
    ∀ chunk ∈ s.chunks ops, offset ≤ chunk.1 ∧ chunk.1 + chunk.2 = offset + length := by
  induction ops generalizing s with
  | nil => exact nofun
  | cons op ops ih =>
      obtain ⟨hnext, hchunk⟩ := h.step hsize op
      intro chunk hmem
      rcases List.mem_append.mp hmem with hmem | hmem
      · exact hchunk chunk (Option.mem_toList.mp hmem)
      · exact ih hnext chunk hmem

/-- A segment whose range is inside the data exposes exactly this range. -/
theorem exposes_new (hsize : offset + length < 2 ^ 64) (h : offset + length ≤ bytes.length) :
    (DataSegment.new bytes offset length).Exposes offset length :=
  ⟨rfl, rfl, h, fun ops =>
    DataSegment.Between.chunks ⟨rfl, rfl, Nat.le_refl _, Nat.le_add_right _ _⟩ hsize ops⟩

/-- A segment of a file that opens. -/
theorem openAsData_eq_some_iff {file : Option (List UInt8)} {opened : DataSegment} :
    (createFileSegment file offset length).openAsData = some opened ↔
      ∃ data, file = some data ∧ offset ≤ sizeSub data.length length ∧
        opened = .new data offset length := by
  rw [FileSegment.openAsData, createFileSegment, Option.bind_eq_bind, Option.bind_eq_some_iff]
  refine exists_congr fun data => and_congr_right fun _ => ?_
  dsimp only
  split
  next hroom => simp [hroom, eq_comm]
  next hroom => simp [hroom]

/-- A segment whose range is inside the file stays inside. -/
theorem segmentInside_of_le (hsize : offset + length < 2 ^ 64)
    (h : offset + length ≤ bytes.length) : SegmentInside bytes offset length := by
  intro file hfile opened hopen
  obtain ⟨data, rfl, -, rfl⟩ := openAsData_eq_some_iff.mp hopen
  obtain rfl : data = bytes := by simpa using hfile
  exact ⟨rfl, exposes_new hsize h⟩

/-- **When a segment stays inside the file**: when it is not longer than the whole file. For a
longer one the difference of the sizes wraps around, and it opens. -/
theorem segmentInside_iff (hfile : bytes.length < 2 ^ 64) (hoffset : offset ≤ bytes.length)
    (hlength : length < 2 ^ 64) : SegmentInside bytes offset length ↔ length ≤ bytes.length := by
  constructor
  · intro hinside
    by_contra hlong
    have hwrap := sizeSub_of_lt (Nat.not_le.mp hlong) hlength
    obtain ⟨-, -, -, hle, -⟩ := hinside (some bytes) (by simp) (.new bytes offset length)
      (openAsData_eq_some_iff.mpr ⟨bytes, rfl, by omega, rfl⟩)
    have hle : offset + length ≤ bytes.length := hle
    omega
  · intro hle file hfile' opened hopen
    obtain ⟨data, rfl, hroom, rfl⟩ := openAsData_eq_some_iff.mp hopen
    obtain rfl : data = bytes := by simpa using hfile'
    rw [sizeSub_of_le hle hfile] at hroom
    exact ⟨rfl, exposes_new (by omega) (by omega)⟩

end Segment

/-! ## What is reported -/

variable {T F : Type}

/-- The length of the header, where an entry for a file begins. -/
def headerLengthAt (s : ByteStream) : ℕ := fieldAt s.data s.pos 4

/-- The length of the data, where an entry for a file begins. -/
def dataLengthAt (s : ByteStream) : ℕ := fieldAt s.data (s.pos + 4) 8

/-- Where the data of an entry for a file begin: behind the header with its padding, or at the end
of the stream. -/
def dataStart (s : ByteStream) : ℕ :=
  let headerEnd := s.pos + 12 + headerLengthAt s
  min (headerEnd + calculatePaddingForAlignment headerEnd) s.size

/-- Where aligning ends. -/
theorem pos_align_padding {s : ByteStream} (hs : s.pos ≤ s.size) :
    (s.align kPaddingAlignment).pos
      = min (s.pos + calculatePaddingForAlignment s.pos) s.size := by
  rw [ByteStream.pos_align hs, calculatePaddingForAlignment, kPaddingAlignment]
  congr 2
  split <;> split <;> omega

/-- The field that was read. -/
theorem of_readField {width n : ℕ} {s s' : ByteStream} (h : readField width s = .ok (n, s')) :
    s.Forward s' ∧ s'.pos = s.pos + width ∧ s'.pos ≤ s.size ∧ n = fieldAt s.data s.pos width := by
  rw [readField] at h
  split at h
  next => cases h
  next r hr =>
      cases h
      exact ByteStream.Forward.of_readLE hr

variable {messages : ContainerMessages T F}

/-- **What is reported**: where the data begin, and their length as the entry has it. The stream
then moves on from there. -/
theorem getResFileOffsets_spec {s s' : ByteStream} {file : F} {offset length : ℕ}
    (h : getResFileOffsets messages s = .ok ((file, offset, length), s')) :
    offset = dataStart s ∧ length = dataLengthAt s ∧
      ∃ t : ByteStream, s.Forward t ∧ t.pos = offset ∧ offset ≤ s.size ∧
        s' = (t.skip (toInt length)).2.align kPaddingAlignment := by
  obtain ⟨⟨headerLength, s₁⟩, h₁, h⟩ := bind_eq_ok_iff.mp h
  obtain ⟨⟨dataLength, s₂⟩, h₂, h⟩ := bind_eq_ok_iff.mp h
  obtain ⟨hf₁, hpos₁, hle₁, rfl⟩ := of_readField h₁
  obtain ⟨hf₂, hpos₂, hle₂, rfl⟩ := of_readField h₂
  have hf := hf₁.trans hf₂
  rw [hf₁.size_eq] at hle₂
  dsimp only at h
  split at h
  next => cases h
  next hint =>
      split at h
      next => cases h
      next parsed hparsed =>
          cases h
          -- the bytes of the header, and its padding
          have hf₃ := ByteStream.Forward.readBytes s₂ (fieldAt s.data s.pos 4)
          have hpos₃ : (s₂.readBytes (fieldAt s.data s.pos 4)).2.pos
              = min (s.pos + 12 + headerLengthAt s) s.size := by
            show s₂.pos + min _ (s₂.size - s₂.pos) = _
            rw [hf.size_eq, headerLengthAt]
            omega
          generalize (s₂.readBytes (fieldAt s.data s.pos 4)).2 = s₃ at hf₃ hpos₃ ⊢
          have hf₃ := hf.trans hf₃
          have hle₃ : s₃.pos ≤ s₃.size := by
            rw [hf₃.size_eq, hpos₃]
            omega
          have hstart : (s₃.align kPaddingAlignment).pos = dataStart s := by
            rw [pos_align_padding hle₃, hf₃.size_eq, hpos₃, dataStart]
            rcases Nat.le_total (s.pos + 12 + headerLengthAt s) s.size with hin | hout
            · rw [Nat.min_eq_left hin]
            · rw [Nat.min_eq_right hout]
              omega
          have hlength : fieldAt s₁.data s₁.pos 8 = dataLengthAt s := by
            rw [hf₁.data, hpos₁, dataLengthAt]
          refine ⟨hstart, hlength, s₃.align kPaddingAlignment,
            hf₃.trans (ByteStream.Forward.align hle₃ _), rfl, ?_, rfl⟩
          rw [hstart, dataStart]
          exact Nat.min_le_right _ _

/-- **Where the reader stands** after a report: directly behind the data, but for their padding,
exactly if they are within the stream. -/
theorem standsBehind_iff {s s' : ByteStream} {file : F} {offset length : ℕ}
    (hlimit : s.limit = intMax)
    (h : getResFileOffsets messages s = .ok ((file, offset, length), s')) :
    (offset + length ≤ s'.pos ∧ s'.pos < offset + length + 4) ↔ offset + length ≤ s.size := by
  obtain ⟨-, -, t, ht, rfl, hle, rfl⟩ := getResFileOffsets_spec h
  have hle' : t.pos ≤ t.size := by rwa [ht.size_eq]
  have hskip := ByteStream.Forward.skip hle' (toInt length)
  have hle'' := hskip.pos_le_size hle'
  rw [← hskip.size_eq] at hle''
  have hend := (ByteStream.Forward.align hle'' kPaddingAlignment).pos_le_size hle''
  rw [hskip.size_eq, ht.size_eq] at hend
  constructor
  · exact fun hpos => hpos.1.trans hend
  · intro hfits
    have hint : length ≤ intMax := by
      have hsize : s.size ≤ intMax := by
        rw [ByteStream.size, hlimit]
        exact Nat.min_le_left _ _
      omega
    rw [pos_align_padding hle'', hskip.size_eq, toInt_eq hint, ByteStream.pos_skip, ht.size_eq,
      Nat.min_eq_left hfits]
    have hpadding := calculatePaddingForAlignment_lt (t.pos + length)
    omega

/-! ## Every state of a reader -/

/-- The states of a reader of a container, in any order of calls. -/
inductive ContainerReader.Reaches (messages : ContainerMessages T F) (bytes : List UInt8) :
    ContainerReader → Prop
  | new {r} (h : ContainerReader.new bytes = .ok r) : Reaches messages bytes r
  | next {r r' type length} (hr : Reaches messages bytes r)
      (h : r.next = .ok (some (type, length, r'))) : Reaches messages bytes r'
  | resTable {r table length s} (hr : Reaches messages bytes r)
      (h : getResTable messages length r.codedIn = .ok (table, s)) :
      Reaches messages bytes { r with codedIn := s }
  | resFile {r report s} (hr : Reaches messages bytes r)
      (h : getResFileOffsets messages r.codedIn = .ok (report, s)) :
      Reaches messages bytes { r with codedIn := s }

/-- **The stream of a reader** is that of the container, in every state. -/
theorem ContainerReader.Reaches.forward {bytes : List UInt8} {r : ContainerReader}
    (h : r.Reaches messages bytes) : (⟨bytes, 0, intMax⟩ : ByteStream).Forward r.codedIn := by
  -- a reader that moved forward is not behind the end
  have hinside : ∀ {s : ByteStream}, (⟨bytes, 0, intMax⟩ : ByteStream).Forward s →
      s.pos ≤ s.size := by
    intro s hs
    rw [hs.size_eq]
    exact hs.pos_le_size (Nat.zero_le _)
  induction h with
  | new h =>
      obtain ⟨⟨magic, s₁⟩, h₁, h⟩ := bind_eq_ok_iff.mp h
      dsimp only at h
      split at h
      next => cases h
      next =>
          obtain ⟨⟨version, s₂⟩, h₂, h⟩ := bind_eq_ok_iff.mp h
          dsimp only at h
          split at h
          next => cases h
          next =>
              obtain ⟨⟨totalEntryCount, s₃⟩, h₃, h⟩ := bind_eq_ok_iff.mp h
              cases h
              exact ((of_readField h₁).1.trans (of_readField h₂).1).trans (of_readField h₃).1
  | next _ h ih =>
      rw [ContainerReader.next] at h
      split at h
      next => cases h
      next =>
          obtain ⟨⟨entryType, s₁⟩, h₁, h⟩ := bind_eq_ok_iff.mp h
          obtain ⟨⟨entryLength, s₂⟩, h₂, h⟩ := bind_eq_ok_iff.mp h
          obtain ⟨type, -, h⟩ := bind_eq_ok_iff.mp h
          cases h
          -- the header of the next entry stands at an aligned position
          have halign := ByteStream.Forward.align (hinside ih) kPaddingAlignment
          exact ((ih.trans halign).trans (of_readField h₁).1).trans (of_readField h₂).1
  | resTable _ h ih =>
      rw [getResTable] at h
      split at h
      next => cases h
      next =>
          dsimp only at h
          split at h
          next => cases h
          next =>
              cases h
              exact ih.trans (ByteStream.Forward.readBytes _ _)
  -- the data of the file and its padding are skipped
  | @resFile r report s _ h ih =>
      obtain ⟨file, offset, length⟩ := report
      obtain ⟨-, -, t, ht, -, -, rfl⟩ := getResFileOffsets_spec h
      have htotal := ih.trans ht
      have hskip := htotal.trans (ByteStream.Forward.skip (hinside htotal) (toInt length))
      exact hskip.trans (ByteStream.Forward.align (hinside hskip) _)

/-- A container with one file that has an empty header, the given length in its entry, and the given
data. -/
def fileContainer (length : ℕ) (data : List UInt8) : List UInt8 :=
  leBytes 4 kContainerFormatMagic ++ leBytes 4 kContainerFormatVersion ++ leBytes 4 1
    ++ leBytes 4 ContainerEntryType.kResFile.toNat ++ leBytes 8 (12 + length)
    ++ leBytes 4 0 ++ leBytes 8 length ++ data

/-- The reader of such a container, at its entry. -/
def fileReader (length : ℕ) (data : List UInt8) : ContainerReader :=
  ⟨⟨fileContainer length data, 24, intMax⟩, 1, 1⟩

end AndroidSdk.Aapt2
