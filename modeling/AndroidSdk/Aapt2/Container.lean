import AndroidSdk.Lib.ByteStream
import AndroidSdk.Lib.Run

/-! # The container of compiled resources

`Container.cpp`: `ContainerWriter` writes resource tables and files one after another, each part
padded to a multiple of four, and `ContainerReader` reads them back. Messages of the protocol
buffers library are known by how they are serialised and parsed.

* **`ContainerWriter.addResTableEntry`**, **`ContainerWriter.addResFileEntry`** — the writer.
* **`ContainerReader.next`**, **`getResTable`**, **`getResFileOffsets`** — the reader.
* **`readContainer_writeContainer`** — what was written is read back. -/

namespace AndroidSdk.Aapt2

open Lib

/-- How the messages for tables and file headers are serialised and parsed. -/
structure ContainerMessages (T F : Type) where
  serializeTable : T → List UInt8
  parseTable : List UInt8 → Option T
  serializeFile : F → List UInt8
  parseFile : List UInt8 → Option F
  parse_serializeTable : ∀ table, parseTable (serializeTable table) = some table
  parse_serializeFile : ∀ file, parseFile (serializeFile file) = some file

variable {T F : Type} (messages : ContainerMessages T F)

/-- `kContainerFormatMagic`. -/
def kContainerFormatMagic : ℕ := 0x54504141

/-- `kContainerFormatVersion`. -/
def kContainerFormatVersion : ℕ := 1

/-- `kPaddingAlignment`. -/
def kPaddingAlignment : ℕ := 4

/-- `ContainerEntryType`. -/
inductive ContainerEntryType where
  | kResTable | kResFile
  deriving DecidableEq

/-- The number of an entry type. -/
def ContainerEntryType.toNat : ContainerEntryType → ℕ
  | .kResTable => 0
  | .kResFile => 1

/-- An entry to write: a table, or a file with its header and data. -/
inductive ContainerEntry (T F : Type) where
  | resTable (table : T)
  | resFile (file : F) (data : List UInt8)

/-! ## Writing -/

/-- `ContainerWriter`; the output is what has been written. -/
structure ContainerWriter where
  out : List UInt8
  totalEntryCount : ℕ
  currentEntryCount : ℕ

/-- What the writer reports. -/
inductive WriterError where
  /-- "too many entries being serialized" -/
  | tooManyEntries
  deriving DecidableEq

/-- The constructor of `ContainerWriter`. -/
def ContainerWriter.new (entryCount : ℕ) : ContainerWriter where
  out := leBytes 4 kContainerFormatMagic ++ leBytes 4 kContainerFormatVersion
    ++ leBytes 4 entryCount
  totalEntryCount := entryCount
  currentEntryCount := 0

/-- `CalculatePaddingForAlignment`. -/
def calculatePaddingForAlignment (size : ℕ) : ℕ :=
  let overage := size % kPaddingAlignment
  if overage = 0 then 0 else kPaddingAlignment - overage

/-- `WritePadding`. -/
def writePadding (padding : ℕ) : List UInt8 := List.replicate padding 0

/-- `AddResTableEntry`. -/
def ContainerWriter.addResTableEntry (table : T) (w : ContainerWriter) :
    Except WriterError ContainerWriter :=
  if w.currentEntryCount ≥ w.totalEntryCount then .error .tooManyEntries
  else
    let message := messages.serializeTable table
    .ok { w with
      currentEntryCount := w.currentEntryCount + 1
      out := w.out ++ (leBytes 4 ContainerEntryType.kResTable.toNat ++ (leBytes 8 message.length
        ++ (message ++ writePadding (calculatePaddingForAlignment message.length)))) }

/-- `kResFileEntryHeaderSize`. -/
def kResFileEntryHeaderSize : ℕ := 12

/-- `AddResFileEntry`. -/
def ContainerWriter.addResFileEntry (file : F) (data : List UInt8) (w : ContainerWriter) :
    Except WriterError ContainerWriter :=
  if w.currentEntryCount ≥ w.totalEntryCount then .error .tooManyEntries
  else
    let header := messages.serializeFile file
    let headerPadding := calculatePaddingForAlignment header.length
    let dataPadding := calculatePaddingForAlignment data.length
    .ok { w with
      currentEntryCount := w.currentEntryCount + 1
      out := w.out ++ (leBytes 4 ContainerEntryType.kResFile.toNat
        ++ (leBytes 8 (kResFileEntryHeaderSize + header.length + headerPadding + data.length
          + dataPadding)
        ++ (leBytes 4 header.length ++ (leBytes 8 data.length ++ (header
        ++ (writePadding headerPadding ++ (data ++ writePadding dataPadding))))))) }

/-- The call for an entry. -/
def ContainerWriter.add (w : ContainerWriter) : ContainerEntry T F →
    Except WriterError ContainerWriter
  | .resTable table => w.addResTableEntry messages table
  | .resFile file data => w.addResFileEntry messages file data

/-- The bytes of a container with the given entries. -/
def writeContainer (entryCount : ℕ) (entries : List (ContainerEntry T F)) :
    Except WriterError (List UInt8) := do
  let w ← entries.foldlM (ContainerWriter.add messages) (.new entryCount)
  return w.out

/-! ## Reading -/

/-- What the reader reports. -/
inductive ReaderError where
  /-- "failed to read … from input: …", "failed reading … from input: …" -/
  | input
  /-- "magic value is … but AAPT expects …" -/
  | magic (magic : ℕ)
  /-- "container version is … but AAPT expects version …" -/
  | version (version : ℕ)
  /-- "entry type … is invalid" -/
  | entryType (entryType : ℕ)
  /-- "entry length … is too large", "header length … is too large" -/
  | length (length : ℕ)
  /-- "failed to parse ResourceTable", "failed to parse CompiledFile header" -/
  | message
  deriving DecidableEq

/-- `std::numeric_limits<int>::max()`, also the default limit of a coded stream. -/
def intMax : ℕ := 2 ^ 31 - 1

/-- `static_cast<int>` of a 64-bit number. -/
def toInt (n : ℕ) : ℤ := (BitVec.ofNat 32 n).toInt

/-- `ContainerReader`, with the entry that `Next` returned. -/
structure ContainerReader where
  codedIn : ByteStream
  totalEntryCount : ℕ
  currentEntryCount : ℕ

/-- A little-endian field, or an error. -/
def readField (width : ℕ) (s : ByteStream) : Except ReaderError (ℕ × ByteStream) :=
  match s.readLE width with
  | none => .error .input
  | some r => .ok r

/-- The constructor of `ContainerReader`. -/
def ContainerReader.new (bytes : List UInt8) : Except ReaderError ContainerReader := do
  let (magic, s) ← readField 4 ⟨bytes, 0, intMax⟩
  if magic ≠ kContainerFormatMagic then throw (.magic magic)
  let (version, s) ← readField 4 s
  if version ≠ kContainerFormatVersion then throw (.version version)
  let (totalEntryCount, s) ← readField 4 s
  return ⟨s, totalEntryCount, 0⟩

/-- The type with a number. -/
def entryTypeOf (entryType : ℕ) : Except ReaderError ContainerEntryType :=
  if entryType = ContainerEntryType.kResFile.toNat then .ok .kResFile
  else if entryType = ContainerEntryType.kResTable.toNat then .ok .kResTable
  else .error (.entryType entryType)

/-- `Next`: the type and the length of the next entry, if there is one. -/
def ContainerReader.next (r : ContainerReader) :
    Except ReaderError (Option (ContainerEntryType × ℕ × ContainerReader)) :=
  if r.currentEntryCount ≥ r.totalEntryCount then .ok none
  else do
    let s := r.codedIn.align kPaddingAlignment
    let (entryType, s) ← readField 4 s
    let (entryLength, s) ← readField 8 s
    let type ← entryTypeOf entryType
    return some (type, entryLength, { r with
      codedIn := s
      currentEntryCount := r.currentEntryCount + 1 })

/-- `GetResTable`, for an entry of the given length. -/
def getResTable (length : ℕ) (s : ByteStream) : Except ReaderError (T × ByteStream) :=
  if length > intMax then .error (.length length)
  else
    let (message, s) := s.readBytes length
    match messages.parseTable message with
    | none => .error .message
    | some table => .ok (table, s)

/-- `GetResFileOffsets`: the header, and offset and length of the data. -/
def getResFileOffsets (s : ByteStream) : Except ReaderError ((F × ℕ × ℕ) × ByteStream) := do
  let (headerLength, s) ← readField 4 s
  let (dataLength, s) ← readField 8 s
  if headerLength > intMax then throw (.length headerLength)
  let (header, s) := s.readBytes headerLength
  match messages.parseFile header with
  | none => .error .message
  | some file =>
      let s := s.align kPaddingAlignment
      let offset := s.pos
      -- whether the data can be skipped is not looked at
      let (_, s) := s.skip (toInt dataLength)
      return ((file, offset, dataLength), s.align kPaddingAlignment)

/-- An entry as it is read. -/
inductive ReadEntry (T F : Type) where
  | resTable (table : T)
  | resFile (file : F) (offset length : ℕ)

/-- The loop that reads the entries one after another; each step reads one of those that are
left. -/
def ContainerReader.entries : ℕ → ContainerReader → Except ReaderError (List (ReadEntry T F))
  | 0, _ => .ok []
  | fuel + 1, r => do
      match ← r.next with
      | none => return []
      | some (.kResTable, length, r) => do
          let (table, s) ← getResTable messages length r.codedIn
          let rest ← ContainerReader.entries fuel { r with codedIn := s }
          return .resTable table :: rest
      | some (.kResFile, _, r) => do
          let ((file, offset, length), s) ← getResFileOffsets messages r.codedIn
          let rest ← ContainerReader.entries fuel { r with codedIn := s }
          return .resFile file offset length :: rest

/-- The entries of a container. -/
def readContainer (bytes : List UInt8) : Except ReaderError (List (ReadEntry T F)) := do
  let r ← ContainerReader.new bytes
  r.entries messages (r.totalEntryCount + 1)

/-! ## What is written -/

/-- The bytes of a message with its padding. -/
def padded (message : List UInt8) : List UInt8 :=
  message ++ writePadding (calculatePaddingForAlignment message.length)

/-- The bytes of an entry. -/
def encodeEntry : ContainerEntry T F → List UInt8
  | .resTable table =>
      leBytes 4 ContainerEntryType.kResTable.toNat
        ++ (leBytes 8 (messages.serializeTable table).length ++ padded (messages.serializeTable table))
  | .resFile file data =>
      leBytes 4 ContainerEntryType.kResFile.toNat
        ++ (leBytes 8 (kResFileEntryHeaderSize + (messages.serializeFile file).length
            + calculatePaddingForAlignment (messages.serializeFile file).length + data.length
            + calculatePaddingForAlignment data.length)
        ++ (leBytes 4 (messages.serializeFile file).length ++ (leBytes 8 data.length
        ++ (padded (messages.serializeFile file) ++ padded data))))

variable {messages}

/-- The padding is shorter than the alignment. -/
theorem calculatePaddingForAlignment_lt (size : ℕ) : calculatePaddingForAlignment size < 4 := by
  rw [calculatePaddingForAlignment, kPaddingAlignment]
  split_ifs <;> omega

/-- The padding fills up to the alignment. -/
theorem add_calculatePaddingForAlignment (size : ℕ) :
    (size + calculatePaddingForAlignment size) % 4 = 0 := by
  rw [calculatePaddingForAlignment, kPaddingAlignment]
  split_ifs <;> omega

/-- A padded message has a multiple of four bytes. -/
theorem length_padded (message : List UInt8) :
    (padded message).length = message.length + calculatePaddingForAlignment message.length := by
  rw [padded, writePadding, List.length_append, List.length_replicate]

/-- The writer appends the bytes of the entry. -/
theorem ContainerWriter.add_eq {w : ContainerWriter} (h : w.currentEntryCount < w.totalEntryCount)
    (entry : ContainerEntry T F) :
    w.add messages entry = .ok { w with
      currentEntryCount := w.currentEntryCount + 1
      out := w.out ++ encodeEntry messages entry } := by
  cases entry with
  | resTable table =>
      rw [ContainerWriter.add, ContainerWriter.addResTableEntry, if_neg (by omega)]
      rfl
  | resFile file data =>
      rw [ContainerWriter.add, ContainerWriter.addResFileEntry, if_neg (by omega)]
      simp [encodeEntry, padded]

/-- **What the writer writes.** -/
theorem writeContainer_eq (entries : List (ContainerEntry T F)) :
    writeContainer messages entries.length entries
      = .ok (leBytes 4 kContainerFormatMagic ++ (leBytes 4 kContainerFormatVersion
        ++ (leBytes 4 entries.length ++ entries.flatMap (encodeEntry messages)))) := by
  have hrun : ∀ (l : List (ContainerEntry T F)) (w : ContainerWriter),
      w.currentEntryCount + l.length ≤ w.totalEntryCount →
      ∃ w', l.foldlM (ContainerWriter.add messages) w = .ok w'
        ∧ w'.out = w.out ++ l.flatMap (encodeEntry messages) := by
    intro l
    induction l with
    | nil => exact fun w _ => ⟨w, rfl, by simp⟩
    | cons entry l ih =>
        intro w hw
        rw [List.length_cons] at hw
        obtain ⟨w', hfold, hout⟩ := ih { w with
          currentEntryCount := w.currentEntryCount + 1
          out := w.out ++ encodeEntry messages entry } (by dsimp only; omega)
        refine ⟨w', ?_, by rw [hout, List.flatMap_cons, List.append_assoc]⟩
        rw [List.foldlM_cons, ContainerWriter.add_eq (by omega)]
        exact hfold
  obtain ⟨w, hfold, hout⟩ := hrun entries (.new entries.length) (by simp [ContainerWriter.new])
  rw [writeContainer, hfold]
  show Except.ok w.out = _
  rw [hout, ContainerWriter.new]
  simp

/-! ## What is read -/

/-- What reading makes of an entry: the same table, or the same header with offset and length of the
data in the bytes. -/
def ReadsAs (bytes : List UInt8) : ContainerEntry T F → ReadEntry T F → Prop
  | .resTable table, .resTable table' => table' = table
  | .resFile file data, .resFile file' offset length =>
      file' = file ∧ length = data.length ∧ (bytes.drop offset).take length = data
  | _, _ => False

section Read

variable {s : ByteStream} {rest : List UInt8}

/-- A field that was written is read. -/
theorem readField_eq {width n : ℕ} (hs : s.Fits) (hn : n < 256 ^ width)
    (h : s.remaining = leBytes width n ++ rest) :
    readField width s = .ok (n, s.advance width)
      ∧ (s.advance width).Fits ∧ (s.advance width).remaining = rest := by
  have hfits := hs.advance h
  have hrest := ByteStream.remaining_advance h
  rw [length_leBytes] at hfits hrest
  rw [readField, hs.readLE h, Nat.mod_eq_of_lt hn]
  exact ⟨rfl, hfits, hrest⟩

/-- The number of a type gives the type. -/
theorem entryTypeOf_toNat (type : ContainerEntryType) : entryTypeOf type.toNat = .ok type := by
  cases type <;> rfl

/-- **The next entry.** -/
theorem ContainerReader.next_eq {r : ContainerReader} {pad : List UInt8} {type : ContainerEntryType}
    {length : ℕ} (hcount : r.currentEntryCount < r.totalEntryCount) (hs : r.codedIn.Fits)
    (hpad : pad.length < 4) (haligned : (r.codedIn.pos + pad.length) % 4 = 0)
    (hlength : length < 256 ^ 8)
    (h : r.codedIn.remaining = pad ++ (leBytes 4 type.toNat ++ (leBytes 8 length ++ rest))) :
    r.next = .ok (some (type, length, { r with
        codedIn := r.codedIn.advance (pad.length + 12)
        currentEntryCount := r.currentEntryCount + 1 }))
      ∧ (r.codedIn.advance (pad.length + 12)).Fits
      ∧ (r.codedIn.advance (pad.length + 12)).remaining = rest := by
  have htype : type.toNat < 256 ^ 4 := by cases type <;> decide
  obtain ⟨hread₁, hs₁, h₁⟩ :=
    readField_eq (hs.advance h) htype (ByteStream.remaining_advance h)
  obtain ⟨hread₂, hs₂, h₂⟩ := readField_eq hs₁ hlength h₁
  rw [ByteStream.advance_advance, ByteStream.advance_advance] at hread₂ hs₂ h₂
  refine ⟨?_, hs₂, h₂⟩
  rw [ContainerReader.next, if_neg (by omega)]
  simp only [kPaddingAlignment]
  rw [hs.align (by decide) h hpad haligned, hread₁]
  simp only [bind, Except.bind]
  rw [ByteStream.advance_advance, hread₂]
  simp only [entryTypeOf_toNat, pure, Except.pure]

/-- A table is read back, up to its padding. -/
theorem getResTable_eq {table : T} (hs : s.Fits) (hint : s.data.length ≤ intMax)
    (h : s.remaining = messages.serializeTable table ++ rest) :
    getResTable messages (messages.serializeTable table).length s
      = .ok (table, s.advance (messages.serializeTable table).length) := by
  have hle := hs.pos_add_le h
  rw [getResTable, if_neg (by omega), hs.readBytes h]
  simp only [messages.parse_serializeTable]

/-- A number below the limit is its own 32-bit cast. -/
theorem toInt_eq {n : ℕ} (h : n ≤ intMax) : toInt n = n := by
  rw [intMax] at h
  rw [toInt, BitVec.toInt_eq_toNat_cond, BitVec.toNat_ofNat, Nat.mod_eq_of_lt (by omega),
    if_pos (by omega)]

/-- **A file is read back**: its header, and where its data is. -/
theorem getResFileOffsets_eq {file : F} {data : List UInt8} (hs : s.Fits)
    (hint : s.data.length ≤ intMax) (haligned : s.pos % 4 = 0)
    (h : s.remaining = leBytes 4 (messages.serializeFile file).length
      ++ (leBytes 8 data.length ++ (padded (messages.serializeFile file) ++ (padded data ++ rest)))) :
    ∃ offset, getResFileOffsets messages s = .ok ((file, offset, data.length),
        s.advance (12 + (padded (messages.serializeFile file)).length + (padded data).length))
      ∧ (s.data.drop offset).take data.length = data := by
  have hle : s.remaining.length ≤ intMax := by
    rw [ByteStream.remaining, List.length_drop]
    omega
  rw [h] at hle
  simp only [List.length_append, length_leBytes, length_padded] at hle
  have hintMax : intMax = 2 ^ 31 - 1 := rfl
  obtain ⟨hread₁, hs₁, h₁⟩ := readField_eq hs (by omega) h
  obtain ⟨hread₂, hs₂, h₂⟩ := readField_eq hs₁ (by omega) h₁
  rw [ByteStream.advance_advance] at hread₂ hs₂ h₂
  -- the header, its padding, the data, and its padding
  have hpadding : ∀ n, (writePadding (calculatePaddingForAlignment n)).length
      = calculatePaddingForAlignment n := fun n => List.length_replicate
  rw [padded, List.append_assoc] at h₂
  have hs₃ := hs₂.advance h₂
  have h₃ := ByteStream.remaining_advance h₂
  rw [ByteStream.advance_advance] at hs₃ h₃
  have hs₄ := hs₃.advance h₃
  have h₄ := ByteStream.remaining_advance h₃
  rw [ByteStream.advance_advance, hpadding] at hs₄ h₄
  rw [padded, List.append_assoc] at h₄
  have hs₅ := hs₄.advance h₄
  have h₅ := ByteStream.remaining_advance h₄
  rw [ByteStream.advance_advance] at hs₅ h₅
  have hheader := add_calculatePaddingForAlignment (messages.serializeFile file).length
  have hdata := add_calculatePaddingForAlignment data.length
  have halign₁ := hs₃.align (n := 4) (by decide) h₃
    (by rw [hpadding]; exact calculatePaddingForAlignment_lt _)
    (by rw [hpadding, ByteStream.advance_pos]; omega)
  have halign₂ := hs₅.align (n := 4) (by decide) h₅
    (by rw [hpadding]; exact calculatePaddingForAlignment_lt _)
    (by rw [hpadding, ByteStream.advance_pos]; omega)
  have hskip := hs₄.skip h₄
  rw [← toInt_eq (n := data.length) (by omega)] at hskip
  rw [ByteStream.advance_advance] at halign₁ halign₂ hskip
  rw [hpadding] at halign₁ halign₂
  refine ⟨s.pos + (4 + 8 + (messages.serializeFile file).length
    + calculatePaddingForAlignment (messages.serializeFile file).length), ?_, ?_⟩
  · rw [getResFileOffsets, hread₁]
    simp only [bind, Except.bind]
    rw [hread₂]
    simp only [hs₂.readBytes h₂, messages.parse_serializeFile, kPaddingAlignment,
      ByteStream.advance_advance, halign₁, hskip, halign₂, pure, Except.pure, ByteStream.advance_pos,
      length_padded]
    rw [if_neg (by omega)]
    congr 3
    omega
  · have htake := congrArg (List.take data.length) h₄
    rw [List.take_left] at htake
    exact htake

variable (messages) in
/-- Every entry takes some bytes. -/
theorem length_le_flatMap_encodeEntry (entries : List (ContainerEntry T F)) :
    entries.length ≤ (entries.flatMap (encodeEntry messages)).length := by
  induction entries with
  | nil => exact Nat.zero_le _
  | cons e entries ih =>
      rw [List.length_cons, List.flatMap_cons, List.length_append]
      cases e <;> simp only [encodeEntry, List.length_append, length_leBytes] <;> omega

/-- **The loop reads the entries that are left**, after padding that is left of the one before. -/
theorem ContainerReader.entries_eq (l : List (ContainerEntry T F)) :
    ∀ (fuel : ℕ) (r : ContainerReader) (pad : List UInt8), l.length < fuel → r.codedIn.Fits →
      r.codedIn.data.length ≤ intMax → pad.length < 4 → (r.codedIn.pos + pad.length) % 4 = 0 →
      r.currentEntryCount + l.length = r.totalEntryCount →
      r.codedIn.remaining = pad ++ l.flatMap (encodeEntry messages) →
      ∃ read, r.entries messages fuel = .ok read
        ∧ List.Forall₂ (ReadsAs r.codedIn.data) l read := by
  induction l with
  | nil =>
      intro fuel r pad hfuel _ _ _ _ hcount _
      obtain ⟨fuel, rfl⟩ : ∃ n, fuel = n + 1 := ⟨fuel - 1, by rw [List.length_nil] at hfuel; omega⟩
      refine ⟨[], ?_, .nil⟩
      rw [List.length_nil] at hcount
      rw [ContainerReader.entries, ContainerReader.next, if_pos (by omega)]
      rfl
  | cons entry l ih =>
      intro fuel r pad hfuel hs hint hpad haligned hcount h
      rw [List.length_cons] at hfuel hcount
      obtain ⟨fuel, rfl⟩ : ∃ n, fuel = n + 1 := ⟨fuel - 1, by omega⟩
      have hintMax : intMax = 2 ^ 31 - 1 := rfl
      have hwhole : r.codedIn.remaining
          = (pad ++ (entry :: l).flatMap (encodeEntry messages)) ++ [] := by
        rw [h, List.append_nil]
      have hle := hs.pos_add_le hwhole
      rw [List.length_append, List.flatMap_cons, List.length_append] at hle
      cases entry with
      | resTable table =>
          have hlen : (messages.serializeTable table).length
              + calculatePaddingForAlignment (messages.serializeTable table).length ≤ intMax := by
            simp only [encodeEntry, List.length_append, length_leBytes, length_padded] at hle
            omega
          rw [List.flatMap_cons, encodeEntry, List.append_assoc, List.append_assoc] at h
          obtain ⟨hnext, hs₁, h₁⟩ := ContainerReader.next_eq (by omega) hs hpad haligned
            (by omega) h
          rw [padded, List.append_assoc] at h₁
          have htable := getResTable_eq hs₁ hint h₁
          have hmod := add_calculatePaddingForAlignment (messages.serializeTable table).length
          obtain ⟨read, hread, hall⟩ := ih fuel
            { r with
              codedIn := (r.codedIn.advance (pad.length + 12)).advance
                (messages.serializeTable table).length
              currentEntryCount := r.currentEntryCount + 1 }
            (writePadding (calculatePaddingForAlignment (messages.serializeTable table).length))
            (by omega) (hs₁.advance h₁) hint
            (by rw [writePadding, List.length_replicate]; exact calculatePaddingForAlignment_lt _)
            (by
              simp only [writePadding, List.length_replicate, ByteStream.advance_pos]
              omega)
            (by dsimp only; omega) (ByteStream.remaining_advance h₁)
          refine ⟨.resTable table :: read, ?_, .cons rfl hall⟩
          rw [ContainerReader.entries, hnext]
          simp only [bind, Except.bind]
          rw [htable]
          simp only
          rw [hread]
          rfl
      | resFile file data =>
          have hlen : kResFileEntryHeaderSize + (messages.serializeFile file).length
              + calculatePaddingForAlignment (messages.serializeFile file).length + data.length
              + calculatePaddingForAlignment data.length ≤ intMax := by
            simp only [encodeEntry, List.length_append, length_leBytes, length_padded] at hle
            rw [kResFileEntryHeaderSize]
            omega
          rw [List.flatMap_cons, encodeEntry] at h
          simp only [List.append_assoc] at h
          obtain ⟨hnext, hs₁, h₁⟩ := ContainerReader.next_eq (by omega) hs hpad haligned
            (by omega) h
          obtain ⟨offset, hfile, hdata⟩ := getResFileOffsets_eq hs₁ hint
            (by rw [ByteStream.advance_pos]; omega) h₁
          have hheader := add_calculatePaddingForAlignment (messages.serializeFile file).length
          have hpadding := add_calculatePaddingForAlignment data.length
          -- the whole entry has been read
          have h₂ : (r.codedIn.advance (pad.length + 12)).remaining
              = (leBytes 4 (messages.serializeFile file).length ++ (leBytes 8 data.length
                ++ (padded (messages.serializeFile file) ++ padded data)))
                ++ l.flatMap (encodeEntry messages) := by
            rw [h₁]
            simp only [List.append_assoc]
          have hs₃ := hs₁.advance h₂
          have h₃ := ByteStream.remaining_advance h₂
          have hlength : (leBytes 4 (messages.serializeFile file).length ++ (leBytes 8 data.length
                ++ (padded (messages.serializeFile file) ++ padded data))).length
              = 12 + (padded (messages.serializeFile file)).length + (padded data).length := by
            simp only [List.length_append, length_leBytes]
            omega
          rw [hlength] at hs₃ h₃
          obtain ⟨read, hread, hall⟩ := ih fuel
            { r with
              codedIn := (r.codedIn.advance (pad.length + 12)).advance
                (12 + (padded (messages.serializeFile file)).length + (padded data).length)
              currentEntryCount := r.currentEntryCount + 1 } [] (by omega) hs₃ hint (by decide)
            (by
              simp only [List.length_nil, ByteStream.advance_pos, length_padded]
              omega)
            (by dsimp only; omega) h₃
          refine ⟨.resFile file offset data.length :: read, ?_, .cons ⟨rfl, rfl, hdata⟩ hall⟩
          rw [ContainerReader.entries, hnext]
          simp only [bind, Except.bind]
          rw [hfile]
          simp only
          rw [hread]
          rfl

end Read

/-- **Compiled containers survive writing and reading**: for every sequence of entries of less than
2³¹ bytes the reader gives the same tables and file headers in the same order, and for each file the
place of its data. -/
theorem readContainer_writeContainer (messages : ContainerMessages T F)
    (entries : List (ContainerEntry T F)) {bytes : List UInt8}
    (hwrite : writeContainer messages entries.length entries = .ok bytes)
    (hsize : bytes.length < 2 ^ 31) :
    ∃ read, readContainer messages bytes = .ok read
      ∧ List.Forall₂ (ReadsAs bytes) entries read := by
  rw [writeContainer_eq] at hwrite
  have hbytes := (Except.ok.inj hwrite).symm
  have hint : bytes.length ≤ intMax := by
    rw [intMax]
    omega
  -- each entry takes some bytes, so their number fits into its field
  have hcount : entries.length < 256 ^ 4 := by
    have hlen := length_le_flatMap_encodeEntry messages entries
    have htotal := congrArg List.length hbytes
    simp only [List.length_append, length_leBytes] at htotal
    omega
  have hs : (⟨bytes, 0, intMax⟩ : ByteStream).Fits := ⟨Nat.zero_le _, hint⟩
  obtain ⟨hread₁, hs₁, h₁⟩ := readField_eq (n := kContainerFormatMagic) hs (by decide) hbytes
  obtain ⟨hread₂, hs₂, h₂⟩ := readField_eq (n := kContainerFormatVersion) hs₁ (by decide) h₁
  obtain ⟨hread₃, hs₃, h₃⟩ := readField_eq hs₂ hcount h₂
  obtain ⟨read, hread, hall⟩ := ContainerReader.entries_eq entries (entries.length + 1)
    ⟨_, entries.length, 0⟩ [] (Nat.lt_succ_self _) hs₃ hint (by decide) (by simp) (Nat.zero_add _)
    h₃
  refine ⟨read, ?_, hall⟩
  rw [readContainer, ContainerReader.new, hread₁]
  simp only [bind, Except.bind, ne_eq, not_true_eq_false, if_false, pure, Except.pure]
  rw [hread₂]
  simp only [not_true_eq_false, if_false]
  rw [hread₃]
  exact hread

/-- Messages that are their own bytes. -/
def rawMessages : ContainerMessages (List UInt8) (List UInt8) where
  serializeTable := fun bytes => bytes
  parseTable := some
  serializeFile := fun bytes => bytes
  parseFile := some
  parse_serializeTable _ := rfl
  parse_serializeFile _ := rfl

theorem readContainer_writeContainer_sample :
    ∃ bytes read, writeContainer rawMessages 2 [.resFile [1, 2, 3] [4], .resTable [5]] = .ok bytes
      ∧ readContainer rawMessages bytes = .ok read
      ∧ List.Forall₂ (ReadsAs bytes) [.resFile [1, 2, 3] [4], .resTable [5]] read := by
  obtain ⟨read, hread, hall⟩ := readContainer_writeContainer rawMessages
    [.resFile [1, 2, 3] [4], .resTable [5]] rfl (by decide)
  exact ⟨_, read, rfl, hread, hall⟩

end AndroidSdk.Aapt2
