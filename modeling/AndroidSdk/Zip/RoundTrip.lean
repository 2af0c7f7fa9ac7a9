import Mathlib.Tactic.IntervalCases
import AndroidSdk.Zip.Layout

/-! # Writing an archive and reading it back

Flushing an archive appends the central directory and its end to the records. The reader searches
the file backwards for the signature of the end record, and from there follows the offsets to the
central directory and to the local headers.

* **`flush_archiveOf`** — the file that `flush` leaves.
* **`readEntries_flushed`**, **`payload_flushed`** — the entries and their data are found again.
* **`loadCentralDir_flushed`** — from the end record on, reading succeeds iff the number of entries
  fits 16 bits.
* **`readCentralDir_flushed`** — the search finds the end record iff it does not contain its
  signature a second time.
* **`reopens_iff`** — when an archive that was written can be opened again with the same content. -/

namespace AndroidSdk.Zip

open Lib

/-! ## The flushed file -/

/-- The end of the central directory of an archive with given records. -/
def endRecord (items : List Item) : EndOfCentralDir :=
  { (archiveOf items).eocd with
    centralDirSize := UInt32.ofNat (ZipFile.centralDir (items.map Prod.fst)).length }

/-- The flushed archive with given records. -/
def flushed (items : List Item) : Bytes :=
  records items ++ (ZipFile.centralDir (items.map Prod.fst) ++ (endRecord items).write)

/-- The end record of a written archive has no comment. -/
@[simp] theorem length_write_endRecord (items : List Item) :
    (endRecord items).write.length = EndOfCentralDir.kEOCDLen :=
  EndOfCentralDir.length_write _

/-- Without deleted entries there is nothing to crunch. -/
theorem crunchLoop_of_alive (centralDirOffset : ℕ) (file : Bytes) {entries : List ZipEntry}
    (h : ∀ e ∈ entries, e.deleted = false) :
    ZipFile.crunchLoop centralDirOffset file 0 entries = some ⟨file, 0, 0, entries⟩ := by
  induction entries with
  | nil => rfl
  | cons e entries ih =>
      have he : e.deleted = false := h e List.mem_cons_self
      rw [ZipFile.crunchLoop, if_neg (by simp [he]), if_neg (by simp),
        ih fun e he => h e (List.mem_cons_of_mem _ he)]
      rfl

/-- No entry of records that stand one behind the other is deleted. -/
theorem alive_of_placed {position : ℕ} {items : List Item} (h : Placed position items) :
    ∀ e ∈ items.map Prod.fst, e.deleted = false := by
  induction items generalizing position with
  | nil => simp
  | cons item items ih =>
      obtain ⟨-, halive, hrest⟩ := h
      intro e he
      obtain rfl | he := List.mem_cons.mp he
      · exact halive
      · exact ih hrest e he

/-- **`flush` appends the central directory and its end.** -/
theorem flush_archiveOf {items : List Item} (hplaced : Placed 0 items)
    (hsize : (records items).length < 2 ^ 32) :
    (archiveOf items).flush = some { archiveOf items with
      file := flushed items
      eocd := endRecord items
      needCDRewrite := false } := by
  have hoffset := toNat_centralDirOffset_archiveOf hsize
  have hcrunch : (archiveOf items).crunchArchive = some (archiveOf items) := by
    have hloop : ZipFile.crunchLoop (archiveOf items).eocd.centralDirOffset.toNat
        (archiveOf items).file 0 (archiveOf items).entries
        = some ⟨(archiveOf items).file, 0, 0, (archiveOf items).entries⟩ :=
      crunchLoop_of_alive _ _ (alive_of_placed hplaced)
    have hmod : ((records items).length % 4294967296 : ℤ).toNat = (records items).length := by omega
    rw [ZipFile.crunchArchive, hloop]
    simp [archiveOf, EndOfCentralDir.initial, UInt32.ofInt, hmod]
  rw [ZipFile.flush, if_neg (by simp [archiveOf]), if_neg (by simp [archiveOf]), hcrunch]
  simp only [Option.bind_eq_bind, Option.bind_some, Option.pure_def, hoffset]
  rw [writeAt_length _ _ rfl, List.take_of_length_le (by simp)]
  rfl

/-! ## Reading the central directory -/

@[simp] theorem centralDir_nil : ZipFile.centralDir [] = [] := rfl

@[simp] theorem centralDir_cons (e : ZipEntry) (entries : List ZipEntry) :
    ZipFile.centralDir (e :: entries) = e.cde.write ++ ZipFile.centralDir entries := rfl

@[simp] theorem centralDir_append (entries more : List ZipEntry) :
    ZipFile.centralDir (entries ++ more) = ZipFile.centralDir entries ++ ZipFile.centralDir more :=
  List.flatMap_append

/-- The entry can be read from a file through its central directory entry. -/
def ReadableIn (file : Bytes) (e : ZipEntry) : Prop :=
  LocalFileHeader.read file e.cde.localHeaderRelOffset.toNat = some e.lfh ∧ e.deleted = false

/-- A central directory is read entry by entry. -/
theorem readEntries_append {file : Bytes} (before : Bytes) (entries : List ZipEntry) (after : Bytes)
    (hfile : file = before ++ (ZipFile.centralDir entries ++ after))
    (hreadable : ∀ e ∈ entries, ReadableIn file e) :
    readEntries file before.length entries.length
      = some (entries, before.length + (ZipFile.centralDir entries).length) := by
  induction entries generalizing before with
  | nil => rfl
  | cons e entries ih =>
      rw [centralDir_cons, List.append_assoc] at hfile
      obtain ⟨hlfh, halive⟩ := hreadable e List.mem_cons_self
      have hentry : ZipEntry.initFromCDE file before.length = some e := by
        rw [ZipEntry.initFromCDE, hfile, CentralDirEntry.read_write before e.cde _ rfl, ← hfile]
        simp only [Option.bind_eq_bind, Option.bind_some, hlfh, Option.pure_def]
        rw [← halive]
      have hrest := ih (before ++ e.cde.write) (by rw [hfile, List.append_assoc])
        fun e he => hreadable e (List.mem_cons_of_mem _ he)
      rw [List.length_append, CentralDirEntry.length_write] at hrest
      rw [List.length_cons, readEntries, hentry]
      simp only [Option.bind_eq_bind, Option.bind_some, hrest, Option.pure_def, centralDir_cons,
        List.length_append, CentralDirEntry.length_write, add_assoc]

/-- Every record is found at its position: the local header and, behind it, the data. -/
theorem read_of_placed (before : Bytes) {items : List Item} (after : Bytes)
    (hplaced : Placed before.length items)
    (hsize : before.length + (records items).length < 2 ^ 32) :
    ∀ item ∈ items, ReadableIn (before ++ (records items ++ after)) item.1
      ∧ bytesAt (before ++ (records items ++ after)) item.1.getFileOffset item.2.length
        = some item.2 := by
  induction items generalizing before with
  | nil => simp
  | cons head items ih =>
      obtain ⟨hoffset, halive, hrest⟩ := hplaced
      rw [records_cons, List.length_append] at hsize
      intro item hitem
      obtain rfl | hitem := List.mem_cons.mp hitem
      · -- the first record starts right behind `before`
        have hposition : item.1.cde.localHeaderRelOffset.toNat = before.length := by
          rw [hoffset]
          exact UInt32.toNat_ofNat_of_lt (show before.length < 2 ^ 32 by omega)
        have hfile : before ++ (records (item :: items) ++ after)
            = before ++ (item.1.lfh.write ++ (item.2 ++ (records items ++ after))) := by
          simp [recordBytes]
        have hdata : item.1.getFileOffset = (before ++ item.1.lfh.write).length := by
          rw [recordBytes, List.length_append] at hsize
          rw [List.length_append, LocalFileHeader.length_write] at *
          rw [ZipEntry.getFileOffset, hposition, Nat.mod_eq_of_lt (by omega)]
          omega
        constructor
        · refine ⟨?_, halive⟩
          rw [hfile, LocalFileHeader.read_write before item.1.lfh _ hposition]
        · rw [hfile, ← List.append_assoc before,
            bytesAt_append (before ++ item.1.lfh.write) item.2 _ hdata rfl]
      · have h := ih (before ++ recordBytes head) (by rwa [List.length_append])
          (by rw [List.length_append]; omega) item hitem
        rwa [List.append_assoc before, ← List.append_assoc (recordBytes head), ← records_cons] at h

/-- The four bytes at the end of the first part of a file. -/
theorem bytesAt_four (before rest : Bytes) (h : 4 ≤ rest.length) :
    bytesAt (before ++ rest) before.length 4 = some (rest.take 4) := by
  rw [bytesAt, if_pos (by rw [List.length_append]; omega), List.drop_left]

/-- A long is read from the first four bytes. -/
theorem getLongLE_take (buf : Bytes) : getLongLE (buf.take 4) 0 = getLongLE buf 0 := by
  simp [getLongLE, fieldAt, List.take_take]

/-- The counts of the end record are those of the records modulo `2 ^ 16`. -/
theorem toNat_totalNumEntries (items : List Item) :
    (endRecord items).totalNumEntries.toNat = items.length % 65536 := by
  simp [endRecord, archiveOf]

/-- **From its end record on, a flushed archive is read back iff the number of entries fits 16
bits.** -/
theorem loadCentralDir_flushed {items : List Item} (hplaced : Placed 0 items)
    (hsize : (records items).length < 2 ^ 32) :
    loadCentralDir (flushed items) (endRecord items).write
      = if items.length < 65536 then some (endRecord items, items.map Prod.fst) else none := by
  -- the loop reads as many entries as the end record counts, which may be less than there are
  let entries := items.map Prod.fst
  let count := items.length % 65536
  have hcount : (entries.take count).length = count := by
    rw [List.length_take, List.length_map]
    exact min_eq_left (Nat.mod_le _ _)
  let rest := ZipFile.centralDir (entries.drop count) ++ (endRecord items).write
  have hfile : flushed items
      = records items ++ (ZipFile.centralDir (entries.take count) ++ rest) := by
    rw [flushed, ← List.take_append_drop count (items.map Prod.fst), centralDir_append,
      List.append_assoc]
  have hreadable : ∀ e ∈ entries.take count, ReadableIn (flushed items) e := by
    intro e he
    obtain ⟨item, hitem, rfl⟩ := List.mem_map.mp (List.mem_of_mem_take he)
    exact (read_of_placed [] (ZipFile.centralDir (items.map Prod.fst) ++ (endRecord items).write)
      hplaced (by simpa using hsize) item hitem).1
  have hread := readEntries_append (records items) (entries.take count) rest hfile hreadable
  have hoffset : (endRecord items).centralDirOffset.toNat = (records items).length :=
    toNat_centralDirOffset_archiveOf hsize
  have hrest : 4 ≤ rest.length := by
    simp only [rest, List.length_append, length_write_endRecord, EndOfCentralDir.kEOCDLen]
    omega
  have hcheck := bytesAt_four (records items ++ ZipFile.centralDir (entries.take count)) rest hrest
  rw [List.append_assoc, ← hfile, List.length_append] at hcheck
  rw [hcount] at hread
  rw [loadCentralDir, EndOfCentralDir.readBuf_write]
  simp only [Option.bind_eq_bind, Option.bind_some]
  rw [if_neg (by simp [endRecord, archiveOf, EndOfCentralDir.initial]), hoffset,
    toNat_totalNumEntries, hread]
  simp only [Option.bind_some]
  rw [hcheck]
  simp only [Option.bind_some, getLongLE_take]
  by_cases hlt : items.length < 65536
  · have hall : count = entries.length := by
      rw [List.length_map]
      exact Nat.mod_eq_of_lt hlt
    have hend : rest = (endRecord items).write ++ [] := by
      simp [rest, hall]
    rw [if_pos hlt, hend, EndOfCentralDir.getLongLE_write, if_neg (by simp), hall, List.take_length]
    rfl
  · -- the check reads the signature of the next central directory entry instead
    have hmore : count < entries.length := by
      rw [List.length_map]
      exact lt_of_lt_of_le (Nat.mod_lt _ (by decide)) (not_lt.mp hlt)
    have hnext : ∃ after, rest = entries[count].cde.write ++ after := by
      refine ⟨ZipFile.centralDir (entries.drop (count + 1)) ++ (endRecord items).write, ?_⟩
      simp only [rest]
      rw [List.drop_eq_getElem_cons hmore, centralDir_cons, List.append_assoc]
    obtain ⟨after, hafter⟩ := hnext
    rw [if_neg hlt, hafter, CentralDirEntry.getLongLE_write, if_pos (by decide)]

/-! ## Searching the end record -/

/-- The signature stands at an offset behind the first part of the buffer. -/
theorem isEocdAt_append (before buf : Bytes) (i : ℕ) :
    isEocdAt (before ++ buf) (before.length + i) = isEocdAt buf i := by
  rw [isEocdAt, isEocdAt, getLongLE_append (Nat.le_add_right _ _), Nat.add_sub_cancel_left]

/-- The search meets the signatures behind the start of the end record first. -/
theorem findEocd_append (before buf : Bytes) (hbuf : isEocdAt buf 0 = true) (k : ℕ) :
    ∃ i ≤ k, findEocd (before ++ buf) (before.length + k) = some (before.length + i)
      ∧ isEocdAt buf i = true ∧ ∀ j, i < j → j ≤ k → isEocdAt buf j = false := by
  induction k with
  | zero =>
      refine ⟨0, le_rfl, ?_, hbuf, by omega⟩
      have h := isEocdAt_append before buf 0
      rw [hbuf] at h
      cases hlength : before.length + 0 with
      | zero => rw [findEocd, ← hlength, h, if_pos rfl]
      | succ n => rw [findEocd, ← hlength, h, if_pos rfl]
  | succ k ih =>
      have h := isEocdAt_append before buf (k + 1)
      rw [← add_assoc] at h ⊢
      rw [findEocd, h]
      by_cases hhere : isEocdAt buf (k + 1) = true
      · exact ⟨k + 1, le_rfl, by rw [if_pos hhere, add_assoc], hhere, by omega⟩
      · obtain ⟨i, hi, hfind, hsig, hlast⟩ := ih
        refine ⟨i, by omega, by rw [if_neg hhere, hfind], hsig, ?_⟩
        intro j hij hj
        obtain rfl | hj := eq_or_lt_of_le hj
        · simpa using hhere
        · exact hlast j hij (by omega)

/-- The signature of the end record stands a second time within the record. -/
def InnerSignature (buf : Bytes) : Prop := ∃ i, 1 ≤ i ∧ i ≤ 18 ∧ isEocdAt buf i = true

/-- **The search finds the end record of a file iff it does not contain its signature a second
time.** Otherwise the bytes from the later signature on are too few for a record. -/
theorem readCentralDir_append (before : Bytes) (e : EndOfCentralDir)
    (hlength : e.write.length = EndOfCentralDir.kEOCDLen) :
    (¬ InnerSignature e.write →
      readCentralDir (before ++ e.write) = loadCentralDir (before ++ e.write) e.write)
    ∧ (InnerSignature e.write → readCentralDir (before ++ e.write) = none) := by
  have hstart : isEocdAt e.write 0 = true := by
    have h := EndOfCentralDir.getLongLE_write e []
    rw [List.append_nil] at h
    rw [isEocdAt, h]
    decide
  -- the buffer holds the end of the file, with the record at its end
  let readAmount := min (before ++ e.write).length EndOfCentralDir.kMaxEOCDSearch
  let start := (before ++ e.write).length - readAmount
  have hfull : (before ++ e.write).length = before.length + EndOfCentralDir.kEOCDLen := by
    rw [List.length_append, hlength]
  have hamount : EndOfCentralDir.kEOCDLen ≤ readAmount := by
    rw [le_min_iff, hfull]
    exact ⟨Nat.le_add_left _ _, Nat.le_add_left _ _⟩
  have hle : start ≤ before.length := by
    simp only [start]
    omega
  have hbuf : (before ++ e.write).drop start = before.drop start ++ e.write :=
    List.drop_append_of_le_length hle
  have hindex : readAmount - 4 = (before.drop start).length + 18 := by
    have : EndOfCentralDir.kEOCDLen = 22 := rfl
    rw [List.length_drop]
    simp only [start] at hle ⊢
    omega
  have hread : readCentralDir (before ++ e.write)
      = (findEocd (before.drop start ++ e.write) ((before.drop start).length + 18)).bind fun i =>
          loadCentralDir (before ++ e.write) ((before.drop start ++ e.write).drop i) := by
    have hbody : readCentralDir (before ++ e.write)
        = (findEocd ((before ++ e.write).drop start) (readAmount - 4)).bind fun i =>
            loadCentralDir (before ++ e.write) (((before ++ e.write).drop start).drop i) := by
      rw [readCentralDir, if_neg (by rw [hfull]; omega)]
      dsimp only
      cases findEocd ((before ++ e.write).drop start) (readAmount - 4) <;> rfl
    rw [hbody, hindex, hbuf]
  obtain ⟨i, hi, hfind, hsig, hlast⟩ := findEocd_append (before.drop start) e.write hstart 18
  simp only [hread, hfind, Option.bind_some, List.drop_length_add_append]
  constructor
  · intro hnone
    obtain rfl : i = 0 := by
      by_contra hne
      exact hnone ⟨i, by omega, hi, hsig⟩
    rw [List.drop_zero]
  · rintro ⟨j, hj, hj18, hsigj⟩
    have hpos : i ≠ 0 := by
      rintro rfl
      rw [hlast j hj hj18] at hsigj
      cases hsigj
    have hshort : (e.write.drop i).length < EndOfCentralDir.kEOCDLen := by
      rw [List.length_drop, hlength]
      exact Nat.sub_lt (by decide) (Nat.pos_of_ne_zero hpos)
    rw [loadCentralDir, EndOfCentralDir.readBuf, if_pos hshort]
    rfl

/-- The signature stands where its four bytes stand. -/
theorem isEocdAt_iff {buf : Bytes} {i : ℕ} {a b c d : UInt8} (h : (buf.drop i).take 4 = [a, b, c, d]) :
    isEocdAt buf i = true ↔ a = 0x50 ∧ b = 0x4b ∧ c = 0x05 ∧ d = 0x06 := by
  have hvalue : leNat [a, b, c, d] = a.toNat + 256 * (b.toNat + 256 * (c.toNat + 256 * d.toNat)) := by
    simp [leNat]
  have ha := a.toNat_lt
  have hb := b.toNat_lt
  have hc := c.toNat_lt
  have hd := d.toNat_lt
  rw [isEocdAt, decide_eq_true_eq, getLongLE, fieldAt, h, hvalue, ← UInt32.toNat_inj,
    UInt32.toNat_ofNat_of_lt' (show _ < 2 ^ 32 by omega), ← UInt8.toNat_inj, ← UInt8.toNat_inj,
    ← UInt8.toNat_inj, ← UInt8.toNat_inj]
  change _ = 0x06054b50 ↔ _ = 0x50 ∧ _ = 0x4b ∧ _ = 0x05 ∧ _ = 0x06
  omega

/-- The bytes of the fields of the end record that vary: the number of entries, the size and the
offset of the central directory. -/
def endFields (count : UInt16) (size offset : UInt32) : Bytes :=
  putShortLE count ++ (putLongLE size ++ putLongLE offset)

/-- The signature of the end record stands in the bytes of its fields. -/
def SignatureInFields (count : UInt16) (size offset : UInt32) : Prop :=
  ∃ i ≤ 6, isEocdAt (endFields count size offset) i = true

instance (count : UInt16) (size offset : UInt32) : Decidable (SignatureInFields count size offset) :=
  inferInstanceAs (Decidable (∃ i ≤ 6, _))

/-- A second signature lies within the fields that vary: the disk numbers and the length of the
comment are zero, and the two counts are equal. -/
theorem innerSignature_iff (e : EndOfCentralDir) (hdisk : e.diskNumber = 0)
    (hstart : e.diskWithCentralDir = 0) (hcount : e.numEntries = e.totalNumEntries)
    (hcomment : e.comment.bytes = []) :
    InnerSignature e.write
      ↔ SignatureInFields e.totalNumEntries e.centralDirSize e.centralDirOffset := by
  obtain ⟨n₀, n₁, hn⟩ : ∃ n₀ n₁, putShortLE e.totalNumEntries = [n₀, n₁] := ⟨_, _, rfl⟩
  obtain ⟨s₀, s₁, s₂, s₃, hs⟩ : ∃ s₀ s₁ s₂ s₃, putLongLE e.centralDirSize = [s₀, s₁, s₂, s₃] :=
    ⟨_, _, _, _, rfl⟩
  obtain ⟨o₀, o₁, o₂, o₃, ho⟩ : ∃ o₀ o₁ o₂ o₃, putLongLE e.centralDirOffset = [o₀, o₁, o₂, o₃] :=
    ⟨_, _, _, _, rfl⟩
  have hlength : putShortLE e.comment.length = [0, 0] := by
    rw [VarField.length, hcomment]
    decide
  have hzero : putShortLE 0 = [0, 0] := by decide
  have hsignature : putLongLE EndOfCentralDir.signature = [0x50, 0x4b, 0x05, 0x06] := by decide
  have hwrite : e.write = [0x50, 0x4b, 0x05, 0x06, 0, 0, 0, 0, n₀, n₁, n₀, n₁, s₀, s₁, s₂, s₃,
      o₀, o₁, o₂, o₃, 0, 0] := by
    rw [EndOfCentralDir.write, EndOfCentralDir.fixedPart, hdisk, hstart, hcount, hn, hs, ho, hlength,
      hcomment, hzero, hsignature]
    rfl
  have hfields : endFields e.totalNumEntries e.centralDirSize e.centralDirOffset
      = [n₀, n₁, s₀, s₁, s₂, s₃, o₀, o₁, o₂, o₃] := by
    rw [endFields, hn, hs, ho]
    rfl
  rw [InnerSignature, SignatureInFields, hwrite, hfields]
  constructor
  · rintro ⟨i, h1, h18, hsig⟩
    by_cases hi : 10 ≤ i ∧ i ≤ 16
    · obtain ⟨h10, h16⟩ := hi
      refine ⟨i - 10, by omega, ?_⟩
      rw [isEocdAt, decide_eq_true_eq, getLongLE, fieldAt] at hsig ⊢
      rw [← hsig]
      interval_cases i <;> rfl
    · interval_cases i <;> first | omega | (rw [isEocdAt_iff rfl] at hsig; grind)
  · rintro ⟨i, h6, hsig⟩
    refine ⟨i + 10, by omega, by omega, ?_⟩
    rw [isEocdAt, decide_eq_true_eq, getLongLE, fieldAt] at hsig ⊢
    rw [← hsig]
    interval_cases i <;> rfl

/-! ## Opening a written archive -/

/-- An archive with given records can be opened again: there are not too many entries, and the end
record does not look as if it started later. -/
def Reopenable (entries : ℕ) (dirLength recordsLength : ℕ) : Prop :=
  entries < 65536 ∧ ¬ SignatureInFields (UInt16.ofNat entries) (UInt32.ofNat dirLength)
    (UInt32.ofNat recordsLength)

instance (entries dirLength recordsLength : ℕ) :
    Decidable (Reopenable entries dirLength recordsLength) :=
  inferInstanceAs (Decidable (_ ∧ _))

/-- The flushed archive with given records, opened for reading. -/
def openedArchive (items : List Item) : ZipFile :=
  { archiveOf items with
    file := flushed items
    eocd := endRecord items
    readOnly := true
    needCDRewrite := false }

/-- **Opening the flushed archive with given records.** -/
theorem openReadOnly_flushed {items : List Item} (hplaced : Placed 0 items)
    (hsize : (records items).length < 2 ^ 32) :
    ZipFile.openReadOnly (flushed items)
      = if Reopenable items.length (ZipFile.centralDir (items.map Prod.fst)).length
            (records items).length then
          some (openedArchive items)
        else none := by
  have hfile : flushed items = (records items ++ ZipFile.centralDir (items.map Prod.fst))
      ++ (endRecord items).write := (List.append_assoc _ _ _).symm
  have hinner := innerSignature_iff (endRecord items) rfl rfl rfl rfl
  have hread := readCentralDir_append (records items ++ ZipFile.centralDir (items.map Prod.fst))
    (endRecord items) (length_write_endRecord items)
  rw [← hfile, loadCentralDir_flushed hplaced hsize, hinner] at hread
  rw [ZipFile.openReadOnly]
  by_cases hsignature : SignatureInFields (endRecord items).totalNumEntries
      (endRecord items).centralDirSize (endRecord items).centralDirOffset
  · rw [hread.2 hsignature, if_neg fun h => h.2 hsignature]
    rfl
  · rw [hread.1 hsignature]
    by_cases hcount : items.length < 65536
    · rw [if_pos hcount, if_pos ⟨hcount, hsignature⟩]
      rfl
    · rw [if_neg hcount, if_neg fun h => hcount h.1]
      rfl

/-- The operations write the payloads of their sources. -/
theorem payloads_of_layout {codec : Codec} {position : ℕ} {ops : List Op} {items : List Item}
    (h : layout codec position ops = some items) (hsize : (records items).length < 2 ^ 32) :
    ops.map (Op.payload codec)
        = items.map (fun item => some (item.2.take item.1.getCompressedLen))
      ∧ ∀ item ∈ items, item.1.getCompressedLen ≤ item.2.length := by
  induction ops generalizing position items with
  | nil =>
      cases h
      simp
  | cons op ops ih =>
      simp only [layout, Option.bind_eq_bind, Option.pure_def] at h
      obtain ⟨item, hitem, h⟩ := Option.bind_eq_some_iff.mp h
      obtain ⟨rest, hrest, h⟩ := Option.bind_eq_some_iff.mp h
      cases h
      rw [records_cons, List.length_append, recordBytes, List.length_append] at hsize
      obtain ⟨hpayload, hle⟩ := Op.payload_of_record hitem (by omega)
      obtain ⟨hpayloads, hles⟩ := ih hrest (by omega)
      exact ⟨by rw [List.map_cons, List.map_cons, hpayload, hpayloads],
        List.forall_mem_cons.mpr ⟨hle, hles⟩⟩

/-- The flushed file that a run leaves can be opened again, with the same entries and with the
payloads that the operations wrote. -/
def Reopens (codec : Codec) (ops : List Op) (z z' : ZipFile) : Prop :=
  ∃ reopened, ZipFile.openReadOnly z'.file = some reopened ∧ reopened.entries = z.entries
    ∧ reopened.entries.map reopened.payload = ops.map (Op.payload codec)

/-- Opening what a layout describes gives its entries and payloads, or fails. -/
theorem reopens_archiveOf_iff {codec : Codec} {ops : List Op} {items : List Item}
    (h : layout codec 0 ops = some items) (hsize : (records items).length < 2 ^ 32) {z' : ZipFile}
    (hflush : (archiveOf items).flush = some z') :
    Reopens codec ops (archiveOf items) z'
      ↔ Reopenable items.length (ZipFile.centralDir (items.map Prod.fst)).length
          (records items).length := by
  have hplaced := placed_of_layout h
  obtain ⟨hpayloads, hles⟩ := payloads_of_layout h hsize
  rw [flush_archiveOf hplaced hsize] at hflush
  cases hflush
  rw [Reopens, openReadOnly_flushed hplaced hsize]
  constructor
  · rintro ⟨reopened, hopen, -⟩
    by_contra hnot
    rw [if_neg hnot] at hopen
    cases hopen
  · intro hopens
    rw [if_pos hopens]
    refine ⟨_, rfl, rfl, ?_⟩
    rw [hpayloads]
    simp only [openedArchive, archiveOf, List.map_map]
    apply List.map_congr_left
    intro item hitem
    -- the payload is the first part of the data behind the local header
    have hdata := (read_of_placed [] (ZipFile.centralDir (items.map Prod.fst)
      ++ (endRecord items).write) hplaced (by simpa using hsize) item hitem).2
    exact bytesAt_of_le hdata (hles item hitem)

/-! ## Sample archives -/

/-- The sizes of an archive to which one entry is added many times. -/
theorem layout_replicate_add (codec : Codec) (memory : Memory) {source : ZipFile} {entry : ZipEntry}
    {data : Bytes} (h : ZipFile.copiedData source entry = some data) (count position : ℕ) :
    ∃ items, layout codec position (List.replicate count (.add memory source entry 0)) = some items
      ∧ items.length = count
      ∧ (ZipFile.centralDir (items.map Prod.fst)).length = count * entry.cde.length
      ∧ (records items).length = count * ((ZipEntry.initFromExternal memory entry).lfh.write.length
          + data.length) := by
  induction count generalizing position with
  | zero => exact ⟨[], rfl, rfl, by simp, by simp⟩
  | succ count ih =>
      let item : Item := ((ZipEntry.initFromExternal memory entry).setLFHOffset position, data)
      have hcde : item.1.cde.write.length = entry.cde.length := by
        simp [item, CentralDirEntry.length, ZipEntry.setLFHOffset, ZipEntry.initFromExternal,
          ZipEntry.copyCDEtoLFH]
      obtain ⟨items, hlayout, hcount, hdir, hrecords⟩ := ih (position + (recordBytes item).length)
      refine ⟨item :: items, ?_, by rw [List.length_cons, hcount], ?_, ?_⟩
      · rw [List.replicate_succ, layout, Op.record_add_unaligned codec position memory h]
        simp only [Option.bind_eq_bind, Option.bind_some]
        rw [hlayout]
        rfl
      · rw [List.map_cons, centralDir_cons, List.length_append, hcde, hdir, Nat.succ_mul, add_comm]
      · rw [records_cons, List.length_append, recordBytes, List.length_append, hrecords, Nat.succ_mul,
          add_comm]
        rfl

/-- A stored entry without extra fields and comment. -/
def storedEntry (name : VarField) (size offset : UInt32) : ZipEntry where
  cde := {
    versionMadeBy := 20
    versionToExtract := 20
    gpBitFlag := 0
    compressionMethod := ZipEntry.kCompressStored
    lastModFileTime := 0
    lastModFileDate := 0
    crc32 := 0
    compressedSize := size
    uncompressedSize := size
    diskNumberStart := 0
    internalAttrs := 0
    externalAttrs := 0
    localHeaderRelOffset := offset
    fileName := name
    extraField := .empty
    fileComment := .empty }
  lfh := {
    versionToExtract := 20
    gpBitFlag := 0
    compressionMethod := ZipEntry.kCompressStored
    lastModFileTime := 0
    lastModFileDate := 0
    crc32 := 0
    compressedSize := size
    uncompressedSize := size
    fileName := name
    extraField := .empty }
  deleted := false

/-- A name that repeats one letter. -/
def repeatedName (letter : UInt8) (length : ℕ) (h : length < 65536) : VarField :=
  ⟨List.replicate length letter, by rwa [List.length_replicate]⟩

/-- Fresh memory that happens to be zero. -/
def zeroMemory : Memory := ⟨fun _ => 0, fun _ => 0, fun _ => 0, fun _ => 0⟩

/-- A codec that leaves the data as they are. -/
def identityCodec : Codec := ⟨fun data compLen _ => some (data.take compLen), id⟩

/-- An archive with an empty file that has a name of 345 letters and one with a name of 46
letters. -/
def twoNames : List Item :=
  [(storedEntry (repeatedName 97 345 (by decide)) 0 0, []),
    (storedEntry (repeatedName 98 46 (by decide)) 0 375, [])]

/-- A name of one letter. -/
def letterName : VarField := repeatedName 97 1 (by decide)

/-- The archive with a file `a` of two bytes. -/
def oneFile : List Item := [(storedEntry letterName 2 0, [1, 2])]

/-! ## When a written archive can be opened again -/

/-- **A written archive can be opened again iff its entries fit the 16-bit count and the end record
does not contain its own signature a second time.** The archive is new, the operations succeed, and
it stays below 4 GiB. -/
theorem reopens_iff (codec : Codec) (ops : List Op) {z z' : ZipFile}
    (hrun : run codec ZipFile.openNew ops = some z) (hflush : z.flush = some z')
    (hsize : z.file.length < 2 ^ 32) :
    Reopens codec ops z z'
      ↔ Reopenable z.entries.length (ZipFile.centralDir z.entries).length z.file.length := by
  rw [openNew_eq, run_eq_some_iff codec ops hsize] at hrun
  obtain ⟨items, hlayout, rfl⟩ := hrun
  rw [List.nil_append] at hsize hflush ⊢
  rw [reopens_archiveOf_iff hlayout hsize hflush]
  simp [archiveOf]

/-- The file of `oneFile`, copied to an aligned position and once more with recompression. -/
def copyTwice : List Op :=
  oneFile.flatMap fun item =>
    [.add zeroMemory (openedArchive oneFile) item.1 4,
      .addRecompress zeroMemory (openedArchive oneFile) item.1]

/-- The two copies are read back. -/
theorem reopens_copyTwice : ∃ z z', run identityCodec ZipFile.openNew copyTwice = some z
    ∧ z.flush = some z' ∧ z.file.length < 2 ^ 32 ∧ z.entries.length = 2
    ∧ Reopens identityCodec copyTwice z z' := by
  let z := (run identityCodec ZipFile.openNew copyTwice).getD ZipFile.openNew
  have hrun : run identityCodec ZipFile.openNew copyTwice = some z := by decide +kernel
  have hflush : z.flush = some (z.flush.getD z) := by decide +kernel
  have hsize : z.file.length < 2 ^ 32 := by decide +kernel
  refine ⟨z, z.flush.getD z, hrun, hflush, hsize, by decide +kernel, ?_⟩
  exact (reopens_iff identityCodec copyTwice hrun hflush hsize).mpr (by decide +kernel)

/-- 19279 empty files with a name of 345 letters and one with a name of 46 letters. There are
`0x4b50` of them, and the central directory has `0x730605` bytes: the bytes `50 4b 05 06` in the end
record. -/
def manyFiles : List Op :=
  List.replicate 19279 (.add zeroMemory (openedArchive twoNames)
      (storedEntry (repeatedName 97 345 (by decide)) 0 0) 0)
    ++ List.replicate 1 (.add zeroMemory (openedArchive twoNames)
      (storedEntry (repeatedName 98 46 (by decide)) 0 375) 0)

/-- The records of `manyFiles` and their sizes. -/
theorem layout_manyFiles : ∃ items, layout identityCodec 0 manyFiles = some items
    ∧ items.length = 0x4b50
    ∧ (ZipFile.centralDir (items.map Prod.fst)).length = 0x730605
    ∧ (records items).length = 7229701 := by
  obtain ⟨long, hlong, hcount, hdir, hrecords⟩ := layout_replicate_add identityCodec zeroMemory
    (show ZipFile.copiedData (openedArchive twoNames)
      (storedEntry (repeatedName 97 345 (by decide)) 0 0) = some [] by decide +kernel) 19279 0
  obtain ⟨short, hshort, hcount', hdir', hrecords'⟩ := layout_replicate_add identityCodec zeroMemory
    (show ZipFile.copiedData (openedArchive twoNames)
      (storedEntry (repeatedName 98 46 (by decide)) 0 375) = some [] by decide +kernel) 1
    (0 + (records long).length)
  have hlengths : ∀ (letter : UInt8) (length : ℕ) (h : length < 65536) (offset : UInt32),
      (storedEntry (repeatedName letter length h) 0 offset).cde.length = 46 + length
      ∧ (ZipEntry.initFromExternal zeroMemory
          (storedEntry (repeatedName letter length h) 0 offset)).lfh.write.length = 30 + length := by
    intro letter length h offset
    simp [CentralDirEntry.length, CentralDirEntry.kCDELen, LocalFileHeader.length_write,
      LocalFileHeader.kLFHLen, ZipEntry.initFromExternal, ZipEntry.copyCDEtoLFH, storedEntry,
      repeatedName]
  refine ⟨long ++ short, ?_, ?_, ?_, ?_⟩
  · rw [manyFiles, layout_append, hlong, Option.bind_some, hshort]
    rfl
  · rw [List.length_append, hcount, hcount']
  · rw [List.map_append, centralDir_append, List.length_append, hdir, hdir', (hlengths _ _ _ _).1,
      (hlengths _ _ _ _).1]
  · rw [records_append, List.length_append, hrecords, hrecords', (hlengths _ _ _ _).2,
      (hlengths _ _ _ _).2]
    rfl

/-- An archive of about 15 MB, copied from one that can be opened, cannot be opened again. -/
theorem not_reopens_manyFiles :
    ZipFile.openReadOnly (flushed twoNames) = some (openedArchive twoNames)
    ∧ (∀ item ∈ twoNames, (0 : UInt8) ∉ item.1.cde.fileName.bytes)
    ∧ ∃ z z', run identityCodec ZipFile.openNew manyFiles = some z ∧ z.flush = some z'
      ∧ z'.file.length < 2 ^ 32 ∧ ¬ Reopens identityCodec manyFiles z z' := by
  refine ⟨by decide +kernel, by decide +kernel, ?_⟩
  obtain ⟨items, hlayout, hcount, hdir, hrecords⟩ := layout_manyFiles
  have hsize : (records items).length < 2 ^ 32 := by rw [hrecords]; decide
  have hrun : run identityCodec ZipFile.openNew manyFiles = some (archiveOf items) := by
    rw [openNew_eq, run_eq_some_iff identityCodec manyFiles hsize]
    exact ⟨items, hlayout, by rw [List.nil_append]⟩
  have hflush := flush_archiveOf (placed_of_layout hlayout) hsize
  refine ⟨_, _, hrun, hflush, ?_, ?_⟩
  · simp only [flushed, List.length_append, hrecords, hdir, length_write_endRecord,
      EndOfCentralDir.kEOCDLen]
    decide
  · rw [reopens_archiveOf_iff hlayout hsize hflush, hcount, hdir, hrecords]
    decide +kernel

end AndroidSdk.Zip
