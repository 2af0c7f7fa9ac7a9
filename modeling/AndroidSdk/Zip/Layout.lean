import Mathlib.Data.List.TakeWhile
import AndroidSdk.Zip.ZipFile

/-! # The records of a written archive

A new archive to which entries are added is a sequence of records, one behind the other. This file
describes archives in these terms and shows that the operations of the library follow the
description as long as positions fit 32 bits.

* **`Op`**, **`run`** — sequences of `add` and `addRecompress` on an archive.
* **`Op.record`**, **`layout`** — the records that the operations write, without the file.
* **`archiveOf`** — the archive with given records.
* **`Op.apply_eq`** — the step lemma: an operation appends its record.
* **`run_eq_some_iff`** — the run lemma: below 4 GiB, a run writes the records of its layout. -/

namespace AndroidSdk.Zip

open Lib

/-! ## Files -/

/-- Writing at the end of a file appends. -/
theorem writeAt_length (file bytes : Bytes) {position : ℕ} (h : position = file.length) :
    writeAt file position bytes = file ++ bytes := by
  subst h
  simp [writeAt]

/-- Writing within a file replaces as many bytes. -/
theorem writeAt_replace (before old new after : Bytes) {position : ℕ}
    (hposition : position = before.length) (hlength : new.length = old.length) :
    writeAt (before ++ (old ++ after)) position new = before ++ (new ++ after) := by
  subst hposition
  rw [writeAt, List.take_left, hlength, ← List.append_assoc before old after,
    ← List.length_append, List.drop_left]
  simp

/-- Writing never shortens a file. -/
theorem length_le_length_writeAt (file bytes : Bytes) (position : ℕ) :
    file.length ≤ (writeAt file position bytes).length := by
  simp only [writeAt, List.length_append, List.length_take, List.length_replicate, List.length_drop]
  omega

/-- Copying a string keeps the length of the field. -/
@[simp] theorem length_strcpy (fresh : Fresh) (f : VarField) :
    (strcpy fresh f).bytes.length = f.bytes.length := by
  simp only [strcpy, List.length_take, List.length_append, List.length_cons, List.length_map,
    List.length_range]
  omega

/-- A string without NUL is copied as a whole. -/
theorem strcpy_eq_self (fresh : Fresh) {f : VarField} (h : (0 : UInt8) ∉ f.bytes) :
    strcpy fresh f = f := by
  have htext : f.bytes.takeWhile (· ≠ 0) = f.bytes := by
    rw [List.takeWhile_eq_self_iff]
    intro b hb
    rw [decide_eq_true_eq]
    rintro rfl
    exact h hb
  apply VarField.ext_bytes
  simp only [strcpy, htext]
  rw [List.take_left]

/-! ## Records -/

/-- An operation on an archive that is open for writing. -/
inductive Op where
  /-- `add` of an entry of a source archive. -/
  | add (memory : Memory) (source : ZipFile) (entry : ZipEntry) (alignTo : UInt32)
  /-- `addRecompress` of an entry of a source archive. -/
  | addRecompress (memory : Memory) (source : ZipFile) (entry : ZipEntry)

/-- The operation on an archive. -/
def Op.apply (codec : Codec) (z : ZipFile) : Op → Option ZipFile
  | .add memory source entry alignTo => z.add memory source entry alignTo
  | .addRecompress memory source entry => z.addRecompress codec memory source entry

/-- A sequence of operations, all of which succeed. -/
def run (codec : Codec) (z : ZipFile) : List Op → Option ZipFile
  | [] => some z
  | op :: ops => (op.apply codec z).bind fun z' => run codec z' ops

/-- A record of an archive: an entry and the data behind its local header. -/
abbrev Item := ZipEntry × Bytes

/-- The bytes of a record. -/
def recordBytes (item : Item) : Bytes := item.1.lfh.write ++ item.2

/-- The record that an operation writes at a position. -/
def Op.record (codec : Codec) (position : ℕ) : Op → Option Item
  | .add memory source entry alignTo => do
      let e ← ZipFile.alignEntry position (ZipEntry.initFromExternal memory entry) alignTo
      let data ← ZipFile.copiedData source entry
      return (e.setLFHOffset position, data)
  | .addRecompress memory source entry =>
      let blank := ZipEntry.initFromExternal memory entry
      if entry.isCompressed then do
        let buf ← ZipFile.uncompress codec source entry
        let data := codec.zopfliDeflate buf
        return ((blank.setDataInfo memory.localNameAgain entry.getUncompressedLen data.length
          entry.cde.crc32).setLFHOffset position, data)
      else do
        let data ← ZipFile.copiedData source entry
        return (blank.setLFHOffset position, data)

/-- The record of `add` without alignment. -/
theorem Op.record_add_unaligned (codec : Codec) (position : ℕ) (memory : Memory) {source : ZipFile}
    {entry : ZipEntry} {data : Bytes} (h : ZipFile.copiedData source entry = some data) :
    (Op.add memory source entry 0).record codec position
      = some ((ZipEntry.initFromExternal memory entry).setLFHOffset position, data) := by
  simp [record, ZipFile.alignEntry, h]

/-- The records that a sequence of operations writes from a position on. -/
def layout (codec : Codec) : ℕ → List Op → Option (List Item)
  | _, [] => some []
  | position, op :: ops => do
      let item ← op.record codec position
      let items ← layout codec (position + (recordBytes item).length) ops
      return item :: items

/-- The archive after a record was appended. -/
def ZipFile.append (z : ZipFile) (item : Item) : ZipFile :=
  { z with
    file := z.file ++ recordBytes item
    eocd := ZipFile.eocdAfterAdd z.eocd (z.file.length + (recordBytes item).length)
    entries := z.entries ++ [item.1]
    needCDRewrite := true }

/-- The local header is not changed by the offset. -/
@[simp] theorem ZipEntry.lfh_setLFHOffset (e : ZipEntry) (offset : ℕ) :
    (e.setLFHOffset offset).lfh = e.lfh := rfl

/-- The header that is written at the end has the length of the blank one. -/
theorem length_write_setDataInfo (memory : Memory) (fresh : Fresh) (source : ZipEntry)
    (uncompLen compLen : ℕ) (crc32 : UInt32) :
    ((ZipEntry.initFromExternal memory source).setDataInfo fresh uncompLen compLen
        crc32).lfh.write.length = (ZipEntry.initFromExternal memory source).lfh.write.length := by
  simp [LocalFileHeader.length_write, ZipEntry.setDataInfo, ZipEntry.initFromExternal,
    ZipEntry.copyCDEtoLFH]

/-- Writing at the end of the first part of a file overwrites what stands behind it. -/
theorem writeAt_front (front tail bytes : Bytes) {position : ℕ} (h : position = front.length) :
    writeAt (front ++ tail) position bytes = front ++ (bytes ++ tail.drop bytes.length) := by
  subst h
  rw [writeAt, List.take_left, Nat.sub_eq_zero_of_le (by simp), List.drop_append]
  simp

/-- The archive after a record was written behind the first part of the file, over the bytes that
stood there. -/
def ZipFile.appendOver (z : ZipFile) (front tail : Bytes) (item : Item) : ZipFile :=
  { z with
    file := front ++ (recordBytes item ++ tail.drop (recordBytes item).length)
    eocd := ZipFile.eocdAfterAdd z.eocd (front.length + (recordBytes item).length)
    entries := z.entries ++ [item.1]
    needCDRewrite := true }

/-- **An operation writes its record where the central directory belongs.** -/
theorem Op.apply_eq_appendOver (codec : Codec) {z : ZipFile} (hwritable : z.readOnly = false)
    {front tail : Bytes} (hfile : z.file = front ++ tail)
    (hoffset : z.eocd.centralDirOffset.toNat = front.length) (op : Op) :
    op.apply codec z = (op.record codec front.length).map (z.appendOver front tail) := by
  -- the header and the data are written one behind the other
  have hwrites (header data : Bytes) :
      writeAt (writeAt (front ++ tail) front.length header) (front.length + header.length) data
        = front ++ (header ++ (data ++ tail.drop (header.length + data.length))) := by
    rw [writeAt_front _ _ _ rfl, ← List.append_assoc, writeAt_front _ _ _ (by simp),
      List.append_assoc, List.drop_drop]
  cases op with
  | add memory source entry alignTo =>
      simp only [apply, ZipFile.add, record, hwritable, hoffset, Bool.false_eq_true, if_false]
      cases ZipFile.alignEntry front.length (ZipEntry.initFromExternal memory entry) alignTo with
      | none => rfl
      | some e =>
          cases ZipFile.copiedData source entry with
          | none => rfl
          | some data =>
              simp only [Option.bind_eq_bind, Option.bind_some, Option.pure_def, Option.map_some,
                Option.some.injEq]
              rw [hfile, hwrites]
              simp [ZipFile.appendOver, recordBytes, add_assoc, hwritable]
  | addRecompress memory source entry =>
      simp only [apply, ZipFile.addRecompress, record, hwritable, hoffset, Bool.false_eq_true,
        if_false]
      by_cases hcompressed : entry.isCompressed = true
      · simp only [if_pos hcompressed]
        cases ZipFile.uncompress codec source entry with
        | none => rfl
        | some buf =>
            have hlength := length_write_setDataInfo memory memory.localNameAgain entry
              entry.getUncompressedLen (codec.zopfliDeflate buf).length entry.cde.crc32
            simp only [Option.bind_eq_bind, Option.bind_some, Option.pure_def, Option.map_some,
              Option.some.injEq]
            rw [hfile, hwrites, ZipEntry.lfh_setLFHOffset, writeAt_replace _ _ _ _ rfl hlength]
            simp [ZipFile.appendOver, recordBytes, add_assoc, hlength, hwritable]
      · simp only [if_neg hcompressed]
        cases ZipFile.copiedData source entry with
        | none => rfl
        | some data =>
            simp only [Option.bind_eq_bind, Option.bind_some, Option.pure_def, Option.map_some,
              Option.some.injEq]
            rw [hfile, hwrites, ZipEntry.lfh_setLFHOffset, writeAt_replace _ _ _ _ rfl rfl]
            simp [ZipFile.appendOver, recordBytes, add_assoc, hwritable]

/-- **An operation appends its record**, on an archive whose central directory belongs at the end of
the file. -/
theorem Op.apply_eq (codec : Codec) {z : ZipFile} (hwritable : z.readOnly = false)
    (hoffset : z.eocd.centralDirOffset.toNat = z.file.length) (op : Op) :
    op.apply codec z = (op.record codec z.file.length).map z.append := by
  have hsame : z.appendOver z.file [] = z.append := by
    funext item
    simp [ZipFile.appendOver, ZipFile.append]
  rw [← hsame]
  exact op.apply_eq_appendOver codec hwritable (List.append_nil _).symm hoffset

/-! ## Runs -/

/-- An operation never shortens the file. -/
theorem Op.length_le_of_apply {codec : Codec} {z z' : ZipFile} {op : Op}
    (h : op.apply codec z = some z') : z.file.length ≤ z'.file.length := by
  cases op with
  | add memory source entry alignTo =>
      simp only [apply, ZipFile.add, Option.bind_eq_bind, Option.pure_def] at h
      split at h
      · cases h
      · obtain ⟨e, -, h⟩ := Option.bind_eq_some_iff.mp h
        obtain ⟨data, -, h⟩ := Option.bind_eq_some_iff.mp h
        cases h
        exact (length_le_length_writeAt _ _ _).trans (length_le_length_writeAt _ _ _)
  | addRecompress memory source entry =>
      simp only [apply, ZipFile.addRecompress, Option.bind_eq_bind, Option.pure_def] at h
      split at h
      · cases h
      · have hwrite (first second third : Bytes) (p q : ℕ) : z.file.length
            ≤ (writeAt (writeAt (writeAt z.file p first) q second) p third).length :=
          ((length_le_length_writeAt _ _ _).trans (length_le_length_writeAt _ _ _)).trans
            (length_le_length_writeAt _ _ _)
        split at h <;> obtain ⟨buf, -, h⟩ := Option.bind_eq_some_iff.mp h <;> cases h <;>
          exact hwrite _ _ _ _ _

/-- A run never shortens the file. -/
theorem length_le_of_run {codec : Codec} {z z' : ZipFile} {ops : List Op}
    (h : run codec z ops = some z') : z.file.length ≤ z'.file.length := by
  induction ops generalizing z with
  | nil =>
      cases h
      exact le_rfl
  | cons op ops ih =>
      obtain ⟨z₁, happly, hrun⟩ := Option.bind_eq_some_iff.mp h
      exact (Op.length_le_of_apply happly).trans (ih hrun)

/-- The bytes of a sequence of records. -/
def records (items : List Item) : Bytes := items.flatMap recordBytes

@[simp] theorem records_nil : records [] = [] := rfl

@[simp] theorem records_cons (item : Item) (items : List Item) :
    records (item :: items) = recordBytes item ++ records items := rfl

@[simp] theorem records_append (items more : List Item) :
    records (items ++ more) = records items ++ records more := List.flatMap_append

/-- Each record is part of the file. -/
theorem length_recordBytes_le {item : Item} {items : List Item} (h : item ∈ items) :
    (recordBytes item).length ≤ (records items).length := by
  obtain ⟨before, after, rfl⟩ := List.append_of_mem h
  simp only [records_append, records_cons, List.length_append]
  omega

/-- Operations one after the other write their records one behind the other. -/
theorem layout_append (codec : Codec) (position : ℕ) (ops more : List Op) :
    layout codec position (ops ++ more) = (layout codec position ops).bind fun items =>
      (layout codec (position + (records items).length) more).map (items ++ ·) := by
  induction ops generalizing position with
  | nil => simp [layout]
  | cons op ops ih =>
      simp only [List.cons_append, layout, Option.bind_eq_bind, Option.pure_def, ih]
      cases op.record codec position with
      | none => rfl
      | some item =>
          simp only [Option.bind_some]
          cases layout codec (position + (recordBytes item).length) ops with
          | none => rfl
          | some items =>
              simp only [Option.bind_some, records_cons, List.length_append, ← add_assoc]
              cases layout codec
                (position + (recordBytes item).length + (records items).length) more with
              | none => rfl
              | some rest => rfl

/-- The archive with given records, before it is flushed. -/
def archiveOf (items : List Item) : ZipFile where
  file := records items
  eocd := { EndOfCentralDir.initial with
    numEntries := UInt16.ofNat items.length
    totalNumEntries := UInt16.ofNat items.length
    centralDirOffset := UInt32.ofNat (records items).length }
  entries := items.map Prod.fst
  readOnly := false
  needCDRewrite := true

@[simp] theorem file_archiveOf (items : List Item) : (archiveOf items).file = records items := rfl

/-- A new archive has no records. -/
theorem openNew_eq : ZipFile.openNew = archiveOf [] := rfl

/-- A record is appended to those of an archive. -/
theorem append_archiveOf (items : List Item) (item : Item) :
    (archiveOf items).append item = archiveOf (items ++ [item]) := by
  have hcount (n : ℕ) : UInt16.ofNat n + 1 = UInt16.ofNat (n + 1) := by
    rw [UInt16.ofNat_add]
    rfl
  simp only [ZipFile.append, archiveOf, ZipFile.eocdAfterAdd, EndOfCentralDir.initial, hcount,
    records_append, records_cons, records_nil, List.append_nil, List.length_append, List.map_append,
    List.map_cons, List.map_nil, List.length_singleton]

/-- The central directory belongs at the end of an archive below 4 GiB. -/
theorem toNat_centralDirOffset_archiveOf {items : List Item}
    (h : (records items).length < 2 ^ 32) :
    (archiveOf items).eocd.centralDirOffset.toNat = (archiveOf items).file.length :=
  UInt32.toNat_ofNat_of_lt h

/-- One operation on an archive below 4 GiB. -/
theorem apply_archiveOf (codec : Codec) {items : List Item} (h : (records items).length < 2 ^ 32)
    (op : Op) :
    op.apply codec (archiveOf items)
      = (op.record codec (records items).length).map fun item => archiveOf (items ++ [item]) := by
  rw [Op.apply_eq codec rfl (toNat_centralDirOffset_archiveOf h)]
  congr 1
  funext item
  exact append_archiveOf items item

/-- **A run below 4 GiB writes the records of its layout**, and succeeds if they exist. -/
theorem run_eq_some_iff (codec : Codec) (ops : List Op) {items : List Item} {z : ZipFile}
    (h : z.file.length < 2 ^ 32) :
    run codec (archiveOf items) ops = some z
      ↔ ∃ more, layout codec (records items).length ops = some more ∧ z = archiveOf (items ++ more) := by
  induction ops generalizing items with
  | nil => simp [run, layout, eq_comm]
  | cons op ops ih =>
      -- the records that are there already fit as well, since files only grow
      by_cases hsize : (records items).length < 2 ^ 32
      · rw [run, apply_archiveOf codec hsize, layout]
        cases op.record codec (records items).length with
        | none => simp
        | some item =>
            simp only [Option.map_some, Option.bind_some, Option.bind_eq_bind, Option.pure_def]
            rw [ih, records_append, records_cons, records_nil, List.append_nil, List.length_append]
            cases layout codec ((records items).length + (recordBytes item).length) ops with
            | none => simp
            | some more => simp
      · constructor
        · intro hrun
          have := length_le_of_run hrun
          exact absurd (lt_of_le_of_lt this h) hsize
        · rintro ⟨more, -, rfl⟩
          rw [archiveOf, records_append, List.length_append] at h
          omega

/-! ## What the records hold -/

/-- The records stand one behind the other from a position on, and none is marked as deleted. -/
def Placed : ℕ → List Item → Prop
  | _, [] => True
  | position, item :: items =>
      item.1.cde.localHeaderRelOffset = UInt32.ofNat position ∧ item.1.deleted = false
        ∧ Placed (position + (recordBytes item).length) items

/-- Aligning an entry changes its local extra field only. -/
theorem alignEntry_eq_some {position : ℕ} {e e' : ZipEntry} {alignTo : UInt32}
    (h : ZipFile.alignEntry position e alignTo = some e') :
    ∃ extra, e' = { e with lfh := { e.lfh with extraField := extra } } := by
  simp only [ZipFile.alignEntry, ZipEntry.addPadding] at h
  split_ifs at h <;> cases h
  · exact ⟨_, rfl⟩
  · exact ⟨_, rfl⟩
  · exact ⟨_, rfl⟩

/-- The record of `add`. -/
theorem record_add_eq_some {codec : Codec} {position : ℕ} {memory : Memory} {source : ZipFile}
    {entry : ZipEntry} {alignTo : UInt32} {item : Item}
    (h : (Op.add memory source entry alignTo).record codec position = some item) :
    ∃ e data, ZipFile.alignEntry position (ZipEntry.initFromExternal memory entry) alignTo = some e
      ∧ ZipFile.copiedData source entry = some data ∧ item = (e.setLFHOffset position, data) := by
  simp only [Op.record, Option.bind_eq_bind, Option.pure_def] at h
  obtain ⟨e, halign, h⟩ := Option.bind_eq_some_iff.mp h
  obtain ⟨data, hdata, h⟩ := Option.bind_eq_some_iff.mp h
  cases h
  exact ⟨e, data, halign, hdata, rfl⟩

/-- The record of `addRecompress`: compressed data are compressed again, other data are copied. -/
theorem record_addRecompress_eq_some {codec : Codec} {position : ℕ} {memory : Memory}
    {source : ZipFile} {entry : ZipEntry} {item : Item}
    (h : (Op.addRecompress memory source entry).record codec position = some item) :
    (entry.isCompressed = true ∧ ∃ buf, ZipFile.uncompress codec source entry = some buf
      ∧ item = (((ZipEntry.initFromExternal memory entry).setDataInfo memory.localNameAgain
          entry.getUncompressedLen (codec.zopfliDeflate buf).length
          entry.cde.crc32).setLFHOffset position, codec.zopfliDeflate buf))
    ∨ (entry.isCompressed = false ∧ ∃ data, ZipFile.copiedData source entry = some data
      ∧ item = ((ZipEntry.initFromExternal memory entry).setLFHOffset position, data)) := by
  simp only [Op.record, Option.bind_eq_bind, Option.pure_def] at h
  split at h
  next hcompressed =>
    obtain ⟨buf, hbuf, h⟩ := Option.bind_eq_some_iff.mp h
    cases h
    exact .inl ⟨hcompressed, buf, hbuf, rfl⟩
  next hcompressed =>
    obtain ⟨data, hdata, h⟩ := Option.bind_eq_some_iff.mp h
    cases h
    exact .inr ⟨Bool.eq_false_iff.mpr hcompressed, data, hdata, rfl⟩

/-- A record knows its position and is not marked as deleted. -/
theorem Op.record_position {codec : Codec} {position : ℕ} {op : Op} {item : Item}
    (h : op.record codec position = some item) :
    item.1.cde.localHeaderRelOffset = UInt32.ofNat position ∧ item.1.deleted = false := by
  cases op with
  | add memory source entry alignTo =>
      obtain ⟨e, data, halign, -, rfl⟩ := record_add_eq_some h
      obtain ⟨extra, rfl⟩ := alignEntry_eq_some halign
      exact ⟨rfl, rfl⟩
  | addRecompress memory source entry =>
      obtain ⟨-, buf, -, rfl⟩ | ⟨-, data, -, rfl⟩ := record_addRecompress_eq_some h
      · exact ⟨rfl, rfl⟩
      · exact ⟨rfl, rfl⟩

/-- The records of a layout are placed. -/
theorem placed_of_layout {codec : Codec} {position : ℕ} {ops : List Op} {items : List Item}
    (h : layout codec position ops = some items) : Placed position items := by
  induction ops generalizing position items with
  | nil =>
      cases h
      trivial
  | cons op ops ih =>
      simp only [layout, Option.bind_eq_bind, Option.pure_def] at h
      obtain ⟨item, hitem, h⟩ := Option.bind_eq_some_iff.mp h
      obtain ⟨rest, hrest, h⟩ := Option.bind_eq_some_iff.mp h
      cases h
      obtain ⟨hoffset, halive⟩ := Op.record_position hitem
      exact ⟨hoffset, halive, ih hrest⟩

/-- The data of an entry, without the data descriptor. -/
def ZipFile.payload (z : ZipFile) (e : ZipEntry) : Option Bytes :=
  bytesAt z.file e.getFileOffset e.getCompressedLen

/-- The payload that an operation writes: that of the source, or what the compressor makes of its
content. -/
def Op.payload (codec : Codec) : Op → Option Bytes
  | .add _ source entry _ => source.payload entry
  | .addRecompress _ source entry =>
      if entry.isCompressed then (ZipFile.uncompress codec source entry).map codec.zopfliDeflate
      else source.payload entry

/-- What is copied for an entry starts with its payload. -/
theorem payload_of_copiedData {source : ZipFile} {e : ZipEntry} {data : Bytes}
    (h : ZipFile.copiedData source e = some data) :
    source.payload e = some (data.take e.getCompressedLen) ∧ e.getCompressedLen ≤ data.length := by
  have hle : e.getCompressedLen ≤ ZipFile.copyLength e := Nat.le_add_right _ _
  exact ⟨bytesAt_of_le h hle, hle.trans_eq (length_of_bytesAt h).symm⟩

/-- The data of a record start with the payload. -/
theorem Op.payload_of_record {codec : Codec} {position : ℕ} {op : Op} {item : Item}
    (h : op.record codec position = some item) (hsize : item.2.length < 2 ^ 32) :
    op.payload codec = some (item.2.take item.1.getCompressedLen)
      ∧ item.1.getCompressedLen ≤ item.2.length := by
  cases op with
  | add memory source entry alignTo =>
      obtain ⟨e, data, halign, hdata, rfl⟩ := record_add_eq_some h
      obtain ⟨extra, rfl⟩ := alignEntry_eq_some halign
      exact payload_of_copiedData hdata
  | addRecompress memory source entry =>
      obtain ⟨hcompressed, buf, hbuf, rfl⟩ | ⟨hstored, data, hdata, rfl⟩ :=
        record_addRecompress_eq_some h
      · have hlen : (UInt32.ofNat (codec.zopfliDeflate buf).length).toNat
            = (codec.zopfliDeflate buf).length := UInt32.toNat_ofNat_of_lt hsize
        simp [payload, hcompressed, hbuf, ZipEntry.getCompressedLen, ZipEntry.setLFHOffset,
          ZipEntry.setDataInfo, ZipEntry.copyCDEtoLFH, hlen]
      · rw [payload, hstored]
        exact payload_of_copiedData hdata

end AndroidSdk.Zip
