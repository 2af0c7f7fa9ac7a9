import AndroidSdk.Zip.AlignedOutput

/-! # Offsets and positions

The offsets in an archive have 32 bits, the positions in a file do not. This file compares the
offsets that `process` writes with the positions at which the records belong.

* **`writtenRecords`** — the records that a run writes, one behind the other, at positions of any
  size.
* **`TrueOffsets`** — the offsets of the output are the positions of these records.
* **`trueOffsets_iff`** — they are iff the records take less than 4 GiB: the operations do not look
  at the bits that are lost. -/

namespace AndroidSdk.Zip

open Lib

/-- The positions of records that stand one behind the other. -/
def positions : ℕ → List Item → List ℕ
  | _, [] => []
  | position, item :: items => position :: positions (position + (recordBytes item).length) items

/-- The records of a run on an input: for each entry the header, with the padding that aligns the
data at the position behind the records before it, and the data. -/
def writtenRecords (codec : Codec) (opts : Options) (memory : ℕ → Memory) (input : Bytes) :
    Option (List Item) := do
  let zin ← ZipFile.openReadOnly input
  let ops ← copyOps opts memory zin 0 zin.entries
  layout codec 0 ops

/-- The offsets that a run writes are the positions of its records: those of the local headers, and
that of the central directory, which is the position behind all records. -/
def TrueOffsets (codec : Codec) (opts : Options) (memory : ℕ → Memory) (input output : Bytes) :
    Prop :=
  ∃ zin zout written items, rewriteArchive codec opts memory input = some (zin, zout)
    ∧ zout.flush = some written ∧ written.file = output
    ∧ writtenRecords codec opts memory input = some items
    ∧ written.entries.map ZipEntry.getLFHOffset = positions 0 items
    ∧ written.eocd.centralDirOffset.toNat = (records items).length

/-- The records of an input take less than 4 GiB. -/
def RecordsFit (codec : Codec) (opts : Options) (memory : ℕ → Memory) (input : Bytes) : Prop :=
  ∀ items, writtenRecords codec opts memory input = some items → (records items).length < 2 ^ 32

/-- An entry can be aligned at every position: a padding below the alignment is a positive `int`. -/
theorem exists_alignEntry (position : ℕ) (e : ZipEntry) {alignTo : UInt32}
    (hlt : alignTo.toNat < 2 ^ 31) :
    ∃ e', ZipFile.alignEntry position e alignTo = some e' := by
  simp only [ZipFile.alignEntry, ZipEntry.addPadding]
  split_ifs with hone haligned hbad
  · exact ⟨e, rfl⟩
  · exact ⟨e, rfl⟩
  · have hpos : 0 < alignTo.toNat := by
      by_contra hzero
      exact hone (.inl (UInt32.toNat_inj.mp (by simpa using hzero)))
    have hmod := Nat.mod_lt (position + LocalFileHeader.kLFHLen + e.lfh.fileName.bytes.length
      + e.lfh.extraField.bytes.length) hpos
    omega
  · exact ⟨_, rfl⟩

/-- A call of the loop that succeeds somewhere has a record at every position. -/
theorem exists_record {codec : Codec} {opts : Options} {memory : Memory} {zin z z' : ZipFile}
    {e : ZipEntry} {op : Op} (hop : copyOp opts memory zin e = some op)
    (happly : op.apply codec z = some z') (position : ℕ) :
    ∃ item, op.record codec position = some item := by
  have hadd (alignTo : UInt32) (hlt : alignTo.toNat < 2 ^ 31)
      (happly : z.add memory zin e alignTo = some z') :
      ∃ item, (Op.add memory zin e alignTo).record codec position = some item := by
    simp only [ZipFile.add, Option.bind_eq_bind, Option.pure_def] at happly
    split at happly
    · cases happly
    · obtain ⟨e', -, happly⟩ := Option.bind_eq_some_iff.mp happly
      obtain ⟨data, hdata, -⟩ := Option.bind_eq_some_iff.mp happly
      obtain ⟨aligned, haligned⟩ := exists_alignEntry position (ZipEntry.initFromExternal memory e) hlt
      exact ⟨(aligned.setLFHOffset position, data), by simp [Op.record, haligned, hdata]⟩
  obtain ⟨alignTo, hneeds, rfl⟩ | ⟨-, rfl⟩ := copyOp_cases hop
  · refine hadd alignTo ?_ happly
    obtain rfl | rfl := getAlignment_cases hneeds.2.2
    · exact opts.alignment_lt
    · have hvalid := opts.pageSize_valid
      simp only [List.mem_cons, List.not_mem_nil, or_false] at hvalid
      obtain h | h | h := hvalid <;> rw [h] <;> decide
  · split at happly
    next hzopfli =>
      simp only [hzopfli, if_true, Op.record]
      simp only [Op.apply, ZipFile.addRecompress, Option.bind_eq_bind, Option.pure_def] at happly
      split at happly
      · cases happly
      · split at happly <;> rename_i hcompressed
        · obtain ⟨buf, hbuf, -⟩ := Option.bind_eq_some_iff.mp happly
          simp [hcompressed, hbuf]
        · obtain ⟨data, hdata, -⟩ := Option.bind_eq_some_iff.mp happly
          simp [hcompressed, hdata]
    next hzopfli =>
      simp only [hzopfli]
      exact hadd 0 (by decide) happly

/-- Calls of the loop that succeed have records at every position. -/
theorem exists_layout {codec : Codec} {opts : Options} {memory : ℕ → Memory} {zin : ZipFile}
    {entries : List ZipEntry} {i : ℕ} {ops : List Op} {z z' : ZipFile}
    (hops : copyOps opts memory zin i entries = some ops) (hrun : run codec z ops = some z')
    (position : ℕ) : ∃ items, layout codec position ops = some items := by
  induction entries generalizing i ops z position with
  | nil =>
      cases hops
      exact ⟨[], rfl⟩
  | cons e entries ih =>
      simp only [copyOps, Option.bind_eq_bind, Option.pure_def] at hops
      obtain ⟨op, hop, hops⟩ := Option.bind_eq_some_iff.mp hops
      obtain ⟨rest, hrest, hops⟩ := Option.bind_eq_some_iff.mp hops
      cases hops
      obtain ⟨z₁, happly, hrun⟩ := Option.bind_eq_some_iff.mp hrun
      obtain ⟨item, hitem⟩ := exists_record hop happly position
      obtain ⟨items, hitems⟩ := ih hrest hrun (position + (recordBytes item).length)
      exact ⟨item :: items, by simp [layout, hitem, hitems]⟩

/-- Records below 4 GiB know their positions. -/
theorem map_getLFHOffset_of_placed {position : ℕ} {items : List Item} (h : Placed position items)
    (hsize : position + (records items).length < 2 ^ 32) :
    items.map (fun item => item.1.getLFHOffset) = positions position items := by
  induction items generalizing position with
  | nil => rfl
  | cons item items ih =>
      obtain ⟨hoffset, -, hrest⟩ := h
      rw [records_cons, List.length_append] at hsize
      have hhere : item.1.getLFHOffset = position := by
        rw [ZipEntry.getLFHOffset, hoffset]
        exact UInt32.toNat_ofNat_of_lt (show _ < 2 ^ 32 by omega)
      rw [List.map_cons, positions, hhere, ih hrest (by omega)]

section Process

variable {codec : Codec} {opts : Options} {memory : ℕ → Memory} {input output : Bytes}

/-- A run that reports success has records. -/
theorem exists_writtenRecords (h : process codec opts memory input = some output) :
    ∃ items, writtenRecords codec opts memory input = some items := by
  simp only [process, rewriteArchive, Option.bind_eq_bind, Option.pure_def] at h
  obtain ⟨⟨zin', zout⟩, h, -⟩ := Option.bind_eq_some_iff.mp h
  obtain ⟨zin, hopen, h⟩ := Option.bind_eq_some_iff.mp h
  obtain ⟨zout', hcopy, -⟩ := Option.bind_eq_some_iff.mp h
  rw [copyAndAlign_eq] at hcopy
  obtain ⟨ops, hops, hrun⟩ := Option.bind_eq_some_iff.mp hcopy
  obtain ⟨items, hitems⟩ := exists_layout hops hrun 0
  exact ⟨items, by simp [writtenRecords, hopen, hops, hitems]⟩

/-- A run whose records take less than 4 GiB writes them. -/
theorem rewriteArchive_of_writtenRecords {items : List Item}
    (hitems : writtenRecords codec opts memory input = some items)
    (hsize : (records items).length < 2 ^ 32) :
    ∃ zin, rewriteArchive codec opts memory input = some (zin, archiveOf items)
      ∧ Placed 0 items := by
  simp only [writtenRecords, Option.bind_eq_bind] at hitems
  obtain ⟨zin, hopen, hitems⟩ := Option.bind_eq_some_iff.mp hitems
  obtain ⟨ops, hops, hlayout⟩ := Option.bind_eq_some_iff.mp hitems
  have hrun : run codec (archiveOf []) ops = some (archiveOf items) :=
    (run_eq_some_iff codec ops hsize).mpr ⟨items, hlayout, rfl⟩
  refine ⟨zin, ?_, placed_of_layout hlayout⟩
  rw [rewriteArchive, hopen]
  simp only [Option.bind_eq_bind, Option.bind_some]
  rw [copyAndAlign_eq, hops, Option.bind_some, openNew_eq, hrun]
  rfl

/-- The true offset of the central directory fits 32 bits. -/
theorem TrueOffsets.recordsFit (h : TrueOffsets codec opts memory input output) :
    RecordsFit codec opts memory input := by
  obtain ⟨zin, zout, written, items, -, -, -, hitems, -, hoffset⟩ := h
  intro items' hitems'
  rw [hitems] at hitems'
  cases hitems'
  exact hoffset ▸ written.eocd.centralDirOffset.toNat_lt

/-- **The offsets of a run that reports success are true iff its records take less than 4 GiB.** -/
theorem trueOffsets_iff (h : process codec opts memory input = some output) :
    TrueOffsets codec opts memory input output ↔ RecordsFit codec opts memory input := by
  constructor
  · exact TrueOffsets.recordsFit
  · intro hfit
    obtain ⟨items, hitems⟩ := exists_writtenRecords h
    have hsize := hfit items hitems
    obtain ⟨zin, hrewrite, hplaced⟩ := rewriteArchive_of_writtenRecords hitems hsize
    have hflush := flush_archiveOf hplaced hsize
    refine ⟨zin, archiveOf items, _, items, hrewrite, hflush, ?_, hitems, ?_, ?_⟩
    · rw [process, hrewrite] at h
      simp only [Option.bind_eq_bind, Option.bind_some, hflush] at h
      exact Option.some.inj h
    · rw [← map_getLFHOffset_of_placed hplaced (by simpa using hsize)]
      simp [archiveOf]
    · exact toNat_centralDirOffset_archiveOf hsize

end Process

/-- The offsets of an aligned `oneFile` are true. -/
theorem trueOffsets_oneFile : ∃ output,
    process identityCodec (plainOptions 4 (by decide) (by decide)) (fun _ => zeroMemory)
      (flushed oneFile) = some output
    ∧ TrueOffsets identityCodec (plainOptions 4 (by decide) (by decide)) (fun _ => zeroMemory)
      (flushed oneFile) output := by
  let opts := plainOptions 4 (by decide) (by decide)
  have h : process identityCodec opts (fun _ => zeroMemory) (flushed oneFile)
      = some ((process identityCodec opts (fun _ => zeroMemory) (flushed oneFile)).getD []) := by
    decide +kernel
  refine ⟨_, h, (trueOffsets_iff h).mpr ?_⟩
  intro items hitems
  have hlength : ((writtenRecords identityCodec opts (fun _ => zeroMemory)
      (flushed oneFile)).map fun items => (records items).length) = some 34 := by decide +kernel
  rw [hitems, Option.map_some, Option.some_inj] at hlength
  omega

/-! ## A position that does not fit -/

/-- An archive without deleted entries is flushed. -/
theorem exists_flush (z : ZipFile) (hwritable : z.readOnly = false) (hneeded : z.needCDRewrite = true)
    (halive : ∀ e ∈ z.entries, e.deleted = false) : ∃ z', z.flush = some z' := by
  have hloop := crunchLoop_of_alive z.eocd.centralDirOffset.toNat z.file halive
  simp [ZipFile.flush, hwritable, hneeded, ZipFile.crunchArchive, hloop]

/-- The entry of a file `a` of 4294967264 bytes. -/
def bigEntry : ZipEntry := storedEntry letterName 4294967264 0

/-- The archive with this file and given data. -/
def bigFile (data : Bytes) : List Item := [(bigEntry, data)]

/-- The call that copies the file, with alignment 4. -/
def copyBigFile (data : Bytes) : Op := .add zeroMemory (openedArchive (bigFile data)) bigEntry 4

theorem placed_bigFile (data : Bytes) : Placed 0 (bigFile data) := ⟨rfl, rfl, trivial⟩

section BigFile

variable {data : Bytes} (hdata : data.length = 4294967264)
include hdata

/-- The records of the archive take one byte less than 4 GiB. -/
theorem length_records_bigFile : (records (bigFile data)).length = 4294967295 := by
  have hheader : bigEntry.lfh.write.length = 31 := by decide +kernel
  simp [bigFile, recordBytes, hheader, hdata]

/-- The archive can be opened. -/
theorem openReadOnly_bigFile :
    ZipFile.openReadOnly (flushed (bigFile data)) = some (openedArchive (bigFile data)) := by
  have hlength := length_records_bigFile hdata
  have hdir : (ZipFile.centralDir [bigEntry]).length = 47 := by decide +kernel
  rw [openReadOnly_flushed (placed_bigFile data) (by omega), hlength]
  exact if_pos (show Reopenable 1 (ZipFile.centralDir [bigEntry]).length 4294967295 by
    rw [hdir]
    decide +kernel)

/-- The data of the file are found in the archive. -/
theorem copiedData_bigFile :
    ZipFile.copiedData (openedArchive (bigFile data)) bigEntry = some data := by
  have hlength := length_records_bigFile hdata
  have hread := (read_of_placed [] (ZipFile.centralDir ((bigFile data).map Prod.fst)
    ++ (endRecord (bigFile data)).write) (placed_bigFile data) (by rw [hlength]; decide)
    (bigEntry, data) List.mem_cons_self).2
  simp only [hdata] at hread
  exact hread

/-- One byte of padding takes the position behind the file to 4 GiB. -/
theorem record_copyBigFile : ∃ item, (copyBigFile data).record identityCodec 0 = some item
    ∧ (recordBytes item).length = 2 ^ 32 := by
  have hheader : ((ZipFile.alignEntry 0 (ZipEntry.initFromExternal zeroMemory bigEntry) 4).map
      fun e => e.lfh.write.length) = some 32 := by decide +kernel
  obtain ⟨e, halign, hlength⟩ := Option.map_eq_some_iff.mp hheader
  refine ⟨(e.setLFHOffset 0, data), ?_, ?_⟩
  · simp [copyBigFile, Op.record, halign, copiedData_bigFile hdata]
  · rw [recordBytes, List.length_append, ZipEntry.lfh_setLFHOffset, hlength, hdata]
    rfl

/-- `process` reports success on the archive although the position behind its file does not fit. -/
theorem not_trueOffsets_of_length : ∃ output,
    process identityCodec (plainOptions 4 (by decide) (by decide)) (fun _ => zeroMemory)
      (flushed (bigFile data)) = some output
    ∧ ¬ TrueOffsets identityCodec (plainOptions 4 (by decide) (by decide)) (fun _ => zeroMemory)
      (flushed (bigFile data)) output := by
  let opts := plainOptions 4 (by decide) (by decide)
  obtain ⟨item, hitem, hlength⟩ := record_copyBigFile hdata
  have hops : copyOps opts (fun _ => zeroMemory) (openedArchive (bigFile data)) 0
      (openedArchive (bigFile data)).entries = some [copyBigFile data] := rfl
  have hlayout : layout identityCodec 0 [copyBigFile data] = some [item] := by
    simp [layout, hitem]
  have hrun : run identityCodec ZipFile.openNew [copyBigFile data] = some (archiveOf [item]) := by
    rw [openNew_eq, run, apply_archiveOf identityCodec (by simp)]
    simp [hitem, run]
  have hrewrite : rewriteArchive identityCodec opts (fun _ => zeroMemory) (flushed (bigFile data))
      = some (openedArchive (bigFile data), archiveOf [item]) := by
    rw [rewriteArchive, openReadOnly_bigFile hdata]
    simp only [Option.bind_eq_bind, Option.bind_some]
    rw [copyAndAlign_eq, hops, Option.bind_some, hrun]
    rfl
  obtain ⟨written, hflush⟩ := exists_flush (archiveOf [item]) rfl rfl
    (alive_of_placed (placed_of_layout hlayout))
  refine ⟨written.file, ?_, fun htrue => ?_⟩
  · rw [process, hrewrite]
    simp [hflush]
  · have hwritten : writtenRecords identityCodec opts (fun _ => zeroMemory) (flushed (bigFile data))
        = some [item] := by
      rw [writtenRecords, openReadOnly_bigFile hdata]
      simp only [Option.bind_eq_bind, Option.bind_some, hops, hlayout]
    have hsize := htrue.recordsFit [item] hwritten
    rw [records_cons, records_nil, List.append_nil, hlength] at hsize
    exact absurd hsize (lt_irrefl _)

end BigFile

/-- The data of a file of zeros. -/
def bigData : Bytes := List.replicate 4294967264 0

/-- **A run stores a position modulo `2 ^ 32` and reports success**: a file of 4294967264 zeros in
an archive one byte below 4 GiB, with alignment 4. -/
theorem not_trueOffsets_bigFile : ∃ output,
    process identityCodec (plainOptions 4 (by decide) (by decide)) (fun _ => zeroMemory)
      (flushed (bigFile bigData)) = some output
    ∧ ¬ TrueOffsets identityCodec (plainOptions 4 (by decide) (by decide)) (fun _ => zeroMemory)
      (flushed (bigFile bigData)) output :=
  not_trueOffsets_of_length List.length_replicate

end AndroidSdk.Zip
