import AndroidSdk.Zip.ZipAlign

/-! # The output of zipalign

What `process` makes of an archive: the entries and the data stay the same, and stored files are
aligned, as long as the padding does not overflow the 16-bit length of a local extra field.

* **`process_eq`** — the output, in terms of the records that the loop writes.
* **`preservesContent_iff`** — when the output has the content of the input.
* **`verify_process_iff`** — when the output is aligned and passes `verify`. -/

namespace AndroidSdk.Zip

open Lib

/-! ## The written archive -/

/-- As many entries are read as are counted. -/
theorem length_of_readEntries {file : Bytes} {position count last : ℕ} {entries : List ZipEntry}
    (h : readEntries file position count = some (entries, last)) : entries.length = count := by
  induction count generalizing position entries with
  | zero =>
      cases h
      rfl
  | succ count ih =>
      simp only [readEntries, Option.bind_eq_bind, Option.pure_def] at h
      obtain ⟨e, -, h⟩ := Option.bind_eq_some_iff.mp h
      obtain ⟨⟨rest, last'⟩, hrest, h⟩ := Option.bind_eq_some_iff.mp h
      cases h
      rw [List.length_cons, ih hrest]

/-- An archive that was opened has fewer than 65536 entries. -/
theorem length_entries_lt {file : Bytes} {z : ZipFile} (h : ZipFile.openReadOnly file = some z) :
    z.entries.length < 65536 := by
  simp only [ZipFile.openReadOnly, Option.bind_eq_bind, Option.pure_def] at h
  obtain ⟨⟨eocd, entries⟩, hread, h⟩ := Option.bind_eq_some_iff.mp h
  cases h
  rw [readCentralDir] at hread
  split at hread
  · cases hread
  · simp only at hread
    split at hread
    · cases hread
    · simp only [loadCentralDir, Option.bind_eq_bind, Option.pure_def] at hread
      obtain ⟨eocd', -, hread⟩ := Option.bind_eq_some_iff.mp hread
      split at hread
      · cases hread
      · obtain ⟨⟨entries', last⟩, hentries, hread⟩ := Option.bind_eq_some_iff.mp hread
        obtain ⟨check, -, hread⟩ := Option.bind_eq_some_iff.mp hread
        split at hread
        · cases hread
        · cases hread
          rw [length_of_readEntries hentries]
          exact eocd.totalNumEntries.toNat_lt

/-- The central directory that the end record at the end of a file describes. -/
def writtenDirectory (file : Bytes) : Option (EndOfCentralDir × List ZipEntry) :=
  loadCentralDir file (file.drop (file.length - EndOfCentralDir.kEOCDLen))

/-- The directory of a flushed archive has its entries. -/
theorem writtenDirectory_flushed {items : List Item} (hplaced : Placed 0 items)
    (hsize : (records items).length < 2 ^ 32) (hcount : items.length < 65536) :
    writtenDirectory (flushed items) = some (endRecord items, items.map Prod.fst) := by
  have hend : (flushed items).drop ((flushed items).length - EndOfCentralDir.kEOCDLen)
      = (endRecord items).write := by
    rw [flushed, ← List.append_assoc, List.length_append, length_write_endRecord,
      Nat.add_sub_cancel, List.drop_left]
  rw [writtenDirectory, hend, loadCentralDir_flushed hplaced hsize, if_pos hcount]

section Process

variable {codec : Codec} {opts : Options} {memory : ℕ → Memory} {input : Bytes} {zin zout : ZipFile}

/-- The archives at the end of a run below 4 GiB. -/
theorem rewriteArchive_eq_some (h : rewriteArchive codec opts memory input = some (zin, zout))
    (hsize : zout.file.length < 2 ^ 32) :
    ZipFile.openReadOnly input = some zin ∧ ∃ ops items,
      copyOps opts memory zin 0 zin.entries = some ops ∧ layout codec 0 ops = some items
      ∧ zout = archiveOf items ∧ items.length = zin.entries.length := by
  simp only [rewriteArchive, Option.bind_eq_bind, Option.pure_def] at h
  obtain ⟨zin', hopen, h⟩ := Option.bind_eq_some_iff.mp h
  obtain ⟨zout', hcopy, h⟩ := Option.bind_eq_some_iff.mp h
  cases h
  rw [copyAndAlign_eq] at hcopy
  obtain ⟨ops, hops, hrun⟩ := Option.bind_eq_some_iff.mp hcopy
  rw [openNew_eq, run_eq_some_iff codec ops hsize] at hrun
  obtain ⟨items, hlayout, rfl⟩ := hrun
  rw [List.nil_append] at hsize ⊢
  exact ⟨hopen, ops, items, hops, hlayout, rfl, (forall₂_copied hops hlayout).length_eq.symm⟩

/-- **The output of a run below 4 GiB.** -/
theorem process_eq (h : rewriteArchive codec opts memory input = some (zin, zout))
    {ops : List Op} {items : List Item} (hlayout : layout codec 0 ops = some items)
    (hzout : zout = archiveOf items) (hsize : zout.file.length < 2 ^ 32) :
    process codec opts memory input = some (flushed items) := by
  subst hzout
  rw [process, h]
  simp only [Option.bind_eq_bind, Option.bind_some]
  rw [flush_archiveOf (placed_of_layout hlayout) hsize]
  rfl

end Process

/-! ## Content -/

/-- The local header that is rebuilt from a central directory entry. -/
def rebuiltHeader (cde : CentralDirEntry) (extraField : VarField) : LocalFileHeader where
  versionToExtract := cde.versionToExtract
  gpBitFlag := cde.gpBitFlag
  compressionMethod := cde.compressionMethod
  lastModFileTime := cde.lastModFileTime
  lastModFileDate := cde.lastModFileDate
  crc32 := cde.crc32
  compressedSize := cde.compressedSize
  uncompressedSize := cde.uncompressedSize
  fileName := cde.fileName
  extraField

/-- The entry of the output has the content of the entry of the input: the central entry is the same
but for the offset, the local header is rebuilt from it, the local extra field is only padded, and
the payload is the same. -/
structure Preserved (zin : ZipFile) (output : Bytes) (e e' : ZipEntry) : Prop where
  central : e'.cde = { e.cde with localHeaderRelOffset := e'.cde.localHeaderRelOffset }
  header : e'.lfh = rebuiltHeader e.cde e'.lfh.extraField
  padded : Padded e.lfh.extraField e'.lfh.extraField
  payload : ∃ data, zin.payload e = some data
    ∧ bytesAt output e'.getFileOffset e'.getCompressedLen = some data

/-- The output has the entries of the input, in the same order and with the same content. -/
def PreservesContent (zin : ZipFile) (output : Bytes) : Prop :=
  ∃ eocd entries, writtenDirectory output = some (eocd, entries)
    ∧ List.Forall₂ (Preserved zin output) zin.entries entries

/-- Names and comments of an archive contain no NUL byte. -/
def NulFree (z : ZipFile) : Prop :=
  ∀ e ∈ z.entries, (0 : UInt8) ∉ e.cde.fileName.bytes ∧ (0 : UInt8) ∉ e.cde.fileComment.bytes

section Content

variable {codec : Codec} {opts : Options} {memory : Memory} {zin : ZipFile} {e : ZipEntry} {op : Op}
  {item : Item} {position : ℕ}

/-- Without recompression an entry is copied but for the offset and the local extra field. -/
theorem central_of_copied (hzopfli : opts.zopfli = false)
    (hname : (0 : UInt8) ∉ e.cde.fileName.bytes) (hcomment : (0 : UInt8) ∉ e.cde.fileComment.bytes)
    (hop : copyOp opts memory zin e = some op) (hitem : op.record codec position = some item) :
    item.1.cde = { e.cde with localHeaderRelOffset := item.1.cde.localHeaderRelOffset }
      ∧ item.1.lfh = rebuiltHeader e.cde item.1.lfh.extraField
      ∧ op.payload codec = zin.payload e := by
  obtain ⟨alignTo, rfl⟩ : ∃ alignTo, op = .add memory zin e alignTo := by
    obtain ⟨alignTo, -, rfl⟩ | ⟨-, rfl⟩ := copyOp_cases hop
    · exact ⟨alignTo, rfl⟩
    · exact ⟨0, by simp [hzopfli]⟩
  obtain ⟨e', data, halign, -, rfl⟩ := record_add_eq_some hitem
  obtain ⟨extra, rfl⟩ := alignEntry_eq_some halign
  simp [ZipEntry.setLFHOffset, ZipEntry.initFromExternal, ZipEntry.copyCDEtoLFH, rebuiltHeader,
    Op.payload, strcpy_eq_self _ hname, strcpy_eq_self _ hcomment]

end Content

section Process

variable {codec : Codec} {opts : Options} {memory : ℕ → Memory} {input : Bytes} {zin zout : ZipFile}

/-- **The output has the content of the input iff no padding overflows a local extra field**,
without recompression, for names and comments without NUL and below 4 GiB. -/
theorem preservesContent_iff (hzopfli : opts.zopfli = false)
    (h : rewriteArchive codec opts memory input = some (zin, zout)) (hnul : NulFree zin)
    (hsize : zout.file.length < 2 ^ 32) {output : Bytes}
    (hprocess : process codec opts memory input = some output) :
    PreservesContent zin output
      ↔ AlongLoop codec opts memory zin (KeepsExtra opts) 0 zin.entries ZipFile.openNew := by
  obtain ⟨hopen, ops, items, hops, hlayout, rfl, hcount⟩ := rewriteArchive_eq_some h hsize
  rw [process_eq h hlayout rfl hsize] at hprocess
  cases hprocess
  have hplaced := placed_of_layout hlayout
  have hdirectory := writtenDirectory_flushed hplaced hsize (hcount ▸ length_entries_lt hopen)
  have hloop : AlongLoop codec opts memory zin (KeepsExtra opts) 0 zin.entries (archiveOf [])
      ↔ List.Forall₂ (fun e item => Padded e.lfh.extraField item.1.lfh.extraField)
          zin.entries items :=
    alongLoop_iff (fun i items e op item hop hitem => keepsExtra_iff hop hitem) hops hlayout
      (by simpa using hsize)
  -- everything but the padding holds in any case
  have hcopied : List.Forall₂ (fun e item =>
      Padded e.lfh.extraField item.1.lfh.extraField → Preserved zin (flushed items) e item.1)
      zin.entries items := by
    refine ((List.forall₂_and_left _ _).mpr ⟨hnul, forall₂_copied hops hlayout⟩).imp ?_
    rintro e item ⟨⟨hname, hcomment⟩, hmem, j, p, op, hop, hitem⟩ hpadded
    obtain ⟨hcentral, hheader, hpayload⟩ := central_of_copied hzopfli hname hcomment hop hitem
    have hlength := length_recordBytes_le hmem
    rw [file_archiveOf] at hsize
    rw [recordBytes, List.length_append] at hlength
    obtain ⟨hwritten, hle⟩ := Op.payload_of_record hitem (by omega)
    have hdata := (read_of_placed [] (ZipFile.centralDir (items.map Prod.fst)
      ++ (endRecord items).write) hplaced (by simpa using hsize) item hmem).2
    exact ⟨hcentral, hheader, hpadded, _, hpayload.symm.trans hwritten, bytesAt_of_le hdata hle⟩
  rw [openNew_eq, hloop]
  constructor
  · rintro ⟨eocd, entries, hwritten, hall⟩
    rw [hdirectory] at hwritten
    cases hwritten
    rw [List.forall₂_map_right_iff] at hall
    exact hall.imp fun e item hpreserved => hpreserved.padded
  · intro hpadded
    refine ⟨_, _, hdirectory, ?_⟩
    rw [List.forall₂_map_right_iff]
    exact hcopied.mp (fun e item hall => hall) hpadded

end Process

/-- Options with an alignment, without recompression and page alignment. -/
def plainOptions (alignment : UInt32) (hpos : 0 < alignment.toNat)
    (hlt : alignment.toNat < 2 ^ 31) : Options where
  alignment
  zopfli := false
  pageAlignSharedLibs := false
  pageSize := 4096
  alignment_pos := hpos
  alignment_lt := hlt
  pageSize_valid := by decide

/-- An archive with a file of two bytes that has a local extra field of two bytes. -/
def extraFile : List Item :=
  oneFile.map fun item =>
    ({ item.1 with lfh := { item.1.lfh with extraField := ⟨[7, 9], by decide⟩ } }, item.2)

/-- With alignment 4, the content of `extraFile` is preserved. -/
theorem preservesContent_extraFile : ∃ output,
    process identityCodec (plainOptions 4 (by decide) (by decide)) (fun _ => zeroMemory)
      (flushed extraFile) = some output
    ∧ PreservesContent (openedArchive extraFile) output := by
  let opts := plainOptions 4 (by decide) (by decide)
  let zout := (copyAndAlign identityCodec opts (fun _ => zeroMemory) (openedArchive extraFile) 0
    (openedArchive extraFile).entries ZipFile.openNew).getD ZipFile.openNew
  have h : rewriteArchive identityCodec opts (fun _ => zeroMemory) (flushed extraFile)
      = some (openedArchive extraFile, zout) := by decide +kernel
  have hprocess : process identityCodec opts (fun _ => zeroMemory) (flushed extraFile)
      = some ((process identityCodec opts (fun _ => zeroMemory) (flushed extraFile)).getD []) := by
    decide +kernel
  refine ⟨_, hprocess, ?_⟩
  rw [preservesContent_iff rfl h (by unfold NulFree; decide +kernel) (by decide +kernel) hprocess]
  refine ⟨?_, fun op zout' _ _ => trivial⟩
  rintro alignTo ⟨-, -, halign⟩
  cases halign
  decide +kernel

/-- The padding to 65568 bytes has 65535 bytes: of the 65537 bytes of the local extra field only the
first is written, and the second byte of the old field is lost. -/
theorem not_preservesContent_extraFile : ∃ zout output,
    rewriteArchive identityCodec (plainOptions 65568 (by decide) (by decide)) (fun _ => zeroMemory)
      (flushed extraFile) = some (openedArchive extraFile, zout)
    ∧ NulFree (openedArchive extraFile) ∧ zout.file.length < 2 ^ 32
    ∧ process identityCodec (plainOptions 65568 (by decide) (by decide)) (fun _ => zeroMemory)
      (flushed extraFile) = some output
    ∧ ¬ PreservesContent (openedArchive extraFile) output := by
  let opts := plainOptions 65568 (by decide) (by decide)
  let zout := (copyAndAlign identityCodec opts (fun _ => zeroMemory) (openedArchive extraFile) 0
    (openedArchive extraFile).entries ZipFile.openNew).getD ZipFile.openNew
  let output := (process identityCodec opts (fun _ => zeroMemory) (flushed extraFile)).getD []
  refine ⟨zout, output, by decide +kernel, by unfold NulFree; decide +kernel, by decide +kernel,
    by decide +kernel, ?_⟩
  rintro ⟨eocd, entries, hwritten, hall⟩
  have hextra : ((writtenDirectory output).map fun directory =>
      directory.2.map fun e => e.lfh.extraField.bytes) = some [[7]] := by decide +kernel
  rw [hwritten] at hextra
  obtain ⟨e, rest, hpreserved, -, rfl⟩ := List.forall₂_cons_left_iff.mp hall
  obtain ⟨n, hn⟩ := hpreserved.padded
  simp only [Option.map_some, List.map_cons, Option.some.injEq, List.cons.injEq] at hextra
  rw [hextra.1] at hn
  have := congrArg List.length hn
  simp at this

/-! ## Alignment -/

/-- The loop of `verify` finds nothing bad iff no entry is bad. -/
theorem foundBad_eq_false_iff (opts : Options) (entries : List ZipEntry) :
    foundBad opts entries = some false ↔ ∀ e ∈ entries, isBad opts e = some false := by
  induction entries with
  | nil => simp [foundBad]
  | cons e entries ih =>
      rw [List.forall_mem_cons, ← ih, foundBad]
      cases isBad opts e with
      | none => simp
      | some bad =>
          cases foundBad opts entries with
          | none => simp
          | some more => simp

/-- `verify` succeeds iff the archive can be opened and none of its entries is bad. -/
theorem verify_eq_zero_iff (opts : Options) (file : Bytes) :
    verify opts file = some 0 ↔ ∃ zipFile, ZipFile.openReadOnly file = some zipFile
      ∧ ∀ e ∈ zipFile.entries, isBad opts e = some false := by
  rw [verify]
  cases ZipFile.openReadOnly file with
  | none => simp
  | some zipFile =>
      simp only [Option.some.injEq, exists_eq_left', ← foundBad_eq_false_iff]
      cases foundBad opts zipFile.entries with
      | none => simp
      | some bad => cases bad <;> simp

/-- A copied entry is bad iff its data are not aligned. -/
theorem isBad_of_copied {codec : Codec} {opts : Options} {memory : Memory} {zin : ZipFile}
    {e : ZipEntry} {op : Op} {item : Item} {position : ℕ}
    (hop : copyOp opts memory zin e = some op) (hitem : op.record codec position = some item) :
    isBad opts item.1 = some false ↔ Aligned opts item.1 := by
  obtain ⟨hcompressed, hdirectory, halignment⟩ := Op.record_class opts hitem
  rw [entry_of_copyOp hop] at hcompressed hdirectory halignment
  obtain ⟨alignTo, ⟨hstored, hfile, halign⟩, rfl⟩ | ⟨hplain, rfl⟩ := copyOp_cases hop
  · rw [hstored] at hcompressed
    rw [hfile] at hdirectory
    rw [halign] at halignment
    rw [Aligned, forall_needsAlignment_iff ⟨hcompressed, hdirectory, halignment⟩, isBad,
      if_neg (by simp [hcompressed]), hdirectory, halignment]
    simp [Nat.dvd_iff_mod_eq_zero]
  · rw [← hcompressed, ← hdirectory] at hplain
    have haligned : Aligned opts item.1 := fun alignTo hneeds =>
      absurd hneeds (not_needsAlignment hplain alignTo)
    have hgood : isBad opts item.1 = some false := by
      rw [isBad]
      split
      · rfl
      next hstored =>
        rw [hplain.resolve_left hstored]
        rfl
    exact iff_of_true hgood haligned

/-- No step loses an alignment that divides `65536`, such as the page sizes. -/
theorem keepsAlignment_of_dvd {opts : Options} (h : opts.alignment.toNat ∣ 65536) (zout : ZipFile)
    (e : ZipEntry) : KeepsAlignment opts zout e := by
  rintro alignTo ⟨-, -, halign⟩
  apply Dvd.dvd.mul_right
  obtain rfl | rfl := getAlignment_cases halign
  · exact h
  · have hvalid := opts.pageSize_valid
    simp only [List.mem_cons, List.not_mem_nil, or_false] at hvalid
    obtain h | h | h := hvalid <;> rw [h] <;> decide

/-- What holds of every state and entry holds along the loop. -/
theorem alongLoop_of_forall {codec : Codec} {opts : Options} {memory : ℕ → Memory} {zin : ZipFile}
    {P : ZipFile → ZipEntry → Prop} (h : ∀ zout e, P zout e) (i : ℕ) (entries : List ZipEntry)
    (zout : ZipFile) : AlongLoop codec opts memory zin P i entries zout := by
  induction entries generalizing i zout with
  | nil => trivial
  | cons e entries ih => exact ⟨h zout e, fun op zout' _ _ => ih (i + 1) zout'⟩

/-- A relation that does not depend on the left side holds of the right one. -/
theorem forall₂_right_iff {α β : Type} {P : β → Prop} {l : List α} {m : List β}
    (h : l.length = m.length) : List.Forall₂ (fun _ b => P b) l m ↔ ∀ b ∈ m, P b := by
  induction l generalizing m with
  | nil =>
      rw [List.length_nil, eq_comm, List.length_eq_zero_iff] at h
      simp [h]
  | cons a l ih =>
      cases m with
      | nil => simp at h
      | cons b m => rw [List.forall₂_cons, List.forall_mem_cons, ih (by simpa using h)]

/-- In the written archive, the data of every stored file are aligned. -/
def AlignedOutput (opts : Options) (output : Bytes) : Prop :=
  ∃ eocd entries, writtenDirectory output = some (eocd, entries) ∧ ∀ e ∈ entries, Aligned opts e

section Process

variable {codec : Codec} {opts : Options} {memory : ℕ → Memory} {input : Bytes} {zin zout : ZipFile}

/-- **The output is aligned and passes `verify` iff no padding that a 16-bit length loses matters
for an alignment and the end record does not contain its own signature a second time**, below 4
GiB. -/
theorem verify_process_iff (h : rewriteArchive codec opts memory input = some (zin, zout))
    (hsize : zout.file.length < 2 ^ 32) {output : Bytes}
    (hprocess : process codec opts memory input = some output) :
    (AlignedOutput opts output ∧ verify opts output = some 0)
      ↔ AlongLoop codec opts memory zin (KeepsAlignment opts) 0 zin.entries ZipFile.openNew
        ∧ ¬ SignatureInFields (UInt16.ofNat zout.entries.length)
          (UInt32.ofNat (ZipFile.centralDir zout.entries).length)
          (UInt32.ofNat zout.file.length) := by
  obtain ⟨hopen, ops, items, hops, hlayout, rfl, hcount⟩ := rewriteArchive_eq_some h hsize
  rw [process_eq h hlayout rfl hsize] at hprocess
  cases hprocess
  have hplaced := placed_of_layout hlayout
  have hlt : items.length < 65536 := hcount ▸ length_entries_lt hopen
  have hdirectory := writtenDirectory_flushed hplaced hsize hlt
  have hloop : AlongLoop codec opts memory zin (KeepsAlignment opts) 0 zin.entries (archiveOf [])
      ↔ List.Forall₂ (fun _ item => Aligned opts item.1) zin.entries items :=
    alongLoop_iff (fun i items e op item hop hitem => keepsAlignment_iff hop hitem) hops hlayout
      (by simpa using hsize)
  have hbad : ∀ e ∈ items.map Prod.fst, (isBad opts e = some false ↔ Aligned opts e) := by
    have hcopied := (forall₂_copied hops hlayout).imp
      (S := fun _ item => isBad opts item.1 = some false ↔ Aligned opts item.1)
      fun e item ⟨_, j, p, op, hop, hitem⟩ => isBad_of_copied hop hitem
    rw [forall₂_right_iff hcount.symm] at hcopied
    exact List.forall_mem_map.mpr hcopied
  rw [openNew_eq, hloop, forall₂_right_iff hcount.symm, ← List.forall_mem_map, verify_eq_zero_iff,
    openReadOnly_flushed hplaced hsize]
  constructor
  · rintro ⟨⟨eocd, entries, hwritten, haligned⟩, zipFile, hzip, -⟩
    rw [hdirectory] at hwritten
    cases hwritten
    refine ⟨haligned, ?_⟩
    by_contra hsignature
    rw [if_neg fun hreopen => hreopen.2 (by simpa [archiveOf] using hsignature)] at hzip
    cases hzip
  · rintro ⟨haligned, hsignature⟩
    have hreopen : Reopenable items.length (ZipFile.centralDir (items.map Prod.fst)).length
        (records items).length := ⟨hlt, by simpa [archiveOf] using hsignature⟩
    refine ⟨⟨_, _, hdirectory, haligned⟩, openedArchive items, if_pos hreopen, ?_⟩
    intro e he
    exact (hbad e he).mpr (haligned e he)

end Process

/-- With alignment 4, the file of `oneFile` is aligned. -/
theorem verify_process_oneFile : ∃ output,
    process identityCodec (plainOptions 4 (by decide) (by decide)) (fun _ => zeroMemory)
      (flushed oneFile) = some output
    ∧ AlignedOutput (plainOptions 4 (by decide) (by decide)) output
    ∧ verify (plainOptions 4 (by decide) (by decide)) output = some 0 := by
  let opts := plainOptions 4 (by decide) (by decide)
  let zout := (copyAndAlign identityCodec opts (fun _ => zeroMemory) (openedArchive oneFile) 0
    (openedArchive oneFile).entries ZipFile.openNew).getD ZipFile.openNew
  have h : rewriteArchive identityCodec opts (fun _ => zeroMemory) (flushed oneFile)
      = some (openedArchive oneFile, zout) := by decide +kernel
  have hprocess : process identityCodec opts (fun _ => zeroMemory) (flushed oneFile)
      = some ((process identityCodec opts (fun _ => zeroMemory) (flushed oneFile)).getD []) := by
    decide +kernel
  refine ⟨_, hprocess, ?_⟩
  rw [verify_process_iff h (by decide +kernel) hprocess]
  refine ⟨alongLoop_of_forall (keepsAlignment_of_dvd ?_) _ _ _, by decide +kernel⟩
  show 4 ∣ 65536
  decide

/-- The padding to 65567 bytes has 65536 bytes, of which the 16-bit length counts none: the data of
the file stay at position 31. -/
theorem not_aligned_oneFile : ∃ zin zout output,
    rewriteArchive identityCodec (plainOptions 65567 (by decide) (by decide)) (fun _ => zeroMemory)
      (flushed oneFile) = some (zin, zout)
    ∧ zout.file.length < 2 ^ 32
    ∧ process identityCodec (plainOptions 65567 (by decide) (by decide)) (fun _ => zeroMemory)
      (flushed oneFile) = some output
    ∧ ¬ AlignedOutput (plainOptions 65567 (by decide) (by decide)) output
    ∧ verify (plainOptions 65567 (by decide) (by decide)) output = some 1 := by
  let opts := plainOptions 65567 (by decide) (by decide)
  let zout := (copyAndAlign identityCodec opts (fun _ => zeroMemory) (openedArchive oneFile) 0
    (openedArchive oneFile).entries ZipFile.openNew).getD ZipFile.openNew
  let output := (process identityCodec opts (fun _ => zeroMemory) (flushed oneFile)).getD []
  refine ⟨openedArchive oneFile, zout, output, by decide +kernel, by decide +kernel,
    by decide +kernel, ?_, by decide +kernel⟩
  rintro ⟨eocd, entries, hwritten, haligned⟩
  have hfile : (((writtenDirectory output).bind fun directory => directory.2.head?).map fun e =>
      (e.isCompressed, isDirectory e, getAlignment opts e, e.getFileOffset))
      = some (false, some false, some 65567, 31) := by decide +kernel
  rw [hwritten] at hfile
  cases entries with
  | nil => cases hfile
  | cons e rest =>
      simp only [Option.bind_some, List.head?_cons, Option.map_some, Option.some.injEq,
        Prod.mk.injEq] at hfile
      obtain ⟨hstored, hdirectory, halignment, hoffset⟩ := hfile
      have hdvd := haligned e List.mem_cons_self 65567 ⟨hstored, hdirectory, halignment⟩
      rw [hoffset] at hdvd
      exact absurd hdvd (by decide)

end AndroidSdk.Zip
