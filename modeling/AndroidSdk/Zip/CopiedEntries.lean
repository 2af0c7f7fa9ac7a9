import AndroidSdk.Zip.AlignedOutput

/-! # Entries as they are copied

What `add` and `addRecompress` leave behind an entry, and what the program reads of its name: the
two places where the library takes over data of an entry without looking at all of it.

* **`SelfConsistent`** — the flag of a written entry tells whether a data descriptor follows.
* **`selfConsistent_iff`** — when the operations write such an entry: the flag comes from the
  central directory, the descriptor is copied as the local header says, and not at all with
  recompression.
* **`NamesUsable`** — the names that the program looks at are there and are not empty.
* **`namesUsable_iff`** — which entries of an archive have such names. -/

namespace AndroidSdk.Zip

open Lib

/-! ## Data descriptors -/

/-- A general purpose flag says that a data descriptor follows the payload. -/
def usesDataDescr (flag : UInt16) : Prop := flag &&& ZipEntry.kUsesDataDescr ≠ 0

instance (flag : UInt16) : Decidable (usesDataDescr flag) :=
  inferInstanceAs (Decidable (_ ≠ _))

/-- The data descriptor of an entry: the 16 bytes behind its payload. -/
def ZipFile.dataDescriptor (z : ZipFile) (e : ZipEntry) : Option Bytes :=
  bytesAt z.file (e.getFileOffset + e.getCompressedLen) ZipEntry.kDataDescriptorLen

/-- The position behind the payload of an entry. -/
def ZipEntry.payloadEnd (e : ZipEntry) : ℕ :=
  e.getLFHOffset + e.lfh.write.length + e.getCompressedLen

/-- An entry that was copied last is self-consistent: its two flags agree, with the flag for a data
descriptor the 16 bytes behind the payload are that of the source, and the next entry comes behind
them or, without the flag, directly behind the payload. -/
structure SelfConsistent (source : ZipFile) (sourceEntry : ZipEntry) (z : ZipFile) (e : ZipEntry) :
    Prop where
  flags : e.cde.gpBitFlag = e.lfh.gpBitFlag
  descriptor : usesDataDescr e.lfh.gpBitFlag → ∃ d, source.dataDescriptor sourceEntry = some d
    ∧ bytesAt z.file e.payloadEnd ZipEntry.kDataDescriptorLen = some d
    ∧ z.eocd.centralDirOffset.toNat = e.payloadEnd + ZipEntry.kDataDescriptorLen
  nothing : ¬ usesDataDescr e.lfh.gpBitFlag → z.eocd.centralDirOffset.toNat = e.payloadEnd

/-- The archive that an operation copies from. -/
def Op.source : Op → ZipFile
  | .add _ source _ _ => source
  | .addRecompress _ source _ => source

/-- The operation recompresses the data. -/
def Op.recompresses : Op → Bool
  | .add _ _ _ _ => false
  | .addRecompress _ _ entry => entry.isCompressed

/-- The two headers of the entry agree on the data descriptor, and there is none if the data are
recompressed. -/
def Op.DescriptorCopied (op : Op) : Prop :=
  if op.recompresses then ¬ usesDataDescr op.entry.cde.gpBitFlag
  else (usesDataDescr op.entry.cde.gpBitFlag ↔ usesDataDescr op.entry.lfh.gpBitFlag)

instance (op : Op) : Decidable op.DescriptorCopied := by
  unfold Op.DescriptorCopied
  infer_instance

/-- The bytes behind the first ones that were read. -/
theorem bytesAt_drop {file data : Bytes} {position first rest : ℕ}
    (h : bytesAt file position (first + rest) = some data) :
    bytesAt file (position + first) rest = some (data.drop first) := by
  rw [bytesAt] at h ⊢
  split at h
  next hle =>
    cases h
    rw [if_pos (by omega), List.drop_take, List.drop_drop, Nat.add_sub_cancel_left]
  next => cases h

/-- The operation copies a data descriptor. -/
def Op.copiesDescriptor (op : Op) : Prop :=
  op.recompresses = false ∧ usesDataDescr op.entry.lfh.gpBitFlag

/-- What is copied behind the payload of an entry. -/
theorem copiedData_behind {source : ZipFile} {e : ZipEntry} {data : Bytes}
    (h : ZipFile.copiedData source e = some data) :
    (usesDataDescr e.lfh.gpBitFlag →
      source.dataDescriptor e = some (data.drop e.getCompressedLen))
    ∧ (¬ usesDataDescr e.lfh.gpBitFlag → data.drop e.getCompressedLen = []) := by
  rw [ZipFile.copiedData, ZipFile.copyLength] at h
  unfold usesDataDescr
  constructor
  · intro hflag
    rw [if_pos hflag] at h
    exact bytesAt_drop h
  · intro hflag
    rw [if_neg hflag] at h
    rw [List.drop_eq_nil_iff, length_of_bytesAt h, add_zero]

/-- Recompression sets another bit of the flag. -/
theorem usesDataDescr_or (flag : UInt16) : usesDataDescr (flag ||| 0x0002) ↔ usesDataDescr flag := by
  have hsame : (flag ||| 0x0002) &&& ZipEntry.kUsesDataDescr = flag &&& ZipEntry.kUsesDataDescr := by
    apply UInt16.toBitVec_inj.mp
    have hzero : UInt16.toBitVec 0x0002 &&& UInt16.toBitVec ZipEntry.kUsesDataDescr = 0#16 := rfl
    rw [UInt16.toBitVec_and, UInt16.toBitVec_or, UInt16.toBitVec_and, BitVec.and_or_distrib_right,
      hzero, BitVec.or_zero]
  rw [usesDataDescr, usesDataDescr, hsame]

/-- The two flags of a record are that of the central entry, as far as the data descriptor goes. -/
theorem Op.record_flags {codec : Codec} {position : ℕ} {op : Op} {item : Item}
    (h : op.record codec position = some item) :
    item.1.cde.gpBitFlag = item.1.lfh.gpBitFlag
      ∧ (usesDataDescr item.1.lfh.gpBitFlag ↔ usesDataDescr op.entry.cde.gpBitFlag) := by
  cases op with
  | add memory source entry alignTo =>
      obtain ⟨e, data, halign, -, rfl⟩ := record_add_eq_some h
      obtain ⟨extra, rfl⟩ := alignEntry_eq_some halign
      exact ⟨rfl, Iff.rfl⟩
  | addRecompress memory source entry =>
      obtain ⟨-, buf, -, rfl⟩ | ⟨-, data, -, rfl⟩ := record_addRecompress_eq_some h
      · exact ⟨rfl, usesDataDescr_or entry.cde.gpBitFlag⟩
      · exact ⟨rfl, Iff.rfl⟩

/-- **What an operation writes behind the payload**: the data descriptor of the source if its local
header has the flag and the data are copied, and nothing otherwise. -/
theorem Op.record_behind {codec : Codec} {position : ℕ} {op : Op} {item : Item}
    (h : op.record codec position = some item) (hsize : item.2.length < 2 ^ 32) :
    (op.copiesDescriptor →
      op.source.dataDescriptor op.entry = some (item.2.drop item.1.getCompressedLen))
    ∧ (¬ op.copiesDescriptor → item.2.drop item.1.getCompressedLen = []) := by
  cases op with
  | add memory source entry alignTo =>
      obtain ⟨e, data, halign, hdata, rfl⟩ := record_add_eq_some h
      obtain ⟨extra, rfl⟩ := alignEntry_eq_some halign
      obtain ⟨hwith, hwithout⟩ := copiedData_behind hdata
      exact ⟨fun hcopies => hwith hcopies.2, fun hcopies => hwithout fun hflag =>
        hcopies ⟨rfl, hflag⟩⟩
  | addRecompress memory source entry =>
      obtain ⟨hcompressed, buf, -, rfl⟩ | ⟨hstored, data, hdata, rfl⟩ :=
        record_addRecompress_eq_some h
      · refine ⟨fun hcopies => absurd hcompressed (Bool.eq_false_iff.mp hcopies.1), fun _ => ?_⟩
        rw [List.drop_eq_nil_iff]
        exact (UInt32.toNat_ofNat_of_lt hsize).ge
      · obtain ⟨hwith, hwithout⟩ := copiedData_behind hdata
        exact ⟨fun hcopies => hwith hcopies.2, fun hcopies => hwithout fun hflag =>
          hcopies ⟨hstored, hflag⟩⟩

/-- Reading behind the first part of a file. -/
theorem bytesAt_behind (before rest : Bytes) (k n : ℕ) :
    bytesAt (before ++ rest) (before.length + k) n = bytesAt rest k n := by
  have hdrop : (before ++ rest).drop (before.length + k) = rest.drop k := by
    rw [← List.drop_drop, List.drop_left]
  rw [bytesAt, bytesAt, hdrop, List.length_append]
  exact if_congr (by omega) rfl rfl

/-- The last record of an archive, read behind its payload. -/
theorem bytesAt_payloadEnd {items : List Item} {item : Item}
    (hoffset : item.1.getLFHOffset = (records items).length)
    (hle : item.1.getCompressedLen ≤ item.2.length) (n : ℕ) :
    bytesAt (records (items ++ [item])) item.1.payloadEnd n
      = bytesAt (item.2.drop item.1.getCompressedLen) 0 n := by
  have hfile : records (items ++ [item]) = (records items ++ item.1.lfh.write
      ++ item.2.take item.1.getCompressedLen) ++ item.2.drop item.1.getCompressedLen := by
    simp [recordBytes]
  have hposition : item.1.payloadEnd = (records items ++ item.1.lfh.write
      ++ item.2.take item.1.getCompressedLen).length + 0 := by
    simp [ZipEntry.payloadEnd, hoffset, List.length_take, hle, add_assoc]
  rw [hfile, hposition, bytesAt_behind]

/-- The descriptor is copied iff the flag announces what is copied. -/
theorem Op.descriptorCopied_iff (op : Op) :
    op.DescriptorCopied ↔ (usesDataDescr op.entry.cde.gpBitFlag ↔ op.copiesDescriptor) := by
  rw [DescriptorCopied, copiesDescriptor]
  cases op.recompresses <;> simp

/-- **An operation leaves a self-consistent entry iff it copies the data descriptor that the flag
announces.** The archive is new and stays below 4 GiB. -/
theorem selfConsistent_iff (codec : Codec) (ops : List Op) (op : Op) {z z' : ZipFile}
    (hrun : run codec ZipFile.openNew ops = some z) (happly : op.apply codec z = some z')
    (hsize : z'.file.length < 2 ^ 32) :
    (∃ e, z'.entries = z.entries ++ [e] ∧ SelfConsistent op.source op.entry z' e)
      ↔ op.DescriptorCopied := by
  have hgrows := Op.length_le_of_apply happly
  rw [openNew_eq, run_eq_some_iff codec ops (by omega)] at hrun
  obtain ⟨items, -, rfl⟩ := hrun
  rw [List.nil_append] at *
  rw [apply_archiveOf codec (by rw [file_archiveOf] at hgrows; omega)] at happly
  obtain ⟨item, hitem, rfl⟩ := Option.map_eq_some_iff.mp happly
  rw [file_archiveOf] at hsize
  have hlength : (records (items ++ [item])).length
      = (records items).length + (item.1.lfh.write.length + item.2.length) := by
    simp [recordBytes]
  have hoffset : item.1.getLFHOffset = (records items).length := by
    rw [ZipEntry.getLFHOffset, (Op.record_position hitem).1]
    exact UInt32.toNat_ofNat_of_lt (show _ < 2 ^ 32 by omega)
  obtain ⟨-, hle⟩ := Op.payload_of_record hitem (by omega)
  obtain ⟨hflags, hbit⟩ := Op.record_flags hitem
  obtain ⟨hwith, hwithout⟩ := Op.record_behind hitem (by omega)
  -- the next entry comes behind what was written behind the payload
  have hnext : (archiveOf (items ++ [item])).eocd.centralDirOffset.toNat
      = item.1.payloadEnd + (item.2.drop item.1.getCompressedLen).length := by
    rw [toNat_centralDirOffset_archiveOf hsize, file_archiveOf, hlength, ZipEntry.payloadEnd, hoffset,
      List.length_drop]
    omega
  have hentries : (archiveOf (items ++ [item])).entries = (archiveOf items).entries ++ [item.1] := by
    simp [archiveOf]
  rw [Op.descriptorCopied_iff, hentries]
  simp only [List.append_cancel_left_eq, List.cons.injEq, and_true, exists_eq_left']
  constructor
  · intro hconsistent
    constructor
    · intro hset
      by_contra hnot
      obtain ⟨d, -, -, hposition⟩ := hconsistent.descriptor (hbit.mpr hset)
      rw [hnext, hwithout hnot] at hposition
      simp [ZipEntry.kDataDescriptorLen] at hposition
    · intro hcopies
      by_contra hclear
      have hposition := hconsistent.nothing (fun h => hclear (hbit.mp h))
      have hlen := length_of_bytesAt (hwith hcopies)
      rw [hnext, hlen] at hposition
      simp [ZipEntry.kDataDescriptorLen] at hposition
  · intro hiff
    refine ⟨hflags, fun hset => ?_, fun hclear => ?_⟩
    · have hdescriptor := hwith (hiff.mp (hbit.mp hset))
      have hlen := length_of_bytesAt hdescriptor
      refine ⟨_, hdescriptor, ?_, by rw [hnext, hlen]⟩
      rw [file_archiveOf, bytesAt_payloadEnd hoffset hle, bytesAt, if_pos (by omega), List.drop_zero,
        ← hlen, List.take_length]
    · rw [hnext, hwithout fun hcopies => hclear (hbit.mpr (hiff.mpr hcopies))]
      rfl

/-- The archive with a file `a` of two bytes and, behind them, a data descriptor; the local header
has the given flag. -/
def describedFile (localFlag : UInt16) : List Item :=
  oneFile.map fun item =>
    ({ item.1 with
        cde := { item.1.cde with gpBitFlag := 8 }
        lfh := { item.1.lfh with gpBitFlag := localFlag } },
      item.2 ++ [0x50, 0x4b, 7, 8, 0, 0, 0, 0, 2, 0, 0, 0, 2, 0, 0, 0])

/-- The call that copies the file of `describedFile`. -/
def copyDescribed (localFlag : UInt16) : Op :=
  .add zeroMemory (openedArchive (describedFile localFlag))
    { storedEntry letterName 2 0 with
      cde := { (storedEntry letterName 2 0).cde with gpBitFlag := 8 }
      lfh := { (storedEntry letterName 2 0).lfh with gpBitFlag := localFlag } } 4

/-- The data descriptor is copied if both headers have the flag. -/
theorem selfConsistent_copyDescribed : ∃ z' e, z'.entries = [e]
    ∧ SelfConsistent (copyDescribed 8).source (copyDescribed 8).entry z' e := by
  have happly : (copyDescribed 8).apply identityCodec ZipFile.openNew
      = some (((copyDescribed 8).apply identityCodec ZipFile.openNew).getD ZipFile.openNew) := by
    decide +kernel
  have h := (selfConsistent_iff identityCodec [] (copyDescribed 8) rfl happly (by decide +kernel)).mpr
    (by decide +kernel)
  obtain ⟨e, hentries, hconsistent⟩ := h
  exact ⟨_, e, hentries, hconsistent⟩

/-- With the flag in the central directory only, `add` writes the flag and no data descriptor. -/
theorem not_selfConsistent_copyDescribed :
    ZipFile.openReadOnly (flushed (describedFile 0)) = some (copyDescribed 0).source
    ∧ (copyDescribed 0).entry ∈ (copyDescribed 0).source.entries
    ∧ ∃ z', (copyDescribed 0).apply identityCodec ZipFile.openNew = some z'
      ∧ z'.file.length < 2 ^ 32
      ∧ ∀ e, z'.entries = [e] →
        ¬ SelfConsistent (copyDescribed 0).source (copyDescribed 0).entry z' e := by
  let z' := ((copyDescribed 0).apply identityCodec ZipFile.openNew).getD ZipFile.openNew
  refine ⟨by decide +kernel, by decide +kernel, z', by decide +kernel, by decide +kernel, ?_⟩
  intro e hentries hconsistent
  have hbad : z'.entries.map (fun e => (decide (usesDataDescr e.lfh.gpBitFlag),
      bytesAt z'.file e.payloadEnd ZipEntry.kDataDescriptorLen)) = [(true, none)] := by
    decide +kernel
  rw [hentries] at hbad
  simp only [List.map_cons, List.map_nil, List.cons.injEq, Prod.mk.injEq, and_true,
    decide_eq_true_eq] at hbad
  obtain ⟨d, -, hbytes, -⟩ := hconsistent.descriptor hbad.1
  rw [hbad.2] at hbytes
  cases hbytes

/-! ## Names -/

/-- The uses of the name of an entry that `verify` and `copyAndAlign` reach have a result: the name
of a stored entry is asked for its last character if the entry is empty, and for its extension if
that decides on the alignment. -/
def SafelyNamed (opts : Options) (e : ZipEntry) : Prop :=
  e.isCompressed = true ∨ (isDirectory e).isSome
    ∧ (isDirectory e = some false → (getAlignment opts e).isSome)

/-- The names that `verify` and `process` use on an archive are there and have a last character. -/
structure NamesUsable (codec : Codec) (opts : Options) (memory : ℕ → Memory) (file : Bytes)
    (zin : ZipFile) : Prop where
  verify : verify opts file ≠ none
  process : AlongLoop codec opts memory zin (fun _ e => SafelyNamed opts e) 0 zin.entries
    ZipFile.openNew

/-- The name that the code looks at for an entry: a stored entry has a first character other than
NUL if it is empty, and a name if shared libraries are page-aligned. -/
def HasName (opts : Options) (e : ZipEntry) : Prop :=
  if e.getUncompressedLen = 0 then ∃ b rest, e.cde.fileName.bytes = b :: rest ∧ b ≠ 0
  else opts.pageAlignSharedLibs = true → e.cde.fileName.bytes ≠ []

/-- A name that is there is a C string. -/
theorem isSome_cString_iff (f : VarField) : f.cString.isSome ↔ f.bytes ≠ [] := by
  rw [VarField.cString]
  split_ifs with h <;> simp [h]

/-- The alignment has a result iff the name is there or not asked for. -/
theorem isSome_getAlignment_iff (opts : Options) (e : ZipEntry) :
    (getAlignment opts e).isSome ↔ (opts.pageAlignSharedLibs = true → e.cde.fileName.bytes ≠ []) := by
  rw [getAlignment]
  split_ifs with hpage
  · simp_all
  · have hpage : opts.pageAlignSharedLibs = true := by simpa using hpage
    rw [← isSome_cString_iff]
    cases e.cde.fileName.cString <;> simp [hpage]

/-- Whether an entry is a directory has a result iff its size is not zero or its name has a first
character. -/
theorem isSome_isDirectory_iff (e : ZipEntry) :
    (isDirectory e).isSome ↔ (e.getUncompressedLen = 0 →
      ∃ b rest, e.cde.fileName.bytes = b :: rest ∧ b ≠ 0) := by
  rw [isDirectory]
  by_cases hsize : e.getUncompressedLen = 0
  · rw [if_neg (not_not.mpr hsize)]
    simp only [hsize, forall_const, VarField.cString]
    cases e.cde.fileName.bytes with
    | nil => simp
    | cons b rest =>
        by_cases hb : b = 0
        · simp [hb]
        · simp [hb, List.getLast?_cons]
  · simp [hsize]

/-- The uses of a name have a result iff the name is as `HasName` says. -/
theorem safelyNamed_iff (opts : Options) (e : ZipEntry) :
    SafelyNamed opts e ↔ (e.isCompressed = false → HasName opts e) := by
  rw [SafelyNamed, isSome_isDirectory_iff, isSome_getAlignment_iff, HasName]
  cases e.isCompressed with
  | true => simp
  | false =>
      simp only [Bool.false_eq_true, false_or, forall_const]
      by_cases hsize : e.getUncompressedLen = 0
      · -- the name of an empty file has a first character, so that it is there
        rw [if_pos hsize]
        refine ⟨fun h => h.1 hsize, fun h => ⟨fun _ => h, fun _ _ => ?_⟩⟩
        obtain ⟨b, rest, hname, -⟩ := h
        simp [hname]
      · rw [if_neg hsize]
        have hfile : isDirectory e = some false := by rw [isDirectory, if_pos hsize]
        exact ⟨fun h => h.2 hfile, fun h => ⟨fun h0 => absurd h0 hsize, fun _ => h⟩⟩

/-- The check of `verify` has a result iff the uses of the name have. -/
theorem isBad_ne_none_iff (opts : Options) (e : ZipEntry) :
    isBad opts e ≠ none ↔ SafelyNamed opts e := by
  rw [isBad, SafelyNamed]
  cases e.isCompressed with
  | true => simp
  | false =>
      cases isDirectory e with
      | none => simp
      | some directory =>
          cases directory with
          | true => simp
          | false => cases getAlignment opts e <;> simp

/-- The loop of `verify` has a result iff the check has one for every entry. -/
theorem foundBad_ne_none_iff (opts : Options) (entries : List ZipEntry) :
    foundBad opts entries ≠ none ↔ ∀ e ∈ entries, SafelyNamed opts e := by
  induction entries with
  | nil => simp [foundBad]
  | cons e entries ih =>
      rw [List.forall_mem_cons, ← ih, ← isBad_ne_none_iff, foundBad]
      cases isBad opts e with
      | none => simp
      | some bad => cases foundBad opts entries <;> simp

/-- What holds of every entry holds along the loop. -/
theorem alongLoop_of_forall_mem {codec : Codec} {opts : Options} {memory : ℕ → Memory} {zin : ZipFile}
    {P : ZipEntry → Prop} {entries : List ZipEntry} (h : ∀ e ∈ entries, P e) (i : ℕ)
    (zout : ZipFile) : AlongLoop codec opts memory zin (fun _ e => P e) i entries zout := by
  induction entries generalizing i zout with
  | nil => trivial
  | cons e entries ih =>
      refine ⟨h e List.mem_cons_self, fun op zout' _ _ => ?_⟩
      exact ih (fun e' he' => h e' (List.mem_cons_of_mem e he')) (i + 1) zout'

/-- **The names that the program uses on an archive are usable iff its stored entries have the names
that are looked at.** -/
theorem namesUsable_iff (codec : Codec) (opts : Options) (memory : ℕ → Memory) {file : Bytes}
    {zin : ZipFile} (h : ZipFile.openReadOnly file = some zin) :
    NamesUsable codec opts memory file zin
      ↔ ∀ e ∈ zin.entries, e.isCompressed = false → HasName opts e := by
  have hverify : verify opts file ≠ none ↔ ∀ e ∈ zin.entries, SafelyNamed opts e := by
    rw [← foundBad_ne_none_iff, verify, h]
    cases hbad : foundBad opts zin.entries <;> simp [hbad]
  simp only [← safelyNamed_iff]
  constructor
  · intro husable
    exact hverify.mp husable.verify
  · intro hnamed
    exact ⟨hverify.mpr hnamed, alongLoop_of_forall_mem hnamed 0 ZipFile.openNew⟩

/-- The names of `oneFile` are usable. -/
theorem namesUsable_oneFile :
    NamesUsable identityCodec (plainOptions 4 (by decide) (by decide)) (fun _ => zeroMemory)
      (flushed oneFile) (openedArchive oneFile) := by
  rw [namesUsable_iff identityCodec _ _ (by decide +kernel)]
  intro e he _
  obtain rfl := List.mem_singleton.mp he
  rw [HasName, if_neg (by decide)]
  exact fun hpage => absurd hpage (by decide)

/-- The archive with an empty file that has no name. -/
def namelessFile : List Item := [(storedEntry .empty 0 0, [])]

/-- `open` accepts an archive with an empty name, and `verify` uses the name that is not there. -/
theorem not_namesUsable_namelessFile :
    ZipFile.openReadOnly (flushed namelessFile) = some (openedArchive namelessFile)
    ∧ ¬ NamesUsable identityCodec (plainOptions 4 (by decide) (by decide)) (fun _ => zeroMemory)
      (flushed namelessFile) (openedArchive namelessFile) := by
  refine ⟨by decide +kernel, fun h => ?_⟩
  exact h.verify (by decide +kernel)

end AndroidSdk.Zip
