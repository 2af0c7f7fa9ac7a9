import AndroidSdk.Zip.TrueOffsets

/-! # Running zipalign twice

A run of `process` whose output passes `verify` leaves nothing to be padded, so that a second run
copies every record to the position at which it already stands. What a second run may still change
is what `strcpy` does not copy: the bytes of a name or a comment behind its first NUL.

* **`CopiedWhole`**, **`strcpy_eq_self_iff`** — the fields that `strcpy` copies as a whole, whatever
  the memory holds into which it copies.
* **`Settled`**, **`settled_of_copied`** — the records of a verified output need no padding.
* **`recopy`**, **`layout_settled`** — what a run makes of settled records.
* **`process_flushed`** — the second run.
* **`process_fixed_iff`** — when the second run leaves the file as it is. -/

namespace AndroidSdk.Zip

open Lib

/-! ## Fields that are copied as a whole -/

/-- At most one byte of the field, a NUL at its end, is not part of its C string. -/
def CopiedWhole (f : VarField) : Prop :=
  f.bytes.length ≤ (f.bytes.takeWhile (· ≠ 0)).length + 1

instance (f : VarField) : Decidable (CopiedWhole f) := inferInstanceAs (Decidable (_ ≤ _))

/-- Copying keeps what stands before the first NUL. -/
theorem takeWhile_strcpy (fresh : Fresh) (f : VarField) :
    (strcpy fresh f).bytes.takeWhile (· ≠ 0) = f.bytes.takeWhile (· ≠ 0) := by
  have h := cString_strcpy fresh f
  rw [VarField.cString, VarField.cString] at h
  split_ifs at h with hnew hold hold
  · rw [hnew, hold]
  · exact Option.some.inj h

/-- A copy is copied as a whole iff the field is. -/
theorem copiedWhole_strcpy (fresh : Fresh) (f : VarField) :
    CopiedWhole (strcpy fresh f) ↔ CopiedWhole f := by
  rw [CopiedWhole, CopiedWhole, length_strcpy, takeWhile_strcpy]

/-- A field is its text and, unless it is all text, a NUL with some rest behind it. -/
theorem eq_text_or (bytes : Bytes) : bytes = bytes.takeWhile (· ≠ 0)
    ∨ ∃ rest, bytes = bytes.takeWhile (· ≠ 0) ++ 0 :: rest := by
  induction bytes with
  | nil => exact .inl rfl
  | cons b bytes ih =>
      by_cases hb : b = 0
      · subst hb
        exact .inr ⟨bytes, by simp⟩
      · rw [List.takeWhile_cons_of_pos (by simpa using hb)]
        obtain h | ⟨rest, h⟩ := ih
        · exact .inl (by rw [← h])
        · exact .inr ⟨rest, by rw [List.cons_append, ← h]⟩

/-- A field whose text ends at its end is copied as a whole. -/
theorem strcpy_of_copiedWhole (fresh : Fresh) {f : VarField} (h : CopiedWhole f) :
    strcpy fresh f = f := by
  apply VarField.ext_bytes
  rw [CopiedWhole] at h
  simp only [strcpy]
  obtain htext | ⟨rest, hrest⟩ := eq_text_or f.bytes
  · rw [← htext, List.take_left]
  · -- the only byte behind the text is the NUL, which `strcpy` writes
    have hlength := congrArg List.length hrest
    rw [List.length_append, List.length_cons] at hlength
    have hnil : rest = [] := List.eq_nil_of_length_eq_zero (by omega)
    subst hnil
    rw [List.take_append, List.take_of_length_le (by omega), hlength, Nat.add_sub_cancel_left]
    exact hrest.symm

/-- In memory that is filled with one byte, that byte stands behind the copied text. -/
theorem getElem?_strcpy_fill (c : UInt8) {f : VarField} (h : ¬ CopiedWhole f) :
    (strcpy (fun _ => c) f).bytes[(f.bytes.takeWhile (· ≠ 0)).length + 1]? = some c := by
  rw [CopiedWhole, not_le] at h
  simp only [strcpy]
  rw [List.getElem?_take_of_lt h, List.getElem?_append_right (by omega), Nat.add_sub_cancel_left,
    List.getElem?_cons_succ, List.getElem?_map, List.getElem?_range (by omega)]
  rfl

/-- **A field is copied unchanged into memory of any content iff nothing stands behind its first
NUL.** Two contents of the memory are enough to tell. -/
theorem strcpy_eq_self_iff (f : VarField) :
    (strcpy (fun _ => 0) f = f ∧ strcpy (fun _ => 1) f = f) ↔ CopiedWhole f := by
  constructor
  · rintro ⟨hzero, hone⟩
    by_contra hpart
    have h0 := getElem?_strcpy_fill 0 hpart
    have h1 := getElem?_strcpy_fill 1 hpart
    rw [hzero] at h0
    rw [hone, h0] at h1
    exact absurd h1 (by decide)
  · intro hwhole
    exact ⟨strcpy_of_copiedWhole _ hwhole, strcpy_of_copiedWhole _ hwhole⟩

/-! ## Records of a verified output -/

/-- The record needs no padding where it stands, and its data have the length that its own local
header announces. -/
structure Settled (opts : Options) (item : Item) : Prop where
  good : isBad opts item.1 = some false
  length_data : item.2.length = ZipFile.copyLength item.1
  length_name : item.1.lfh.fileName.bytes.length = item.1.cde.fileName.bytes.length

/-- Without recompression, the record of a call is the copied entry with another local extra
field. -/
theorem record_of_copyOp {codec : Codec} {opts : Options} {memory : Memory} {zin : ZipFile}
    {e : ZipEntry} {op : Op} {item : Item} {position : ℕ} (hzopfli : opts.zopfli = false)
    (hop : copyOp opts memory zin e = some op) (hitem : op.record codec position = some item) :
    ZipFile.copiedData zin e = some item.2 ∧ ∃ extra, item.1 = ZipEntry.setLFHOffset
      { ZipEntry.initFromExternal memory e with
        lfh := { (ZipEntry.initFromExternal memory e).lfh with extraField := extra } } position := by
  obtain ⟨alignTo, rfl⟩ : ∃ alignTo, op = .add memory zin e alignTo := by
    obtain ⟨alignTo, -, rfl⟩ | ⟨-, rfl⟩ := copyOp_cases hop
    · exact ⟨alignTo, rfl⟩
    · exact ⟨0, by simp [hzopfli]⟩
  obtain ⟨e', data, halign, hdata, rfl⟩ := record_add_eq_some hitem
  obtain ⟨extra, rfl⟩ := alignEntry_eq_some halign
  exact ⟨hdata, extra, rfl⟩

/-- A copied entry whose headers agree on the flag is settled if `verify` finds it aligned. -/
theorem settled_of_copied {codec : Codec} {opts : Options} {memory : Memory} {zin : ZipFile}
    {e : ZipEntry} {op : Op} {item : Item} {position : ℕ} (hzopfli : opts.zopfli = false)
    (hflag : e.lfh.gpBitFlag = e.cde.gpBitFlag) (hop : copyOp opts memory zin e = some op)
    (hitem : op.record codec position = some item) (hgood : isBad opts item.1 = some false) :
    Settled opts item := by
  obtain ⟨hdata, extra, hentry⟩ := record_of_copyOp hzopfli hop hitem
  refine ⟨hgood, ?_, ?_⟩
  · -- the new local header has the flag of the central one
    rw [length_of_bytesAt hdata, ZipFile.copyLength, ZipFile.copyLength, hflag, hentry]
    rfl
  · rw [hentry]
    exact length_strcpy _ _

/-- A related element on the left. -/
theorem exists_of_forall₂_right {α β : Type} {R : α → β → Prop} {l : List α} {m : List β}
    (h : List.Forall₂ R l m) {b : β} (hb : b ∈ m) : ∃ a ∈ l, R a b := by
  induction h with
  | nil => cases hb
  | cons hhere _ ih =>
      obtain rfl | hb := List.mem_cons.mp hb
      · exact ⟨_, List.mem_cons_self, hhere⟩
      · obtain ⟨a, ha, hab⟩ := ih hb
        exact ⟨a, List.mem_cons_of_mem _ ha, hab⟩

/-- A related element on the right. -/
theorem exists_of_forall₂_left {α β : Type} {R : α → β → Prop} {l : List α} {m : List β}
    (h : List.Forall₂ R l m) {a : α} (ha : a ∈ l) : ∃ b ∈ m, R a b :=
  exists_of_forall₂_right h.flip ha

/-! ## The second run -/

/-- The copy of a record to the position at which it stands. -/
def recopy (memory : Memory) (item : Item) : Item := (ZipEntry.initFromExternal memory item.1, item.2)

/-- The copies of records, with the memory that the loop obtains from an index on. -/
def recopyAll (memory : ℕ → Memory) : ℕ → List Item → List Item
  | _, [] => []
  | i, item :: items => recopy (memory i) item :: recopyAll memory (i + 1) items

/-- If the memory is always the same, every record is copied in the same way. -/
theorem recopyAll_const (memory : Memory) (i : ℕ) (items : List Item) :
    recopyAll (fun _ => memory) i items = items.map (recopy memory) := by
  induction items generalizing i with
  | nil => rfl
  | cons item items ih => rw [recopyAll, ih, List.map_cons]

/-- Records that are copied unchanged. -/
theorem recopyAll_eq_self {memory : ℕ → Memory} {items : List Item}
    (h : ∀ i, ∀ item ∈ items, recopy (memory i) item = item) (i : ℕ) :
    recopyAll memory i items = items := by
  induction items generalizing i with
  | nil => rfl
  | cons item items ih =>
      rw [recopyAll, h i item List.mem_cons_self,
        ih (fun i item hitem => h i item (List.mem_cons_of_mem _ hitem))]

/-- Copying a settled record keeps its length. -/
theorem length_recopy {opts : Options} {item : Item} (h : Settled opts item) (memory : Memory) :
    (recordBytes (recopy memory item)).length = (recordBytes item).length := by
  have hname : (ZipEntry.initFromExternal memory item.1).lfh.fileName.bytes.length
      = item.1.lfh.fileName.bytes.length := by
    rw [h.length_name]
    simp [ZipEntry.initFromExternal, ZipEntry.copyCDEtoLFH]
  simp only [recordBytes, List.length_append, LocalFileHeader.length_write, recopy, hname]
  rfl

/-- Copying settled records keeps their length. -/
theorem length_recopyAll {opts : Options} {items : List Item} (h : ∀ item ∈ items, Settled opts item)
    (memory : ℕ → Memory) (i : ℕ) :
    (records (recopyAll memory i items)).length = (records items).length := by
  induction items generalizing i with
  | nil => rfl
  | cons item items ih =>
      rw [recopyAll, records_cons, records_cons, List.length_append, List.length_append,
        length_recopy (h item List.mem_cons_self),
        ih fun item hitem => h item (List.mem_cons_of_mem _ hitem)]

/-- An entry whose payload is at a multiple of the alignment is not padded. -/
theorem alignEntry_of_dvd {position : ℕ} {e : ZipEntry} {alignTo : UInt32}
    (h : alignTo.toNat ∣ position + LocalFileHeader.kLFHLen + e.lfh.fileName.bytes.length
      + e.lfh.extraField.bytes.length) :
    ZipFile.alignEntry position e alignTo = some e := by
  simp only [ZipFile.alignEntry, Nat.mod_eq_zero_of_dvd h, Nat.sub_zero]
  split
  · rfl
  · rfl

section Second

variable {opts : Options} {item : Item} {position : ℕ}

/-- The offset of the payload of a record below 4 GiB. -/
theorem getFileOffset_of_position
    (hoffset : item.1.cde.localHeaderRelOffset = UInt32.ofNat position)
    (hsize : position + (recordBytes item).length < 2 ^ 32) :
    item.1.getFileOffset = position + LocalFileHeader.kLFHLen + item.1.lfh.fileName.bytes.length
      + item.1.lfh.extraField.bytes.length := by
  have hlength : (recordBytes item).length = LocalFileHeader.kLFHLen
      + item.1.lfh.fileName.bytes.length + item.1.lfh.extraField.bytes.length + item.2.length := by
    rw [recordBytes, List.length_append, LocalFileHeader.length_write]
  have hstart : item.1.cde.localHeaderRelOffset.toNat = position := by
    rw [hoffset]
    exact UInt32.toNat_ofNat_of_lt' (show _ < 2 ^ 32 by omega)
  rw [ZipEntry.getFileOffset, hstart, Nat.mod_eq_of_lt (by omega)]

/-- **A settled record is copied to where it stands.** -/
theorem copyOp_settled (codec : Codec) (memory : Memory) {zin : ZipFile}
    (hzopfli : opts.zopfli = false) (hsettled : Settled opts item)
    (hdata : ZipFile.copiedData zin item.1 = some item.2)
    (hoffset : item.1.cde.localHeaderRelOffset = UInt32.ofNat position)
    (hsize : position + (recordBytes item).length < 2 ^ 32) :
    ∃ op, copyOp opts memory zin item.1 = some op
      ∧ op.record codec position = some (recopy memory item) := by
  have hsame : (ZipEntry.initFromExternal memory item.1).setLFHOffset position
      = ZipEntry.initFromExternal memory item.1 := by
    rw [ZipEntry.setLFHOffset, ← hoffset]
    rfl
  have hunaligned := Op.record_add_unaligned codec position memory hdata
  rw [hsame] at hunaligned
  have hgood := hsettled.good
  rw [isBad] at hgood
  rw [copyOp]
  by_cases hcompressed : item.1.isCompressed = true
  · refine ⟨.add memory zin item.1 0, ?_, hunaligned⟩
    simp [hcompressed, hzopfli]
  · rw [if_neg hcompressed] at hgood ⊢
    obtain ⟨directory, hdirectory, hgood⟩ := Option.bind_eq_some_iff.mp hgood
    cases directory with
    | true =>
        refine ⟨.add memory zin item.1 0, ?_, hunaligned⟩
        simp [hdirectory, hzopfli]
    | false =>
        obtain ⟨alignTo, halignTo, hgood⟩ := Option.bind_eq_some_iff.mp hgood
        refine ⟨.add memory zin item.1 alignTo, by simp [hdirectory, halignTo], ?_⟩
        have hdvd : alignTo.toNat ∣ item.1.getFileOffset := by
          simpa [Nat.dvd_iff_mod_eq_zero] using hgood
        have hname : (ZipEntry.initFromExternal memory item.1).lfh.fileName.bytes.length
            = item.1.lfh.fileName.bytes.length := by
          rw [hsettled.length_name]
          simp [ZipEntry.initFromExternal, ZipEntry.copyCDEtoLFH]
        rw [getFileOffset_of_position hoffset hsize, ← hname] at hdvd
        have halign := alignEntry_of_dvd (e := ZipEntry.initFromExternal memory item.1) hdvd
        simp only [Op.record, halign, hdata, Option.bind_eq_bind, Option.bind_some, Option.pure_def,
          hsame]
        rfl

end Second

/-- **The records of a run on settled records are their copies**, at the same positions. -/
theorem layout_settled (codec : Codec) {opts : Options} (hzopfli : opts.zopfli = false)
    (memory : ℕ → Memory) {zin : ZipFile} {items : List Item} (i : ℕ) {position : ℕ}
    (hsettled : ∀ item ∈ items, Settled opts item)
    (hdata : ∀ item ∈ items, ZipFile.copiedData zin item.1 = some item.2)
    (hplaced : Placed position items) (hsize : position + (records items).length < 2 ^ 32) :
    ∃ ops, copyOps opts memory zin i (items.map Prod.fst) = some ops
      ∧ layout codec position ops = some (recopyAll memory i items) := by
  induction items generalizing i position with
  | nil => exact ⟨[], rfl, rfl⟩
  | cons item items ih =>
      obtain ⟨hoffset, -, hrest⟩ := hplaced
      rw [records_cons, List.length_append] at hsize
      have hhere := hsettled item List.mem_cons_self
      obtain ⟨op, hop, hrecord⟩ := copyOp_settled codec (memory i) hzopfli hhere
        (hdata item List.mem_cons_self) hoffset (by omega)
      obtain ⟨ops, hops, hlayout⟩ := ih (i + 1)
        (fun item hitem => hsettled item (List.mem_cons_of_mem _ hitem))
        (fun item hitem => hdata item (List.mem_cons_of_mem _ hitem)) hrest (by omega)
      refine ⟨op :: ops, ?_, ?_⟩
      · simp only [List.map_cons, copyOps, hop, hops, Option.bind_eq_bind, Option.bind_some,
          Option.pure_def]
      · simp only [layout, hrecord, Option.bind_eq_bind, Option.bind_some, length_recopy hhere,
          hlayout, Option.pure_def, recopyAll]

/-- **The second run**: of an archive with settled records, `process` writes the copies of the
records. -/
theorem process_flushed (codec : Codec) {opts : Options} (hzopfli : opts.zopfli = false)
    (memory : ℕ → Memory) {items : List Item} (hsettled : ∀ item ∈ items, Settled opts item)
    (hplaced : Placed 0 items) (hsize : (records items).length < 2 ^ 32)
    (hopen : ZipFile.openReadOnly (flushed items) = some (openedArchive items)) :
    process codec opts memory (flushed items) = some (flushed (recopyAll memory 0 items))
      ∧ Placed 0 (recopyAll memory 0 items) := by
  have hdata : ∀ item ∈ items, ZipFile.copiedData (openedArchive items) item.1 = some item.2 := by
    intro item hitem
    have hread := (read_of_placed [] (ZipFile.centralDir (items.map Prod.fst)
      ++ (endRecord items).write) hplaced (by simpa using hsize) item hitem).2
    rw [(hsettled item hitem).length_data] at hread
    exact hread
  obtain ⟨ops, hops, hlayout⟩ := layout_settled codec hzopfli memory 0 hsettled hdata hplaced
    (by simpa using hsize)
  have hwritten : writtenRecords codec opts memory (flushed items)
      = some (recopyAll memory 0 items) := by
    rw [writtenRecords, hopen]
    simp only [Option.bind_eq_bind, Option.bind_some]
    rw [show (openedArchive items).entries = items.map Prod.fst from rfl, hops, Option.bind_some,
      hlayout]
  have hlength := length_recopyAll hsettled memory 0
  obtain ⟨zin, hrewrite, hplaced'⟩ := rewriteArchive_of_writtenRecords hwritten (by omega)
  exact ⟨process_eq hrewrite hlayout rfl (by rw [file_archiveOf]; omega), hplaced'⟩

/-! ## When the second run changes nothing -/

/-- The names and the comments of an archive are copied as a whole. -/
def NamesCopiedWhole (z : ZipFile) : Prop :=
  ∀ e ∈ z.entries, CopiedWhole e.cde.fileName ∧ CopiedWhole e.cde.fileComment

/-- Memory that is filled with one byte. -/
def filledMemory (c : UInt8) : Memory := ⟨fun _ => c, fun _ => c, fun _ => c, fun _ => c⟩

/-- A record that is copied unchanged has a name and a comment that are. -/
theorem strcpy_of_recopy {memory : Memory} {item : Item}
    (h : ZipEntry.initFromExternal memory item.1 = item.1) :
    strcpy memory.fileName item.1.cde.fileName = item.1.cde.fileName
      ∧ strcpy memory.fileComment item.1.cde.fileComment = item.1.cde.fileComment := by
  have hcde := congrArg ZipEntry.cde h
  exact ⟨congrArg CentralDirEntry.fileName hcde, congrArg CentralDirEntry.fileComment hcde⟩

section Process

variable {codec : Codec} {opts : Options} {memory : Memory} {zin : ZipFile} {e : ZipEntry} {op : Op}
  {item : Item} {position : ℕ}

/-- A copied record and its entry are copied as a whole or not. -/
theorem copiedWhole_of_copied (hzopfli : opts.zopfli = false)
    (hop : copyOp opts memory zin e = some op) (hitem : op.record codec position = some item) :
    (CopiedWhole item.1.cde.fileName ∧ CopiedWhole item.1.cde.fileComment)
      ↔ CopiedWhole e.cde.fileName ∧ CopiedWhole e.cde.fileComment := by
  obtain ⟨-, extra, hentry⟩ := record_of_copyOp hzopfli hop hitem
  rw [hentry]
  exact and_congr (copiedWhole_strcpy _ _) (copiedWhole_strcpy _ _)

/-- A record that was copied as a whole stays the same when it is copied again. -/
theorem recopy_of_copied (hzopfli : opts.zopfli = false)
    (hop : copyOp opts memory zin e = some op) (hitem : op.record codec position = some item)
    (hwhole : CopiedWhole e.cde.fileName ∧ CopiedWhole e.cde.fileComment) (memory' : Memory) :
    recopy memory' item = item := by
  obtain ⟨-, extra, hentry⟩ := record_of_copyOp hzopfli hop hitem
  obtain ⟨entry, data⟩ := item
  cases hentry
  simp [recopy, ZipEntry.initFromExternal, ZipEntry.copyCDEtoLFH,
    strcpy_of_copiedWhole _ hwhole.1, strcpy_of_copiedWhole _ hwhole.2]

end Process

/-- **A second run leaves the output as it is, whatever fresh memory holds, iff the names and the
comments of the input have nothing behind their first NUL.** The first run is without recompression
on an archive whose headers agree on their flags, stays below 4 GiB, and its output passes
`verify`. -/
theorem process_fixed_iff {codec : Codec} {opts : Options} {memory : ℕ → Memory}
    {input output : Bytes} {zin zout : ZipFile} (hzopfli : opts.zopfli = false)
    (h : rewriteArchive codec opts memory input = some (zin, zout))
    (hflags : ∀ e ∈ zin.entries, e.lfh.gpBitFlag = e.cde.gpBitFlag)
    (hsize : zout.file.length < 2 ^ 32) (hprocess : process codec opts memory input = some output)
    (hverify : verify opts output = some 0) :
    (∀ memory', process codec opts memory' output = some output) ↔ NamesCopiedWhole zin := by
  obtain ⟨-, ops, items, hops, hlayout, rfl, -⟩ := rewriteArchive_eq_some h hsize
  rw [process_eq h hlayout rfl hsize] at hprocess
  cases hprocess
  rw [file_archiveOf] at hsize
  have hplaced := placed_of_layout hlayout
  -- since `verify` could open the output, it found the records there
  obtain ⟨zipFile, hopen, hgood⟩ := (verify_eq_zero_iff opts _).mp hverify
  have hopened := openReadOnly_flushed hplaced hsize
  obtain rfl : zipFile = openedArchive items := by
    rw [hopen] at hopened
    split at hopened
    · exact Option.some.inj hopened
    · cases hopened
  have hcopied := forall₂_copied hops hlayout
  have hsettled : ∀ item ∈ items, Settled opts item := by
    intro item hitem
    obtain ⟨e, he, -, j, p, op, hop, hrecord⟩ := exists_of_forall₂_right hcopied hitem
    exact settled_of_copied hzopfli (hflags e he) hop hrecord
      (hgood item.1 (List.mem_map_of_mem hitem))
  constructor
  · intro hfixed e he
    obtain ⟨item, hitem, -, j, p, op, hop, hrecord⟩ := exists_of_forall₂_left hcopied he
    rw [← copiedWhole_of_copied hzopfli hop hrecord, ← strcpy_eq_self_iff, ← strcpy_eq_self_iff]
    -- equal files have equal entries, so that a copy into filled memory changes no entry
    have hentry (c : UInt8) : ZipEntry.initFromExternal (filledMemory c) item.1 = item.1 := by
      obtain ⟨hsecond, hplaced'⟩ := process_flushed codec hzopfli (fun _ => filledMemory c) hsettled
        hplaced hsize hopen
      have hlength := length_recopyAll hsettled (fun _ => filledMemory c) 0
      rw [hfixed, Option.some.injEq] at hsecond
      have hreopened := openReadOnly_flushed hplaced' (by omega)
      rw [← hsecond, hopen] at hreopened
      split at hreopened
      · have hentries := congrArg ZipFile.entries (Option.some.inj hreopened)
        simp only [openedArchive, archiveOf, recopyAll_const, List.map_map] at hentries
        exact (List.map_inj_left.mp hentries item hitem).symm
      · cases hreopened
    obtain ⟨hname₀, hcomment₀⟩ := strcpy_of_recopy (hentry 0)
    obtain ⟨hname₁, hcomment₁⟩ := strcpy_of_recopy (hentry 1)
    exact ⟨⟨hname₀, hname₁⟩, hcomment₀, hcomment₁⟩
  · intro hwhole memory'
    have hsame : recopyAll memory' 0 items = items := by
      refine recopyAll_eq_self (fun i item hitem => ?_) 0
      obtain ⟨e, he, -, j, p, op, hop, hrecord⟩ := exists_of_forall₂_right hcopied hitem
      exact recopy_of_copied hzopfli hop hrecord (hwhole e he) (memory' i)
    rw [(process_flushed codec hzopfli memory' hsettled hplaced hsize hopen).1, hsame]

/-- The aligned `oneFile` stays as it is. -/
theorem process_fixed_oneFile : ∃ output,
    process identityCodec (plainOptions 4 (by decide) (by decide)) (fun _ => zeroMemory)
      (flushed oneFile) = some output
    ∧ verify (plainOptions 4 (by decide) (by decide)) output = some 0
    ∧ ∀ memory, process identityCodec (plainOptions 4 (by decide) (by decide)) memory output
      = some output := by
  let opts := plainOptions 4 (by decide) (by decide)
  let zout := (copyAndAlign identityCodec opts (fun _ => zeroMemory) (openedArchive oneFile) 0
    (openedArchive oneFile).entries ZipFile.openNew).getD ZipFile.openNew
  let output := (process identityCodec opts (fun _ => zeroMemory) (flushed oneFile)).getD []
  have h : rewriteArchive identityCodec opts (fun _ => zeroMemory) (flushed oneFile)
      = some (openedArchive oneFile, zout) := by decide +kernel
  have hprocess : process identityCodec opts (fun _ => zeroMemory) (flushed oneFile)
      = some output := by decide +kernel
  have hverify : verify opts output = some 0 := by decide +kernel
  refine ⟨output, hprocess, hverify, ?_⟩
  exact (process_fixed_iff rfl h (by decide +kernel) (by decide +kernel) hprocess hverify).mpr
    (by unfold NamesCopiedWhole; decide +kernel)

/-- An archive with an empty file whose name is an `a`, a NUL and a `b`. -/
def nulFile : List Item := [(storedEntry ⟨[97, 0, 98], by decide⟩ 0 0, [])]

/-- **The last byte of the name of `nulFile` is what the memory happened to hold**, and a second run
takes it from other memory. -/
theorem not_process_fixed_nulFile : ∃ zin zout output,
    rewriteArchive identityCodec (plainOptions 4 (by decide) (by decide))
      (fun _ => filledMemory 1) (flushed nulFile) = some (zin, zout)
    ∧ (∀ e ∈ zin.entries, e.lfh.gpBitFlag = e.cde.gpBitFlag)
    ∧ process identityCodec (plainOptions 4 (by decide) (by decide)) (fun _ => filledMemory 1)
      (flushed nulFile) = some output
    ∧ verify (plainOptions 4 (by decide) (by decide)) output = some 0
    ∧ ∃ again, process identityCodec (plainOptions 4 (by decide) (by decide))
        (fun _ => filledMemory 2) output = some again ∧ again ≠ output := by
  let opts := plainOptions 4 (by decide) (by decide)
  let zout := (copyAndAlign identityCodec opts (fun _ => filledMemory 1) (openedArchive nulFile) 0
    (openedArchive nulFile).entries ZipFile.openNew).getD ZipFile.openNew
  let output := (process identityCodec opts (fun _ => filledMemory 1) (flushed nulFile)).getD []
  let again := (process identityCodec opts (fun _ => filledMemory 2) output).getD []
  exact ⟨openedArchive nulFile, zout, output, by decide +kernel, by decide +kernel,
    by decide +kernel, by decide +kernel, again, by decide +kernel, by decide +kernel⟩

end AndroidSdk.Zip
