import Mathlib.Data.List.Forall2
import AndroidSdk.Zip.RoundTrip

/-! # zipalign

The program of `ZipAlign.cpp`: it copies the entries of an archive into a new one, with the data of
stored files at multiples of an alignment, and verifies the alignment of an archive.

* **`Options`** — the options of the program, as `main` checks them.
* **`process`**, **`verify`** — the two modes. A run that dereferences a missing name gives `none`,
  as does one that reports failure.
* **`copyAndAlign_eq`** — the loop is a run of `add` and `addRecompress`.
* **`AlongLoop`**, **`alongLoop_iff`** — what holds at every step of the loop, in terms of the
  records that it writes.
* **`keepsExtra_iff`**, **`keepsAlignment_iff`** — what padding does to the extra field and to the
  position of the data. -/

namespace AndroidSdk.Zip

open Lib

/-! ## The program -/

/-- The options: the alignment is a positive `int`, the page size is one that `-P` accepts. -/
structure Options where
  alignment : UInt32
  zopfli : Bool
  pageAlignSharedLibs : Bool
  pageSize : UInt32
  alignment_pos : 0 < alignment.toNat
  alignment_lt : alignment.toNat < 2 ^ 31
  pageSize_valid : pageSize ∈ ([4096, 16384, 65536] : List UInt32)

/-- A field as a C string: fields of length 0 are not allocated, and a string ends at the first
NUL. -/
def VarField.cString (f : VarField) : Option Bytes :=
  if f.bytes = [] then none else some (f.bytes.takeWhile (· ≠ 0))

/-- `isDirectory`: an entry of size zero whose name ends with a slash or a backslash. There is no
result if there is no name or no last character. -/
def isDirectory (e : ZipEntry) : Option Bool :=
  if e.getUncompressedLen ≠ 0 then some false
  else do
    let name ← e.cde.fileName.cString
    let lastChar ← name.getLast?
    return lastChar = 47 ∨ lastChar = 92

/-- `strrchr`: the string from the last occurrence of a character on. -/
def strrchr (text : Bytes) (c : UInt8) : Option Bytes :=
  if c ∈ text then some (c :: (text.reverse.takeWhile (· ≠ c)).reverse) else none

/-- `getAlignment`: the extension `.so` is page-aligned. -/
def getAlignment (opts : Options) (e : ZipEntry) : Option UInt32 :=
  if !opts.pageAlignSharedLibs then some opts.alignment
  else do
    let name ← e.cde.fileName.cString
    return if strrchr name 46 = some [46, 115, 111] then opts.pageSize else opts.alignment

/-- The call by which `copyAndAlign` copies an entry. -/
def copyOp (opts : Options) (memory : Memory) (zin : ZipFile) (e : ZipEntry) : Option Op := do
  if ← (if e.isCompressed then some true else isDirectory e) then
    -- copy the entry without padding
    return if opts.zopfli then .addRecompress memory zin e else .add memory zin e 0
  else
    let alignTo ← getAlignment opts e
    return .add memory zin e alignTo

/-- The loop of `copyAndAlign` over the entries of the input, from an index on. -/
def copyAndAlign (codec : Codec) (opts : Options) (memory : ℕ → Memory) (zin : ZipFile) :
    ℕ → List ZipEntry → ZipFile → Option ZipFile
  | _, [], zout => some zout
  | i, e :: rest, zout => do
      let op ← copyOp opts (memory i) zin e
      let zout ← op.apply codec zout
      copyAndAlign codec opts memory zin (i + 1) rest zout

/-- The two archives of `process` at its end, when the output has not been flushed yet. -/
def rewriteArchive (codec : Codec) (opts : Options) (memory : ℕ → Memory) (input : Bytes) :
    Option (ZipFile × ZipFile) := do
  let zin ← ZipFile.openReadOnly input
  let zout ← copyAndAlign codec opts memory zin 0 zin.entries ZipFile.openNew
  return (zin, zout)

/-- `process` for two different files: the output, flushed by its destructor, if the result is 0. -/
def process (codec : Codec) (opts : Options) (memory : ℕ → Memory) (input : Bytes) : Option Bytes := do
  let (_, zout) ← rewriteArchive codec opts memory input
  let zout ← zout.flush
  return zout.file

/-- The check of `verify` for an entry: stored files have to be aligned. -/
def isBad (opts : Options) (e : ZipEntry) : Option Bool :=
  if e.isCompressed then some false
  else do
    if ← isDirectory e then return false
    else
      let alignTo ← getAlignment opts e
      return e.getFileOffset % alignTo.toNat ≠ 0

/-- The loop of `verify`. -/
def foundBad (opts : Options) : List ZipEntry → Option Bool
  | [] => some false
  | e :: rest => do
      let bad ← isBad opts e
      let more ← foundBad opts rest
      return bad || more

/-- `verify`. -/
def verify (opts : Options) (file : Bytes) : Option ℕ :=
  match ZipFile.openReadOnly file with
  | none => some 1
  | some zipFile => do
      let bad ← foundBad opts zipFile.entries
      return if bad then 1 else 0

/-! ## Runs of the loop -/

/-- The calls of `copyAndAlign`. -/
def copyOps (opts : Options) (memory : ℕ → Memory) (zin : ZipFile) :
    ℕ → List ZipEntry → Option (List Op)
  | _, [] => some []
  | i, e :: rest => do
      let op ← copyOp opts (memory i) zin e
      let ops ← copyOps opts memory zin (i + 1) rest
      return op :: ops

/-- **The loop is a run of its calls.** -/
theorem copyAndAlign_eq (codec : Codec) (opts : Options) (memory : ℕ → Memory) (zin : ZipFile)
    (i : ℕ) (entries : List ZipEntry) (zout : ZipFile) :
    copyAndAlign codec opts memory zin i entries zout
      = (copyOps opts memory zin i entries).bind (run codec zout) := by
  induction entries generalizing i zout with
  | nil => rfl
  | cons e entries ih =>
      simp only [copyAndAlign, copyOps, Option.bind_eq_bind, Option.pure_def]
      cases copyOp opts (memory i) zin e with
      | none => rfl
      | some op =>
          simp only [Option.bind_some, ih]
          cases copyOps opts memory zin (i + 1) entries with
          | none => simp
          | some ops => simp [run]

/-- A predicate on the output archive and the entry to be copied holds at every step of the loop. -/
def AlongLoop (codec : Codec) (opts : Options) (memory : ℕ → Memory) (zin : ZipFile)
    (P : ZipFile → ZipEntry → Prop) : ℕ → List ZipEntry → ZipFile → Prop
  | _, [], _ => True
  | i, e :: rest, zout => P zout e ∧ ∀ op zout', copyOp opts (memory i) zin e = some op →
      op.apply codec zout = some zout' → AlongLoop codec opts memory zin P (i + 1) rest zout'

section Loop

variable {codec : Codec} {opts : Options} {memory : ℕ → Memory} {zin : ZipFile}

/-- **What holds along the loop, in terms of the records that it writes.** If at each step below 4
GiB a predicate says the same as a relation between the entry and its record, then it holds along
the loop iff the entries and their records are related. -/
theorem alongLoop_iff {P : ZipFile → ZipEntry → Prop} {Q : ZipEntry → Item → Prop}
    (hstep : ∀ i items e op item, copyOp opts (memory i) zin e = some op →
      op.record codec (records items).length = some item →
      (records items).length + (recordBytes item).length < 2 ^ 32 →
      (P (archiveOf items) e ↔ Q e item))
    {entries : List ZipEntry} {i : ℕ} {ops : List Op} {items more : List Item}
    (hops : copyOps opts memory zin i entries = some ops)
    (hlayout : layout codec (records items).length ops = some more)
    (hsize : (records items).length + (records more).length < 2 ^ 32) :
    AlongLoop codec opts memory zin P i entries (archiveOf items) ↔ List.Forall₂ Q entries more := by
  induction entries generalizing i ops items more with
  | nil =>
      cases hops
      cases hlayout
      simp [AlongLoop]
  | cons e entries ih =>
      simp only [copyOps, Option.bind_eq_bind, Option.pure_def] at hops
      obtain ⟨op, hop, hops⟩ := Option.bind_eq_some_iff.mp hops
      obtain ⟨rest, hrest, hops⟩ := Option.bind_eq_some_iff.mp hops
      cases hops
      simp only [layout, Option.bind_eq_bind, Option.pure_def] at hlayout
      obtain ⟨item, hitem, hlayout⟩ := Option.bind_eq_some_iff.mp hlayout
      obtain ⟨more, hmore, hlayout⟩ := Option.bind_eq_some_iff.mp hlayout
      cases hlayout
      rw [records_cons, List.length_append] at hsize
      -- the loop writes this record, and goes on behind it
      have happly : op.apply codec (archiveOf items) = some (archiveOf (items ++ [item])) := by
        rw [apply_archiveOf codec (by omega), hitem]
        rfl
      have hlength : (records (items ++ [item])).length
          = (records items).length + (recordBytes item).length := by
        simp
      have hnext := ih hrest (by rwa [hlength]) (by rw [hlength]; omega)
      rw [AlongLoop, List.forall₂_cons, hstep i items e op item hop hitem (by omega), ← hnext]
      constructor
      · rintro ⟨hhere, hthere⟩
        exact ⟨hhere, hthere op _ hop happly⟩
      · rintro ⟨hhere, hthere⟩
        -- the operation and the archive behind it are the only ones
        refine ⟨hhere, ?_⟩
        intro op' zout' hop' happly'
        rw [hop] at hop'
        cases hop'
        rw [happly] at happly'
        cases happly'
        exact hthere

/-- Every record of the loop is that of a call for its entry. -/
theorem forall₂_copied {entries : List ZipEntry} {i position : ℕ} {ops : List Op} {items : List Item}
    (hops : copyOps opts memory zin i entries = some ops)
    (hlayout : layout codec position ops = some items) :
    List.Forall₂ (fun e item => item ∈ items ∧ ∃ j p op, copyOp opts (memory j) zin e = some op
      ∧ op.record codec p = some item) entries items := by
  induction entries generalizing i position ops items with
  | nil =>
      cases hops
      cases hlayout
      exact .nil
  | cons e entries ih =>
      simp only [copyOps, Option.bind_eq_bind, Option.pure_def] at hops
      obtain ⟨op, hop, hops⟩ := Option.bind_eq_some_iff.mp hops
      obtain ⟨rest, hrest, hops⟩ := Option.bind_eq_some_iff.mp hops
      cases hops
      simp only [layout, Option.bind_eq_bind, Option.pure_def] at hlayout
      obtain ⟨item, hitem, hlayout⟩ := Option.bind_eq_some_iff.mp hlayout
      obtain ⟨more, hmore, hlayout⟩ := Option.bind_eq_some_iff.mp hlayout
      cases hlayout
      refine .cons ⟨List.mem_cons_self, i, position, op, hop, hitem⟩ ((ih hrest hmore).imp ?_)
      rintro e item ⟨hmem, hcopied⟩
      exact ⟨List.mem_cons_of_mem _ hmem, hcopied⟩

end Loop

/-! ## What the entries are -/

/-- The entry that an operation copies. -/
def Op.entry : Op → ZipEntry
  | .add _ _ entry _ => entry
  | .addRecompress _ _ entry => entry

/-- A copied name is the same C string. -/
theorem cString_strcpy (fresh : Fresh) (f : VarField) : (strcpy fresh f).cString = f.cString := by
  have hempty : (strcpy fresh f).bytes = [] ↔ f.bytes = [] := by
    rw [← List.length_eq_zero_iff, length_strcpy, List.length_eq_zero_iff]
  rw [VarField.cString, VarField.cString]
  by_cases h : f.bytes = []
  · rw [if_pos h, if_pos (hempty.mpr h)]
  · rw [if_neg h, if_neg fun h' => h (hempty.mp h')]
    congr 1
    -- the copy consists of the text and, if there is room, of a NUL behind it
    have htext : ∀ b ∈ f.bytes.takeWhile (· ≠ 0), decide (b ≠ 0) = true :=
      fun b hb => List.mem_takeWhile_imp (p := fun b : UInt8 => decide (b ≠ 0)) hb
    have hle := (List.takeWhile_prefix (p := fun b : UInt8 => decide (b ≠ 0)) (l := f.bytes)).length_le
    simp only [strcpy]
    rw [List.take_append, List.take_of_length_le hle, List.takeWhile_append_of_pos htext]
    cases f.bytes.length - (f.bytes.takeWhile (· ≠ 0)).length with
    | zero => simp
    | succ n => simp

/-- Entries of the same size with the same C string as name are both directories or not. -/
theorem isDirectory_congr {e e' : ZipEntry} (hlen : e'.getUncompressedLen = e.getUncompressedLen)
    (hname : e'.cde.fileName.cString = e.cde.fileName.cString) : isDirectory e' = isDirectory e := by
  rw [isDirectory, isDirectory, hlen, hname]

/-- Entries with the same C string as name are aligned in the same way. -/
theorem getAlignment_congr (opts : Options) {e e' : ZipEntry}
    (hname : e'.cde.fileName.cString = e.cde.fileName.cString) :
    getAlignment opts e' = getAlignment opts e := by
  rw [getAlignment, getAlignment, hname]

/-- A record is compressed, a directory and aligned as the entry it was copied from. -/
theorem Op.record_class (opts : Options) {codec : Codec} {position : ℕ} {op : Op} {item : Item}
    (h : op.record codec position = some item) :
    item.1.isCompressed = op.entry.isCompressed ∧ isDirectory item.1 = isDirectory op.entry
      ∧ getAlignment opts item.1 = getAlignment opts op.entry := by
  have hclass : item.1.isCompressed = op.entry.isCompressed
      ∧ item.1.getUncompressedLen = op.entry.getUncompressedLen
      ∧ item.1.cde.fileName.cString = op.entry.cde.fileName.cString := by
    cases op with
    | add memory source entry alignTo =>
        obtain ⟨e, data, halign, -, rfl⟩ := record_add_eq_some h
        obtain ⟨extra, rfl⟩ := alignEntry_eq_some halign
        exact ⟨rfl, rfl, cString_strcpy _ _⟩
    | addRecompress memory source entry =>
        obtain ⟨hcompressed, buf, -, rfl⟩ | ⟨-, data, -, rfl⟩ := record_addRecompress_eq_some h
        · refine ⟨?_, ?_, cString_strcpy _ _⟩
          · rw [Op.entry, hcompressed]
            rfl
          · exact UInt32.toNat_ofNat_of_lt' entry.cde.uncompressedSize.toNat_lt
        · exact ⟨rfl, rfl, cString_strcpy _ _⟩
  exact ⟨hclass.1, isDirectory_congr hclass.2.1 hclass.2.2, getAlignment_congr opts hclass.2.2⟩

/-- The entry is a stored file that the options align to `alignTo`. -/
def NeedsAlignment (opts : Options) (e : ZipEntry) (alignTo : UInt32) : Prop :=
  e.isCompressed = false ∧ isDirectory e = some false ∧ getAlignment opts e = some alignTo

/-- An entry needs at most one alignment. -/
theorem forall_needsAlignment_iff {opts : Options} {e : ZipEntry} {alignTo : UInt32}
    (h : NeedsAlignment opts e alignTo) (P : UInt32 → Prop) :
    (∀ alignTo', NeedsAlignment opts e alignTo' → P alignTo') ↔ P alignTo := by
  constructor
  · intro hall
    exact hall alignTo h
  · intro hP alignTo' h'
    have heq : some alignTo = some alignTo' := h.2.2.symm.trans h'.2.2
    cases heq
    exact hP

/-- Compressed entries and directories need no alignment. -/
theorem not_needsAlignment {opts : Options} {e : ZipEntry}
    (h : e.isCompressed = true ∨ isDirectory e = some true) (alignTo : UInt32) :
    ¬ NeedsAlignment opts e alignTo := by
  rintro ⟨hstored, hfile, -⟩
  obtain hcompressed | hdirectory := h
  · rw [hstored] at hcompressed
    cases hcompressed
  · rw [hfile] at hdirectory
    cases hdirectory

/-- The calls of `copyAndAlign`: stored files are aligned, everything else is copied as it is. -/
theorem copyOp_cases {opts : Options} {memory : Memory} {zin : ZipFile} {e : ZipEntry} {op : Op}
    (h : copyOp opts memory zin e = some op) :
    (∃ alignTo, NeedsAlignment opts e alignTo ∧ op = .add memory zin e alignTo)
    ∨ ((e.isCompressed = true ∨ isDirectory e = some true)
      ∧ op = if opts.zopfli then .addRecompress memory zin e else .add memory zin e 0) := by
  rw [copyOp] at h
  by_cases hcompressed : e.isCompressed = true
  · simp only [hcompressed, if_true, Option.bind_eq_bind, Option.bind_some, Option.pure_def] at h
    cases h
    exact .inr ⟨.inl hcompressed, rfl⟩
  · simp only [hcompressed, Bool.false_eq_true, if_false, Option.bind_eq_bind, Option.pure_def] at h
    obtain ⟨directory, hdirectory, h⟩ := Option.bind_eq_some_iff.mp h
    cases directory with
    | true =>
        cases h
        exact .inr ⟨.inr hdirectory, rfl⟩
    | false =>
        obtain ⟨alignTo, halign, h⟩ := Option.bind_eq_some_iff.mp h
        cases h
        exact .inl ⟨alignTo, ⟨by simpa using hcompressed, hdirectory, halign⟩, rfl⟩

/-- The call copies the entry. -/
theorem entry_of_copyOp {opts : Options} {memory : Memory} {zin : ZipFile} {e : ZipEntry} {op : Op}
    (h : copyOp opts memory zin e = some op) : op.entry = e := by
  obtain ⟨alignTo, -, rfl⟩ | ⟨-, rfl⟩ := copyOp_cases h
  · rfl
  · split <;> rfl

/-! ## Padding -/

/-- The position of the payload when an entry is written at a position as it is. -/
def expectedPayloadOffset (position : ℕ) (e : ZipEntry) : ℕ :=
  position + LocalFileHeader.kLFHLen + e.cde.fileName.bytes.length + e.lfh.extraField.bytes.length

/-- The padding that takes the payload to the next multiple of `alignTo`. -/
def paddingFor (position : ℕ) (e : ZipEntry) (alignTo : UInt32) : ℕ :=
  (alignTo.toNat - expectedPayloadOffset position e % alignTo.toNat) % alignTo.toNat

/-- With the padding, the payload is aligned. -/
theorem dvd_expectedPayloadOffset_add (position : ℕ) (e : ZipEntry) {alignTo : UInt32}
    (hpos : 0 < alignTo.toNat) :
    alignTo.toNat ∣ expectedPayloadOffset position e + paddingFor position e alignTo := by
  have hlt := Nat.mod_lt (expectedPayloadOffset position e) hpos
  rw [Nat.dvd_iff_mod_eq_zero, paddingFor, Nat.add_mod_mod, ← Nat.mod_add_mod,
    Nat.add_sub_cancel' hlt.le, Nat.mod_self]

/-- The extra field of an aligned entry: the old one with the padding behind it, as far as the
16-bit length counts. -/
theorem extraField_of_alignEntry {position : ℕ} {memory : Memory} {e e' : ZipEntry}
    {alignTo : UInt32} (hpos : 0 < alignTo.toNat)
    (h : ZipFile.alignEntry position (ZipEntry.initFromExternal memory e) alignTo = some e') :
    e'.lfh.extraField.bytes
      = (e.lfh.extraField.bytes ++ List.replicate (paddingFor position e alignTo) 0).take
          ((e.lfh.extraField.bytes.length + paddingFor position e alignTo) % 65536) := by
  have hexpected : position + LocalFileHeader.kLFHLen
        + (ZipEntry.initFromExternal memory e).lfh.fileName.bytes.length
        + (ZipEntry.initFromExternal memory e).lfh.extraField.bytes.length
      = expectedPayloadOffset position e := by
    simp [ZipEntry.initFromExternal, ZipEntry.copyCDEtoLFH, expectedPayloadOffset]
  have hlt := Nat.mod_lt (expectedPayloadOffset position e) hpos
  -- without padding the field stays as it is
  have hsame (hzero : paddingFor position e alignTo = 0) : e.lfh.extraField.bytes
      = (e.lfh.extraField.bytes ++ List.replicate (paddingFor position e alignTo) 0).take
          ((e.lfh.extraField.bytes.length + paddingFor position e alignTo) % 65536) := by
    rw [hzero, List.replicate_zero, List.append_nil, add_zero,
      Nat.mod_eq_of_lt e.lfh.extraField.length_lt, List.take_length]
  rw [ZipFile.alignEntry] at h
  split at h
  next hone =>
    cases h
    apply hsame
    obtain rfl | rfl := hone
    · simp at hpos
    · simp [paddingFor, Nat.mod_one]
  next hone =>
    simp only [hexpected] at h
    split at h
    next halign =>
      cases h
      apply hsame
      rw [paddingFor, halign, Nat.mod_self]
    next halign =>
      have hpadding : paddingFor position e alignTo
          = alignTo.toNat - expectedPayloadOffset position e % alignTo.toNat := by
        rw [paddingFor, Nat.mod_eq_of_lt (by omega)]
      rw [ZipEntry.addPadding] at h
      split at h
      · cases h
      · cases h
        rw [hpadding]
        rfl

/-- The alignment of an entry is the default one or the page size. -/
theorem getAlignment_cases {opts : Options} {e : ZipEntry} {alignTo : UInt32}
    (h : getAlignment opts e = some alignTo) :
    alignTo = opts.alignment ∨ alignTo = opts.pageSize := by
  rw [getAlignment] at h
  split at h
  · cases h
    exact .inl rfl
  · simp only [Option.bind_eq_bind, Option.pure_def] at h
    obtain ⟨name, -, h⟩ := Option.bind_eq_some_iff.mp h
    cases h
    split
    · exact .inr rfl
    · exact .inl rfl

/-- Alignments are positive. -/
theorem getAlignment_pos {opts : Options} {e : ZipEntry} {alignTo : UInt32}
    (h : getAlignment opts e = some alignTo) : 0 < alignTo.toNat := by
  obtain rfl | rfl := getAlignment_cases h
  · exact opts.alignment_pos
  · have hvalid := opts.pageSize_valid
    simp only [List.mem_cons, List.not_mem_nil, or_false] at hvalid
    obtain h | h | h := hvalid <;> rw [h] <;> decide

/-- The padding for the next entry does not push any of its extra field out of the 16-bit length. -/
def KeepsExtra (opts : Options) (zout : ZipFile) (e : ZipEntry) : Prop :=
  ∀ alignTo, NeedsAlignment opts e alignTo → e.lfh.extraField.bytes.length
    ≤ (e.lfh.extraField.bytes.length
      + paddingFor zout.eocd.centralDirOffset.toNat e alignTo) % 65536

/-- What the 16-bit length of the extra field of the next entry loses is a multiple of the
alignment. -/
def KeepsAlignment (opts : Options) (zout : ZipFile) (e : ZipEntry) : Prop :=
  ∀ alignTo, NeedsAlignment opts e alignTo → alignTo.toNat ∣ 65536
    * ((e.lfh.extraField.bytes.length
      + paddingFor zout.eocd.centralDirOffset.toNat e alignTo) / 65536)

/-- The extra field is the old one with padding behind it. -/
def Padded (old new : VarField) : Prop := ∃ n, new.bytes = old.bytes ++ List.replicate n 0

/-- The payload of an entry is aligned, if it is a stored file. -/
def Aligned (opts : Options) (e : ZipEntry) : Prop :=
  ∀ alignTo, NeedsAlignment opts e alignTo → alignTo.toNat ∣ e.getFileOffset

section Step

variable {codec : Codec} {opts : Options} {memory : Memory} {zin : ZipFile} {items : List Item}
  {e : ZipEntry} {op : Op} {item : Item}

/-- Whether a step keeps the extra field. -/
theorem keepsExtra_iff (hop : copyOp opts memory zin e = some op)
    (hitem : op.record codec (records items).length = some item)
    (hsize : (records items).length + (recordBytes item).length < 2 ^ 32) :
    KeepsExtra opts (archiveOf items) e ↔ Padded e.lfh.extraField item.1.lfh.extraField := by
  have hposition : (archiveOf items).eocd.centralDirOffset.toNat = (records items).length :=
    toNat_centralDirOffset_archiveOf (by omega)
  obtain ⟨alignTo, hneeds, rfl⟩ | ⟨hplain, rfl⟩ := copyOp_cases hop
  · obtain ⟨e', data, halign, -, rfl⟩ := record_add_eq_some hitem
    have hextra := extraField_of_alignEntry (getAlignment_pos hneeds.2.2) halign
    let extra := e.lfh.extraField.bytes
    let padding := paddingFor (records items).length e alignTo
    have hpadded : Padded e.lfh.extraField e'.lfh.extraField
        ↔ extra.length ≤ (extra.length + padding) % 65536 := by
      rw [Padded, hextra]
      constructor
      · rintro ⟨n, hn⟩
        have := congrArg List.length hn
        simp only [List.length_take, List.length_append, List.length_replicate] at this
        simp only [extra, padding]
        omega
      · intro hle
        exact ⟨_, by rw [List.take_append, List.take_of_length_le hle, List.take_replicate]⟩
    rw [ZipEntry.lfh_setLFHOffset, hpadded, KeepsExtra, forall_needsAlignment_iff hneeds, hposition]
  · have hsame : item.1.lfh.extraField = e.lfh.extraField := by
      split at hitem
      · obtain ⟨-, buf, -, rfl⟩ | ⟨-, data, -, rfl⟩ := record_addRecompress_eq_some hitem
        · rfl
        · rfl
      · obtain ⟨e', data, halign, -, rfl⟩ := record_add_eq_some hitem
        cases halign
        rfl
    rw [hsame]
    constructor
    · intro _
      exact ⟨0, by simp⟩
    · intro _ alignTo hneeds
      exact absurd hneeds (not_needsAlignment hplain alignTo)

/-- Whether a step keeps the alignment. -/
theorem keepsAlignment_iff (hop : copyOp opts memory zin e = some op)
    (hitem : op.record codec (records items).length = some item)
    (hsize : (records items).length + (recordBytes item).length < 2 ^ 32) :
    KeepsAlignment opts (archiveOf items) e ↔ Aligned opts item.1 := by
  have hposition : (archiveOf items).eocd.centralDirOffset.toNat = (records items).length :=
    toNat_centralDirOffset_archiveOf (by omega)
  obtain ⟨hcompressed, hdirectory, halignment⟩ := Op.record_class opts hitem
  have hneeds_iff (alignTo : UInt32) :
      NeedsAlignment opts item.1 alignTo ↔ NeedsAlignment opts e alignTo := by
    rw [NeedsAlignment, NeedsAlignment, hcompressed, hdirectory, halignment, entry_of_copyOp hop]
  obtain ⟨alignTo, hneeds, rfl⟩ | ⟨hplain, rfl⟩ := copyOp_cases hop
  · obtain ⟨e', data, halign, -, rfl⟩ := record_add_eq_some hitem
    have hextra := extraField_of_alignEntry (getAlignment_pos hneeds.2.2) halign
    have hdvd := dvd_expectedPayloadOffset_add (records items).length e (getAlignment_pos hneeds.2.2)
    have hname : e'.lfh.fileName.bytes.length = e.cde.fileName.bytes.length := by
      obtain ⟨extra, rfl⟩ := alignEntry_eq_some halign
      simp [ZipEntry.initFromExternal, ZipEntry.copyCDEtoLFH]
    -- the payload lies where it was expected with the padding, less what the 16-bit length loses
    have hoffset : (e'.setLFHOffset (records items).length).getFileOffset
          + 65536 * ((e.lfh.extraField.bytes.length
            + paddingFor (records items).length e alignTo) / 65536)
        = expectedPayloadOffset (records items).length e
          + paddingFor (records items).length e alignTo := by
      have hlength := congrArg List.length hextra
      rw [List.length_take, List.length_append, List.length_replicate,
        min_eq_left (Nat.mod_le _ _)] at hlength
      have hdiv := Nat.div_add_mod (e.lfh.extraField.bytes.length
        + paddingFor (records items).length e alignTo) 65536
      rw [recordBytes, List.length_append, ZipEntry.lfh_setLFHOffset,
        LocalFileHeader.length_write] at hsize
      have hstart : (e'.setLFHOffset (records items).length).cde.localHeaderRelOffset.toNat
          = (records items).length :=
        UInt32.toNat_ofNat_of_lt' (show _ < 2 ^ 32 by omega)
      rw [ZipEntry.getFileOffset, hstart, ZipEntry.lfh_setLFHOffset, Nat.mod_eq_of_lt (by omega),
        expectedPayloadOffset]
      omega
    rw [← hoffset] at hdvd
    rw [KeepsAlignment, Aligned, forall_needsAlignment_iff hneeds,
      forall_needsAlignment_iff ((hneeds_iff alignTo).mpr hneeds), hposition]
    constructor
    · intro hlost
      exact (Nat.dvd_add_left hlost).mp hdvd
    · intro haligned
      exact (Nat.dvd_add_right haligned).mp hdvd
  · constructor
    · intro _ alignTo hneeds
      exact absurd ((hneeds_iff alignTo).mp hneeds) (not_needsAlignment hplain alignTo)
    · intro _ alignTo hneeds
      exact absurd hneeds (not_needsAlignment hplain alignTo)

end Step

end AndroidSdk.Zip
