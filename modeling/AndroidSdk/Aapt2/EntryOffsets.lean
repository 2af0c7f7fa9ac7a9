import AndroidSdk.Lib.Run
import AndroidSdk.Aapt2.BinaryTable

/-! # The offsets of entries

`FlattenConfig` (`TableFlattener.cpp`) writes the entries of a type for one configuration into a
buffer, with one of two writers (`ResEntryWriter.h`), and in front of them their offsets: for all
identifiers in 32 or in 16 bits, or only for those that are used. A missing entry has a mark instead
of an offset, all ones in 32 and in 16 bits, and is left out otherwise. Of an entry only the size
counts here, and for the writer that drops duplicates its bytes.

* **`EntriesBuffer.write`** — `ResEntryWriter::Write`.
* **`flattenIndices`** — the offsets of `FlattenConfig`.
* **`EntryIndices.Present`** — an identifier has an offset, and not the mark.
* **`exists_flattenIndices`** — the checks are passed.
* **`present_of_flattenIndices`** — no entry is taken for a missing one. -/

namespace AndroidSdk.Aapt2

open Lib

variable {ι : Type}

/-! ## Writing -/

/-- `ResTable_type::NO_ENTRY`. -/
def noEntry : BitVec 32 := 0xffffffff

/-- `SparseEntriesMode`. -/
inductive SparseEntriesMode where
  | disabled | enabled | forced
  deriving DecidableEq

/-- What decides on the form of entries: some of the options of `TableFlattener`, and the smallest
SDK version of the context. -/
structure EntryOptions where
  sparseEntries : SparseEntriesMode
  useCompactEntries : Bool
  deduplicateEntryValues : Bool
  minSdkVersion : ℤ

/-- What the writers put into the buffer: an item with its bytes, or a map with some pairs. -/
inductive EntryLayout where
  | item (content : Bytes)
  | map (count : ℕ)

/-- The buffer of the values: its size, and where items are that the writer can use again. -/
structure EntriesBuffer where
  size : ℕ
  entryOffsets : List (Bytes × BitVec 32)

/-- `UseCompactEntries`. -/
def EntryOptions.compact (opts : EntryOptions) (entries : List (FlatEntry ι)) : Bool :=
  opts.useCompactEntries ∧ opts.minSdkVersion > 33 ∧ ∀ e ∈ entries, e.entryKey < 65535

/-- The size of an item: `ResTable_entry`, with a `Res_value` behind it unless it is compact. -/
def itemSize (compact : Bool) : ℕ := if compact then 8 else 16

/-- `WriteItem` of `SequentialResEntryWriter`, and of `DeduplicateItemsResEntryWriter`, which gives
the block of a duplicate back. -/
def EntriesBuffer.writeItem (deduplicate compact : Bool) (content : Bytes) (buffer : EntriesBuffer) :
    BitVec 32 × EntriesBuffer :=
  let offset := BitVec.ofNat 32 buffer.size
  if deduplicate then
    match buffer.entryOffsets.lookup content with
    | some found => (found, buffer)
    | none => (offset, ⟨buffer.size + itemSize compact, (content, offset) :: buffer.entryOffsets⟩)
  else (offset, { buffer with size := buffer.size + itemSize compact })

/-- `ResEntryWriter::Write`: the offset of the entry. -/
def EntriesBuffer.write (deduplicate compact : Bool) (layout : EntryLayout) (buffer : EntriesBuffer) :
    BitVec 32 × EntriesBuffer :=
  match layout with
  | .item content => buffer.writeItem deduplicate compact content
  | .map count => (.ofNat 32 buffer.size, { buffer with size := buffer.size + (16 + 12 * count) })

/-- What the loop of `FlattenConfig` does with an entry. -/
def writeEntry (deduplicate compact : Bool) (layout : FlatEntry ι → EntryLayout)
    (numTotalEntries : ℕ) (s : List (BitVec 32) × EntriesBuffer) (flat : FlatEntry ι) :
    Except FlattenError (List (BitVec 32) × EntriesBuffer) := do
  let id ← valueOrAbort flat.entry.id
  if id.toNat < numTotalEntries then
    let (offset, buffer) := s.2.write deduplicate compact (layout flat)
    return (s.1.set id.toNat offset, buffer)
  else throw .aborted

/-- The offsets in front of the entries. -/
inductive EntryIndices where
  /-- `ResTable_sparseTypeEntry`: an identifier and a fourth of its offset. -/
  | sparse (indices : List (BitVec 16 × BitVec 16))
  | offset16 (offsets : List (BitVec 16))
  | offset32 (offsets : List (BitVec 32))

/-- A fourth of an offset, in 16 bits. -/
def shortOffset (offset : BitVec 32) : BitVec 16 := .ofNat 16 (offset.toNat / 4)

/-- Whether the entries are encoded sparsely, if their offsets are short or not. -/
def EntryOptions.sparseEncode (opts : EntryOptions) (shortOffsets : Bool)
    (numEntries numTotalEntries : ℕ) : Bool :=
  opts.sparseEntries ≠ .disabled
    ∧ (opts.minSdkVersion ≥ 32 ∨ opts.minSdkVersion = 0 ∧ opts.sparseEntries = .forced)
    ∧ shortOffsets = true ∧ 100 * numEntries / numTotalEntries < 60

/-- The offsets of `FlattenConfig`, as they are calculated and as they are written. What an entry
takes depends on whether the entries are compact. -/
def flattenIndices (opts : EntryOptions) (layout : Bool → FlatEntry ι → EntryLayout)
    (numTotalEntries : ℕ) (entries : List (FlatEntry ι)) :
    Except FlattenError (List (BitVec 32) × EntryIndices) := do
  if numTotalEntries = 0 then throw .aborted
  if numTotalEntries > 65535 then throw .aborted
  let compact := opts.compact entries
  let (offsets, buffer) ← entries.foldlM
    (writeEntry opts.deduplicateEntryValues compact (layout compact) numTotalEntries)
    (List.replicate numTotalEntries noEntry, ⟨0, []⟩)
  let shortOffsets : Bool := buffer.size / 4 < 65535
  if opts.sparseEncode shortOffsets entries.length numTotalEntries then
    let used := offsets.zipIdx.filter fun p => p.1 ≠ noEntry
    if used.any fun p => p.1.toNat % 4 ≠ 0 then throw .aborted
    return (offsets, .sparse (used.map (fun p => (.ofNat 16 p.2, shortOffset p.1))
      ++ List.replicate (entries.length - used.length) (0, 0)))
  else if compact && shortOffsets then return (offsets, .offset16 (offsets.map shortOffset))
  else return (offsets, .offset32 offsets)

/-- The identifier has this offset where the offsets are written, and not the mark of a missing
entry. -/
def EntryIndices.Present (indices : EntryIndices) (i : ℕ) (offset : BitVec 32) : Prop :=
  match indices with
  | .sparse indices => (.ofNat 16 i, shortOffset offset) ∈ indices
  | .offset16 offsets => offsets[i]? = some (shortOffset offset) ∧ shortOffset offset ≠ 0xffff
  | .offset32 offsets => offsets[i]? = some offset ∧ offset ≠ noEntry

/-! ## Positions in the buffer -/

/-- An offset of something in a buffer of the given size, in 32 bits. -/
def PlacedAt (size : ℕ) (offset : BitVec 32) : Prop :=
  ∃ n < size, n % 4 = 0 ∧ offset = .ofNat 32 n

/-- It is not the mark of a missing entry, and a multiple of four. -/
theorem PlacedAt.toNat {size : ℕ} {offset : BitVec 32} (h : PlacedAt size offset) :
    offset ≠ noEntry ∧ offset.toNat % 4 = 0 := by
  obtain ⟨n, -, hn, rfl⟩ := h
  have hmod : (BitVec.ofNat 32 n).toNat % 4 = 0 := by
    rw [BitVec.toNat_ofNat]
    omega
  refine ⟨fun heq => ?_, hmod⟩
  rw [heq] at hmod
  exact absurd hmod (by decide)

/-- The buffer may become longer. -/
theorem PlacedAt.mono {size size' : ℕ} {offset : BitVec 32} (h : PlacedAt size offset)
    (hle : size ≤ size') : PlacedAt size' offset := by
  obtain ⟨n, hlt, hn, rfl⟩ := h
  exact ⟨n, Nat.lt_of_lt_of_le hlt hle, hn, rfl⟩

/-- A short offset is not the mark, either. -/
theorem PlacedAt.short {size : ℕ} {offset : BitVec 32} (h : PlacedAt size offset)
    (hshort : size / 4 < 65535) : shortOffset offset ≠ 0xffff := by
  obtain ⟨n, hlt, hn, rfl⟩ := h
  have htoNat : (shortOffset (.ofNat 32 n)).toNat = n / 4 := by
    rw [shortOffset, BitVec.toNat_ofNat, BitVec.toNat_ofNat]
    omega
  intro heq
  rw [heq] at htoNat
  have hmax : (0xffff : BitVec 16).toNat = 65535 := by decide
  omega

/-- The invariant of the buffer. -/
structure EntriesBuffer.Wf (buffer : EntriesBuffer) : Prop where
  size : buffer.size % 4 = 0
  entryOffsets : ∀ p ∈ buffer.entryOffsets, PlacedAt buffer.size p.2

/-- An item takes space, in units of four. -/
theorem itemSize_spec (compact : Bool) : 0 < itemSize compact ∧ itemSize compact % 4 = 0 := by
  cases compact <;> decide

/-- **What `Write` does**: the offset is in the buffer, which does not become shorter. -/
theorem EntriesBuffer.Wf.write {buffer : EntriesBuffer} (h : buffer.Wf) (deduplicate compact : Bool)
    (layout : EntryLayout) :
    (buffer.write deduplicate compact layout).2.Wf
      ∧ buffer.size ≤ (buffer.write deduplicate compact layout).2.size
      ∧ PlacedAt (buffer.write deduplicate compact layout).2.size
        (buffer.write deduplicate compact layout).1 := by
  -- what is written at the end of the buffer
  have happend : ∀ {n}, 0 < n → n % 4 = 0 →
      (∀ offsets, (offsets = buffer.entryOffsets ∨ ∃ content,
          offsets = (content, BitVec.ofNat 32 buffer.size) :: buffer.entryOffsets) →
        (⟨buffer.size + n, offsets⟩ : EntriesBuffer).Wf)
        ∧ PlacedAt (buffer.size + n) (.ofNat 32 buffer.size) := by
    intro n hpos hn
    have hplaced : PlacedAt (buffer.size + n) (.ofNat 32 buffer.size) :=
      ⟨buffer.size, Nat.lt_add_of_pos_right hpos, h.size, rfl⟩
    have hold : ∀ p ∈ buffer.entryOffsets, PlacedAt (buffer.size + n) p.2 := fun p hp =>
      (h.entryOffsets p hp).mono (Nat.le_add_right _ _)
    have hsize := h.size
    refine ⟨fun offsets hoffsets => ⟨by show (buffer.size + n) % 4 = 0; omega, ?_⟩, hplaced⟩
    rcases hoffsets with rfl | ⟨content, rfl⟩
    · exact hold
    · exact List.forall_mem_cons.mpr ⟨hplaced, hold⟩
  cases layout with
  | map count =>
      obtain ⟨hwf, hplaced⟩ := happend (n := 16 + 12 * count) (by omega) (by omega)
      exact ⟨hwf _ (.inl rfl), Nat.le_add_right _ _, hplaced⟩
  | item content =>
      obtain ⟨hpos, hmod⟩ := itemSize_spec compact
      obtain ⟨hwf, hplaced⟩ := happend hpos hmod
      rw [EntriesBuffer.write, EntriesBuffer.writeItem]
      cases deduplicate with
      | false => exact ⟨hwf _ (.inl rfl), Nat.le_add_right _ _, hplaced⟩
      | true =>
          rw [if_pos rfl]
          split
          next found hfound =>
            obtain ⟨before, behind, heq, -⟩ := List.lookup_eq_some_iff.mp hfound
            exact ⟨h, Nat.le_refl _, h.entryOffsets (content, found) (by simp [heq])⟩
          next => exact ⟨hwf _ (.inr ⟨content, rfl⟩), Nat.le_add_right _ _, hplaced⟩

/-! ## The loop -/

/-- An identifier has an offset in the buffer. -/
def HasOffset (s : List (BitVec 32) × EntriesBuffer) (i : ℕ) : Prop :=
  ∃ offset, s.1[i]? = some offset ∧ PlacedAt s.2.size offset

/-- The invariant of the loop: an offset is the mark or in the buffer. -/
structure OffsetsWf (s : List (BitVec 32) × EntriesBuffer) : Prop where
  buffer : s.2.Wf
  offsets : ∀ offset ∈ s.1, offset = noEntry ∨ PlacedAt s.2.size offset

section Loop

variable {deduplicate compact : Bool} {layout : FlatEntry ι → EntryLayout} {numTotalEntries : ℕ}
  {s s' : List (BitVec 32) × EntriesBuffer}

/-- **What one turn does**: the entry gets an offset in the buffer, and those that others have got
stay in it. -/
theorem writeEntry_spec {flat : FlatEntry ι} (hs : OffsetsWf s) (hlength : s.1.length = numTotalEntries)
    (h : writeEntry deduplicate compact layout numTotalEntries s flat = .ok s') :
    OffsetsWf s' ∧ s'.1.length = numTotalEntries ∧ (∀ i, HasOffset s i → HasOffset s' i)
      ∧ ∀ id, flat.entry.id = some id → HasOffset s' id.toNat := by
  obtain ⟨id, hid, h⟩ := bind_eq_ok_iff.mp h
  split at h
  next hlt =>
    cases h
    obtain ⟨hwf, hle, hplaced⟩ := hs.buffer.write deduplicate compact (layout flat)
    have hhere : HasOffset (s.1.set id.toNat (s.2.write deduplicate compact (layout flat)).1,
        (s.2.write deduplicate compact (layout flat)).2) id.toNat :=
      ⟨_, List.getElem?_set_self (by omega), hplaced⟩
    refine ⟨⟨hwf, fun offset hoffset => ?_⟩, by rw [List.length_set, hlength], fun i hi => ?_,
      fun id' hid' => ?_⟩
    · rcases List.mem_or_eq_of_mem_set hoffset with hold | rfl
      · exact (hs.offsets offset hold).imp_right fun h => h.mono hle
      · exact .inr hplaced
    · by_cases hsame : id.toNat = i
      · exact hsame ▸ hhere
      · obtain ⟨offset, hoffset, hold⟩ := hi
        exact ⟨offset, by rw [List.getElem?_set_ne hsame, hoffset], hold.mono hle⟩
    · rw [hid'] at hid
      cases hid
      exact hhere
  next => cases h

/-- **What the loop does**: every entry has an offset in the buffer. -/
theorem foldlM_writeEntry_spec {entries : List (FlatEntry ι)} (hs : OffsetsWf s)
    (hlength : s.1.length = numTotalEntries)
    (h : entries.foldlM (writeEntry deduplicate compact layout numTotalEntries) s = .ok s') :
    OffsetsWf s' ∧ s'.1.length = numTotalEntries ∧ (∀ i, HasOffset s i → HasOffset s' i)
      ∧ ∀ flat ∈ entries, ∀ id, flat.entry.id = some id → HasOffset s' id.toNat := by
  induction entries generalizing s with
  | nil =>
      cases h
      exact ⟨hs, hlength, fun _ hi => hi, fun _ hflat => absurd hflat List.not_mem_nil⟩
  | cons flat entries ih =>
      rw [List.foldlM_cons] at h
      obtain ⟨t, ht, h⟩ := bind_eq_ok_iff.mp h
      obtain ⟨hwf, hlength', hkeep, hhere⟩ := writeEntry_spec hs hlength ht
      obtain ⟨hwf', hlength'', hkeep', hrest⟩ := ih hwf hlength' h
      exact ⟨hwf', hlength'', fun i hi => hkeep' i (hkeep i hi), List.forall_mem_cons.mpr
        ⟨fun id hid => hkeep' _ (hhere id hid), hrest⟩⟩

/-- The loop succeeds if the identifiers are there and small enough. -/
theorem exists_foldlM_writeEntry (deduplicate compact : Bool) (layout : FlatEntry ι → EntryLayout)
    (s : List (BitVec 32) × EntriesBuffer) {entries : List (FlatEntry ι)}
    (hids : ∀ flat ∈ entries, ∃ id, flat.entry.id = some id ∧ id.toNat < numTotalEntries) :
    ∃ s', entries.foldlM (writeEntry deduplicate compact layout numTotalEntries) s = .ok s' := by
  induction entries generalizing s with
  | nil => exact ⟨s, rfl⟩
  | cons flat entries ih =>
      obtain ⟨⟨id, hid, hlt⟩, hrest⟩ := List.forall_mem_cons.mp hids
      have hstep : writeEntry deduplicate compact layout numTotalEntries s flat
          = .ok (s.1.set id.toNat (s.2.write deduplicate compact (layout flat)).1,
            (s.2.write deduplicate compact (layout flat)).2) := by
        rw [writeEntry, hid]
        show (if id.toNat < numTotalEntries then _ else _) = _
        rw [if_pos hlt]
        rfl
      obtain ⟨s', hs'⟩ := ih _ hrest
      exact ⟨s', by rw [List.foldlM_cons, hstep]; exact hs'⟩

end Loop

/-- The offsets at first. -/
theorem offsetsWf_replicate (n : ℕ) : OffsetsWf (List.replicate n noEntry, ⟨0, []⟩) where
  buffer := ⟨rfl, fun _ hp => absurd hp List.not_mem_nil⟩
  offsets := fun _ hoffset => .inl (List.eq_of_mem_replicate hoffset)

/-! ## The offsets in front -/

section Indices

variable {opts : EntryOptions} {layout : Bool → FlatEntry ι → EntryLayout} {numTotalEntries : ℕ}
  {entries : List (FlatEntry ι)}

/-- What is written, if the loop succeeds. -/
theorem flattenIndices_of_loop {offsets : List (BitVec 32)} {buffer : EntriesBuffer}
    (hpos : 0 < numTotalEntries) (hmax : numTotalEntries ≤ 65535)
    (hloop : entries.foldlM (writeEntry opts.deduplicateEntryValues (opts.compact entries)
        (layout (opts.compact entries)) numTotalEntries)
      (List.replicate numTotalEntries noEntry, ⟨0, []⟩) = .ok (offsets, buffer)) :
    flattenIndices opts layout numTotalEntries entries = .ok (offsets,
      if opts.sparseEncode (buffer.size / 4 < 65535) entries.length numTotalEntries then
        .sparse ((offsets.zipIdx.filter fun p => p.1 ≠ noEntry).map
            (fun p => (.ofNat 16 p.2, shortOffset p.1))
          ++ List.replicate
            (entries.length - (offsets.zipIdx.filter fun p => p.1 ≠ noEntry).length) (0, 0))
      else if opts.compact entries && decide (buffer.size / 4 < 65535) then
        .offset16 (offsets.map shortOffset)
      else .offset32 offsets) := by
  obtain ⟨hwf, -⟩ := foldlM_writeEntry_spec (offsetsWf_replicate numTotalEntries)
    List.length_replicate hloop
  have hchecks : ((offsets.zipIdx.filter fun p => p.1 ≠ noEntry).any
      fun p => p.1.toNat % 4 ≠ 0) = false := by
    rw [List.any_eq_false]
    intro p hp
    obtain ⟨hp, hused⟩ := List.mem_filter.mp hp
    have hoffset := hwf.offsets p.1 (List.fst_mem_of_mem_zipIdx hp)
    rcases hoffset with hmark | hplaced
    · exact absurd hmark (by simpa using hused)
    · simpa using hplaced.toNat.2
  rw [flattenIndices, if_neg (Nat.ne_of_gt hpos), if_neg (Nat.not_lt.mpr hmax)]
  simp only [hloop, bind, Except.bind, pure, Except.pure]
  split_ifs with hsparse hcheck hshort
  · rw [hchecks] at hcheck
    exact absurd hcheck (by simp)
  · rfl
  · rfl
  · rfl

/-- **The checks are passed**: there are identifiers, not too many, and those of the entries are
smaller. -/
theorem exists_flattenIndices (opts : EntryOptions)
    (layout : Bool → FlatEntry ι → EntryLayout) (hpos : 0 < numTotalEntries)
    (hmax : numTotalEntries ≤ 65535)
    (hids : ∀ flat ∈ entries, ∃ id, flat.entry.id = some id ∧ id.toNat < numTotalEntries) :
    ∃ offsets indices,
      flattenIndices opts layout numTotalEntries entries = .ok (offsets, indices) := by
  obtain ⟨⟨offsets, buffer⟩, hloop⟩ := exists_foldlM_writeEntry opts.deduplicateEntryValues
    (opts.compact entries) (layout (opts.compact entries))
    (List.replicate numTotalEntries noEntry, ⟨0, []⟩) hids
  exact ⟨offsets, _, flattenIndices_of_loop hpos hmax hloop⟩

/-- **No entry is taken for a missing one**: it has an offset, and not the mark. -/
theorem present_of_flattenIndices {offsets : List (BitVec 32)} {indices : EntryIndices}
    (h : flattenIndices opts layout numTotalEntries entries = .ok (offsets, indices))
    {flat : FlatEntry ι} (hflat : flat ∈ entries) {id : BitVec 16} (hid : flat.entry.id = some id) :
    ∃ offset, offsets[id.toNat]? = some offset ∧ offset ≠ noEntry
      ∧ indices.Present id.toNat offset := by
  have hpos : 0 < numTotalEntries := by
    by_contra hzero
    rw [flattenIndices, if_pos (by omega)] at h
    cases h
  have hmax : numTotalEntries ≤ 65535 := by
    by_contra hlarge
    rw [flattenIndices, if_neg (by omega), if_pos (by omega)] at h
    cases h
  cases hloop : entries.foldlM (writeEntry opts.deduplicateEntryValues (opts.compact entries)
      (layout (opts.compact entries)) numTotalEntries)
      (List.replicate numTotalEntries noEntry, ⟨0, []⟩) with
  | error e =>
      rw [flattenIndices, if_neg (Nat.ne_of_gt hpos), if_neg (Nat.not_lt.mpr hmax)] at h
      simp only [hloop, bind, Except.bind] at h
      cases h
  | ok s =>
      obtain ⟨offsets', buffer⟩ := s
      rw [flattenIndices_of_loop hpos hmax hloop, Except.ok.injEq, Prod.mk.injEq] at h
      obtain ⟨rfl, rfl⟩ := h
      obtain ⟨-, hlength, -, hall⟩ := foldlM_writeEntry_spec (offsetsWf_replicate numTotalEntries)
        List.length_replicate hloop
      obtain ⟨offset, hoffset, hplaced⟩ := hall flat hflat id hid
      replace hlength : offsets'.length = numTotalEntries := hlength
      replace hplaced : PlacedAt buffer.size offset := hplaced
      have hmark := hplaced.toNat.1
      refine ⟨offset, hoffset, hmark, ?_⟩
      split_ifs with hsparse hshort
      · -- an offset that is not the mark is not left out
        refine List.mem_append_left _ (List.mem_map.mpr ⟨(offset, id.toNat), ?_, rfl⟩)
        rw [List.mem_filter, List.mk_mem_zipIdx_iff_getElem?]
        exact ⟨hoffset, by simpa using hmark⟩
      · rw [Bool.and_eq_true, decide_eq_true_iff] at hshort
        exact ⟨by rw [List.getElem?_map, hoffset, Option.map_some], hplaced.short hshort.2⟩
      · exact ⟨hoffset, hmark⟩

end Indices

end AndroidSdk.Aapt2
