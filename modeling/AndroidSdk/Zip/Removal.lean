import AndroidSdk.Zip.RoundTrip

/-! # Removing entries from an archive

Entries are marked with `remove` and taken out by the next `flush`, which shifts the later records
down within the file. An archive that is edited so has in general some dead bytes before its first
record (the first record, at offset 0, is never overwritten) and some behind its last one.

* **`Edit`**, **`runEdits`** — runs of additions, removals and flushes on an archive.
* **`filemove_eq`**, **`crunchLoop_eq`** — the loops of `filemove` and `crunchArchive`.
* **`Built`** — the archive with dead bytes, records and further bytes: the invariant of runs.
* **`Built.flush`**, **`Built.of_runEdits`** — what `flush` makes of such an archive, and that runs
  below 4 GiB lead to such archives only.
* **`leavesUnmarked_iff`** — when `flush` leaves the unmarked entries and a consistent archive. -/

namespace AndroidSdk.Zip

open Lib

/-! ## Runs -/

/-- A step of an editor of an archive. -/
inductive Edit where
  /-- An entry of another archive is added. -/
  | add (op : Op)
  /-- The entry with an index is marked as removed. -/
  | remove (index : ℕ)
  /-- The archive is flushed. -/
  | flush

/-- The archive after a step. -/
def Edit.apply (codec : Codec) (z : ZipFile) : Edit → Option ZipFile
  | .add op => op.apply codec z
  | .remove index => some (z.remove index)
  | .flush => z.flush

/-- The archive after a sequence of steps. -/
def runEdits (codec : Codec) (z : ZipFile) : List Edit → Option ZipFile
  | [] => some z
  | edit :: edits => (edit.apply codec z).bind fun z' => runEdits codec z' edits

/-- Every archive of a run takes less than 4 GiB. -/
def StaysBelow (codec : Codec) (z : ZipFile) : List Edit → Prop
  | [] => z.file.length < 2 ^ 32
  | edit :: edits => z.file.length < 2 ^ 32
      ∧ ∀ z', edit.apply codec z = some z' → StaysBelow codec z' edits

instance decidableStaysBelow (codec : Codec) :
    ∀ (edits : List Edit) (z : ZipFile), Decidable (StaysBelow codec z edits)
  | [], z => inferInstanceAs (Decidable (z.file.length < 2 ^ 32))
  | edit :: edits, z =>
      have : DecidablePred fun z' => StaysBelow codec z' edits :=
        fun z' => decidableStaysBelow codec edits z'
      inferInstanceAs (Decidable (z.file.length < 2 ^ 32
        ∧ ∀ z' ∈ edit.apply codec z, StaysBelow codec z' edits))

/-! ## Moving bytes down -/

/-- **`filemove` moves bytes down over a hole.** The hole is behind them then, with other bytes in
it, and everything else is as it was. -/
theorem filemove_eq (front hole bytes after : Bytes) {dst src n : ℕ} (hdst : dst = front.length)
    (hsrc : src = front.length + hole.length) (hn : n = bytes.length) :
    ∃ hole', hole'.length = hole.length
      ∧ ZipFile.filemove (front ++ (hole ++ (bytes ++ after))) dst src n
        = some (front ++ (bytes ++ (hole' ++ after))) := by
  induction n using Nat.strong_induction_on generalizing front hole bytes dst src with
  | _ n ih =>
      rw [ZipFile.filemove]
      by_cases hzero : n = 0
      · obtain rfl : bytes = [] := List.eq_nil_of_length_eq_zero (by omega)
        exact ⟨hole, rfl, by rw [if_pos hzero]; rfl⟩
      · rw [if_neg hzero]
        -- the first chunk is read behind the hole and written in front of it
        let size := min n 32768
        let chunk := bytes.take size
        let rest := bytes.drop size
        have hchunk : chunk.length = size := by
          rw [List.length_take]
          omega
        have hrest : rest.length = n - size := by
          rw [List.length_drop]
          omega
        have hbytes : bytes = chunk ++ rest := (List.take_append_drop size bytes).symm
        have hread : bytesAt (front ++ (hole ++ (bytes ++ after))) src size = some chunk := by
          rw [hbytes, List.append_assoc, ← List.append_assoc front]
          exact bytesAt_append _ _ _ (by simp [hsrc]) hchunk.symm
        let hole' := (hole ++ chunk).drop size
        have hhole : hole'.length = hole.length := by
          rw [List.length_drop, List.length_append, hchunk, Nat.add_sub_cancel]
        have hwrite : writeAt (front ++ (hole ++ (bytes ++ after))) dst chunk
            = (front ++ chunk) ++ (hole' ++ (rest ++ after)) := by
          rw [hbytes, writeAt_front _ _ _ hdst, hchunk, List.append_assoc, List.append_assoc,
            ← List.append_assoc hole, List.drop_append_of_le_length (by simp [hchunk])]
        have hdst' : dst + size = (front ++ chunk).length := by
          rw [List.length_append, hchunk, hdst]
        have hsrc' : src + size = (front ++ chunk).length + hole'.length := by
          rw [List.length_append, hchunk, hhole, hsrc]
          omega
        obtain ⟨last, hlast, hmove⟩ :=
          ih (n - size) (by omega) (front ++ chunk) hole' rest hdst' hsrc' hrest.symm
        refine ⟨last, hlast.trans hhole, ?_⟩
        simp only [size] at hread hwrite hmove
        rw [hread]
        simp only []
        rw [hwrite, hmove, hbytes]
        simp

/-! ## The records that stay -/

/-- The records stand one behind the other from a position on. -/
def Located : ℕ → List Item → Prop
  | _, [] => True
  | position, item :: items =>
      item.1.cde.localHeaderRelOffset = UInt32.ofNat position
        ∧ Located (position + (recordBytes item).length) items

/-- The records that are not marked, one behind the other from a position on. -/
def relocate : ℕ → List Item → List Item
  | _, [] => []
  | position, item :: items =>
      if item.1.deleted then relocate position items
      else (item.1.setLFHOffset position, item.2)
        :: relocate (position + (recordBytes item).length) items

/-- The offset of an entry is not part of its record. -/
@[simp] theorem recordBytes_setLFHOffset (item : Item) (offset : ℕ) :
    recordBytes (item.1.setLFHOffset offset, item.2) = recordBytes item := rfl

/-- A record has at least a local header. -/
theorem length_recordBytes_pos (item : Item) : 0 < (recordBytes item).length := by
  rw [recordBytes, List.length_append, LocalFileHeader.length_write, LocalFileHeader.kLFHLen]
  omega

/-- The offset of an entry that is located below 4 GiB. -/
theorem getLFHOffset_of_eq {e : ZipEntry} {position : ℕ}
    (h : e.cde.localHeaderRelOffset = UInt32.ofNat position) (hsize : position < 2 ^ 32) :
    e.getLFHOffset = position := by
  rw [ZipEntry.getLFHOffset, h]
  exact UInt32.toNat_ofNat_of_lt hsize

/-- Setting the offset that an entry has. -/
theorem setLFHOffset_eq_self {e : ZipEntry} {position : ℕ}
    (h : e.cde.localHeaderRelOffset = UInt32.ofNat position) : e.setLFHOffset position = e := by
  rw [ZipEntry.setLFHOffset, ← h]

/-- The records that stay are located. -/
theorem located_relocate (position : ℕ) (items : List Item) :
    Located position (relocate position items) := by
  induction items generalizing position with
  | nil => trivial
  | cons item items ih =>
      rw [relocate]
      split
      · exact ih position
      · exact ⟨rfl, ih _⟩

/-- A marked record is counted. -/
theorem countP_deleted_of_pos {item : Item} (h : item.1.deleted = true) (items : List Item) :
    (item :: items).countP (·.1.deleted) = items.countP (·.1.deleted) + 1 := by
  simp [h]

/-- An unmarked record is not counted. -/
theorem countP_deleted_of_neg {item : Item} (h : ¬ item.1.deleted = true) (items : List Item) :
    (item :: items).countP (·.1.deleted) = items.countP (·.1.deleted) := by
  simp [h]

/-- As many entries stay as are not marked. -/
theorem length_relocate (position : ℕ) (items : List Item) :
    (relocate position items).length + items.countP (·.1.deleted) = items.length := by
  induction items generalizing position with
  | nil => rfl
  | cons item items ih =>
      rw [relocate]
      by_cases hdeleted : item.1.deleted = true
      · rw [if_pos hdeleted, countP_deleted_of_pos hdeleted, ← add_assoc, ih, List.length_cons]
      · rw [if_neg hdeleted, countP_deleted_of_neg hdeleted, List.length_cons, List.length_cons,
          ← ih (position + (recordBytes item).length)]
        omega

/-! ## The loop of `crunchArchive` -/

/-- The next offset behind a record is where the record ends. -/
theorem nextOffset_of_located {centralDirOffset position : ℕ} {items : List Item}
    (hlocated : Located position items) (hpos : 0 < position)
    (hend : centralDirOffset = position + (records items).length)
    (hsize : centralDirOffset < 2 ^ 32) :
    ZipFile.nextOffset centralDirOffset (items.map Prod.fst) = position := by
  cases items with
  | nil => simpa [ZipFile.nextOffset] using hend
  | cons item items =>
      have hoffset := getLFHOffset_of_eq hlocated.1 (by omega)
      rw [List.map_cons, ZipFile.nextOffset, hoffset, if_pos hpos.ne']

/-- **The loop of `crunchArchive`**, at an entry that is not at offset 0. The records that stay so
far are part of `front`, the hole has the size of the records removed so far. -/
theorem crunchLoop_eq {items : List Item} (front hole tail : Bytes) {centralDirOffset : ℕ}
    (hlocated : Located (front.length + hole.length) items) (hpos : 0 < front.length)
    (hend : centralDirOffset = front.length + hole.length + (records items).length)
    (hsize : centralDirOffset < 2 ^ 32) :
    ∃ hole', hole'.length + (records (relocate front.length items)).length
        = hole.length + (records items).length
      ∧ ZipFile.crunchLoop centralDirOffset (front ++ (hole ++ (records items ++ tail))) hole.length
          (items.map Prod.fst)
        = some ⟨front ++ (records (relocate front.length items) ++ (hole' ++ tail)), hole'.length,
            items.countP (·.1.deleted), (relocate front.length items).map Prod.fst⟩ := by
  induction items generalizing front hole with
  | nil => exact ⟨hole, rfl, rfl⟩
  | cons item items ih =>
      obtain ⟨hoffset, hrest⟩ := hlocated
      rw [records_cons, List.length_append] at hend
      have hhere := getLFHOffset_of_eq hoffset (by omega)
      have hnext := nextOffset_of_located hrest (by omega) (by omega) hsize
      have hlength := length_recordBytes_pos item
      have hspan : ((ZipFile.nextOffset centralDirOffset (items.map Prod.fst) : ℤ)
          - item.1.getLFHOffset) = (recordBytes item).length := by
        rw [hnext, hhere]
        push_cast
        ring
      have hnonzero : item.1.getLFHOffset ≠ 0 := by omega
      simp only [List.map_cons, ZipFile.crunchLoop, relocate, if_pos hnonzero, hspan]
      by_cases hdeleted : item.1.deleted = true
      · -- the hole grows by the record
        obtain ⟨hole', hlen, hloop⟩ := ih front (hole ++ recordBytes item)
          (by rwa [List.length_append, ← add_assoc]) hpos (by rw [List.length_append]; omega)
        rw [List.length_append] at hlen
        simp only [List.length_append, Nat.cast_add, List.append_assoc] at hloop
        simp only [hdeleted, if_true, records_cons, List.append_assoc, List.length_append]
        refine ⟨hole', by omega, ?_⟩
        rw [hloop, countP_deleted_of_pos hdeleted]
        rfl
      · simp only [hdeleted, Bool.false_eq_true, if_false]
        rw [countP_deleted_of_neg hdeleted]
        by_cases hhole : hole = []
        · -- nothing was removed so far
          subst hhole
          rw [List.length_nil, add_zero] at hoffset hrest hend
          obtain ⟨hole', hlen, hloop⟩ := ih (front ++ recordBytes item) []
            (by rwa [List.length_append, List.length_nil, add_zero])
            (by rw [List.length_append]; omega)
            (by rw [List.length_append, List.length_nil]; omega)
          rw [List.length_append, List.length_nil] at hlen
          simp only [List.length_append, List.length_nil, Nat.cast_zero, List.nil_append,
            List.append_assoc] at hloop
          refine ⟨hole', ?_, ?_⟩
          · rw [records_cons, records_cons, List.length_append, List.length_append,
              recordBytes_setLFHOffset, List.length_nil]
            omega
          · rw [if_neg (by simp), setLFHOffset_eq_self hoffset]
            simp only [records_cons, List.nil_append, List.append_assoc, List.length_nil,
              Nat.cast_zero]
            rw [hloop]
            rfl
        · -- the record is moved down to the end of those that stay
          have hholePos : 0 < hole.length := List.length_pos_iff.mpr hhole
          have hdst : ((item.1.getLFHOffset : ℤ) - (hole.length : ℤ)) = front.length := by
            rw [hhere]
            push_cast
            ring
          obtain ⟨moved, hmoved, hmove⟩ := filemove_eq front hole (recordBytes item)
            (records items ++ tail) rfl hhere rfl
          obtain ⟨hole', hlen, hloop⟩ := ih (front ++ recordBytes item) moved
            (by
              rw [List.length_append, hmoved]
              rwa [add_right_comm] at hrest)
            (by rw [List.length_append]; omega)
            (by rw [List.length_append, hmoved]; omega)
          rw [List.length_append, hmoved] at hlen
          simp only [List.length_append, List.append_assoc, hmoved] at hloop
          refine ⟨hole', ?_, ?_⟩
          · rw [records_cons, records_cons, List.length_append, List.length_append,
              recordBytes_setLFHOffset]
            omega
          · rw [if_pos (by omega), hdst, if_neg (by omega), Int.toNat_natCast, Int.toNat_natCast,
              records_cons, List.append_assoc, hmove]
            simp only [Option.bind_eq_bind, Option.bind_some, hloop, records_cons,
              recordBytes_setLFHOffset, List.append_assoc]
            rfl

/-- **The whole loop of `crunchArchive`** over records behind some dead bytes. If the first record
stands at offset 0 and is removed, it becomes the dead bytes; otherwise these stay as they are. -/
theorem crunchLoop_located {items : List Item} (gap tail : Bytes) {centralDirOffset : ℕ}
    (hlocated : Located gap.length items)
    (hend : centralDirOffset = gap.length + (records items).length)
    (hsize : centralDirOffset < 2 ^ 32) :
    ∃ gap' hole, gap'.length + (records (relocate gap'.length items)).length + hole.length
        = centralDirOffset
      ∧ ZipFile.crunchLoop centralDirOffset (gap ++ (records items ++ tail)) 0 (items.map Prod.fst)
        = some ⟨gap' ++ (records (relocate gap'.length items) ++ (hole ++ tail)), hole.length,
            items.countP (·.1.deleted), (relocate gap'.length items).map Prod.fst⟩ := by
  -- with a gap in front, or without one, where the first record starts at 0
  by_cases hpos : 0 < gap.length
  · obtain ⟨hole, hlen, hloop⟩ := crunchLoop_eq gap [] tail (by simpa using hlocated) hpos
      (by simpa using hend) hsize
    rw [List.length_nil] at hlen
    exact ⟨gap, hole, by omega, hloop⟩
  · obtain rfl : gap = [] := List.eq_nil_of_length_eq_zero (by omega)
    cases items with
    | nil => exact ⟨[], [], hend.symm, rfl⟩
    | cons item items =>
        obtain ⟨hoffset, hrest⟩ := hlocated
        rw [List.length_nil] at hoffset
        rw [records_cons, List.length_append, List.length_nil] at hend
        rw [List.length_nil, Nat.zero_add] at hrest
        have hzero := getLFHOffset_of_eq hoffset (by decide)
        have hlength := length_recordBytes_pos item
        obtain ⟨hole, hlen, hloop⟩ := crunchLoop_eq (recordBytes item) [] tail
          (by simpa using hrest) hlength (by rw [List.length_nil]; omega) hsize
        rw [List.length_nil] at hlen
        simp only [List.length_nil, Nat.cast_zero, List.nil_append] at hloop
        simp only [List.map_cons, ZipFile.crunchLoop, hzero, ne_eq, not_true_eq_false, if_false,
          false_and, add_zero, records_cons, List.nil_append, List.append_assoc, hloop]
        -- the first record is where it has to be, so that it stays if it is kept
        by_cases hdeleted : item.1.deleted = true
        · refine ⟨recordBytes item, hole, ?_, ?_⟩
          · rw [relocate, if_pos hdeleted]
            omega
          · rw [if_pos hdeleted, relocate, if_pos hdeleted, countP_deleted_of_pos hdeleted]
            rfl
        · have hkept : relocate 0 (item :: items)
              = item :: relocate (recordBytes item).length items := by
            rw [relocate, if_neg hdeleted, setLFHOffset_eq_self hoffset, Nat.zero_add]
          refine ⟨[], hole, ?_, ?_⟩
          · rw [List.length_nil, hkept, records_cons, List.length_append]
            omega
          · rw [if_neg hdeleted, List.length_nil, hkept, countP_deleted_of_neg hdeleted, records_cons,
              List.append_assoc]
            rfl

/-! ## Archives of a run -/

/-- The archive consists of dead bytes, records and further bytes, and its central directory belongs
behind the records. If nothing is left to be flushed, no entry is marked and the central directory
is there. -/
structure Built (z : ZipFile) (gap : Bytes) (items : List Item) (tail : Bytes) : Prop where
  writable : z.readOnly = false
  file : z.file = gap ++ (records items ++ tail)
  entries : z.entries = items.map Prod.fst
  located : Located gap.length items
  offset : z.eocd.centralDirOffset.toNat = gap.length + (records items).length
  numEntries : z.eocd.numEntries = UInt16.ofNat items.length
  totalNumEntries : z.eocd.totalNumEntries = UInt16.ofNat items.length
  clean : z.needCDRewrite = false → (∀ e ∈ z.entries, e.deleted = false)
    ∧ tail = ZipFile.centralDir z.entries ++ z.eocd.write

/-- The archive is one that consists of dead bytes, records and further bytes. -/
def IsBuilt (z : ZipFile) : Prop := ∃ gap items tail, Built z gap items tail

/-- A new archive is built. -/
theorem isBuilt_openNew : IsBuilt ZipFile.openNew :=
  ⟨[], [], [], rfl, rfl, rfl, trivial, rfl, rfl, rfl, by intro h; cases h⟩

/-- Records behind others. -/
theorem Located.append {position : ℕ} {items : List Item} (h : Located position items) {item : Item}
    (hitem : item.1.cde.localHeaderRelOffset
      = UInt32.ofNat (position + (records items).length)) :
    Located position (items ++ [item]) := by
  induction items generalizing position with
  | nil => exact ⟨by simpa using hitem, trivial⟩
  | cons head items ih =>
      obtain ⟨hoffset, hrest⟩ := h
      refine ⟨hoffset, ih hrest ?_⟩
      rw [hitem, records_cons, List.length_append, add_assoc]

/-- **Adding an entry** below 4 GiB. -/
theorem Built.add {codec : Codec} {op : Op} {z z' : ZipFile} {gap tail : Bytes} {items : List Item}
    (h : Built z gap items tail) (happly : op.apply codec z = some z')
    (hsize : z'.file.length < 2 ^ 32) : IsBuilt z' := by
  have hcount (n : ℕ) : UInt16.ofNat n + 1 = UInt16.ofNat (n + 1) := by
    rw [UInt16.ofNat_add]
    rfl
  have hfront : (gap ++ records items).length = gap.length + (records items).length :=
    List.length_append
  rw [op.apply_eq_appendOver codec h.writable (h.file.trans (List.append_assoc _ _ _).symm)
    (h.offset.trans hfront.symm)] at happly
  obtain ⟨item, hitem, rfl⟩ := Option.map_eq_some_iff.mp happly
  have hoffset := (Op.record_position hitem).1
  rw [hfront] at hoffset
  simp only [ZipFile.appendOver, List.length_append] at hsize
  refine ⟨gap, items ++ [item], tail.drop (recordBytes item).length, h.writable, ?_, ?_,
    h.located.append hoffset, ?_, ?_, ?_, by intro hclean; cases hclean⟩
  · simp [ZipFile.appendOver]
  · simp [ZipFile.appendOver, h.entries]
  · simp only [ZipFile.appendOver, ZipFile.eocdAfterAdd, records_append, records_cons, records_nil,
      List.append_nil, List.length_append, ← add_assoc]
    exact UInt32.toNat_ofNat_of_lt' (show _ < 2 ^ 32 by omega)
  · rw [List.length_append, List.length_singleton, ← hcount, ← h.numEntries]
    rfl
  · rw [List.length_append, List.length_singleton, ← hcount, ← h.totalNumEntries]
    rfl

/-- The record of an entry that is marked. -/
def mark (item : Item) : Item := ({ item.1 with deleted := true }, item.2)

/-- Marking an entry keeps the records where they are. -/
theorem Located.modify {position : ℕ} {items : List Item} (h : Located position items) (index : ℕ) :
    Located position (items.modify index mark) := by
  induction items generalizing position index with
  | nil => simpa using h
  | cons item items ih =>
      obtain ⟨hoffset, hrest⟩ := h
      cases index with
      | zero => exact ⟨hoffset, hrest⟩
      | succ index => exact ⟨hoffset, ih hrest index⟩

/-- Marking an entry keeps the bytes of the records. -/
theorem records_modify (items : List Item) (index : ℕ) :
    records (items.modify index mark) = records items := by
  induction items generalizing index with
  | nil => simp
  | cons item items ih =>
      cases index with
      | zero => rfl
      | succ index => rw [List.modify_succ_cons, records_cons, records_cons, ih]

/-- The entries of records of which one is marked. -/
theorem map_fst_modify (items : List Item) (index : ℕ) :
    (items.modify index mark).map Prod.fst
      = (items.map Prod.fst).modify index fun e => { e with deleted := true } := by
  induction items generalizing index with
  | nil => simp
  | cons item items ih =>
      cases index with
      | zero => rfl
      | succ index => rw [List.modify_succ_cons, List.map_cons, List.map_cons, List.modify_succ_cons, ih]

/-- **Marking an entry.** -/
theorem Built.remove {z : ZipFile} {gap tail : Bytes} {items : List Item}
    (h : Built z gap items tail) (index : ℕ) : IsBuilt (z.remove index) := by
  have hrecords := records_modify items index
  refine ⟨gap, items.modify index mark, tail, h.writable, ?_, ?_, h.located.modify index, ?_, ?_, ?_,
    by intro hclean; cases hclean⟩
  · rw [hrecords]
    exact h.file
  · rw [ZipFile.remove, h.entries, map_fst_modify]
  · rw [hrecords]
    exact h.offset
  · rw [List.length_modify]
    exact h.numEntries
  · rw [List.length_modify]
    exact h.totalNumEntries

/-! ## Flushing -/

/-- Records of which none is marked stay as they are. -/
theorem relocate_of_alive {position : ℕ} {items : List Item} (hlocated : Located position items)
    (halive : ∀ item ∈ items, item.1.deleted = false) : relocate position items = items := by
  induction items generalizing position with
  | nil => rfl
  | cons item items ih =>
      obtain ⟨hoffset, hrest⟩ := hlocated
      have hhere : item.1.deleted = false := halive item List.mem_cons_self
      rw [relocate, if_neg (by simp [hhere]), setLFHOffset_eq_self hoffset,
        ih hrest fun item hitem => halive item (List.mem_cons_of_mem _ hitem)]

/-- The records that stay are not marked. -/
theorem alive_relocate (position : ℕ) (items : List Item) :
    ∀ item ∈ relocate position items, item.1.deleted = false := by
  induction items generalizing position with
  | nil => simp [relocate]
  | cons item items ih =>
      rw [relocate]
      split
      next => exact ih position
      next hdeleted =>
        refine List.forall_mem_cons.mpr ⟨?_, ih _⟩
        simpa [ZipEntry.setLFHOffset] using hdeleted

/-- The archive that `crunchArchive` leaves: the records that are not marked, and behind them some
bytes that are overwritten next. -/
theorem Built.crunchArchive {z : ZipFile} {gap tail : Bytes} {items : List Item}
    (h : Built z gap items tail) (hsize : z.file.length < 2 ^ 32) :
    ∃ z' gap' rest, z.crunchArchive = some z' ∧ z'.readOnly = false
      ∧ z'.file = gap' ++ records (relocate gap'.length items) ++ rest
      ∧ z'.entries = (relocate gap'.length items).map Prod.fst
      ∧ z'.eocd.centralDirOffset.toNat = gap'.length + (records (relocate gap'.length items)).length
      ∧ z'.eocd.numEntries = UInt16.ofNat (relocate gap'.length items).length
      ∧ z'.eocd.totalNumEntries = UInt16.ofNat (relocate gap'.length items).length := by
  have hlength := congrArg List.length h.file
  simp only [List.length_append] at hlength
  obtain ⟨gap', hole, hlen, hloop⟩ := crunchLoop_located gap tail h.located h.offset
    (by rw [h.offset]; omega)
  have hcount := length_relocate gap'.length items
  have hoffset : ((z.eocd.centralDirOffset.toNat - hole.length : ℤ) % 2 ^ 32).toNat
      = gap'.length + (records (relocate gap'.length items)).length := by
    rw [h.offset] at hlen ⊢
    omega
  have hnum : UInt16.ofNat items.length - UInt16.ofNat (items.countP (·.1.deleted))
      = UInt16.ofNat (relocate gap'.length items).length := by
    rw [← UInt16.ofNat_sub (by omega)]
    congr 1
    omega
  rw [ZipFile.crunchArchive, h.file, h.entries, hloop]
  refine ⟨_, gap', hole ++ tail, rfl, h.writable, ?_, rfl, ?_, ?_, ?_⟩
  · simp
  · have hlt : gap'.length + (records (relocate gap'.length items)).length < 2 ^ 32 := by
      rw [h.offset] at hlen
      omega
    show (UInt32.ofInt _).toNat = _
    rw [UInt32.ofInt, hoffset]
    exact UInt32.toNat_ofNat_of_lt' hlt
  · rw [← hnum, ← h.numEntries]
  · rw [← hnum, ← h.totalNumEntries]

/-- **What `flush` leaves**: the records that are not marked, with the central directory behind
them, and nothing that would be left to be flushed. -/
theorem Built.flush {z : ZipFile} {gap tail : Bytes} {items : List Item} (h : Built z gap items tail)
    (hsize : z.file.length < 2 ^ 32) :
    ∃ z' gap', z.flush = some z' ∧ Built z' gap' (relocate gap'.length items)
      (ZipFile.centralDir z'.entries ++ z'.eocd.write) := by
  rw [ZipFile.flush, if_neg (by simp [h.writable])]
  cases hrewrite : z.needCDRewrite with
  | false =>
      obtain ⟨halive, htail⟩ := h.clean hrewrite
      have hsame : relocate gap.length items = items := by
        refine relocate_of_alive h.located fun item hitem => halive item.1 ?_
        rw [h.entries]
        exact List.mem_map_of_mem hitem
      refine ⟨z, gap, rfl, ?_⟩
      rw [hsame, ← htail]
      exact h
  | true =>
      obtain ⟨z', gap', rest, hcrunch, hwritable, hfile, hentries, hoffset, hnum, htotal⟩ :=
        h.crunchArchive hsize
      have halive : ∀ e ∈ z'.entries, e.deleted = false := by
        rw [hentries]
        exact List.forall_mem_map.mpr (alive_relocate gap'.length items)
      simp only [Bool.not_true, Bool.false_eq_true, if_false, hcrunch, Option.bind_eq_bind,
        Option.bind_some, Option.pure_def]
      refine ⟨_, gap', rfl, hwritable, ?_, hentries, located_relocate _ _, hoffset, hnum, htotal,
        fun _ => ⟨halive, rfl⟩⟩
      show List.take _ (writeAt z'.file _ _) = _
      rw [hfile, writeAt_front _ _ _ (by rw [hoffset, List.length_append]), ← List.append_assoc,
        List.take_left' (by rw [List.length_append, hoffset, List.length_append]), List.append_assoc]

/-- **Every step below 4 GiB keeps an archive built.** -/
theorem IsBuilt.apply {codec : Codec} {edit : Edit} {z z' : ZipFile} (h : IsBuilt z)
    (hsize : z.file.length < 2 ^ 32) (happly : edit.apply codec z = some z')
    (hsize' : z'.file.length < 2 ^ 32) : IsBuilt z' := by
  obtain ⟨gap, items, tail, h⟩ := h
  cases edit with
  | add op => exact h.add happly hsize'
  | remove index =>
      cases happly
      exact h.remove index
  | flush =>
      obtain ⟨flushed, gap', hflush, hbuilt⟩ := h.flush hsize
      rw [Edit.apply, hflush] at happly
      cases happly
      exact ⟨gap', _, _, hbuilt⟩

/-- The first archive of a run below 4 GiB. -/
theorem StaysBelow.length_lt {codec : Codec} {z : ZipFile} {edits : List Edit}
    (h : StaysBelow codec z edits) : z.file.length < 2 ^ 32 := by
  cases edits with
  | nil => exact h
  | cons edit edits => exact h.1

/-- **A run below 4 GiB leads to built archives**, which are below 4 GiB. -/
theorem IsBuilt.of_runEdits {codec : Codec} {edits : List Edit} {z z' : ZipFile} (h : IsBuilt z)
    (hbelow : StaysBelow codec z edits) (hrun : runEdits codec z edits = some z') :
    IsBuilt z' ∧ z'.file.length < 2 ^ 32 := by
  induction edits generalizing z with
  | nil =>
      cases hrun
      exact ⟨h, hbelow⟩
  | cons edit edits ih =>
      obtain ⟨hsize, hnext⟩ := hbelow
      obtain ⟨z₁, happly, hrun⟩ := Option.bind_eq_some_iff.mp hrun
      have hbelow₁ := hnext z₁ happly
      exact ih (h.apply hsize happly hbelow₁.length_lt) hbelow₁ hrun

/-! ## The entries that `flush` leaves -/

/-- The entries of an archive, each with the number of bytes up to the next entry or the central
directory: its local header, extra field, payload and descriptor. -/
def spans (centralDirOffset : ℕ) : List ZipEntry → List (ZipEntry × ℕ)
  | [] => []
  | [e] => [(e, centralDirOffset - e.getLFHOffset)]
  | e :: next :: rest =>
      (e, next.getLFHOffset - e.getLFHOffset) :: spans centralDirOffset (next :: rest)

/-- An entry of the flushed archive is the old one but for its offset, and its bytes are the old
ones at the new offset, before the central directory. -/
structure Kept (before after : ZipFile) (old : ZipEntry × ℕ) (new : ZipEntry) : Prop where
  entry : new = old.1.setLFHOffset new.getLFHOffset
  bytes : ∃ bytes, bytesAt before.file old.1.getLFHOffset old.2 = some bytes
    ∧ bytesAt after.file new.getLFHOffset old.2 = some bytes
  inside : new.getLFHOffset + old.2 ≤ after.eocd.centralDirOffset.toNat

/-- The flushed archive has exactly the entries that were not marked, in their order and with their
bytes, and its counts and the offset of its central directory fit the file. -/
structure LeavesUnmarked (before after : ZipFile) : Prop where
  entries : List.Forall₂ (Kept before after)
    ((spans before.eocd.centralDirOffset.toNat before.entries).filter fun old => !old.1.deleted)
    after.entries
  numEntries : after.eocd.numEntries.toNat = after.entries.length
  totalNumEntries : after.eocd.totalNumEntries.toNat = after.entries.length
  directory : ∃ records, after.file
      = records ++ (ZipFile.centralDir after.entries ++ after.eocd.write)
    ∧ after.eocd.centralDirOffset.toNat = records.length

/-- The spans of located records are their lengths. -/
theorem spans_of_located {centralDirOffset position : ℕ} {items : List Item}
    (hlocated : Located position items) (hend : centralDirOffset = position + (records items).length)
    (hsize : centralDirOffset < 2 ^ 32) :
    spans centralDirOffset (items.map Prod.fst)
      = items.map fun item => (item.1, (recordBytes item).length) := by
  induction items generalizing position with
  | nil => rfl
  | cons item items ih =>
      obtain ⟨hoffset, hrest⟩ := hlocated
      rw [records_cons, List.length_append] at hend
      have hhere := getLFHOffset_of_eq hoffset (by omega)
      have hspans := ih hrest (by omega)
      cases items with
      | nil =>
          rw [records_nil, List.length_nil] at hend
          simp only [List.map_cons, List.map_nil, spans, hhere]
          rw [hend, add_zero, Nat.add_sub_cancel_left]
      | cons next items =>
          have hthere := getLFHOffset_of_eq hrest.1 (by omega)
          rw [List.map_cons] at hspans
          rw [List.map_cons, List.map_cons, List.map_cons, spans, hspans, hhere, hthere,
            Nat.add_sub_cancel_left]

/-- The records that stay have the bytes of the old ones. -/
theorem forall₂_kept {before after : ZipFile} {items : List Item} (front front' tail tail' : Bytes)
    (hbefore : before.file = front ++ (records items ++ tail))
    (hafter : after.file = front' ++ (records (relocate front'.length items) ++ tail'))
    (hlocated : Located front.length items)
    (hsize : front.length + (records items).length < 2 ^ 32)
    (hend : front'.length + (records (relocate front'.length items)).length
      ≤ after.eocd.centralDirOffset.toNat) :
    List.Forall₂ (Kept before after)
      ((items.map fun item => (item.1, (recordBytes item).length)).filter fun old => !old.1.deleted)
      ((relocate front'.length items).map Prod.fst) := by
  induction items generalizing front front' with
  | nil => exact .nil
  | cons item items ih =>
      obtain ⟨hoffset, hrest⟩ := hlocated
      rw [records_cons, List.append_assoc] at hbefore
      rw [records_cons, List.length_append] at hsize
      rw [List.map_cons]
      -- a deleted record makes a hole, and what follows moves up
      by_cases hdeleted : item.1.deleted = true
      · rw [relocate, if_pos hdeleted] at hafter hend ⊢
        rw [List.filter_cons_of_neg (by simp [hdeleted])]
        exact ih (front ++ recordBytes item) front' (by rw [hbefore, List.append_assoc]) hafter
          (by rwa [List.length_append]) (by rw [List.length_append]; omega) hend
      · rw [relocate, if_neg hdeleted] at hafter hend ⊢
        rw [records_cons, recordBytes_setLFHOffset, List.append_assoc] at hafter
        rw [records_cons, recordBytes_setLFHOffset, List.length_append] at hend
        rw [List.filter_cons_of_pos (by simpa using hdeleted), List.map_cons]
        have hlt := after.eocd.centralDirOffset.toNat_lt
        have hold := getLFHOffset_of_eq hoffset (by omega)
        have hnew : (item.1.setLFHOffset front'.length).getLFHOffset = front'.length :=
          getLFHOffset_of_eq rfl (show _ < 2 ^ 32 by omega)
        -- the offsets, the bytes of the record before and after, and its end
        refine .cons ⟨?_, ⟨recordBytes item, ?_, ?_⟩, ?_⟩ ?_
        · rw [hnew]
        · rw [hbefore]
          exact bytesAt_append front (recordBytes item) _ hold rfl
        · rw [hafter]
          exact bytesAt_append front' (recordBytes item) _ hnew rfl
        · show (item.1.setLFHOffset front'.length).getLFHOffset + (recordBytes item).length ≤ _
          omega
        · have h := ih (front ++ recordBytes item) (front' ++ recordBytes item)
            (by rw [hbefore, List.append_assoc])
            (by rw [hafter, List.append_assoc, List.length_append])
            (by rwa [List.length_append]) (by rw [List.length_append]; omega)
            (by rw [List.length_append]; omega)
          rwa [List.length_append] at h

/-- The counts of an archive are right iff they fit 16 bits. -/
theorem toNat_ofNat_eq_iff (n : ℕ) : (UInt16.ofNat n).toNat = n ↔ n < 65536 := by
  rw [UInt16.toNat_ofNat']
  constructor
  · intro h
    rw [← h]
    exact Nat.mod_lt _ (by decide)
  · intro h
    exact Nat.mod_eq_of_lt h

/-- **On a built archive below 4 GiB, `flush` succeeds, and it leaves the unmarked entries and a
consistent archive iff fewer than 65536 entries are not marked.** -/
theorem IsBuilt.leavesUnmarked {z : ZipFile} (h : IsBuilt z) (hsize : z.file.length < 2 ^ 32) :
    ∃ z', z.flush = some z'
      ∧ (LeavesUnmarked z z' ↔ z.entries.countP (fun e => !e.deleted) < 65536) := by
  obtain ⟨gap, items, tail, h⟩ := h
  obtain ⟨z', gap', hflush, h'⟩ := h.flush hsize
  have hlength := congrArg List.length h.file
  simp only [List.length_append] at hlength
  have hoffset := h.offset
  have hcount : z'.entries.length = z.entries.countP fun e => !e.deleted := by
    have hall := length_relocate gap'.length items
    have hmarked : z.entries.length = z.entries.countP (·.deleted)
        + z.entries.countP fun e => !e.deleted := by
      simpa using List.length_eq_countP_add_countP ZipEntry.deleted (l := z.entries)
    have hmarkedItems : z.entries.countP (·.deleted) = items.countP (·.1.deleted) := by
      rw [h.entries, List.countP_map]
      rfl
    have hitems : z.entries.length = items.length := by rw [h.entries, List.length_map]
    rw [h'.entries, List.length_map]
    omega
  have hkept : z'.entries.length = (relocate gap'.length items).length := by
    rw [h'.entries, List.length_map]
  refine ⟨z', hflush, ?_⟩
  rw [← hcount, ← toNat_ofNat_eq_iff, hkept, ← h'.numEntries, ← hkept]
  constructor
  · intro hleaves
    exact hleaves.numEntries
  · intro hnum
    refine ⟨?_, hnum, ?_, gap' ++ records (relocate gap'.length items), ?_, ?_⟩
    · rw [h.entries, h'.entries, spans_of_located h.located h.offset (by omega)]
      exact forall₂_kept gap gap' tail _ h.file h'.file h.located (by omega) h'.offset.ge
    · rw [h'.totalNumEntries, ← h'.numEntries]
      exact hnum
    · rw [List.append_assoc]
      exact h'.file
    · rw [List.length_append]
      exact h'.offset

/-- **After a run of additions, removals and flushes on a new archive that stays below 4 GiB,
`flush` leaves exactly the unmarked entries and a consistent archive iff fewer than 65536 entries
are not marked.** -/
theorem leavesUnmarked_iff (codec : Codec) (edits : List Edit) {z : ZipFile}
    (hbelow : StaysBelow codec ZipFile.openNew edits)
    (hrun : runEdits codec ZipFile.openNew edits = some z) :
    ∃ z', z.flush = some z'
      ∧ (LeavesUnmarked z z' ↔ z.entries.countP (fun e => !e.deleted) < 65536) := by
  obtain ⟨hbuilt, hsize⟩ := isBuilt_openNew.of_runEdits hbelow hrun
  exact hbuilt.leavesUnmarked hsize

/-- The file of `oneFile` is added. -/
def addOneFile : Edit :=
  .add (.add zeroMemory (openedArchive oneFile) (storedEntry letterName 2 0) 0)

/-- Of three files the second is removed, and then the first. -/
def removeTwice : List Edit := [addOneFile, addOneFile, addOneFile, .remove 1, .flush, .remove 0]

/-- The third file stays. -/
theorem leavesUnmarked_removeTwice : ∃ z z', runEdits identityCodec ZipFile.openNew removeTwice = some z
    ∧ z.flush = some z' ∧ z'.entries.length = 1 ∧ LeavesUnmarked z z' := by
  let z := (runEdits identityCodec ZipFile.openNew removeTwice).getD ZipFile.openNew
  have hrun : runEdits identityCodec ZipFile.openNew removeTwice = some z := by decide +kernel
  obtain ⟨z', hflush, hiff⟩ := leavesUnmarked_iff identityCodec removeTwice (by decide +kernel) hrun
  have hlength : (z.flush.map fun z' => z'.entries.length) = some 1 := by decide +kernel
  rw [hflush, Option.map_some, Option.some_inj] at hlength
  exact ⟨z, z', hrun, hflush, hlength, hiff.mpr (by decide +kernel)⟩

/-- A run of additions. -/
theorem runEdits_map_add (codec : Codec) (z : ZipFile) (ops : List Op) :
    runEdits codec z (ops.map .add) = run codec z ops := by
  induction ops generalizing z with
  | nil => rfl
  | cons op ops ih =>
      rw [List.map_cons, runEdits, run]
      congr 1
      funext z'
      exact ih z'

/-- The file of `oneFile` is added 65536 times. -/
def addManyFiles : List Edit := List.replicate 65536 addOneFile

/-- **With 65536 entries, none of them marked, the counts of the flushed archive are 0.** -/
theorem not_leavesUnmarked_addManyFiles : ∃ z z',
    runEdits identityCodec ZipFile.openNew addManyFiles = some z ∧ z'.file.length < 2 ^ 32
    ∧ z.flush = some z' ∧ ¬ LeavesUnmarked z z' := by
  obtain ⟨items, hlayout, hcount, hdir, hrecords⟩ := layout_replicate_add identityCodec zeroMemory
    (show ZipFile.copiedData (openedArchive oneFile)
      (storedEntry letterName 2 0) = some [1, 2] by decide +kernel) 65536 0
  have hlengths : (storedEntry letterName 2 0).cde.length = 47
      ∧ (ZipEntry.initFromExternal zeroMemory
        (storedEntry letterName 2 0)).lfh.write.length = 31 := by
    decide +kernel
  rw [hlengths.1] at hdir
  rw [hlengths.2] at hrecords
  have hsize : (records items).length < 2 ^ 32 := by rw [hrecords]; decide
  have hflush := flush_archiveOf (placed_of_layout hlayout) hsize
  refine ⟨archiveOf items, _, ?_, ?_, hflush, ?_⟩
  · have hops : addManyFiles = (List.replicate 65536 (Op.add zeroMemory (openedArchive oneFile)
        (storedEntry letterName 2 0) 0)).map .add := by
      rw [List.map_replicate]
      rfl
    rw [hops, runEdits_map_add, openNew_eq, run_eq_some_iff identityCodec _ hsize]
    exact ⟨items, hlayout, rfl⟩
  · simp only [flushed, List.length_append, hrecords, hdir, length_write_endRecord,
      EndOfCentralDir.kEOCDLen]
    decide
  · intro hleaves
    have hnum : (UInt16.ofNat items.length).toNat = (items.map Prod.fst).length := hleaves.numEntries
    rw [List.length_map, toNat_ofNat_eq_iff, hcount] at hnum
    exact absurd hnum (lt_irrefl _)

end AndroidSdk.Zip
