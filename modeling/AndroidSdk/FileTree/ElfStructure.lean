import Mathlib.Data.Nat.ModEq
import Mathlib.Tactic.SplitIfs
import AndroidSdk.FileTree.ElfValidation

/-! # What an accepted ELF program looks like

The checks of `isValidElfMachine` one by one, as properties of the file, and what they leave open.

* **`WellFormedElf`** — the tables, segments and sections of the file lie inside it, its alignments
  are powers of two, and one of its segments is loadable.
* **`isValidElfMachine_eq_true_iff`** — a file is accepted if and only if it is well formed and its
  index of the section name table is the escape value or a section.
* **`sound_isValidElfMachine_iff`** — the escape value is not followed: a well formed file is
  accepted also if the index in section zero lies behind the last section. -/

namespace AndroidSdk.FileTree

open Lib

/-! ## Ranges and alignments -/

/-- A range fits if it ends within the file. -/
theorem rangeFits_iff {offset length fileSize : ℕ} :
    rangeFits offset length fileSize = true ↔ offset + length ≤ fileSize := by
  unfold rangeFits
  rw [Bool.and_eq_true, decide_eq_true_eq, decide_eq_true_eq]
  omega

/-- A read within the file is not short. -/
theorem length_readAt {content : List UInt8} {offset length : ℕ}
    (h : offset + length ≤ content.length) : (readAt content offset length).length = length := by
  rw [readAt, List.length_take, List.length_drop]
  omega

/-- An entry of a table within the file lies within the file. -/
theorem entry_fits {offset entrySize size count index fileSize : ℕ} (hsize : size ≤ entrySize)
    (htable : offset + entrySize * count ≤ fileSize) (hindex : index < count) :
    offset + index * entrySize + size ≤ fileSize := by
  have hnext : (index + 1) * entrySize ≤ count * entrySize := Nat.mul_le_mul_right _ hindex
  rw [Nat.add_mul, Nat.one_mul, Nat.mul_comm count] at hnext
  omega

/-- No alignment, an alignment of one, or a power of two. -/
def IsAlignment (alignment : ℕ) : Prop := alignment = 0 ∨ alignment = 1 ∨ alignment.isPowerOfTwo

/-- The bit test of the code finds the alignments that are not powers of two. -/
theorem badAlignment_eq_false_iff {alignment : ℕ} :
    badAlignment alignment = false ↔ IsAlignment alignment := by
  unfold badAlignment IsAlignment
  by_cases hzero : alignment = 0
  · simp [hzero]
  · rw [← Nat.and_sub_one_eq_zero_iff_isPowerOfTwo hzero]
    by_cases hone : alignment = 1 <;> simp [hzero, hone]

/-! ## Well-formed files -/

/-- The ELF header that a file starts with. -/
def elfHeader (content : List UInt8) : ElfHeader := unpackElfHeader (content.take elfHeaderSize)

/-- The number of sections: `e_shnum`, or the size field of section zero if that is zero. -/
def realSectionCount (content : List UInt8) (fields : ElfHeader) : ℕ :=
  if fields.sectionCount = 0 then fieldAt (sectionAt content fields 0) 32 8
  else fields.sectionCount

/-- The index of the section name table: `e_shstrndx`, or the link field of section zero if that is
the escape value. -/
def sectionNameTable (content : List UInt8) (fields : ElfHeader) : ℕ :=
  if fields.sectionNameIndex = 0xFFFF then fieldAt (sectionAt content fields 0) 40 4
  else fields.sectionNameIndex

/-- A segment whose file range lies inside the file and whose alignment is sound. -/
structure SegmentFits (program : List UInt8) (fileSize : ℕ) : Prop where
  range : fieldAt program 8 8 + fieldAt program 32 8 ≤ fileSize
  memory : fieldAt program 32 8 ≤ fieldAt program 40 8
  alignment : IsAlignment (fieldAt program 48 8)
  /-- The offset of a loadable segment is congruent to its address. -/
  congruent : isLoad program = true → fieldAt program 48 8 ≠ 0 →
    fieldAt program 8 8 ≡ fieldAt program 16 8 [MOD fieldAt program 48 8]

/-- A section whose file range, if it has one, lies inside the file and whose alignment is sound. -/
structure SectionFits (sectionHeader : List UInt8) (fileSize : ℕ) : Prop where
  range : fieldAt sectionHeader 4 4 ≠ shtNobits →
    fieldAt sectionHeader 24 8 + fieldAt sectionHeader 32 8 ≤ fileSize
  alignment : IsAlignment (fieldAt sectionHeader 48 8)

/-- A section-header table inside the file, all of whose sections fit. -/
structure SectionTableFits (content : List UInt8) (fields : ElfHeader) : Prop where
  offset : elfHeaderSize ≤ fields.sectionOffset
  entrySize : sectionHeaderSize ≤ fields.sectionEntrySize
  count : realSectionCount content fields ≠ 0
  table : fields.sectionOffset + fields.sectionEntrySize * realSectionCount content fields
    ≤ content.length
  sections : ∀ index < realSectionCount content fields,
    SectionFits (sectionAt content fields index) content.length

/-- A little-endian ELF64 executable or shared object for a machine, with all its headers, segments
and sections inside the file. -/
structure WellFormedElf (content : List UInt8) (machine : ℕ) : Prop where
  size : elfHeaderSize ≤ content.length
  /-- `\x7fELF`, class 64, little-endian, version 1. -/
  ident : content.take 7 = [0x7f, 0x45, 0x4c, 0x46, 2, 1, 1]
  elfType : (elfHeader content).elfType = etExec ∨ (elfHeader content).elfType = etDyn
  machine_eq : (elfHeader content).machine = machine
  version : (elfHeader content).version = 1
  headerSize : (elfHeader content).headerSize = elfHeaderSize
  programCount : (elfHeader content).programCount ≠ 0 ∧ (elfHeader content).programCount ≠ pnXnum
  programEntrySize : programHeaderSize ≤ (elfHeader content).programEntrySize
  programOffset : elfHeaderSize ≤ (elfHeader content).programOffset
  programTable : (elfHeader content).programOffset
    + (elfHeader content).programEntrySize * (elfHeader content).programCount ≤ content.length
  segments : ∀ index < (elfHeader content).programCount,
    SegmentFits (programAt content (elfHeader content) index) content.length
  load : ∃ index < (elfHeader content).programCount,
    isLoad (programAt content (elfHeader content) index) = true
  /-- Without a section-header table the fields that describe it are zero. -/
  noSections : (elfHeader content).sectionOffset = 0 →
    (elfHeader content).sectionCount = 0 ∧ (elfHeader content).sectionNameIndex = 0
  sections : (elfHeader content).sectionOffset ≠ 0 → SectionTableFits content (elfHeader content)

/-- The index of the section name table, if there are sections, is one of them. -/
def NameTableInside (content : List UInt8) (fields : ElfHeader) : Prop :=
  fields.sectionOffset ≠ 0 → sectionNameTable content fields < realSectionCount content fields

/-- The file keeps the index of the section name table in section zero, and it is not a section. -/
def EscapedNameTableOutside (content : List UInt8) (fields : ElfHeader) : Prop :=
  fields.sectionOffset ≠ 0 ∧ fields.sectionNameIndex = 0xFFFF
    ∧ realSectionCount content fields ≤ sectionNameTable content fields

/-! ## The checks of the loops -/

/-- A program header passes its checks if and only if the segment fits. -/
theorem programAccepted_iff {program : List UInt8} (hlength : program.length = programHeaderSize)
    (fileSize : ℕ) : programAccepted program fileSize = true ↔ SegmentFits program fileSize := by
  -- for an alignment of at most one there is nothing to compare
  have hcongruent : ∀ {alignment x y : ℕ},
      (isLoad program = true → alignment ≠ 0 → x ≡ y [MOD alignment]) ↔
        (isLoad program && 1 < alignment && x % alignment ≠ y % alignment) = false := by
    intro alignment x y
    cases isLoad program with
    | false => simp
    | true =>
        obtain rfl | hone | hlarge : alignment = 0 ∨ alignment = 1 ∨ 1 < alignment := by omega
        · simp
        · simp [hone, Nat.ModEq, Nat.mod_one]
        · simp [hlarge, Nat.ModEq, Nat.ne_of_gt (Nat.lt_of_succ_lt hlarge)]
  simp only [programAccepted, hlength, decide_true, Bool.true_and, Bool.and_eq_true, rangeFits_iff,
    decide_eq_true_eq, Bool.not_eq_true', badAlignment_eq_false_iff, ← hcongruent]
  constructor
  · rintro ⟨⟨⟨hrange, hmemory⟩, halignment⟩, hload⟩
    exact ⟨hrange, hmemory, halignment, hload⟩
  · intro h
    exact ⟨⟨⟨h.range, h.memory⟩, h.alignment⟩, h.congruent⟩

/-- A section header passes its checks if and only if the section fits. -/
theorem sectionAccepted_iff {sectionHeader : List UInt8}
    (hlength : sectionHeader.length = sectionHeaderSize) (fileSize : ℕ) :
    sectionAccepted sectionHeader fileSize = true ↔ SectionFits sectionHeader fileSize := by
  simp only [sectionAccepted, hlength, decide_true, Bool.true_and, Bool.and_eq_true,
    Bool.or_eq_true, rangeFits_iff, decide_eq_true_eq, Bool.not_eq_true',
    badAlignment_eq_false_iff]
  constructor
  · rintro ⟨hrange, halignment⟩
    exact ⟨fun htype => hrange.resolve_left htype, halignment⟩
  · intro h
    exact ⟨Decidable.or_iff_not_imp_left.mpr h.range, h.alignment⟩

/-- Every header of a program-header table inside the file is read whole. -/
theorem length_programAt {content : List UInt8} {fields : ElfHeader} {index : ℕ}
    (hsize : programHeaderSize ≤ fields.programEntrySize)
    (htable : fields.programOffset + fields.programEntrySize * fields.programCount
      ≤ content.length)
    (hindex : index < fields.programCount) :
    (programAt content fields index).length = programHeaderSize :=
  length_readAt (entry_fits hsize htable hindex)

/-- Every header of a section-header table inside the file is read whole. -/
theorem length_sectionAt {content : List UInt8} {fields : ElfHeader} {count index : ℕ}
    (hsize : sectionHeaderSize ≤ fields.sectionEntrySize)
    (htable : fields.sectionOffset + fields.sectionEntrySize * count ≤ content.length)
    (hindex : index < count) : (sectionAt content fields index).length = sectionHeaderSize :=
  length_readAt (entry_fits hsize htable hindex)

/-- The loop over the program headers of a table inside the file. -/
theorem programsAccepted_iff {content : List UInt8} {fields : ElfHeader}
    (hsize : programHeaderSize ≤ fields.programEntrySize)
    (htable : fields.programOffset + fields.programEntrySize * fields.programCount
      ≤ content.length) :
    programsAccepted content fields = true ↔
      (∀ index < fields.programCount, SegmentFits (programAt content fields index) content.length)
        ∧ ∃ index < fields.programCount, isLoad (programAt content fields index) = true := by
  simp only [programsAccepted, Bool.and_eq_true, List.all_map, List.all_eq_true, List.any_map,
    List.any_eq_true, List.mem_range, Function.comp_apply]
  refine and_congr_left fun _ => forall₂_congr fun index hindex => ?_
  exact programAccepted_iff (length_programAt hsize htable hindex) _

/-- The loop over the section headers of a table inside the file. -/
theorem all_sectionAccepted_iff {content : List UInt8} {fields : ElfHeader} {count : ℕ}
    (hsize : sectionHeaderSize ≤ fields.sectionEntrySize)
    (htable : fields.sectionOffset + fields.sectionEntrySize * count ≤ content.length) :
    ((List.range count).map (sectionAt content fields)).all (sectionAccepted · content.length)
        = true ↔
      ∀ index < count, SectionFits (sectionAt content fields index) content.length := by
  simp only [List.all_map, List.all_eq_true, List.mem_range, Function.comp_apply]
  refine forall₂_congr fun index hindex => ?_
  exact sectionAccepted_iff (length_sectionAt hsize htable hindex) _

/-! ## The section-header table -/

/-- The count that the code goes by is the real one, and for a count of zero section zero has to
lie within the file. -/
theorem actualSectionCount_eq_some_iff {content : List UInt8} {fields : ElfHeader} {count : ℕ} :
    actualSectionCount content fields = some count ↔
      count = realSectionCount content fields ∧ (fields.sectionCount = 0 →
        fields.sectionOffset + sectionHeaderSize ≤ content.length) := by
  unfold actualSectionCount realSectionCount
  split_ifs with hzero hfits
  · rw [rangeFits_iff] at hfits
    simp [hzero, hfits, sectionAt, eq_comm]
  · rw [rangeFits_iff] at hfits
    simp [hzero, hfits]
  · simp [hzero, eq_comm]

/-- The checks on a section-header table: it fits, and the index of the name table is a section or
the escape value. -/
theorem sectionsAccepted_iff {content : List UInt8} {fields : ElfHeader}
    (hoffset : fields.sectionOffset ≠ 0) :
    sectionsAccepted content fields = true ↔
      SectionTableFits content fields ∧ (fields.sectionNameIndex ≠ 0xFFFF →
        fields.sectionNameIndex < realSectionCount content fields) := by
  unfold sectionsAccepted
  rw [if_neg hoffset]
  split_ifs with hguard
  · refine iff_of_false not_false fun h => ?_
    rw [Bool.or_eq_true, decide_eq_true_eq, decide_eq_true_eq] at hguard
    exact hguard.elim h.1.offset.not_gt h.1.entrySize.not_gt
  · rw [Bool.or_eq_true, decide_eq_true_eq, decide_eq_true_eq, not_or, not_lt, not_lt] at hguard
    obtain ⟨hstart, hsize⟩ := hguard
    constructor
    · intro h
      cases hactual : actualSectionCount content fields with
      | none => rw [hactual] at h; exact absurd h Bool.false_ne_true
      | some count =>
          obtain ⟨rfl, -⟩ := actualSectionCount_eq_some_iff.mp hactual
          simp only [hactual, Bool.and_eq_true, decide_eq_true_eq, Bool.not_eq_true',
            rangeFits_iff] at h
          obtain ⟨⟨⟨hcount, htable⟩, hname⟩, hall⟩ := h
          rw [all_sectionAccepted_iff hsize htable] at hall
          refine ⟨⟨hstart, hsize, hcount, htable, hall⟩, fun hescape => ?_⟩
          rw [Bool.and_eq_false_imp] at hname
          by_cases hnone : fields.sectionNameIndex = 0
          · omega
          · simpa [hnone, hescape] using hname
    · rintro ⟨⟨-, -, hcount, htable, hall⟩, hname⟩
      have hzero : fields.sectionOffset + sectionHeaderSize ≤ content.length := by
        have hfirst : fields.sectionOffset + 0 * _ + _ ≤ content.length :=
          entry_fits hsize htable (by omega)
        simpa using hfirst
      rw [actualSectionCount_eq_some_iff.mpr ⟨rfl, fun _ => hzero⟩]
      simp only [Bool.and_eq_true, decide_eq_true_eq, Bool.not_eq_true', rangeFits_iff]
      refine ⟨⟨⟨hcount, htable⟩, ?_⟩, (all_sectionAccepted_iff hsize htable).mpr hall⟩
      by_cases hescape : fields.sectionNameIndex = 0xFFFF
      · simp [hescape]
      · simp [hescape, hname hescape]

/-! ## The decision -/

/-- The first bytes of the file, as the code compares them. -/
theorem magic_iff {content : List UInt8} :
    ¬ ((content.take elfHeaderSize).take 4 ≠ [0x7f, 0x45, 0x4c, 0x46]
      ∨ ((content.take elfHeaderSize).drop 4).take 3 ≠ [2, 1, 1]) ↔
      content.take 7 = [0x7f, 0x45, 0x4c, 0x46, 2, 1, 1] := by
  have hsplit : content.take 7
      = (content.take elfHeaderSize).take 4 ++ ((content.take elfHeaderSize).drop 4).take 3 := by
    rw [← List.take_add, List.take_take]
    rfl
  rw [not_or, not_not, not_not, hsplit]
  constructor
  · rintro ⟨hfirst, hsecond⟩
    rw [hfirst, hsecond]
    rfl
  · intro h
    refine List.append_inj h ?_
    have hlength := congrArg List.length h
    simp only [List.length_append, List.length_take, List.length_drop, List.length_cons,
      List.length_nil] at hlength ⊢
    omega

/-- **A file is accepted if and only if it is well formed and its index of the section name table
is a section or the escape value.** -/
theorem isValidElfMachine_eq_true_iff {content : List UInt8} {machine : ℕ} :
    isValidElfMachine content machine = true ↔ WellFormedElf content machine ∧
      ((elfHeader content).sectionOffset ≠ 0 → (elfHeader content).sectionNameIndex ≠ 0xFFFF →
        (elfHeader content).sectionNameIndex < realSectionCount content (elfHeader content)) := by
  have hlength : (content.take elfHeaderSize).length ≠ elfHeaderSize ↔
      ¬ elfHeaderSize ≤ content.length := by
    rw [List.length_take]
    omega
  unfold isValidElfMachine
  simp only [hlength, Bool.or_eq_true, decide_eq_true_eq]
  -- the size and the identification are checked before the header is read
  by_cases hsize : elfHeaderSize ≤ content.length
  swap
  · rw [if_pos hsize]
    exact iff_of_false Bool.false_ne_true fun h => hsize h.1.size
  rw [if_neg (not_not.mpr hsize)]
  by_cases hident : content.take 7 = [0x7f, 0x45, 0x4c, 0x46, 2, 1, 1]
  swap
  · rw [if_pos (Classical.not_not.mp (mt magic_iff.mp hident))]
    exact iff_of_false Bool.false_ne_true fun h => hident h.1.ident
  rw [if_neg (magic_iff.mpr hident), Bool.and_eq_true, Bool.and_eq_true]
  change (headerAccepted (elfHeader content) machine content.length = true
    ∧ programsAccepted content (elfHeader content) = true)
    ∧ sectionsAccepted content (elfHeader content) = true ↔ _
  constructor
  · rintro ⟨⟨hheader, hprograms⟩, hsections⟩
    simp only [headerAccepted, Bool.and_eq_true, Bool.or_eq_true, decide_eq_true_eq,
      rangeFits_iff] at hheader
    obtain ⟨⟨⟨⟨⟨⟨⟨⟨htype, hmachine⟩, hversion⟩, hheaderSize⟩, hzero⟩, hxnum⟩, hentry⟩, hoffset⟩,
      htable⟩ := hheader
    obtain ⟨hsegments, hload⟩ := (programsAccepted_iff hentry htable).mp hprograms
    refine ⟨⟨hsize, hident, htype, hmachine, hversion, hheaderSize, ⟨hzero, hxnum⟩,
      hentry, hoffset, htable, hsegments, hload, fun hnone => ?_, fun hsome =>
      ((sectionsAccepted_iff hsome).mp hsections).1⟩, fun hsome =>
      ((sectionsAccepted_iff hsome).mp hsections).2⟩
    simpa [sectionsAccepted, hnone] using hsections
  · rintro ⟨h, hname⟩
    refine ⟨⟨?_, (programsAccepted_iff h.programEntrySize h.programTable).mpr
      ⟨h.segments, h.load⟩⟩, ?_⟩
    · simp only [headerAccepted, Bool.and_eq_true, Bool.or_eq_true, decide_eq_true_eq,
        rangeFits_iff]
      exact ⟨⟨⟨⟨⟨⟨⟨⟨h.elfType, h.machine_eq⟩, h.version⟩, h.headerSize⟩, h.programCount.1⟩,
        h.programCount.2⟩, h.programEntrySize⟩, h.programOffset⟩, h.programTable⟩
    -- without sections there is no index to check
    · by_cases hnone : (elfHeader content).sectionOffset = 0
      · simpa [sectionsAccepted, hnone] using h.noSections hnone
      · exact (sectionsAccepted_iff hnone).mpr ⟨h.sections hnone, hname hnone⟩

/-! ## The reads of the loops and the index of the section name table -/

/-- The number of turns of the loop over the program headers, if the code comes to it. -/
def programLoopTurns (content : List UInt8) (machine : ℕ) : Option ℕ :=
  let header := content.take elfHeaderSize
  if header.length ≠ elfHeaderSize then none
  else if header.take 4 ≠ [0x7f, 0x45, 0x4c, 0x46] || (header.drop 4).take 3 ≠ [2, 1, 1] then none
  else if headerAccepted (unpackElfHeader header) machine content.length then
    some (unpackElfHeader header).programCount
  else none

/-- The number of turns of the loop over the section headers, if the code comes to it. -/
def sectionLoopTurns (content : List UInt8) (machine : ℕ) : Option ℕ := do
  let _ ← programLoopTurns content machine
  let fields := elfHeader content
  if !programsAccepted content fields || fields.sectionOffset = 0
      || fields.sectionOffset < elfHeaderSize || fields.sectionEntrySize < sectionHeaderSize then
    none
  else
    let count ← actualSectionCount content fields
    if count = 0
        || !rangeFits fields.sectionOffset (fields.sectionEntrySize * count) content.length
        || (fields.sectionNameIndex ≠ 0 && fields.sectionNameIndex ≠ 0xFFFF
          && count ≤ fields.sectionNameIndex) then
      none
    else some count

/-- Each read in the loops returns as many bytes as it asks for, whether or not an earlier turn
ends the loop. -/
structure LoopReadsWhole (content : List UInt8) (machine : ℕ) : Prop where
  programs : ∀ turns, programLoopTurns content machine = some turns → ∀ index < turns,
    (programAt content (elfHeader content) index).length = programHeaderSize
  sections : ∀ turns, sectionLoopTurns content machine = some turns → ∀ index < turns,
    (sectionAt content (elfHeader content) index).length = sectionHeaderSize

/-- The checks made before a loop keep its reads inside the file. -/
theorem loopReadsWhole (content : List UInt8) (machine : ℕ) : LoopReadsWhole content machine where
  programs := by
    intro turns h index hindex
    simp only [programLoopTurns] at h
    split_ifs at h with _ _ hheader
    obtain rfl := Option.some.inj h
    simp only [headerAccepted, Bool.and_eq_true, decide_eq_true_eq, rangeFits_iff] at hheader
    exact length_programAt hheader.1.1.2 hheader.2 hindex
  sections := by
    intro turns h index hindex
    unfold sectionLoopTurns at h
    obtain ⟨_, -, h⟩ := Option.bind_eq_some_iff.mp h
    dsimp only at h
    split_ifs at h with hguard
    obtain ⟨count, -, h⟩ := Option.bind_eq_some_iff.mp h
    split_ifs at h with htable
    obtain rfl := Option.some.inj h
    simp only [Bool.or_eq_true, decide_eq_true_eq, Bool.not_eq_true', not_or, not_lt,
      Bool.not_eq_false, rangeFits_iff] at hguard htable
    exact length_sectionAt hguard.2 htable.1.2 hindex

/-- **Where the validation is sound.** Its loops never read a header short, and an accepted file is
well formed with its section name table among its sections, unless the file is well formed but
keeps the index of that table in section zero, which the code does not read, and it is not a
section. -/
theorem sound_isValidElfMachine_iff (content : List UInt8) (machine : ℕ) :
    (LoopReadsWhole content machine ∧ (isValidElfMachine content machine = true →
      WellFormedElf content machine ∧ NameTableInside content (elfHeader content))) ↔
      ¬ (WellFormedElf content machine ∧ EscapedNameTableOutside content (elfHeader content)) := by
  rw [and_iff_right (loopReadsWhole content machine), isValidElfMachine_eq_true_iff]
  constructor
  · rintro h ⟨hwell, hsections, hescape, houtside⟩
    obtain ⟨-, hinside⟩ := h ⟨hwell, fun _ hdirect => absurd hescape hdirect⟩
    exact (hinside hsections).not_ge houtside
  · rintro h ⟨hwell, hname⟩
    refine ⟨hwell, fun hsections => ?_⟩
    by_cases hescape : (elfHeader content).sectionNameIndex = 0xFFFF
    · exact not_le.mp fun houtside => h ⟨hwell, hsections, hescape, houtside⟩
    · rw [sectionNameTable, if_neg hescape]
      exact hname hsections hescape

/-- An executable with one loadable segment and one section, which keeps the index of the section
name table in section zero: it names section five. -/
def escapedNameTableElf : List UInt8 :=
  [0x7f, 0x45, 0x4c, 0x46, 2, 1, 1, 0] ++ leBytes 8 0
    ++ leBytes 2 etExec ++ leBytes 2 183 ++ leBytes 4 1 ++ leBytes 8 0 ++ leBytes 8 64
    ++ leBytes 8 120 ++ leBytes 4 0 ++ leBytes 2 64 ++ leBytes 2 56 ++ leBytes 2 1
    ++ leBytes 2 64 ++ leBytes 2 1 ++ leBytes 2 0xFFFF
    -- the program header: the first 120 bytes, aligned to pages
    ++ leBytes 4 ptLoad ++ leBytes 4 5 ++ leBytes 8 0 ++ leBytes 8 0 ++ leBytes 8 0
    ++ leBytes 8 120 ++ leBytes 8 120 ++ leBytes 8 0x1000
    -- section zero, with five in its link field
    ++ leBytes 40 0 ++ leBytes 4 5 ++ leBytes 20 0

/-- The validation accepts that executable, whose section name table does not exist. -/
theorem not_sound_isValidElfMachine :
    ¬ ∀ content machine, LoopReadsWhole content machine ∧
      (isValidElfMachine content machine = true →
        WellFormedElf content machine ∧ NameTableInside content (elfHeader content)) := by
  intro h
  have haccepted : isValidElfMachine escapedNameTableElf 183 = true := by decide +kernel
  have hsections : (elfHeader escapedNameTableElf).sectionOffset ≠ 0 := by decide +kernel
  have houtside : ¬ sectionNameTable escapedNameTableElf (elfHeader escapedNameTableElf)
      < realSectionCount escapedNameTableElf (elfHeader escapedNameTableElf) := by decide +kernel
  exact houtside (((h escapedNameTableElf 183).2 haccepted).2 hsections)

end AndroidSdk.FileTree
