import Mathlib.Tactic.SplitIfs
import Mathlib.Tactic.Tauto
import AndroidSdk.Lib.LittleEndian

/-! # Structural validation of ELF programs

`elf_validation.py` decides whether a file is a little-endian ELF64 program or shared object for a
given machine, looking at the file header, every program header and every section header.

* **`headerAccepted`**, **`programsAccepted`**, **`sectionsAccepted`** — the checks on the parts.
* **`isValidElfMachine`** — the decision. -/

namespace AndroidSdk.FileTree

open Lib

/-- Size of the ELF header. -/
def elfHeaderSize : ℕ := 64

/-- Size of a program header. -/
def programHeaderSize : ℕ := 56

/-- Size of a section header. -/
def sectionHeaderSize : ℕ := 64

/-- `e_type` of an executable. -/
def etExec : ℕ := 2

/-- `e_type` of a shared object. -/
def etDyn : ℕ := 3

/-- `p_type` of a loadable segment. -/
def ptLoad : ℕ := 1

/-- `sh_type` of a section without file content. -/
def shtNobits : ℕ := 8

/-- The program header count that stands for a count stored elsewhere. -/
def pnXnum : ℕ := 0xFFFF

/-- `_range_fits`: the range lies within the file. -/
def rangeFits (offset length fileSize : ℕ) : Bool := offset ≤ fileSize && length ≤ fileSize - offset

/-- Seek to an offset and read up to `length` bytes. -/
def readAt (content : List UInt8) (offset length : ℕ) : List UInt8 :=
  (content.drop offset).take length

/-- Neither 0 nor 1 nor a power of two. -/
def badAlignment (alignment : ℕ) : Bool :=
  alignment ≠ 0 && alignment ≠ 1 && (alignment &&& (alignment - 1)) ≠ 0

/-- The fields of the ELF header that the validation looks at. -/
structure ElfHeader where
  elfType : ℕ
  machine : ℕ
  version : ℕ
  programOffset : ℕ
  sectionOffset : ℕ
  headerSize : ℕ
  programEntrySize : ℕ
  programCount : ℕ
  sectionEntrySize : ℕ
  sectionCount : ℕ
  sectionNameIndex : ℕ

/-- `struct.unpack("<16sHHIQQQIHHHHHH", header)`. -/
def unpackElfHeader (header : List UInt8) : ElfHeader where
  elfType := fieldAt header 16 2
  machine := fieldAt header 18 2
  version := fieldAt header 20 4
  programOffset := fieldAt header 32 8
  sectionOffset := fieldAt header 40 8
  headerSize := fieldAt header 52 2
  programEntrySize := fieldAt header 54 2
  programCount := fieldAt header 56 2
  sectionEntrySize := fieldAt header 58 2
  sectionCount := fieldAt header 60 2
  sectionNameIndex := fieldAt header 62 2

/-- The checks on the fields of the ELF header before the program headers are read. -/
def headerAccepted (fields : ElfHeader) (expectedMachine fileSize : ℕ) : Bool :=
  (fields.elfType = etExec || fields.elfType = etDyn)
    && fields.machine = expectedMachine
    && fields.version = 1
    && fields.headerSize = elfHeaderSize
    && fields.programCount ≠ 0 && fields.programCount ≠ pnXnum
    && programHeaderSize ≤ fields.programEntrySize
    && elfHeaderSize ≤ fields.programOffset
    && rangeFits fields.programOffset (fields.programEntrySize * fields.programCount) fileSize

/-- The program header with a given index. -/
def programAt (content : List UInt8) (fields : ElfHeader) (index : ℕ) : List UInt8 :=
  readAt content (fields.programOffset + index * fields.programEntrySize) programHeaderSize

/-- `program_type == PT_LOAD`, with the type in the first four bytes. -/
def isLoad (program : List UInt8) : Bool := fieldAt program 0 4 = ptLoad

/-- The checks on one program header, read as `struct.unpack("<IIQQQQQQ", program)`. -/
def programAccepted (program : List UInt8) (fileSize : ℕ) : Bool :=
  let fileOffset := fieldAt program 8 8
  let virtualAddress := fieldAt program 16 8
  let fileLength := fieldAt program 32 8
  let memoryLength := fieldAt program 40 8
  let alignment := fieldAt program 48 8
  program.length = programHeaderSize
    && rangeFits fileOffset fileLength fileSize
    && fileLength ≤ memoryLength
    && !badAlignment alignment
    && !(isLoad program && 1 < alignment && fileOffset % alignment ≠ virtualAddress % alignment)

/-- The loop over the program headers: each passes its checks, and one of them is loadable. -/
def programsAccepted (content : List UInt8) (fields : ElfHeader) : Bool :=
  let programs := (List.range fields.programCount).map (programAt content fields)
  programs.all (programAccepted · content.length) && programs.any isLoad

/-- The section header with a given index. -/
def sectionAt (content : List UInt8) (fields : ElfHeader) (index : ℕ) : List UInt8 :=
  readAt content (fields.sectionOffset + index * fields.sectionEntrySize) sectionHeaderSize

/-- The checks on one section header, read as `struct.unpack("<IIQQQQIIQQ", section)`. -/
def sectionAccepted (sectionHeader : List UInt8) (fileSize : ℕ) : Bool :=
  let sectionType := fieldAt sectionHeader 4 4
  let fileOffset := fieldAt sectionHeader 24 8
  let length := fieldAt sectionHeader 32 8
  let alignment := fieldAt sectionHeader 48 8
  sectionHeader.length = sectionHeaderSize
    && (sectionType = shtNobits || rangeFits fileOffset length fileSize)
    && !badAlignment alignment

/-- `actual_section_count`: a count of zero in the ELF header stands for the size field of section
zero, which has to lie within the file. -/
def actualSectionCount (content : List UInt8) (fields : ElfHeader) : Option ℕ :=
  if fields.sectionCount = 0 then
    if rangeFits fields.sectionOffset sectionHeaderSize content.length then
      some (fieldAt (readAt content fields.sectionOffset sectionHeaderSize) 32 8)
    else none
  else some fields.sectionCount

/-- The checks on the section headers. -/
def sectionsAccepted (content : List UInt8) (fields : ElfHeader) : Bool :=
  if fields.sectionOffset = 0 then
    fields.sectionCount = 0 && fields.sectionNameIndex = 0
  else if fields.sectionOffset < elfHeaderSize || fields.sectionEntrySize < sectionHeaderSize then
    false
  else
    match actualSectionCount content fields with
    | none => false
    | some count =>
        count ≠ 0 && rangeFits fields.sectionOffset (fields.sectionEntrySize * count) content.length
          && !(fields.sectionNameIndex ≠ 0 && fields.sectionNameIndex ≠ 0xFFFF
            && count ≤ fields.sectionNameIndex)
          && ((List.range count).map (sectionAt content fields)).all
            (sectionAccepted · content.length)

/-- `is_valid_elf_machine` on the content of a file. -/
def isValidElfMachine (content : List UInt8) (expectedMachine : ℕ) : Bool :=
  let header := content.take elfHeaderSize
  if header.length ≠ elfHeaderSize then false
  else if header.take 4 ≠ [0x7f, 0x45, 0x4c, 0x46] || (header.drop 4).take 3 ≠ [2, 1, 1] then false
  else
    let fields := unpackElfHeader header
    headerAccepted fields expectedMachine content.length
      && programsAccepted content fields && sectionsAccepted content fields

end AndroidSdk.FileTree
