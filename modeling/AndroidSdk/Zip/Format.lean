import AndroidSdk.Lib.LittleEndian

/-! # Records of a Zip archive

The three records that the Zip library of zipalign reads and writes: local file headers, central
directory entries and the end of the central directory (`ZipEntry.cpp`, `ZipFile.cpp`).

* **`LocalFileHeader`**, **`CentralDirEntry`**, **`EndOfCentralDir`** — the records, with names,
  extra fields and comments that fit their 16-bit lengths.
* **`read`**, **`write`** — reading a record at a position of a file and writing it.
* **`LocalFileHeader.read_write`**, **`CentralDirEntry.read_write`**,
  **`EndOfCentralDir.readBuf_write`** — a record that was written is read back. -/

namespace AndroidSdk.Zip

open Lib

/-- The bytes of a file or a buffer. -/
abbrev Bytes := List UInt8

/-! ## Fields -/

/-- `getShortLE` at an offset of a buffer. -/
def getShortLE (buf : Bytes) (offset : ℕ) : UInt16 := UInt16.ofNat (fieldAt buf offset 2)

/-- `getLongLE` at an offset of a buffer. -/
def getLongLE (buf : Bytes) (offset : ℕ) : UInt32 := UInt32.ofNat (fieldAt buf offset 4)

/-- The bytes that `putShortLE` stores. -/
def putShortLE (val : UInt16) : Bytes := leBytes 2 val.toNat

/-- The bytes that `putLongLE` stores. -/
def putLongLE (val : UInt32) : Bytes := leBytes 4 val.toNat

/-- A short takes two bytes. -/
@[simp] theorem length_putShortLE (val : UInt16) : (putShortLE val).length = 2 := length_leBytes _ _

/-- A long takes four bytes. -/
@[simp] theorem length_putLongLE (val : UInt32) : (putLongLE val).length = 4 := length_leBytes _ _

/-- A short is read back. -/
@[simp] theorem getShortLE_putShortLE (val : UInt16) (rest : Bytes) :
    getShortLE (putShortLE val ++ rest) 0 = val := by
  rw [getShortLE, putShortLE, fieldAt_leBytes_append]
  apply UInt16.toNat_inj.mp
  simp

/-- A short alone is read back. -/
@[simp] theorem getShortLE_putShortLE_self (val : UInt16) : getShortLE (putShortLE val) 0 = val := by
  rw [← List.append_nil (putShortLE val), getShortLE_putShortLE]

/-- A long is read back. -/
@[simp] theorem getLongLE_putLongLE (val : UInt32) (rest : Bytes) :
    getLongLE (putLongLE val ++ rest) 0 = val := by
  rw [getLongLE, putLongLE, fieldAt_leBytes_append]
  apply UInt32.toNat_inj.mp
  simp

/-- A long alone is read back. -/
@[simp] theorem getLongLE_putLongLE_self (val : UInt32) : getLongLE (putLongLE val) 0 = val := by
  rw [← List.append_nil (putLongLE val), getLongLE_putLongLE]

/-- A short behind the first part of a buffer. -/
theorem getShortLE_append {first : Bytes} {offset : ℕ} (h : first.length ≤ offset) (rest : Bytes) :
    getShortLE (first ++ rest) offset = getShortLE rest (offset - first.length) := by
  rw [getShortLE, getShortLE, fieldAt_append_of_le h]

/-- A long behind the first part of a buffer. -/
theorem getLongLE_append {first : Bytes} {offset : ℕ} (h : first.length ≤ offset) (rest : Bytes) :
    getLongLE (first ++ rest) offset = getLongLE rest (offset - first.length) := by
  rw [getLongLE, getLongLE, fieldAt_append_of_le h]

/-! ## Reading from a file -/

/-- `fread` of exactly `length` bytes at a position. -/
def bytesAt (file : Bytes) (position length : ℕ) : Option Bytes :=
  if position + length ≤ file.length then some ((file.drop position).take length) else none

/-- The bytes at a position, in a file that has them there. -/
theorem bytesAt_append (before bytes after : Bytes) {position length : ℕ}
    (hposition : position = before.length) (hlength : length = bytes.length) :
    bytesAt (before ++ (bytes ++ after)) position length = some bytes := by
  subst hposition hlength
  rw [bytesAt, if_pos (by simp), List.drop_left, List.take_left]

/-- As many bytes are read as requested. -/
theorem length_of_bytesAt {file data : Bytes} {position length : ℕ}
    (h : bytesAt file position length = some data) : data.length = length := by
  rw [bytesAt] at h
  split at h
  · cases h
    rw [List.length_take, List.length_drop]
    omega
  · cases h

/-- Fewer bytes can be read at the same position. -/
theorem bytesAt_of_le {file data : Bytes} {position length shorter : ℕ}
    (h : bytesAt file position length = some data) (hle : shorter ≤ length) :
    bytesAt file position shorter = some (data.take shorter) := by
  rw [bytesAt] at h ⊢
  split at h
  · cases h
    rw [if_pos (by omega), List.take_take, min_eq_left hle]
  · cases h

/-- A name, extra field or comment whose length fits the 16-bit field that counts it. -/
structure VarField where
  bytes : Bytes
  length_lt : bytes.length < 65536
  deriving DecidableEq

/-- The field without bytes. -/
def VarField.empty : VarField := ⟨[], by decide⟩

/-- It has no bytes. -/
@[simp] theorem VarField.bytes_empty : VarField.empty.bytes = [] := rfl

/-- Variable fields with the same bytes are equal. -/
theorem VarField.ext_bytes {a b : VarField} (h : a.bytes = b.bytes) : a = b := by
  cases a
  cases b
  simp_all

/-- The value of the length field. -/
def VarField.length (f : VarField) : UInt16 := UInt16.ofNat f.bytes.length

/-- The length field counts the bytes. -/
@[simp] theorem VarField.toNat_length (f : VarField) : f.length.toNat = f.bytes.length :=
  UInt16.toNat_ofNat_of_lt f.length_lt

/-- Read a variable field of a given length. -/
def readVar (file : Bytes) (position : ℕ) (length : UInt16) : Option VarField :=
  if h : position + length.toNat ≤ file.length then
    some ⟨(file.drop position).take length.toNat, by
      rw [List.length_take]
      exact lt_of_le_of_lt (min_le_left _ _) length.toNat_lt⟩
  else none

/-- A variable field is read back. -/
theorem readVar_append (before : Bytes) (f : VarField) (after : Bytes) {position : ℕ}
    (hposition : position = before.length) :
    readVar (before ++ (f.bytes ++ after)) position f.length = some f := by
  subst hposition
  rw [readVar, dif_pos (by simp)]
  congr 1
  apply VarField.ext_bytes
  simp

/-! ## Local file headers -/

/-- `ZipEntry::LocalFileHeader`. -/
structure LocalFileHeader where
  versionToExtract : UInt16
  gpBitFlag : UInt16
  compressionMethod : UInt16
  lastModFileTime : UInt16
  lastModFileDate : UInt16
  crc32 : UInt32
  compressedSize : UInt32
  uncompressedSize : UInt32
  fileName : VarField
  extraField : VarField
  deriving DecidableEq

namespace LocalFileHeader

/-- `kSignature`. -/
def signature : UInt32 := 0x04034b50

/-- `kLFHLen`. -/
def kLFHLen : ℕ := 30

/-- `LocalFileHeader::read` at a position. -/
def read (file : Bytes) (position : ℕ) : Option LocalFileHeader := do
  let buf ← bytesAt file position kLFHLen
  if getLongLE buf 0x00 ≠ signature then none
  else
    let fileName ← readVar file (position + kLFHLen) (getShortLE buf 0x1a)
    let extraField ← readVar file (position + kLFHLen + fileName.bytes.length) (getShortLE buf 0x1c)
    return {
      versionToExtract := getShortLE buf 0x04
      gpBitFlag := getShortLE buf 0x06
      compressionMethod := getShortLE buf 0x08
      lastModFileTime := getShortLE buf 0x0a
      lastModFileDate := getShortLE buf 0x0c
      crc32 := getLongLE buf 0x0e
      compressedSize := getLongLE buf 0x12
      uncompressedSize := getLongLE buf 0x16
      fileName
      extraField }

/-- The part of a header with fixed length. -/
def fixedPart (h : LocalFileHeader) : Bytes :=
  putLongLE signature ++ (putShortLE h.versionToExtract ++ (putShortLE h.gpBitFlag
    ++ (putShortLE h.compressionMethod ++ (putShortLE h.lastModFileTime
    ++ (putShortLE h.lastModFileDate ++ (putLongLE h.crc32 ++ (putLongLE h.compressedSize
    ++ (putLongLE h.uncompressedSize ++ (putShortLE h.fileName.length
    ++ putShortLE h.extraField.length)))))))))

/-- The bytes that `LocalFileHeader::write` writes. -/
def write (h : LocalFileHeader) : Bytes :=
  h.fixedPart ++ (h.fileName.bytes ++ h.extraField.bytes)

/-- The fixed part takes `kLFHLen` bytes. -/
@[simp] theorem length_fixedPart (h : LocalFileHeader) : h.fixedPart.length = kLFHLen := by
  simp [fixedPart, kLFHLen]

/-- The length of a written header. -/
theorem length_write (h : LocalFileHeader) :
    h.write.length = kLFHLen + h.fileName.bytes.length + h.extraField.bytes.length := by
  simp [write, add_assoc]

/-- **A local file header that was written is read back.** -/
theorem read_write (before : Bytes) (h : LocalFileHeader) (after : Bytes) {position : ℕ}
    (hposition : position = before.length) :
    read (before ++ (h.write ++ after)) position = some h := by
  have hfile : before ++ (h.write ++ after)
      = before ++ (h.fixedPart ++ (h.fileName.bytes ++ (h.extraField.bytes ++ after))) := by
    simp [write]
  have hbuf := bytesAt_append before h.fixedPart (h.fileName.bytes ++ (h.extraField.bytes ++ after))
    hposition (length_fixedPart h).symm
  have hname := readVar_append (before ++ h.fixedPart) h.fileName (h.extraField.bytes ++ after)
    (show position + kLFHLen = _ by simp [hposition])
  have hextra := readVar_append (before ++ h.fixedPart ++ h.fileName.bytes) h.extraField after
    (show position + kLFHLen + h.fileName.bytes.length = _ by simp [hposition, add_assoc])
  simp only [List.append_assoc] at hname hextra
  have hshorts : getShortLE h.fixedPart 0x1a = h.fileName.length
      ∧ getShortLE h.fixedPart 0x1c = h.extraField.length := by
    simp [fixedPart, getShortLE_append]
  rw [hfile, read, hbuf]
  simp only [Option.bind_eq_bind, Option.bind_some]
  rw [if_neg (by simp [fixedPart]), hshorts.1, hname, hshorts.2]
  simp only [Option.bind_some]
  rw [hextra]
  simp [fixedPart, getShortLE_append, getLongLE_append]

end LocalFileHeader

/-! ## Central directory entries -/

/-- `ZipEntry::CentralDirEntry`. -/
structure CentralDirEntry where
  versionMadeBy : UInt16
  versionToExtract : UInt16
  gpBitFlag : UInt16
  compressionMethod : UInt16
  lastModFileTime : UInt16
  lastModFileDate : UInt16
  crc32 : UInt32
  compressedSize : UInt32
  uncompressedSize : UInt32
  diskNumberStart : UInt16
  internalAttrs : UInt16
  externalAttrs : UInt32
  localHeaderRelOffset : UInt32
  fileName : VarField
  extraField : VarField
  fileComment : VarField
  deriving DecidableEq

namespace CentralDirEntry

/-- `kSignature`. -/
def signature : UInt32 := 0x02014b50

/-- `kCDELen`. -/
def kCDELen : ℕ := 46

/-- The length of an entry in the file. -/
def length (e : CentralDirEntry) : ℕ :=
  kCDELen + e.fileName.bytes.length + e.extraField.bytes.length + e.fileComment.bytes.length

/-- `CentralDirEntry::read` at a position; on exit the file is positioned at the position plus the
length of the entry. -/
def read (file : Bytes) (position : ℕ) : Option CentralDirEntry := do
  let buf ← bytesAt file position kCDELen
  if getLongLE buf 0x00 ≠ signature then none
  else
    let fileName ← readVar file (position + kCDELen) (getShortLE buf 0x1c)
    let extraField ← readVar file (position + kCDELen + fileName.bytes.length) (getShortLE buf 0x1e)
    let fileComment ← readVar file
      (position + kCDELen + fileName.bytes.length + extraField.bytes.length) (getShortLE buf 0x20)
    return {
      versionMadeBy := getShortLE buf 0x04
      versionToExtract := getShortLE buf 0x06
      gpBitFlag := getShortLE buf 0x08
      compressionMethod := getShortLE buf 0x0a
      lastModFileTime := getShortLE buf 0x0c
      lastModFileDate := getShortLE buf 0x0e
      crc32 := getLongLE buf 0x10
      compressedSize := getLongLE buf 0x14
      uncompressedSize := getLongLE buf 0x18
      diskNumberStart := getShortLE buf 0x22
      internalAttrs := getShortLE buf 0x24
      externalAttrs := getLongLE buf 0x26
      localHeaderRelOffset := getLongLE buf 0x2a
      fileName
      extraField
      fileComment }

/-- The part of an entry with fixed length. -/
def fixedPart (e : CentralDirEntry) : Bytes :=
  putLongLE signature ++ (putShortLE e.versionMadeBy ++ (putShortLE e.versionToExtract
    ++ (putShortLE e.gpBitFlag ++ (putShortLE e.compressionMethod ++ (putShortLE e.lastModFileTime
    ++ (putShortLE e.lastModFileDate ++ (putLongLE e.crc32 ++ (putLongLE e.compressedSize
    ++ (putLongLE e.uncompressedSize ++ (putShortLE e.fileName.length
    ++ (putShortLE e.extraField.length ++ (putShortLE e.fileComment.length
    ++ (putShortLE e.diskNumberStart ++ (putShortLE e.internalAttrs ++ (putLongLE e.externalAttrs
    ++ putLongLE e.localHeaderRelOffset)))))))))))))))

/-- The bytes that `CentralDirEntry::write` writes. -/
def write (e : CentralDirEntry) : Bytes :=
  e.fixedPart ++ (e.fileName.bytes ++ (e.extraField.bytes ++ e.fileComment.bytes))

/-- The fixed part takes `kCDELen` bytes. -/
@[simp] theorem length_fixedPart (e : CentralDirEntry) : e.fixedPart.length = kCDELen := by
  simp [fixedPart, kCDELen]

/-- The length of a written entry. -/
@[simp] theorem length_write (e : CentralDirEntry) : e.write.length = e.length := by
  simp [write, length, add_assoc]

/-- A written entry starts with its signature. -/
theorem getLongLE_write (e : CentralDirEntry) (after : Bytes) :
    getLongLE (e.write ++ after) 0 = signature := by
  simp [write, fixedPart]

/-- **A central directory entry that was written is read back.** -/
theorem read_write (before : Bytes) (e : CentralDirEntry) (after : Bytes) {position : ℕ}
    (hposition : position = before.length) :
    read (before ++ (e.write ++ after)) position = some e := by
  have hfile : before ++ (e.write ++ after) = before ++ (e.fixedPart
      ++ (e.fileName.bytes ++ (e.extraField.bytes ++ (e.fileComment.bytes ++ after)))) := by
    simp [write]
  have hbuf := bytesAt_append before e.fixedPart
    (e.fileName.bytes ++ (e.extraField.bytes ++ (e.fileComment.bytes ++ after))) hposition
    (length_fixedPart e).symm
  have hname := readVar_append (before ++ e.fixedPart) e.fileName
    (e.extraField.bytes ++ (e.fileComment.bytes ++ after))
    (show position + kCDELen = _ by simp [hposition])
  have hextra := readVar_append (before ++ e.fixedPart ++ e.fileName.bytes) e.extraField
    (e.fileComment.bytes ++ after)
    (show position + kCDELen + e.fileName.bytes.length = _ by simp [hposition, add_assoc])
  have hcomment := readVar_append (before ++ e.fixedPart ++ e.fileName.bytes ++ e.extraField.bytes)
    e.fileComment after
    (show position + kCDELen + e.fileName.bytes.length + e.extraField.bytes.length = _ by
      simp [hposition, add_assoc])
  simp only [List.append_assoc] at hname hextra hcomment
  have hshorts : getShortLE e.fixedPart 0x1c = e.fileName.length
      ∧ getShortLE e.fixedPart 0x1e = e.extraField.length
      ∧ getShortLE e.fixedPart 0x20 = e.fileComment.length := by
    simp [fixedPart, getShortLE_append]
  rw [hfile, read, hbuf]
  simp only [Option.bind_eq_bind, Option.bind_some]
  rw [if_neg (by simp [fixedPart]), hshorts.1, hname, hshorts.2.1, hshorts.2.2]
  simp only [Option.bind_some]
  rw [hextra]
  simp only [Option.bind_some]
  rw [hcomment]
  simp [fixedPart, getShortLE_append, getLongLE_append]

end CentralDirEntry

/-! ## The end of the central directory -/

/-- `ZipFile::EndOfCentralDir`. -/
structure EndOfCentralDir where
  diskNumber : UInt16
  diskWithCentralDir : UInt16
  numEntries : UInt16
  totalNumEntries : UInt16
  centralDirSize : UInt32
  centralDirOffset : UInt32
  comment : VarField
  deriving DecidableEq

namespace EndOfCentralDir

/-- `kSignature`. -/
def signature : UInt32 := 0x06054b50

/-- `kEOCDLen`. -/
def kEOCDLen : ℕ := 22

/-- `kMaxEOCDSearch`. -/
def kMaxEOCDSearch : ℕ := 65535 + kEOCDLen

/-- The record that the constructor makes. -/
def initial : EndOfCentralDir := ⟨0, 0, 0, 0, 0, 0, .empty⟩

/-- `EndOfCentralDir::readBuf` on a buffer positioned at the signature. -/
def readBuf (buf : Bytes) : Option EndOfCentralDir :=
  if buf.length < kEOCDLen then none
  else if getLongLE buf 0x00 ≠ signature then none
  else
    match readVar buf kEOCDLen (getShortLE buf 0x14) with
    | none => none
    | some comment => some {
        diskNumber := getShortLE buf 0x04
        diskWithCentralDir := getShortLE buf 0x06
        numEntries := getShortLE buf 0x08
        totalNumEntries := getShortLE buf 0x0a
        centralDirSize := getLongLE buf 0x0c
        centralDirOffset := getLongLE buf 0x10
        comment }

/-- The part of the record with fixed length. -/
def fixedPart (e : EndOfCentralDir) : Bytes :=
  putLongLE signature ++ (putShortLE e.diskNumber ++ (putShortLE e.diskWithCentralDir
    ++ (putShortLE e.numEntries ++ (putShortLE e.totalNumEntries ++ (putLongLE e.centralDirSize
    ++ (putLongLE e.centralDirOffset ++ putShortLE e.comment.length))))))

/-- The bytes that `EndOfCentralDir::write` writes. -/
def write (e : EndOfCentralDir) : Bytes := e.fixedPart ++ e.comment.bytes

/-- The fixed part takes `kEOCDLen` bytes. -/
@[simp] theorem length_fixedPart (e : EndOfCentralDir) : e.fixedPart.length = kEOCDLen := by
  simp [fixedPart, kEOCDLen]

/-- The length of a written record. -/
theorem length_write (e : EndOfCentralDir) :
    e.write.length = kEOCDLen + e.comment.bytes.length := by
  simp [write]

/-- A written record starts with its signature. -/
theorem getLongLE_write (e : EndOfCentralDir) (after : Bytes) :
    getLongLE (e.write ++ after) 0 = signature := by
  simp [write, fixedPart]

/-- **An end of central directory that was written is read back.** -/
theorem readBuf_write (e : EndOfCentralDir) : readBuf e.write = some e := by
  have hcomment := readVar_append e.fixedPart e.comment []
    (show kEOCDLen = _ from (length_fixedPart e).symm)
  have hshort : getShortLE e.write 0x14 = e.comment.length := by
    simp [write, fixedPart, getShortLE_append]
  rw [List.append_nil, ← write] at hcomment
  rw [readBuf, if_neg (by simp [length_write]), if_neg (by simp [write, fixedPart]), hshort, hcomment]
  simp [write, fixedPart, getShortLE_append, getLongLE_append]

end EndOfCentralDir

end AndroidSdk.Zip
