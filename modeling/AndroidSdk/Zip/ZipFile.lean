import AndroidSdk.Zip.Format

/-! # Zip archives

The Zip library of zipalign (`ZipFile.cpp`, `ZipEntry.cpp`): opening an archive, copying entries
from another archive with or without recompression, removing entries, and writing the central
directory.

* **`ZipEntry`**, **`ZipFile`** — an entry with its two headers, and an archive with its file.
* **`readCentralDir`** — finding the end of the central directory and reading the entries.
* **`add`**, **`addRecompress`**, **`flush`** — the operations on an archive open for writing.

Positions are those of the file; operations that fail give `none`. Files are read and written in
full, since the chunks in which the library copies data do not show. -/

namespace AndroidSdk.Zip

open Lib

/-! ## Entries -/

/-- `ZipEntry`: the two headers of an entry and the deletion flag. -/
structure ZipEntry where
  cde : CentralDirEntry
  lfh : LocalFileHeader
  deleted : Bool
  deriving DecidableEq

namespace ZipEntry

/-- `kCompressStored`. -/
def kCompressStored : UInt16 := 0

/-- `kCompressDeflated`. -/
def kCompressDeflated : UInt16 := 8

/-- `kUsesDataDescr`: bit 3 of the general purpose flag. -/
def kUsesDataDescr : UInt16 := 0x0008

/-- `kDataDescriptorLen`. -/
def kDataDescriptorLen : ℕ := 16

/-- `isCompressed`. -/
def isCompressed (e : ZipEntry) : Bool := e.cde.compressionMethod ≠ kCompressStored

/-- `getLFHOffset`. -/
def getLFHOffset (e : ZipEntry) : ℕ := e.cde.localHeaderRelOffset.toNat

/-- `getFileOffset`, computed with 32-bit numbers. -/
def getFileOffset (e : ZipEntry) : ℕ :=
  (e.cde.localHeaderRelOffset.toNat + LocalFileHeader.kLFHLen + e.lfh.fileName.bytes.length
    + e.lfh.extraField.bytes.length) % 2 ^ 32

/-- `getUncompressedLen`. -/
def getUncompressedLen (e : ZipEntry) : ℕ := e.cde.uncompressedSize.toNat

/-- `getCompressedLen`. -/
def getCompressedLen (e : ZipEntry) : ℕ := e.cde.compressedSize.toNat

/-- `setLFHOffset`: the position loses what does not fit into 32 bits. -/
def setLFHOffset (e : ZipEntry) (offset : ℕ) : ZipEntry :=
  { e with cde := { e.cde with localHeaderRelOffset := UInt32.ofNat offset } }

/-- `initFromCDE` at a position. -/
def initFromCDE (file : Bytes) (position : ℕ) : Option ZipEntry := do
  let cde ← CentralDirEntry.read file position
  let lfh ← LocalFileHeader.read file cde.localHeaderRelOffset.toNat
  return { cde, lfh, deleted := false }

end ZipEntry

/-- The content of freshly allocated memory, byte by byte, which `new uint8_t[n]` leaves as it
is. -/
abbrev Fresh := ℕ → UInt8

/-- `strcpy` into fresh memory of the length of a field: what follows the first NUL is not
copied. -/
def strcpy (fresh : Fresh) (f : VarField) : VarField :=
  let text := f.bytes.takeWhile (· ≠ 0)
  ⟨(text ++ 0 :: (List.range f.bytes.length).map fresh).take f.bytes.length, by
    rw [List.length_take]
    exact lt_of_le_of_lt (min_le_left _ _) f.length_lt⟩

/-- The fresh memory that an operation obtains: for the name and the comment of the central entry
and, each time, for the name of the local header. -/
structure Memory where
  fileName : Fresh
  fileComment : Fresh
  localName : Fresh
  localNameAgain : Fresh

namespace ZipEntry

/-- `copyCDEtoLFH`. -/
def copyCDEtoLFH (fresh : Fresh) (e : ZipEntry) : ZipEntry :=
  { e with lfh := {
      versionToExtract := e.cde.versionToExtract
      gpBitFlag := e.cde.gpBitFlag
      compressionMethod := e.cde.compressionMethod
      lastModFileTime := e.cde.lastModFileTime
      lastModFileDate := e.cde.lastModFileDate
      crc32 := e.cde.crc32
      compressedSize := e.cde.compressedSize
      uncompressedSize := e.cde.uncompressedSize
      fileName := strcpy fresh e.cde.fileName
      -- the "extra field" is independent
      extraField := e.lfh.extraField } }

/-- `initFromExternal`. -/
def initFromExternal (memory : Memory) (source : ZipEntry) : ZipEntry :=
  copyCDEtoLFH memory.localName {
    cde := { source.cde with
      fileName := strcpy memory.fileName source.cde.fileName
      fileComment := strcpy memory.fileComment source.cde.fileComment }
    lfh := source.lfh
    deleted := false }

/-- `addPadding`: the length of the extra field is a 16-bit number, so that a sum that does not fit
wraps around and only the first bytes of the field are written. -/
def addPadding (e : ZipEntry) (padding : ℕ) : Option ZipEntry :=
  if padding = 0 ∨ 2 ^ 31 ≤ padding then none
  else
    let extra := e.lfh.extraField.bytes
    some { e with lfh := { e.lfh with
      extraField := ⟨(extra ++ List.replicate padding 0).take ((extra.length + padding) % 65536), by
        rw [List.length_take]
        exact lt_of_le_of_lt (min_le_left _ _) (Nat.mod_lt _ (by decide))⟩ } }

/-- `setDataInfo` with the method `kCompressDeflated`. -/
def setDataInfo (fresh : Fresh) (e : ZipEntry) (uncompLen compLen : ℕ) (crc32 : UInt32) : ZipEntry :=
  copyCDEtoLFH fresh { e with cde := { e.cde with
    compressionMethod := kCompressDeflated
    crc32
    compressedSize := UInt32.ofNat compLen
    uncompressedSize := UInt32.ofNat uncompLen
    -- indicates maximum compression used
    gpBitFlag := e.cde.gpBitFlag ||| 0x0002 } }

end ZipEntry

/-! ## Archives -/

/-- `ZipFile`: the file with the data that the library keeps about it. -/
structure ZipFile where
  file : Bytes
  eocd : EndOfCentralDir
  entries : List ZipEntry
  readOnly : Bool
  needCDRewrite : Bool
  deriving DecidableEq

/-- The signature of the end of the central directory stands at an index of the buffer. -/
def isEocdAt (buf : Bytes) (i : ℕ) : Bool := getLongLE buf i = EndOfCentralDir.signature

/-- The loop of `readCentralDir` that searches the buffer from an index down to 0. -/
def findEocd (buf : Bytes) : ℕ → Option ℕ
  | 0 => if isEocdAt buf 0 then some 0 else none
  | i + 1 => if isEocdAt buf (i + 1) then some (i + 1) else findEocd buf i

/-- The loop of `readCentralDir` that reads the central directory entries, with the position behind
them. -/
def readEntries (file : Bytes) : ℕ → ℕ → Option (List ZipEntry × ℕ)
  | position, 0 => some ([], position)
  | position, count + 1 => do
      let entry ← ZipEntry.initFromCDE file position
      let (rest, last) ← readEntries file (position + entry.cde.length) count
      return (entry :: rest, last)

/-- The part of `readCentralDir` after the end of the central directory has been found; the buffer
is positioned there. -/
def loadCentralDir (file buf : Bytes) : Option (EndOfCentralDir × List ZipEntry) := do
  let eocd ← EndOfCentralDir.readBuf buf
  if eocd.diskNumber ≠ 0 ∨ eocd.diskWithCentralDir ≠ 0 ∨ eocd.numEntries ≠ eocd.totalNumEntries then
    none
  else
    let (entries, last) ← readEntries file eocd.centralDirOffset.toNat eocd.totalNumEntries.toNat
    -- we should now be back at the EOCD
    let check ← bytesAt file last 4
    if getLongLE check 0 ≠ EndOfCentralDir.signature then none else return (eocd, entries)

/-- `readCentralDir`. -/
def readCentralDir (file : Bytes) : Option (EndOfCentralDir × List ZipEntry) :=
  if file.length < EndOfCentralDir.kEOCDLen then none
  else
    let readAmount := min file.length EndOfCentralDir.kMaxEOCDSearch
    let buf := file.drop (file.length - readAmount)
    match findEocd buf (readAmount - 4) with
    | none => none
    | some i => loadCentralDir file (buf.drop i)

namespace ZipFile

/-- `open` of an existing archive with `kOpenReadOnly`. -/
def openReadOnly (file : Bytes) : Option ZipFile := do
  let (eocd, entries) ← readCentralDir file
  return { file, eocd, entries, readOnly := true, needCDRewrite := false }

/-- `open` with `kOpenTruncate`: a new archive. -/
def openNew : ZipFile where
  file := []
  eocd := .initial
  entries := []
  readOnly := false
  needCDRewrite := true

end ZipFile

/-- `fwrite` at a position: what lies there is overwritten, a gap before it is filled with zeros. -/
def writeAt (file : Bytes) (position : ℕ) (bytes : Bytes) : Bytes :=
  file.take position ++ (List.replicate (position - file.length) 0
    ++ (bytes ++ file.drop (position + bytes.length)))

/-- The decompressor and the compressor that `addRecompress` uses: `zip_archive::Inflate` on the
bytes from an offset on with the two lengths, and `ZopfliDeflate`. -/
structure Codec where
  inflate : Bytes → ℕ → ℕ → Option Bytes
  zopfliDeflate : Bytes → Bytes

namespace ZipFile

/-- `alignEntry`: pad the entry such that its payload ends up at a multiple of `alignTo` when it is
written at a position. -/
def alignEntry (position : ℕ) (e : ZipEntry) (alignTo : UInt32) : Option ZipEntry :=
  if alignTo = 0 ∨ alignTo = 1 then some e
  else
    let expectedPayloadOffset := position + LocalFileHeader.kLFHLen + e.lfh.fileName.bytes.length
      + e.lfh.extraField.bytes.length
    let alignDiff := alignTo.toNat - expectedPayloadOffset % alignTo.toNat
    if alignDiff = alignTo.toNat then some e else e.addPadding alignDiff

/-- The number of bytes that are copied for an entry: the data and, if the flag of the local header
says so, the data descriptor. -/
def copyLength (source : ZipEntry) : ℕ :=
  source.getCompressedLen
    + if source.lfh.gpBitFlag &&& ZipEntry.kUsesDataDescr ≠ 0 then ZipEntry.kDataDescriptorLen else 0

/-- The bytes that `copyPartialFpToFp` copies for an entry of the source archive. -/
def copiedData (source : ZipFile) (e : ZipEntry) : Option Bytes :=
  bytesAt source.file e.getFileOffset (copyLength e)

/-- The new record of the end of the central directory after an entry was added. -/
def eocdAfterAdd (eocd : EndOfCentralDir) (endPosn : ℕ) : EndOfCentralDir :=
  { eocd with
    numEntries := eocd.numEntries + 1
    totalNumEntries := eocd.totalNumEntries + 1
    centralDirSize := 0
    centralDirOffset := UInt32.ofNat endPosn }

/-- `add`: copy an entry from another archive. -/
def add (memory : Memory) (z source : ZipFile) (sourceEntry : ZipEntry) (alignTo : UInt32) :
    Option ZipFile :=
  if z.readOnly then none
  else do
    let lfhPosn := z.eocd.centralDirOffset.toNat
    let entry ← alignEntry lfhPosn (ZipEntry.initFromExternal memory sourceEntry) alignTo
    let header := entry.lfh.write
    let data ← copiedData source sourceEntry
    let file := writeAt (writeAt z.file lfhPosn header) (lfhPosn + header.length) data
    return { z with
      file
      eocd := eocdAfterAdd z.eocd (lfhPosn + header.length + data.length)
      entries := z.entries ++ [entry.setLFHOffset lfhPosn]
      needCDRewrite := true }

/-- `uncompress`: the content of an entry. -/
def uncompress (codec : Codec) (source : ZipFile) (e : ZipEntry) : Option Bytes :=
  if e.cde.compressionMethod = ZipEntry.kCompressStored then
    bytesAt source.file e.getFileOffset e.getUncompressedLen
  else if e.cde.compressionMethod = ZipEntry.kCompressDeflated then
    codec.inflate (source.file.drop e.getFileOffset) e.getCompressedLen e.getUncompressedLen
  else none

/-- `addRecompress`: copy an entry from another archive, with its data recompressed if they are
compressed. The local header is written again at the end, when its fields are known. -/
def addRecompress (codec : Codec) (memory : Memory) (z source : ZipFile) (sourceEntry : ZipEntry) :
    Option ZipFile :=
  if z.readOnly then none
  else do
    let lfhPosn := z.eocd.centralDirOffset.toNat
    let blank := ZipEntry.initFromExternal memory sourceEntry
    let file := writeAt z.file lfhPosn blank.lfh.write
    let startPosn := lfhPosn + blank.lfh.write.length
    let (entry, data) ←
      if sourceEntry.isCompressed then do
        let buf ← uncompress codec source sourceEntry
        let data := codec.zopfliDeflate buf
        pure (blank.setDataInfo memory.localNameAgain sourceEntry.getUncompressedLen data.length
          sourceEntry.cde.crc32, data)
      else do
        let data ← copiedData source sourceEntry
        pure (blank, data)
    let entry := entry.setLFHOffset lfhPosn
    return { z with
      file := writeAt (writeAt file startPosn data) lfhPosn entry.lfh.write
      eocd := eocdAfterAdd z.eocd (startPosn + data.length)
      entries := z.entries ++ [entry]
      needCDRewrite := true }

/-- `remove` of the entry with an index. -/
def remove (z : ZipFile) (index : ℕ) : ZipFile :=
  { z with
    entries := z.entries.modify index fun e => { e with deleted := true }
    needCDRewrite := true }

/-! ## Writing the central directory -/

/-- The loop of `filemove` towards the start of the file, in chunks of 32768 bytes. -/
def filemove (file : Bytes) (dst src n : ℕ) : Option Bytes :=
  if n = 0 then some file
  else
    match bytesAt file src (min n 32768) with
    | none => none
    | some chunk =>
        filemove (writeAt file dst chunk) (dst + min n 32768) (src + min n 32768) (n - min n 32768)
termination_by n
decreasing_by omega

/-- The offset of the next entry that has one, or of the central directory. -/
def nextOffset (centralDirOffset : ℕ) : List ZipEntry → ℕ
  | [] => centralDirOffset
  | e :: rest => if e.getLFHOffset ≠ 0 then e.getLFHOffset else nextOffset centralDirOffset rest

/-- What the loop of `crunchArchive` leaves: the file, the number of bytes and of entries removed,
and the entries that stay. -/
structure Crunched where
  file : Bytes
  adjust : ℤ
  delCount : ℕ
  entries : List ZipEntry

/-- The loop of `crunchArchive` over the entries: an entry that stays is moved down over the removed
ones. A move with a negative position or length fails. -/
def crunchLoop (centralDirOffset : ℕ) (file : Bytes) (adjust : ℤ) :
    List ZipEntry → Option Crunched
  | [] => some ⟨file, adjust, 0, []⟩
  | e :: rest =>
      let span : ℤ :=
        if e.getLFHOffset ≠ 0 then nextOffset centralDirOffset rest - e.getLFHOffset else 0
      if e.deleted then do
        let c ← crunchLoop centralDirOffset file (adjust + span) rest
        return { c with delCount := c.delCount + 1 }
      else if span ≠ 0 ∧ 0 < adjust then
        let dst := e.getLFHOffset - adjust
        if dst < 0 ∨ span < 0 then none
        else do
          let file ← filemove file dst.toNat e.getLFHOffset span.toNat
          let c ← crunchLoop centralDirOffset file adjust rest
          return { c with entries := e.setLFHOffset dst.toNat :: c.entries }
      else do
        let c ← crunchLoop centralDirOffset file adjust rest
        return { c with entries := e :: c.entries }

/-- `crunchArchive`. -/
def crunchArchive (z : ZipFile) : Option ZipFile := do
  let c ← crunchLoop z.eocd.centralDirOffset.toNat z.file 0 z.entries
  return { z with
    file := c.file
    entries := c.entries
    eocd := { z.eocd with
      centralDirOffset := UInt32.ofInt (z.eocd.centralDirOffset.toNat - c.adjust)
      numEntries := z.eocd.numEntries - UInt16.ofNat c.delCount
      totalNumEntries := z.eocd.totalNumEntries - UInt16.ofNat c.delCount
      centralDirSize := 0 } }

/-- The bytes of the central directory. -/
def centralDir (entries : List ZipEntry) : Bytes := entries.flatMap fun e => e.cde.write

/-- `flush`: remove deleted entries, write the central directory and its end, and cut the file off
behind it. -/
def flush (z : ZipFile) : Option ZipFile :=
  if z.readOnly then none
  else if !z.needCDRewrite then some z
  else do
    let z ← crunchArchive z
    let start := z.eocd.centralDirOffset.toNat
    let directory := centralDir z.entries
    let eocd := { z.eocd with centralDirSize := UInt32.ofNat directory.length }
    let tail := directory ++ eocd.write
    return { z with
      file := (writeAt z.file start tail).take (start + tail.length)
      eocd
      needCDRewrite := false }

end ZipFile

end AndroidSdk.Zip
