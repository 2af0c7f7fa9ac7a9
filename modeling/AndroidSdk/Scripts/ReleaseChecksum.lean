import AndroidSdk.Lib.Run
import AndroidSdk.Lib.Text

/-! # The two parsers of a Release checksum file

`common.sh` reads the checksum file of a Release twice: a Python program picks the digest against
which the downloaded archive is verified, and a `read` loop of the shell verifies the cached archive
later.

* **`checksumDigest`** — the Python parser.
* **`verifyCachedReleaseArchive`** — the shell loop.
* **`OneEntry`** — the files on which the shell loop follows the Python parser.
* **`verifyCachedReleaseArchive_iff`** — it accepts the digest of the Python parser iff `OneEntry`
  holds. -/

namespace AndroidSdk.Scripts

open Lib

/-! ## The Python parser -/

/-- The characters at which `str.split` separates fields. -/
def isPySpace (c : Char) : Bool :=
  let n := c.toNat
  (9 ≤ n && n ≤ 13) || (28 ≤ n && n ≤ 32) || n = 0x85 || n = 0xa0 || n = 0x1680
    || (0x2000 ≤ n && n ≤ 0x200a) || n = 0x2028 || n = 0x2029 || n = 0x202f || n = 0x205f
    || n = 0x3000

/-- The lines of the checksum file as text: universal newlines, with or without a last line end. -/
def textLines (content : List UInt8) : Option (List (List Char)) :=
  (decodeUtf8 content).map fun chars => (universalNewlines chars).splitOn '\n'

/-- The digest that one line contributes to `matches`: exactly two fields, the second one the asset
behind any number of asterisks. -/
def entryDigest (asset : String) (line : List Char) : Option (List Char) :=
  match wordsBy isPySpace line with
  | [digest, name] => if name.dropWhile (· = '*') = asset.toList then some digest else none
  | _ => none

/-- `str.lower` on a digest; a character that is not ASCII is not a hexadecimal digit in lower case
either, so that it can stay as it is. -/
def lowerText (digest : List Char) : List Char := digest.map Char.toLower

/-- `re.fullmatch(r"[0-9a-f]{64}", digest)`. -/
def isLowerSha256 (digest : List Char) : Bool :=
  digest.length = 64 && digest.all fun c => ('0' ≤ c && c ≤ '9') || ('a' ≤ c && c ≤ 'f')

/-- The digests in `matches`, before they are converted to lower case. -/
def entryDigests (content : List UInt8) (asset : String) : List (List Char) :=
  match textLines content with
  | some lines => lines.filterMap (entryDigest asset)
  | none => []

/-- The digest that the Python program prints, unless it fails: the file is not UTF-8, or it does
not contain exactly one SHA-256 for the asset. -/
def checksumDigest (content : List UInt8) (asset : String) : Option (List Char) :=
  match (entryDigests content asset).map lowerText with
  | [digest] => if isLowerSha256 digest then some digest else none
  | _ => none

/-! ## The shell loop -/

/-- The separators of `read` within a line. -/
def isBlank (b : UInt8) : Bool := b = 32 || b = 9

/-- The line feed. -/
def lineFeed : UInt8 := 10

/-- The lines on which the loop body runs: `read` fails on a last line without line feed. -/
def terminatedLines (content : List UInt8) : List (List UInt8) := (content.splitOn lineFeed).dropLast

/-- The values that `read -r digest filename remainder` assigns. -/
structure ReadFields where
  digest : List UInt8
  filename : List UInt8
  remainder : List UInt8

/-- `read -r digest filename remainder` on a line; NUL bytes are dropped. -/
def readFields (line : List UInt8) : ReadFields :=
  let first := (line.filter (· ≠ 0)).dropWhile isBlank
  let second := (first.dropWhile fun b => !isBlank b).dropWhile isBlank
  let third := (second.dropWhile fun b => !isBlank b).dropWhile isBlank
  { digest := first.takeWhile fun b => !isBlank b
    filename := second.takeWhile fun b => !isBlank b
    remainder := (third.reverse.dropWhile isBlank).reverse }

/-- `${filename#\*}`. -/
def dropAsterisk : List UInt8 → List UInt8
  | 42 :: rest => rest
  | filename => filename

/-- `[[ "$digest" =~ ^[0-9a-fA-F]{64}$ ]]`. -/
def isSha256 (digest : List UInt8) : Bool :=
  digest.length = 64 && digest.all fun b =>
    (48 ≤ b && b ≤ 57) || (97 ≤ b && b ≤ 102) || (65 ≤ b && b ≤ 70)

/-- `${digest,,}`. -/
def lowerBytes (digest : List UInt8) : List UInt8 :=
  digest.map fun b => if 65 ≤ b && b ≤ 90 then b + 32 else b

/-- The ways in which `verify_cached_release_archive` dies on its checksum file. -/
inductive ChecksumFailure where
  /-- "invalid checksum entry for $asset". -/
  | invalidEntry
  /-- "must contain exactly one SHA-256 entry for $asset". -/
  | notExactlyOne
  /-- "community Release archive checksum mismatch". -/
  | mismatch
  deriving DecidableEq

/-- The variables `expected` and `matches`. -/
structure VerifyState where
  expected : List UInt8
  found : ℕ
  deriving DecidableEq

/-- The loop body. -/
def verifyLine (asset : List UInt8) (state : VerifyState) (line : List UInt8) :
    Except ChecksumFailure VerifyState :=
  let fields := readFields line
  if dropAsterisk fields.filename = asset then
    if isSha256 fields.digest ∧ fields.remainder = [] then
      .ok { expected := lowerBytes fields.digest, found := state.found + 1 }
    else .error .invalidEntry
  else .ok state

/-- `verify_cached_release_archive` on a checksum file and an archive with digest `actual`: the
verified digest, or the failure. -/
def verifyCachedReleaseArchive (content asset actual : List UInt8) :
    Except ChecksumFailure (List UInt8) := do
  let state ← (terminatedLines content).foldlM (verifyLine asset) ⟨[], 0⟩
  if state.found = 1 then
    if actual = state.expected then .ok state.expected else .error .mismatch
  else .error .notExactlyOne

/-! ## When they agree -/

/-- The fields of a line between blanks. -/
def blankFields (line : List UInt8) : List (List UInt8) := wordsBy isBlank (line.filter (· ≠ 0))

/-- The second field of the line is the asset, possibly behind an asterisk. -/
def namesAsset (asset : String) (line : List UInt8) : Bool :=
  dropAsterisk ((blankFields line).getD 1 []) = encodeUtf8 asset

/-- The digest of the Python parser as bytes. -/
def digestBytes (digest : List Char) : List UInt8 := encodeUtf8 (String.ofList digest)

/-- Exactly one line with a line feed has the asset as its second field between blanks, this line
has no third field, and its first field is the SHA-256 that the entry has for the Python parser. -/
def OneEntry (content : List UInt8) (asset : String) : Prop :=
  ∃ line, (terminatedLines content).filter (namesAsset asset) = [line]
    ∧ (blankFields line).length ≤ 2
    ∧ isSha256 ((blankFields line).getD 0 []) = true
    ∧ ∀ digest ∈ entryDigests content asset,
      digestBytes (lowerText digest) = lowerBytes ((blankFields line).getD 0 [])

/-- What follows blanks is empty or starts with another character, so that trimming the blanks at
its end does not empty it. -/
theorem trimmed_eq_nil_iff (l : List UInt8) :
    ((l.dropWhile isBlank).reverse.dropWhile isBlank).reverse = [] ↔ l.dropWhile isBlank = [] := by
  refine ⟨fun h => ?_, fun h => by simp [h]⟩
  by_contra hne
  have hall := List.dropWhile_eq_nil_iff.mp (List.reverse_eq_nil_iff.mp h)
  have hhead := List.head_dropWhile_not isBlank hne
  rw [hall _ (List.mem_reverse.mpr (List.head_mem hne))] at hhead
  exact absurd hhead (by simp)

/-- The fields that `read` assigns are the fields between blanks. -/
theorem readFields_eq (line : List UInt8) :
    (readFields line).digest = (blankFields line).getD 0 []
      ∧ (readFields line).filename = (blankFields line).getD 1 []
      ∧ ((readFields line).remainder = [] ↔ (blankFields line).length ≤ 2) := by
  simp only [readFields, blankFields, trimmed_eq_nil_iff]
  generalize line.filter (· ≠ 0) = l
  rw [wordsBy_eq]
  by_cases hfirst : l.dropWhile isBlank = []
  · simp [hfirst]
  · rw [if_neg hfirst, wordsBy_eq]
    generalize (l.dropWhile isBlank).dropWhile (fun b => !isBlank b) = rest
    by_cases hsecond : rest.dropWhile isBlank = []
    · simp [hsecond]
    · rw [if_neg hsecond, wordsBy_eq]
      generalize (rest.dropWhile isBlank).dropWhile (fun b => !isBlank b) = rest'
      by_cases hthird : rest'.dropWhile isBlank = []
      · simp [hthird]
      · simp [hthird]

/-- A line that names the asset, read by the loop body. -/
theorem verifyLine_of_namesAsset {asset : String} {line : List UInt8}
    (h : namesAsset asset line = true) (state : VerifyState) :
    verifyLine (encodeUtf8 asset) state line
      = if isSha256 ((blankFields line).getD 0 []) ∧ (blankFields line).length ≤ 2 then
          .ok ⟨lowerBytes ((blankFields line).getD 0 []), state.found + 1⟩
        else .error .invalidEntry := by
  obtain ⟨hdigest, hfilename, hremainder⟩ := readFields_eq line
  have hname : dropAsterisk (readFields line).filename = encodeUtf8 asset := by
    rw [hfilename]
    simpa [namesAsset] using h
  unfold verifyLine
  rw [if_pos hname, hdigest]
  by_cases hvalid : isSha256 ((blankFields line).getD 0 []) = true ∧ (blankFields line).length ≤ 2
  · rw [if_pos hvalid, if_pos ⟨hvalid.1, hremainder.mpr hvalid.2⟩]
  · rw [if_neg hvalid, if_neg fun hboth => hvalid ⟨hboth.1, hremainder.mp hboth.2⟩]

/-- The loop body passes over a line that does not name the asset. -/
theorem verifyLine_of_not_namesAsset {asset : String} {line : List UInt8}
    (h : namesAsset asset line = false) (state : VerifyState) :
    verifyLine (encodeUtf8 asset) state line = .ok state := by
  have hname : dropAsterisk (readFields line).filename ≠ encodeUtf8 asset := by
    rw [(readFields_eq line).2.1]
    simpa [namesAsset] using h
  unfold verifyLine
  rw [if_neg hname]

/-- The loop only sees the lines that name the asset. -/
theorem foldlM_verifyLine_filter (asset : String) (lines : List (List UInt8)) (state : VerifyState) :
    lines.foldlM (verifyLine (encodeUtf8 asset)) state
      = (lines.filter (namesAsset asset)).foldlM (verifyLine (encodeUtf8 asset)) state := by
  induction lines generalizing state with
  | nil => rfl
  | cons line lines ih =>
      by_cases h : namesAsset asset line = true
      · rw [List.filter_cons_of_pos h, List.foldlM_cons, List.foldlM_cons]
        exact congrArg _ (funext ih)
      · rw [List.filter_cons_of_neg h, List.foldlM_cons,
          verifyLine_of_not_namesAsset (by simpa using h)]
        exact ih state

/-- Every line that names the asset is counted. -/
theorem found_of_foldlM {asset : String} {lines : List (List UInt8)} {state state' : VerifyState}
    (hlines : ∀ line ∈ lines, namesAsset asset line = true)
    (h : lines.foldlM (verifyLine (encodeUtf8 asset)) state = .ok state') :
    state'.found = state.found + lines.length := by
  induction lines generalizing state with
  | nil =>
      have heq : state = state' := by simpa [pure, Except.pure] using h
      simp [heq]
  | cons line lines ih =>
      rw [List.foldlM_cons, bind_eq_ok_iff] at h
      obtain ⟨next, hstep, hrest⟩ := h
      rw [verifyLine_of_namesAsset (hlines line List.mem_cons_self)] at hstep
      split_ifs at hstep
      have hnext : next.found = state.found + 1 := by rw [← Except.ok.inj hstep]
      have hfound := ih (fun l hl => hlines l (List.mem_cons_of_mem _ hl)) hrest
      rw [hfound, hnext, List.length_cons]
      omega

/-- The loop finds exactly one entry iff exactly one line names the asset, and this line is a valid
entry. -/
theorem foldlM_eq_one_iff (asset : String) (lines : List (List UInt8)) (expected : List UInt8) :
    lines.foldlM (verifyLine (encodeUtf8 asset)) ⟨[], 0⟩ = .ok ⟨expected, 1⟩
      ↔ ∃ line, lines.filter (namesAsset asset) = [line] ∧ (blankFields line).length ≤ 2
        ∧ isSha256 ((blankFields line).getD 0 []) = true
        ∧ expected = lowerBytes ((blankFields line).getD 0 []) := by
  have hall : ∀ line ∈ lines.filter (namesAsset asset), namesAsset asset line = true :=
    fun line hline => (List.mem_filter.mp hline).2
  rw [foldlM_verifyLine_filter]
  constructor
  · intro h
    have hlength := found_of_foldlM hall h
    obtain ⟨line, hline⟩ := List.length_eq_one_iff.mp (show _ = 1 by simpa using hlength.symm)
    rw [hline, List.foldlM_cons, bind_eq_ok_iff] at h
    obtain ⟨next, hstep, hrest⟩ := h
    rw [verifyLine_of_namesAsset (hall line (by simp [hline]))] at hstep
    split_ifs at hstep with hvalid
    have hnext : next = ⟨expected, 1⟩ := by simpa [pure, Except.pure] using hrest
    rw [hnext, Except.ok.injEq, VerifyState.mk.injEq] at hstep
    exact ⟨line, hline, hvalid.2, hvalid.1, hstep.1.symm⟩
  · rintro ⟨line, hline, hfields, hdigest, rfl⟩
    rw [hline, List.foldlM_cons, verifyLine_of_namesAsset (hall line (by simp [hline])),
      if_pos ⟨hdigest, hfields⟩]
    rfl

/-- The verification succeeds iff the loop finds one entry with the digest of the archive. -/
theorem verifyCachedReleaseArchive_eq_ok_iff (content asset actual digest : List UInt8) :
    verifyCachedReleaseArchive content asset actual = .ok digest
      ↔ actual = digest
        ∧ (terminatedLines content).foldlM (verifyLine asset) ⟨[], 0⟩ = .ok ⟨digest, 1⟩ := by
  unfold verifyCachedReleaseArchive
  rw [bind_eq_ok_iff]
  constructor
  · rintro ⟨⟨expected, found⟩, hloop, hresult⟩
    dsimp only at hresult
    split_ifs at hresult with hfound hactual
    rw [Except.ok.injEq] at hresult
    subst hfound
    exact ⟨hactual.trans hresult, by rw [hloop, hresult]⟩
  · rintro ⟨rfl, hloop⟩
    exact ⟨_, hloop, by simp⟩

/-- **The shell accepts what the Python parser accepts exactly on files with one plain entry**: if
the Python parser accepts the checksum file with a digest, then the verification of an archive with
this digest accepts the file with the same digest iff exactly one line that ends with a line feed
has the asset as its second field between blanks, this line has no third field and its first field
is the SHA-256. -/
theorem verifyCachedReleaseArchive_iff {content : List UInt8} {asset : String} {digest : List Char}
    (h : checksumDigest content asset = some digest) :
    verifyCachedReleaseArchive content (encodeUtf8 asset) (digestBytes digest)
        = .ok (digestBytes digest)
      ↔ OneEntry content asset := by
  -- the only digest that the Python parser finds
  have hentry : ∃ entry, entryDigests content asset = [entry] ∧ lowerText entry = digest := by
    unfold checksumDigest at h
    split at h
    · rename_i d hd
      obtain ⟨entry, hentry, hlower⟩ := List.map_eq_singleton_iff.mp hd
      split_ifs at h
      exact ⟨entry, hentry, by rw [hlower]; exact Option.some.inj h⟩
    · exact absurd h (by simp)
  obtain ⟨entry, hentries, hlower⟩ := hentry
  rw [verifyCachedReleaseArchive_eq_ok_iff, foldlM_eq_one_iff, OneEntry, hentries]
  simp only [true_and, List.mem_singleton, forall_eq, hlower]

/-- A SHA-256 of an archive. -/
def someDigest : String := "e3b0c44298fc1c149afbf4c8996fb92427ae41e4649b934ca495991b7852b855"

/-- The line that `sha256sum` writes for an archive. -/
def sumLine : List UInt8 := encodeUtf8 (someDigest ++ "  sdk.zip")

/-- With its line feed, the line of `sha256sum` is read by both parsers. -/
theorem verifyCachedReleaseArchive_sumLine :
    verifyCachedReleaseArchive (sumLine ++ [lineFeed]) (encodeUtf8 "sdk.zip")
      (digestBytes someDigest.toList) = .ok (digestBytes someDigest.toList) := by
  have hpython : checksumDigest (sumLine ++ [lineFeed]) "sdk.zip" = some someDigest.toList := by
    decide +kernel
  refine (verifyCachedReleaseArchive_iff hpython).mpr ⟨sumLine, ?_⟩
  decide +kernel

/-- **Without a line feed at its end, the file is accepted by the Python parser only**: the shell
loop finds no entry. -/
theorem verifyCachedReleaseArchive_unterminated :
    checksumDigest sumLine "sdk.zip" = some someDigest.toList
      ∧ verifyCachedReleaseArchive sumLine (encodeUtf8 "sdk.zip") (digestBytes someDigest.toList)
        = .error .notExactlyOne := by
  decide +kernel

end AndroidSdk.Scripts
