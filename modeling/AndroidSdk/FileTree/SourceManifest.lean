import AndroidSdk.FileTree.ReferenceLayout
import AndroidSdk.FileTree.SourceSnapshot
import AndroidSdk.Lib.Lines
import AndroidSdk.Lib.Run

/-! # The source manifest

`verify-source-snapshot.py --print` writes the digests of the module directories as a text, and a
later run reads that text as the manifest to verify against.

* **`calculate`**, **`manifestText`**, **`readManifest`**, **`main`** — the functions of the script.
* **`Recordable`** — a directory name that the manifest can hold.
* **`restored_iff`** — the printed manifest is read back as the calculated digests iff every
  module name is recordable. -/

namespace AndroidSdk.FileTree.SourceSnapshot

open Lib ReferenceLayout

/-! ## The digests of the modules -/

/-- The text of `hexdigest`: two lower-case digits for a byte. -/
def hexdigest (digest : Bytes) : List Char :=
  digest.flatMap fun b => [Nat.digitChar (b.toNat / 16), Nat.digitChar (b.toNat % 16)]

/-- The characters of `"0123456789abcdef"`. -/
def hexDigits : List Char := "0123456789abcdef".toList

/-- A digest as the manifest requires it: 64 lower-case hexadecimal digits. -/
def IsDigest (digest : List Char) : Prop := digest.length = 64 ∧ ∀ c ∈ digest, c ∈ hexDigits

instance (digest : List Char) : Decidable (IsDigest digest) := inferInstanceAs (Decidable (_ ∧ _))

/-- Every digit of a number below 16 is a hexadecimal digit. -/
theorem digitChar_mem_hexDigits {n : ℕ} (h : n < 16) : Nat.digitChar n ∈ hexDigits := by
  have hall : ∀ n : Fin 16, Nat.digitChar n.val ∈ hexDigits := by decide
  exact hall ⟨n, h⟩

/-- The text of a SHA-256 digest. -/
theorem isDigest_hexdigest (digest : Vector UInt8 32) : IsDigest (hexdigest digest.toList) := by
  constructor
  · simp [hexdigest, List.length_flatMap]
  · intro c hc
    obtain ⟨b, -, hb⟩ := List.mem_flatMap.mp hc
    have hlt : b.toNat < 256 := b.toNat_lt
    simp only [List.mem_cons, List.not_mem_nil, or_false] at hb
    rcases hb with rfl | rfl
    · exact digitChar_mem_hexDigits (by omega)
    · exact digitChar_mem_hexDigits (by omega)

section

variable (sha256 : Bytes → Vector UInt8 32)

/-- `tree_digest` of a directory with the given entries. -/
def treeDigest (children : List (Name × Node)) : Except PyException (List Char) :=
  match (walk byName children).foldlM feedEntry digestHeader with
  | .ok input => .ok (hexdigest (sha256 input).toList)
  | .error _ => .error .valueError

/-- An entry of the source root, if it is a directory and no symbolic link. -/
def module? : Name × Node → Option (Name × List (Name × Node))
  | (name, .directory _ children) => some (name, children)
  | _ => none

/-- The name of a module in the manifest. -/
def moduleKey (name : Name) : Bytes := encodeUtf8 "src/" ++ name.bytes

/-- `calculate`: the items of the dictionary in the order in which they are added. Names are given
by the bytes that `os.fsencode` yields. -/
def calculate (sourceRoot : Tree) : Except PyException (List (Bytes × List Char)) :=
  match (byName.arrange sourceRoot.children).mapM module? with
  | none => .error .valueError
  | some modules => modules.mapM fun (name, children) => do
      return (moduleKey name, ← treeDigest sha256 children)

/-! ## The manifest -/

/-- How standard output encodes what is no character: in most locales it raises, in the `C` locale
it restores the bytes. -/
inductive EncodeErrors where
  | strict | surrogateescape
  deriving DecidableEq

/-- One line of `--print`. -/
def manifestLine (errors : EncodeErrors) (item : Bytes × List Char) : Except PyException Bytes :=
  if errors = .strict ∧ decodeUtf8 item.1 = none then .error .unicodeError
  else .ok (encoded item.2 ++ encodeUtf8 "  " ++ item.1 ++ [10])

/-- The text that `--print` writes. -/
def manifestText (errors : EncodeErrors) (actual : List (Bytes × List Char)) :
    Except PyException Bytes :=
  List.flatten <$> actual.mapM (manifestLine errors)

/-- The body of the loop in `read_manifest`. -/
def readLine (expected : Dict Bytes (List Char)) (rawLine : List Char) :
    Except PyException (Dict Bytes (List Char)) :=
  let line := strip rawLine
  if line = [] ∨ ['#'] <+: line then .ok expected
  else
    match splitOnce [' ', ' '] line with
    | none => .error .valueError
    | some (digest, relative) =>
        if IsDigest digest then .ok (expected.insert (encoded relative) digest)
        else .error .valueError

/-- `read_manifest` on the content of the manifest. -/
def readManifest (manifest : Bytes) : Except PyException (Dict Bytes (List Char)) := do
  (splitLines (← readText manifest)).foldlM readLine ∅

/-- `expected == actual` on dictionaries. -/
def sameItems (expected actual : Dict Bytes (List Char)) : Bool :=
  (expected.keys ++ actual.keys).all fun key => expected.lookup key = actual.lookup key

/-- What a run of the script ends with. -/
inductive Outcome where
  | failed
  | printed (manifest : Bytes)
  | verified (modules : ℕ)

/-- The exceptions that `main` handles; decoding errors are `ValueError`s. -/
def handled : List PyException := [.osError, .valueError, .unicodeError]

/-- `main`, given the ignored paths that Git reports. -/
def main (errors : EncodeErrors) (ignored : List Bytes) (printManifest : Bool) (sourceRoot : Tree)
    (manifest : Bytes) : Except PyException Outcome :=
  if ignored ≠ [] then .ok .failed
  else
    match calculate sha256 sourceRoot with
    | .error e => if e ∈ handled then .ok .failed else .error e
    | .ok actual =>
        if printManifest then .printed <$> manifestText errors actual
        else
          match readManifest manifest with
          | .error e => if e ∈ handled then .ok .failed else .error e
          | .ok expected =>
              if sameItems expected (Dict.fill ∅ actual) then .ok (.verified actual.length)
              else .ok .failed

end

/-! ## The calculated digests -/

section

variable {sha256 : Bytes → Vector UInt8 32} {sourceRoot : Tree} {actual : List (Bytes × List Char)}

/-- The digest of a module is a digest. -/
theorem isDigest_of_treeDigest {children : List (Name × Node)} {digest : List Char}
    (h : treeDigest sha256 children = .ok digest) : IsDigest digest := by
  unfold treeDigest at h
  split at h
  · rw [← Except.ok.inj h]
    exact isDigest_hexdigest _
  · cases h

/-- The items of the calculated dictionary are the entries of the source root by name, with their
digests. -/
theorem items_of_calculate (h : calculate sha256 sourceRoot = .ok actual) :
    actual.map Prod.fst = (byName.arrange sourceRoot.children).map (fun e => moduleKey e.1)
      ∧ ∀ item ∈ actual, IsDigest item.2 := by
  unfold calculate at h
  split at h
  · cases h
  · rename_i modules hmodules
    have hnames : (byName.arrange sourceRoot.children).map Prod.fst = modules.map Prod.fst := by
      refine map_eq_map_of_forall₂ (mapM_eq_some_iff.mp hmodules) fun e m hm => ?_
      unfold module? at hm
      split at hm
      · rw [← Option.some.inj hm]
      · cases hm
    have hitems := mapM_eq_ok_iff.mp h
    have hturn : ∀ (m : Name × List (Name × Node)) (item : Bytes × List Char),
        (do return (moduleKey m.1, ← treeDigest sha256 m.2)) = Except.ok item →
          moduleKey m.1 = item.1 ∧ IsDigest item.2 := by
      intro m item hitem
      obtain ⟨digest, hdigest, hitem⟩ := bind_eq_ok_iff.mp hitem
      rw [← Except.ok.inj hitem]
      exact ⟨rfl, isDigest_of_treeDigest hdigest⟩
    constructor
    · rw [← map_eq_map_of_forall₂ hitems fun m item hitem => (hturn m item hitem).1]
      have hkeys := congrArg (List.map moduleKey) hnames
      rw [List.map_map, List.map_map] at hkeys
      exact hkeys.symm
    · exact forall_mem_of_forall₂ hitems fun m item hitem => (hturn m item hitem).2

/-- The names of modules in the manifest are different for different modules. -/
theorem moduleKey_injective : Function.Injective moduleKey := by
  intro name name' h
  exact Name.ext_bytes (List.append_cancel_left h)

/-- A key has one value only. -/
theorem nodup_keys_of_calculate (h : calculate sha256 sourceRoot = .ok actual) :
    (actual.map Prod.fst).Nodup := by
  have hcomp : (fun e : Name × Node => moduleKey e.1) = moduleKey ∘ Prod.fst := rfl
  rw [(items_of_calculate h).1, hcomp, ← List.map_map]
  refine List.Nodup.map moduleKey_injective ?_
  obtain ⟨hnodup, -⟩ := sourceRoot.distinct
  exact ((byName.perm sourceRoot.children).map Prod.fst).nodup_iff.mpr hnodup

/-- The keys are those of the entries of the source root. -/
theorem mem_keys_of_calculate (h : calculate sha256 sourceRoot = .ok actual) (key : Bytes) :
    key ∈ actual.map Prod.fst ↔ ∃ e ∈ sourceRoot.children, key = moduleKey e.1 := by
  rw [(items_of_calculate h).1, List.mem_map]
  constructor
  · rintro ⟨e, he, rfl⟩
    exact ⟨e, (byName.perm sourceRoot.children).mem_iff.mp he, rfl⟩
  · rintro ⟨e, he, rfl⟩
    exact ⟨e, (byName.perm sourceRoot.children).mem_iff.mpr he, rfl⟩

end

/-! ## Names that a manifest can hold -/

/-- The characters stay together and at the end of a line. -/
def OnLine (chars : List Char) : Prop :=
  (∀ c ∈ chars, isLineBoundary c = false) ∧ ∀ c ∈ chars.getLast?, isSpace c = false

instance (chars : List Char) : Decidable (OnLine chars) :=
  decidable_of_iff ((chars.all fun c => !isLineBoundary c) = true
    ∧ (chars.getLast?.all fun c => !isSpace c) = true) (by
      unfold OnLine
      cases chars.getLast? <;> simp)

/-- A name that the manifest can hold: a text without line boundary that does not end with a
blank. -/
def Recordable (name : Bytes) : Prop := ∃ chars, decodeUtf8 name = some chars ∧ OnLine chars

/-- The text `src/`. -/
theorem encodeUtf8_src : encodeUtf8 "src/" = encoded ['s', 'r', 'c', '/'] := encodeUtf8_eq "src/"

/-- A module name is recordable iff its key in the manifest is. -/
theorem recordable_iff (name : Name) :
    Recordable name.bytes ↔ ∃ relative, moduleKey name = encoded relative ∧ OnLine relative := by
  unfold moduleKey
  rw [encodeUtf8_src]
  constructor
  · rintro ⟨chars, hchars, hline, hlast⟩
    have hname := decodeUtf8_eq_some_iff.mp hchars
    refine ⟨['s', 'r', 'c', '/'] ++ chars, by rw [encoded_append, hname], ?_, ?_⟩
    · intro c hc
      rcases List.mem_append.mp hc with hc | hc
      · have hsrc : (['s', 'r', 'c', '/'].all fun c => !isLineBoundary c) = true := by decide
        simpa using List.all_eq_true.mp hsrc c hc
      · exact hline c hc
    · have hne : chars ≠ [] := by
        rintro rfl
        exact name.ne_nil hname
      rw [List.getLast?_append_of_ne_nil _ hne]
      exact hlast
  · rintro ⟨relative, hrelative, hline, hlast⟩
    have hstarts : encoded ['s', 'r', 'c', '/'] <+: encoded relative := ⟨name.bytes, hrelative⟩
    obtain ⟨chars, rfl⟩ := (encoded_prefix_iff (by decide)).mp hstarts
    rw [encoded_append] at hrelative
    have hname := List.append_cancel_left hrelative
    refine ⟨chars, decodeUtf8_eq_some_iff.mpr hname,
      fun c hc => hline c (List.mem_append_right _ hc), ?_⟩
    have hne : chars ≠ [] := by
      rintro rfl
      exact name.ne_nil hname
    rwa [List.getLast?_append_of_ne_nil _ hne] at hlast

/-! ## What the reader keeps -/

/-- The reader takes keys from the ends of lines. -/
theorem onLine_of_readLine {expected expected' : Dict Bytes (List Char)} {rawLine : List Char}
    (hline : ∀ c ∈ rawLine, isLineBoundary c = false)
    (h : readLine expected rawLine = .ok expected') {key : Bytes} (hkey : key ∈ expected') :
    key ∈ expected ∨ ∃ relative, key = encoded relative ∧ OnLine relative := by
  unfold readLine at h
  dsimp only at h
  split_ifs at h with hskip
  · rw [Except.ok.inj h]
    exact Or.inl hkey
  · split at h
    · cases h
    · rename_i digest relative hparts
      split_ifs at h with hdigest
      rw [← Except.ok.inj h, AList.mem_insert] at hkey
      refine hkey.symm.imp_right fun heq => ⟨relative, heq, ?_, ?_⟩
      · intro c hc
        refine hline c (mem_of_mem_strip ?_)
        rw [eq_of_splitOnce hparts]
        exact List.mem_append_right _ hc
      · -- a line that ended with the separator would end with a blank
        have hlast := getLast?_strip (t := rawLine)
        rw [eq_of_splitOnce hparts] at hlast
        by_cases hne : relative = []
        · intro c hc
          rw [hne] at hc
          cases hc
        · rwa [List.getLast?_append_of_ne_nil _ hne] at hlast

/-- **Every key that the reader returns stood at the end of a line.** -/
theorem onLine_of_readManifest {manifest : Bytes} {expected : Dict Bytes (List Char)}
    (h : readManifest manifest = .ok expected) {key : Bytes} (hkey : key ∈ expected) :
    ∃ relative, key = encoded relative ∧ OnLine relative := by
  obtain ⟨text, -, hrun⟩ := bind_eq_ok_iff.mp h
  have hall : ∀ key, key ∈ expected → ∃ relative, key = encoded relative ∧ OnLine relative := by
    refine foldlM_invariant (P := fun d : Dict Bytes (List Char) => ∀ key, key ∈ d →
      ∃ relative, key = encoded relative ∧ OnLine relative) hrun ?_ ?_
    · intro key hkey
      exact absurd hkey (AList.notMem_empty key)
    · intro line hline d d' hstep hd key hkey
      exact (onLine_of_readLine (not_boundary_of_mem_splitLines hline) hstep hkey).elim (hd key) id
  exact hall key hkey

/-! ## What the printer writes -/

/-- The characters of a line for a key and its digest. -/
def lineOf (relative digest : List Char) : List Char := digest ++ [' ', ' '] ++ relative

/-- No digit of a digest is a blank or the beginning of a comment. -/
theorem plain_of_mem_hexDigits {c : Char} (h : c ∈ hexDigits) :
    isLineBoundary c = false ∧ isSpace c = false ∧ c ≠ '#' ∧ c ≠ ' ' := by
  have hall : (hexDigits.all fun c => !isLineBoundary c && !isSpace c && c != '#' && c != ' ')
      = true := by decide
  simpa [and_assoc] using List.all_eq_true.mp hall c h

/-- A digest has a first digit. -/
theorem head?_digest {digest : List Char} (h : IsDigest digest) :
    ∃ c rest, digest = c :: rest ∧ c ∈ hexDigits := by
  have hpos : 0 < digest.length := by
    rw [h.1]
    decide
  obtain ⟨c, rest, rfl⟩ := List.exists_cons_of_length_pos hpos
  exact ⟨c, rest, rfl, h.2 c List.mem_cons_self⟩

/-- A line has no line boundary if the key has none. -/
theorem not_boundary_lineOf {relative digest : List Char} (hdigest : IsDigest digest)
    (hline : OnLine relative) : ∀ c ∈ lineOf relative digest, isLineBoundary c = false := by
  intro c hc
  rcases List.mem_append.mp hc with hc | hc
  · rcases List.mem_append.mp hc with hc | hc
    · exact (plain_of_mem_hexDigits (hdigest.2 c hc)).1
    · have hblanks : ([' ', ' '].all fun c => !isLineBoundary c) = true := by decide
      simpa using List.all_eq_true.mp hblanks c hc
  · exact hline.1 c hc

/-- **A printed line is read as its key and digest.** -/
theorem readLine_lineOf {relative digest : List Char} (hdigest : IsDigest digest)
    (hne : relative ≠ []) (hline : OnLine relative) (expected : Dict Bytes (List Char)) :
    readLine expected (lineOf relative digest) = .ok (expected.insert (encoded relative) digest) := by
  obtain ⟨d, rest, hd, hmem⟩ := head?_digest hdigest
  obtain ⟨-, hspace, hcomment, -⟩ := plain_of_mem_hexDigits hmem
  have hhead : (lineOf relative digest).head? = some d := by
    rw [lineOf, hd]
    rfl
  have hstrip : strip (lineOf relative digest) = lineOf relative digest := by
    refine strip_eq_self ?_ ?_
    · rw [hhead]
      intro c hc
      rw [← Option.mem_some_iff.mp hc]
      exact hspace
    · rw [lineOf, List.getLast?_append_of_ne_nil _ hne]
      exact hline.2
  have hsplit : splitOnce [' ', ' '] (lineOf relative digest) = some (digest, relative) := by
    refine splitOnce_append (d := ' ') rfl (fun hmem => ?_) relative
    exact (plain_of_mem_hexDigits (hdigest.2 _ hmem)).2.2.2 rfl
  have hread : ¬ (lineOf relative digest = [] ∨ ['#'] <+: lineOf relative digest) := by
    rintro (hnil | ⟨t, ht⟩)
    · rw [hnil] at hhead
      cases hhead
    · rw [← ht] at hhead
      exact hcomment (Option.some.inj hhead).symm
  unfold readLine
  rw [hstrip, if_neg hread, hsplit]
  exact if_pos hdigest

/-- Lines that are read one after the other fill the dictionary. -/
theorem foldlM_readLine {items : List (List Char × List Char)}
    (hitems : ∀ item ∈ items, item.1 ≠ [] ∧ OnLine item.1 ∧ IsDigest item.2)
    (expected : Dict Bytes (List Char)) :
    (items.map fun item => lineOf item.1 item.2).foldlM readLine expected
      = .ok (Dict.fill expected (items.map fun item => (encoded item.1, item.2))) := by
  induction items generalizing expected with
  | nil => rfl
  | cons item items ih =>
      obtain ⟨hne, hline, hdigest⟩ := hitems item List.mem_cons_self
      rw [List.map_cons, List.foldlM_cons, readLine_lineOf hdigest hne hline]
      exact ih (fun item hitem => hitems item (List.mem_cons_of_mem _ hitem)) _

/-- What is printed for items with recordable keys. -/
theorem manifestText_encoded (errors : EncodeErrors) (items : List (List Char × List Char)) :
    manifestText errors (items.map fun item => (encoded item.1, item.2))
      = .ok (encoded ((items.map fun item => lineOf item.1 item.2).flatMap (· ++ ['\n']))) := by
  have hlines : (items.map fun item => (encoded item.1, item.2)).mapM (manifestLine errors)
      = .ok (items.map fun item => encoded (lineOf item.1 item.2 ++ ['\n'])) := by
    rw [mapM_eq_ok_iff, List.forall₂_map_left_iff, List.forall₂_map_right_iff, List.forall₂_same]
    intro item _
    have hdecodes : ¬ (errors = .strict ∧ decodeUtf8 (encoded item.1) = none) := by
      rw [decodeUtf8_encoded]
      exact fun h => nomatch h.2
    unfold manifestLine
    rw [if_neg hdecodes, lineOf, encoded_append, encoded_append, encoded_append,
      show encodeUtf8 "  " = encoded [' ', ' '] from encodeUtf8_eq "  "]
    rfl
  unfold manifestText
  rw [hlines]
  change Except.ok _ = _
  rw [encoded, List.flatMap_assoc, List.flatMap_def, List.map_map]
  rfl

/-- **What is printed is read back**, if the keys are recordable. -/
theorem readManifest_manifestText (errors : EncodeErrors) {items : List (List Char × List Char)}
    (hitems : ∀ item ∈ items, item.1 ≠ [] ∧ OnLine item.1 ∧ IsDigest item.2) :
    ∃ manifest, manifestText errors (items.map fun item => (encoded item.1, item.2)) = .ok manifest
      ∧ readManifest manifest
        = .ok (Dict.fill ∅ (items.map fun item => (encoded item.1, item.2))) := by
  refine ⟨_, manifestText_encoded errors items, ?_⟩
  have hboundary : ∀ line ∈ items.map (fun item => lineOf item.1 item.2),
      ∀ c ∈ line, isLineBoundary c = false := by
    intro line hmem
    obtain ⟨item, hitem, rfl⟩ := List.mem_map.mp hmem
    exact not_boundary_lineOf (hitems item hitem).2.2 (hitems item hitem).2.1
  have hreturn : '\r' ∉ (items.map fun item => lineOf item.1 item.2).flatMap (· ++ ['\n']) := by
    intro hmem
    obtain ⟨line, hline, hmem⟩ := List.mem_flatMap.mp hmem
    rcases List.mem_append.mp hmem with hmem | hmem
    · exact absurd (hboundary line hline _ hmem) (by decide)
    · exact absurd (List.mem_singleton.mp hmem) (by decide)
  have htext := universalNewlines_append hreturn []
  rw [universalNewlines, List.append_nil] at htext
  unfold readManifest readText
  rw [decodeUtf8_encoded]
  change (splitLines (universalNewlines _)).foldlM readLine ∅ = _
  rw [htext, splitLines_flatMap hboundary]
  exact foldlM_readLine hitems ∅

/-! ## The round trip -/

/-- Equal dictionaries. -/
theorem sameItems_iff (expected actual : Dict Bytes (List Char)) :
    sameItems expected actual = true ↔ ∀ key, expected.lookup key = actual.lookup key := by
  unfold sameItems
  rw [List.all_eq_true]
  refine ⟨fun h key => ?_, fun h key _ => decide_eq_true (h key)⟩
  by_cases hmem : key ∈ expected.keys ++ actual.keys
  · exact of_decide_eq_true (h key hmem)
  · rw [List.mem_append, not_or, ← AList.mem_keys, ← AList.mem_keys] at hmem
    rw [AList.lookup_eq_none.mpr hmem.1, AList.lookup_eq_none.mpr hmem.2]

section

variable (sha256 : Bytes → Vector UInt8 32) (errors : EncodeErrors) (sourceRoot : Tree)

/-- The manifest that a run prints is read as the dictionary that `calculate` returned, and a run on
the unchanged source root verifies it. -/
def Restored (actual : List (Bytes × List Char)) : Prop :=
  ∃ manifest expected,
    (∀ before, main sha256 errors [] true sourceRoot before = .ok (.printed manifest))
      ∧ readManifest manifest = .ok expected
      ∧ (∀ key, expected.lookup key = (Dict.fill ∅ actual).lookup key)
      ∧ main sha256 errors [] false sourceRoot manifest = .ok (.verified actual.length)

variable {sha256 errors sourceRoot} {actual : List (Bytes × List Char)}

/-- **When the manifest is restored**: every module name is recordable. -/
theorem restored_iff (h : calculate sha256 sourceRoot = .ok actual) :
    Restored sha256 errors sourceRoot actual
      ↔ ∀ e ∈ sourceRoot.children, Recordable e.1.bytes := by
  constructor
  · rintro ⟨manifest, expected, -, hread, hsame, -⟩ e he
    rw [recordable_iff]
    refine onLine_of_readManifest hread ?_
    have hkey := (mem_keys_of_calculate h (moduleKey e.1)).mpr ⟨e, he, rfl⟩
    obtain ⟨item, hitem, hkey⟩ := List.mem_map.mp hkey
    have hvalue := (Dict.lookup_fill_eq_some_iff ∅ (nodup_keys_of_calculate h) item.1 item.2).mpr
      (Or.inl hitem)
    rw [← hsame, hkey] at hvalue
    exact AList.lookup_isSome.mp (Option.isSome_iff_exists.mpr ⟨_, hvalue⟩)
  · intro hnames
    have hrecord : ∀ item ∈ actual, ∃ line : List Char × List Char,
        item = (encoded line.1, line.2) ∧ line.1 ≠ [] ∧ OnLine line.1 ∧ IsDigest line.2 := by
      intro item hitem
      obtain ⟨e, he, hkey⟩ := (mem_keys_of_calculate h item.1).mp (List.mem_map_of_mem hitem)
      obtain ⟨relative, hrelative, hline⟩ := (recordable_iff e.1).mp (hnames e he)
      refine ⟨(relative, item.2), Prod.ext (hkey.trans hrelative) rfl, ?_, hline,
        (items_of_calculate h).2 item hitem⟩
      rintro rfl
      exact absurd (List.append_eq_nil_iff.mp hrelative).2 e.1.ne_nil
    obtain ⟨items, rfl, hitems⟩ := exists_eq_map hrecord
    obtain ⟨manifest, hprinted, hread⟩ := readManifest_manifestText errors hitems
    refine ⟨manifest, _, fun before => ?_, hread, fun key => rfl, ?_⟩
    · unfold main
      rw [if_neg (by simp), h]
      change Outcome.printed <$> manifestText errors _ = _
      rw [hprinted]
      rfl
    · unfold main
      rw [if_neg (by simp), h]
      change (match readManifest manifest with
        | .error e => _
        | .ok expected => _) = _
      rw [hread]
      exact if_pos ((sameItems_iff _ _).mpr fun key => rfl)

end

/-! ## Blanks at the end of a name -/

/-- A source root with one empty module of the given name. -/
def singleModule (name : Name) : Tree where
  children := [(name, .directory 0o755 [])]
  distinct := by
    refine ⟨by simp, fun name' mode cs hmem => ?_⟩
    simp only [List.mem_singleton, Prod.mk.injEq, Node.directory.injEq] at hmem
    rw [hmem.2.2]
    exact ⟨by simp, fun name'' mode' cs' hmem' => nomatch hmem'⟩

/-- The digest that is zero for every input. -/
def zeroDigest (_ : Bytes) : Vector UInt8 32 := Vector.replicate 32 0

/-- The items of a source root with one empty module. -/
theorem calculate_singleModule (name : Name) : calculate zeroDigest (singleModule name)
    = .ok [(moduleKey name, hexdigest (zeroDigest []).toList)] := by
  have hempty : walk byName [] = [] := by
    rw [walk, visit_eq]
    rfl
  have hdigest : treeDigest zeroDigest [] = .ok (hexdigest (zeroDigest []).toList) := by
    unfold treeDigest
    rw [hempty]
    rfl
  have hmodules : (byName.arrange (singleModule name).children).mapM module?
      = some [(name, [])] := rfl
  unfold calculate
  rw [hmodules]
  change (List.mapM _ [(name, [])] : Except PyException _) = _
  rw [List.mapM_cons, List.mapM_nil]
  dsimp only
  rw [hdigest]
  rfl

/-- A source root with two modules, of which one has a file and a link to it. -/
def twoModules : Tree where
  children := [(nameOf "base" (by decide +kernel), .directory 0o755
      [(nameOf "Android.bp" (by decide +kernel), .regular 0o644 (encodeUtf8 "rule")),
        (nameOf "build" (by decide +kernel), .symlink 0o777 (encodeUtf8 "Android.bp"))]),
    (nameOf "core" (by decide +kernel), .directory 0o755 [])]
  distinct := distinctNames_of_nodup_paths (by decide +kernel)

/-- The manifest of two modules is restored. -/
theorem restored_twoModules : Restored zeroDigest .strict twoModules
    [(moduleKey (nameOf "base" (by decide +kernel)), hexdigest (zeroDigest []).toList),
      (moduleKey (nameOf "core" (by decide +kernel)), hexdigest (zeroDigest []).toList)] := by
  refine (restored_iff (by decide +kernel)).mpr fun e he => ?_
  simp only [twoModules, List.mem_cons, List.not_mem_nil, or_false] at he
  rcases he with rfl | rfl
  · exact ⟨['b', 'a', 's', 'e'], decodeUtf8_eq_some_iff.mpr rfl, by decide⟩
  · exact ⟨['c', 'o', 'r', 'e'], decodeUtf8_eq_some_iff.mpr rfl, by decide⟩

/-- **A module name that ends with a blank is lost**: the manifest names another module. -/
theorem not_restored : calculate zeroDigest (singleModule (nameOf "base " (by decide)))
      = .ok [(moduleKey (nameOf "base " (by decide)), hexdigest (zeroDigest []).toList)]
    ∧ ¬ Restored zeroDigest .strict (singleModule (nameOf "base " (by decide)))
      [(moduleKey (nameOf "base " (by decide)), hexdigest (zeroDigest []).toList)] := by
  refine ⟨calculate_singleModule _, ?_⟩
  rintro ⟨manifest, expected, -, hread, hsame, -⟩
  have hvalue := hsame (moduleKey (nameOf "base " (by decide)))
  rw [Dict.fill, List.foldl_cons, List.foldl_nil, AList.lookup_insert] at hvalue
  have hkey := AList.lookup_isSome.mp (Option.isSome_iff_exists.mpr ⟨_, hvalue⟩)
  obtain ⟨chars, hchars, -, hlast⟩ := (recordable_iff _).mpr (onLine_of_readManifest hread hkey)
  have hname : decodeUtf8 (nameOf "base " (by decide)).bytes = some ['b', 'a', 's', 'e', ' '] :=
    decodeUtf8_eq_some_iff.mpr rfl
  rw [hname, Option.some_inj] at hchars
  rw [← hchars] at hlast
  exact absurd (hlast ' ' rfl) (by decide)

end AndroidSdk.FileTree.SourceSnapshot
