import AndroidSdk.Aapt2.FittingIds
import AndroidSdk.Aapt2.EntryOffsets

/-! # Identifiers that can be written and read

Three components state the limits of identifiers: `IdAssigner` (`IdAssigner.cpp`) hands out the entry
identifiers from 0 to 0xffff and takes every preset one, `TableFlattener` (`TableFlattener.cpp`) checks
that there are at most 65535 entry identifiers in a type, and so does `BinaryResourceParser`
(`BinaryResourceParser.cpp`), which does not take the type identifier 0 either.

* **`PackageChunk.Accepted`** — what the parser does not reject because of its identifiers.
* **`IdsWritable`** — a table passes the checks on identifiers when it is written, and when it is read.
* **`idsWritable_iff`** — a table with assigned identifiers can be written and read iff the
  identifiers that it was given fit. -/

namespace AndroidSdk.Aapt2

open Lib SplitSelect

variable {ι : Type}

/-! ## What the parser rejects -/

/-- An error about an identifier. -/
def AddError.IsIdError : AddError → Prop
  | .invalidId .. | .otherId .. => True
  | _ => False

/-- An error about an identifier or the number of entries. -/
def ParseError.IsIdError : ParseError → Prop
  | .invalidTypeId | .tooManyEntries _ => True
  | .addResource error => error.IsIdError
  | _ => False

/-- The parser does not reject the chunk for its identifiers or its number of entries, whatever it
has read before. -/
def PackageChunk.Accepted (chunk : PackageChunk ι) : Prop :=
  ∀ (ctx : ParseContext ι) package s e, parseChunk ctx package s chunk = .error e → ¬ e.IsIdError

/-- A type specification is accepted iff it has a type identifier and not too many entries. -/
theorem accepted_typeSpec_iff {id : BitVec 8} {flags : List SpecFlags} :
    (PackageChunk.typeSpec id flags : PackageChunk ι).Accepted ↔ id ≠ 0 ∧ flags.length ≤ 65535 := by
  constructor
  · intro h
    -- the parser rejects it when it has read nothing
    have hreject := h ⟨fun _ _ _ => none, .kEnabled, fun _ => true⟩ ⟨0, [], [], [], []⟩
      ⟨⟨[]⟩, ∅, ∅, []⟩
    refine ⟨fun hid => ?_, ?_⟩
    · exact hreject .invalidTypeId (by rw [parseChunk, parseTypeSpec, if_pos hid]) trivial
    · by_contra hlength
      by_cases hid : id = 0
      · exact hreject .invalidTypeId (by rw [parseChunk, parseTypeSpec, if_pos hid]) trivial
      · exact hreject (.tooManyEntries flags.length)
          (by rw [parseChunk, parseTypeSpec, if_neg hid, if_pos (by omega)]) trivial
  · rintro ⟨hid, hlength⟩ ctx package s e h
    rw [parseChunk, parseTypeSpec, if_neg hid, if_neg (by omega)] at h
    cases h

/-- A resource whose identifier may create an entry has no conflict with another identifier. -/
theorem setEntryId_createEntry {res : NewResource ι} {id : ResourceId}
    (hid : res.id = some (id, .createEntry)) (entries : List (ResourceEntry ι)) (i : ℕ) :
    (setEntryId res entries i).1 = none := by
  rw [setEntryId, hid]
  dsimp only
  split
  · rfl
  · split_ifs with hsame hconflict
    · rfl
    · exact absurd rfl hconflict
    · rfl

/-- What is reported of a value behind a disabled flag is not about an identifier. -/
theorem ResourceEntry.not_isIdError_addFlagDisabled {res : NewResource ι} {value : Value ι}
    {entry entry' : ResourceEntry ι} {error : AddError}
    (h : entry.addFlagDisabled res value = some (some error, entry')) : ¬ error.IsIdError := by
  rw [ResourceEntry.addFlagDisabled] at h
  split_ifs at h
  · cases h
  · obtain ⟨flag, -, h⟩ := Option.bind_eq_some_iff.mp h
    obtain ⟨⟨b, values⟩, hon, heq⟩ := Option.map_eq_some_iff.mp h
    obtain ⟨x, x', hx⟩ := exists_of_onFoundOrCreated hon
    cases heq
    split at hx
    · cases hx
    · cases hx
      exact not_false

/-- What is reported of a value is not about an identifier. -/
theorem ResourceEntry.not_isIdError_addValue {validation : Validation} {res : NewResource ι}
    {value : Value ι} {entry entry' : ResourceEntry ι} {error : AddError}
    (h : entry.addValue validation res value = some (some error, entry')) : ¬ error.IsIdError := by
  obtain ⟨⟨result, r⟩, -, heq⟩ := Option.map_eq_some_iff.mp h
  cases result with
  | kConflict =>
      cases heq
      exact not_false
  | kKeepBoth => cases heq
  | kTakeNew => cases heq
  | kKeepOriginal => cases heq

/-- What `AddResource` reports of an entry is not about an identifier. -/
theorem ResourceEntry.not_isIdError_add {validation : Validation} {res : NewResource ι}
    {entry entry' : ResourceEntry ι} {error : AddError}
    (h : entry.add validation res = some (some error, entry')) : ¬ error.IsIdError := by
  -- a visibility changes the entry before the other parts are looked at
  obtain ⟨shown, hshown⟩ : ∃ shown : ResourceEntry ι,
      entry.add validation res = shown.add validation { res with visibility := none } := by
    unfold ResourceEntry.add
    cases res.visibility with
    | none => exact ⟨entry, rfl⟩
    | some visibility => exact ⟨entry.setVisibility visibility, rfl⟩
  rw [hshown, ResourceEntry.add] at h
  dsimp only at h
  split_ifs at h with hoverlayable
  · cases h
    exact not_false
  · split at h
    next => cases h
    next value hvalue =>
      split at h
      next => cases h
      next error' entry'' hadd =>
        cases h
        exact ResourceEntry.not_isIdError_addFlagDisabled hadd
      next => exact ResourceEntry.not_isIdError_addValue h

/-- **What `AddResource` reports of a resource with a valid identifier** that may create an entry is
not about the identifier. -/
theorem ResourceTable.not_isIdError_addResource {isValidResourceEntryName : Bytes → Bool}
    {validation : Validation} {res : NewResource ι} {table table' : ResourceTable ι} {id : ResourceId}
    {error : AddError} (hid : res.id = some (id, .createEntry)) (hvalid : id.isValid = true)
    (h : table.addResource isValidResourceEntryName validation res = some (some error, table')) :
    ¬ error.IsIdError := by
  rw [ResourceTable.addResource] at h
  split at h
  next =>
    cases h
    exact fun h => h
  next =>
    have hfilter : (res.id.filter fun id => !id.1.isValid) = none := by simp [hid, hvalid]
    rw [hfilter] at h
    obtain ⟨⟨b, packages⟩, hpackage, heq⟩ := Option.map_eq_some_iff.mp h
    obtain ⟨package, package', hpackage⟩ := exists_of_onFoundOrCreated hpackage
    cases heq
    obtain ⟨⟨b, types⟩, htype, heq⟩ := Option.map_eq_some_iff.mp hpackage
    obtain ⟨type, type', htype⟩ := exists_of_onFoundOrCreated htype
    cases heq
    obtain ⟨⟨entries, i⟩, -, hadd⟩ := Option.bind_eq_some_iff.mp htype
    have hset := setEntryId_createEntry hid entries i
    generalize setEntryId res entries i = chosen at hset hadd
    obtain ⟨_, entries', j⟩ := chosen
    replace hset : _ = none := hset
    subst hset
    obtain ⟨entry, -, hadd⟩ := Option.bind_eq_some_iff.mp hadd
    obtain ⟨⟨b, entry'⟩, hentry, heq⟩ := Option.map_eq_some_iff.mp hadd
    cases heq
    exact ResourceEntry.not_isIdError_add hentry

/-- An identifier with a type identifier other than 0 is valid. -/
theorem isValid_ofParts {p t : BitVec 8} (ht : t ≠ 0) (e : BitVec 16) :
    (ResourceId.ofParts p t e).isValid = true := by
  rw [ResourceId.isValid, decide_eq_true_iff]
  intro hzero
  refine ht ?_
  -- the mask keeps the bits of the type identifier
  have hmask : ∀ i < 8, (0x00ff0000#32).getLsbD (16 + i) = true := by decide
  rw [← ResourceId.typeId_ofParts p t e, ResourceId.typeId]
  refine BitVec.eq_of_getLsbD_eq fun i hi => ?_
  have hbit : ((ResourceId.ofParts p t e).id &&& 0x00ff0000#32).getLsbD (16 + i) = false := by
    rw [hzero, BitVec.getLsbD_zero]
  rw [BitVec.getLsbD_and, hmask i hi, Bool.and_true] at hbit
  rw [BitVec.getLsbD_extractLsb', hbit]
  simp

/-- The parser passes such errors on. -/
theorem ParserState.not_isIdError_addResource {ctx : ParseContext ι} {res : NewResource ι}
    {s : ParserState ι} {id : ResourceId} {error : ParseError}
    (hid : res.id = some (id, .createEntry)) (hvalid : id.isValid = true)
    (h : s.addResource ctx res = .error error) : ¬ error.IsIdError := by
  rw [ParserState.addResource] at h
  split at h
  next =>
    cases h
    exact not_false
  next error' table hadd =>
    cases h
    exact ResourceTable.not_isIdError_addResource hid hvalid hadd
  next => cases h

/-- What `ParseType` reports of an entry of a type with an identifier is not about it. -/
theorem not_isIdError_parseEntry {ctx : ParseContext ι} {name : ResourceName} {p t : BitVec 8}
    {e : BitVec 16} {config : ResTableConfig} {entry : ResEntry ι} {s : ParserState ι}
    {error : ParseError} (ht : t ≠ 0)
    (h : parseEntry ctx name (.ofParts p t e) config entry s = .error error) : ¬ error.IsIdError := by
  rw [parseEntry] at h
  split at h
  next =>
    cases h
    exact not_false
  next =>
    by_cases hstaged : (name, ResourceId.ofParts p t e) ∈ s.stagedEntriesToRemove
    · rw [if_pos hstaged] at h
      cases h
    · rw [if_neg hstaged] at h
      exact ParserState.not_isIdError_addResource rfl (isValid_ofParts ht e) h

/-- A type is accepted if it has an identifier. -/
theorem accepted_type {id : BitVec 8} (hid : id ≠ 0) (config : ResTableConfig)
    (entries : List (Option (ResEntry ι))) :
    (PackageChunk.type id config entries).Accepted := by
  intro ctx package s error h
  rw [parseChunk, parseType, if_neg hid] at h
  split at h
  next => cases h
  next type htype =>
    obtain ⟨-, ⟨entry, i⟩, -, t, -, -, hentry⟩ := exists_error_of_foldlM h
    cases entry with
    | none => cases hentry
    | some entry => exact not_isIdError_parseEntry hid hentry

/-! ## What the flattener writes of a type -/

/-- There is a value. -/
theorem valueOrAbort_eq_ok_iff {α : Type} {x : Option α} {a : α} :
    valueOrAbort x = .ok a ↔ x = some a := by
  cases x <;> simp [valueOrAbort]

/-- There is no value. -/
theorem valueOrAbort_eq_error_iff {α : Type} {x : Option α} {e : FlattenError} :
    valueOrAbort x = .error e ↔ x = none ∧ e = .aborted := by
  cases x <;> simp [valueOrAbort, eq_comm]

/-- **A type of the view that can be written**: its entries are sorted, they have values, and the
identifiers are there and in range. -/
structure ResourceTableTypeView.Ready (type : ResourceTableTypeView ι) : Prop where
  sorted : StrictlySortedBy compareIdName ResourceTableEntryView.key type.entries
  nonempty : type.entries ≠ []
  id : ∃ t, type.id = some t ∧ t ≠ 0
  entryId : ∀ entry ∈ type.entries, ∃ e, entry.id = some e ∧ e ≠ 0xffff
  values : ∀ entry ∈ type.entries, ∀ v ∈ entry.values, v.value.isSome = true

/-- A sorted view has the greatest identifier at its end. -/
theorem idKey_le_of_compareIdName_lt {x y : ResourceTableEntryView ι}
    (h : compareIdName x.key y.key = .lt) : idKey x.id ≤ idKey y.id := by
  have h : (compare (idKey x.id) (idKey y.id)).then (compare x.name y.name) = .lt := h
  rcases Ordering.then_eq_lt.mp h with h | ⟨h, -⟩
  · exact (compare_lt_iff_lt.mp h).le
  · exact (compare_eq_iff_eq.mp h).le

/-- **The number of entry identifiers** is greater than each of them, and not greater than it must
be. -/
theorem numEntries_spec {type : ResourceTableTypeView ι}
    (hsorted : StrictlySortedBy compareIdName ResourceTableEntryView.key type.entries)
    (hnonempty : type.entries ≠ []) (hid : ∀ entry ∈ type.entries, entry.id.isSome = true) :
    ∃ n, type.numEntries = .ok n
      ∧ (∀ entry ∈ type.entries, ∀ e, entry.id = some e → e.toNat < n)
      ∧ ∃ entry ∈ type.entries, ∃ e, entry.id = some e ∧ n = e.toNat + 1 := by
  have hlast := List.getLast?_eq_some_getLast hnonempty
  have hmem := List.getLast_mem hnonempty
  have hsplit := List.dropLast_append_getLast hnonempty
  generalize type.entries.getLast hnonempty = last at hlast hmem hsplit
  obtain ⟨e, he⟩ := Option.isSome_iff_exists.mp (hid last hmem)
  refine ⟨e.toNat + 1, ?_, fun entry hentry e' he' => ?_, last, hmem, e, he, rfl⟩
  · rw [ResourceTableTypeView.numEntries, hlast, Option.bind_some, he]
    rfl
  · rw [StrictlySortedBy, ← hsplit] at hsorted
    have hbefore := (List.pairwise_append.mp hsorted).2.2
    rw [← hsplit] at hentry
    rcases List.mem_append.mp hentry with hentry | hentry
    · have hle := idKey_le_of_compareIdName_lt
        (hbefore entry hentry last (List.mem_singleton_self last))
      rw [he, he'] at hle
      exact hle
    · rw [List.mem_singleton.mp hentry, he] at he'
      cases he'
      exact Nat.lt_succ_self _

/-- A type specification has flags for each entry identifier. -/
theorem flattenTypeSpec_eq_ok {t : BitVec 8} {type : ResourceTableTypeView ι}
    {chunk : PackageChunk ι} (h : flattenTypeSpec t type = .ok chunk) :
    ∃ n flags, type.numEntries = .ok n ∧ flags.length = n ∧ chunk = .typeSpec t flags := by
  obtain ⟨n, hn, h⟩ := bind_eq_ok_iff.mp h
  obtain ⟨flags, hflags, h⟩ := bind_eq_ok_iff.mp h
  cases h
  refine ⟨n, flags, hn, ?_, rfl⟩
  refine foldlM_invariant (P := fun flags : List SpecFlags => flags.length = n) hflags
    List.length_replicate fun entry _ t t' hstep ht => ?_
  obtain ⟨id, -, hstep⟩ := bind_eq_ok_iff.mp hstep
  cases hstep
  rw [List.length_set, ht]

/-- The type specification is written. -/
theorem flattenTypeSpec_ne_error {t : BitVec 8} {type : ResourceTableTypeView ι} {n : ℕ}
    (hn : type.numEntries = .ok n) (hid : ∀ entry ∈ type.entries, entry.id.isSome = true)
    (e : FlattenError) : flattenTypeSpec t type ≠ .error e := by
  intro h
  rcases bind_eq_error_iff.mp h with h | ⟨n', -, h⟩
  · rw [hn] at h
    cases h
  rcases bind_eq_error_iff.mp h with h | ⟨flags, -, h⟩
  · obtain ⟨pre, entry, post, flags, hsplit, -, hstep⟩ := exists_error_of_foldlM h
    have hentry := hid entry (by simp [hsplit])
    rcases bind_eq_error_iff.mp hstep with hstep | ⟨id, -, hstep⟩
    · rw [(valueOrAbort_eq_error_iff.mp hstep).1] at hentry
      cases hentry
    · cases hstep
  · cases h

/-- The entries that are grouped by configuration are entries with one of their values. -/
theorem mem_foldl_alter {entry : ResourceTableEntryView ι} {key : ℕ}
    {values : List (ResourceConfigValue ι)} {map : List (ResTableConfig × List (FlatEntry ι))}
    {p : ResTableConfig × List (FlatEntry ι)} {flat : FlatEntry ι}
    (hp : p ∈ values.foldl (fun map v => KeyedVector.alter ResTableConfig.compare v.config
      (fun list => list.getD [] ++ [⟨entry, v.value, key, v.usesReadwriteFeatureFlags⟩]) map) map)
    (hflat : flat ∈ p.2) :
    (∃ q ∈ map, flat ∈ q.2) ∨ flat.entry = entry ∧ ∃ v ∈ values, flat.value = v.value := by
  induction values generalizing map with
  | nil => exact .inl ⟨p, hp, hflat⟩
  | cons v values ih =>
      rcases ih hp with ⟨q, hq, hflat⟩ | ⟨hentry, w, hw, hvalue⟩
      · rcases KeyedVector.mem_alter hq with hq | rfl | ⟨list, hlist, -, heq⟩
        · exact .inl ⟨q, hq, hflat⟩
        · obtain rfl := List.mem_singleton.mp hflat
          exact .inr ⟨rfl, v, List.mem_cons_self, rfl⟩
        · rw [heq] at hflat
          rcases List.mem_append.mp hflat with hflat | hflat
          · exact .inl ⟨_, hlist, hflat⟩
          · obtain rfl := List.mem_singleton.mp hflat
            exact .inr ⟨rfl, v, List.mem_cons_self, rfl⟩
      · exact .inr ⟨hentry, w, List.mem_cons_of_mem v hw, hvalue⟩

section Entries

variable {ctx : FlattenContext} {packageId t : BitVec 8} {type : ResourceNamedType}
  {entries : List (ResourceTableEntryView ι)}

/-- What the loop does with an entry: its values are grouped. -/
theorem flattenEntry_eq_ok {r r' : FlattenState ι × List (ResTableConfig × List (FlatEntry ι))}
    {entry : ResourceTableEntryView ι}
    (h : flattenEntry ctx packageId t type r entry = .ok r') :
    r'.1.chunks = r.1.chunks ∧ ∃ key, r'.2 = entry.values.foldl (fun map v =>
      KeyedVector.alter ResTableConfig.compare v.config
        (fun list => list.getD [] ++ [⟨entry, v.value, key, v.usesReadwriteFeatureFlags⟩]) map)
      r.2 := by
  rw [flattenEntry] at h
  split at h
  · cases h
    exact ⟨rfl, _, rfl⟩
  · obtain ⟨id, -, h⟩ := bind_eq_ok_iff.mp h
    cases h
    exact ⟨rfl, _, rfl⟩

/-- An entry with an identifier is no error. -/
theorem flattenEntry_ne_error {r : FlattenState ι × List (ResTableConfig × List (FlatEntry ι))}
    {entry : ResourceTableEntryView ι} (hid : entry.id.isSome = true) (e : FlattenError) :
    flattenEntry ctx packageId t type r entry ≠ .error e := by
  intro h
  rw [flattenEntry] at h
  split at h
  · cases h
  · rcases bind_eq_error_iff.mp h with h | ⟨id, -, h⟩
    · rw [(valueOrAbort_eq_error_iff.mp h).1] at hid
      cases hid
    · cases h

/-- **What the loop over the entries leaves**: no chunk is written, and only the entries are
grouped. -/
theorem foldlM_flattenEntry_spec {s s' : FlattenState ι}
    {map : List (ResTableConfig × List (FlatEntry ι))}
    (h : entries.foldlM (flattenEntry ctx packageId t type) (s, []) = .ok (s', map)) :
    s'.chunks = s.chunks ∧ ∀ p ∈ map, ∀ flat ∈ p.2,
      flat.entry ∈ entries ∧ ∃ v ∈ flat.entry.values, flat.value = v.value := by
  refine foldlM_invariant (P := fun r : FlattenState ι × List (ResTableConfig × List (FlatEntry ι)) =>
    r.1.chunks = s.chunks ∧ ∀ p ∈ r.2, ∀ flat ∈ p.2,
      flat.entry ∈ entries ∧ ∃ v ∈ flat.entry.values, flat.value = v.value) h
    ⟨rfl, fun p hp => by cases hp⟩ fun entry hentry r r' hstep hr => ?_
  obtain ⟨hchunks, key, hmap⟩ := flattenEntry_eq_ok hstep
  refine ⟨hchunks.trans hr.1, fun p hp flat hflat => ?_⟩
  rw [hmap] at hp
  rcases mem_foldl_alter hp hflat with ⟨q, hq, hflat⟩ | ⟨heq, v, hv, hvalue⟩
  · exact hr.2 q hq flat hflat
  · exact ⟨heq ▸ hentry, v, heq ▸ hv, hvalue⟩

/-- The loop over the entries succeeds if they have identifiers. -/
theorem foldlM_flattenEntry_ne_error (hid : ∀ entry ∈ entries, entry.id.isSome = true)
    (r : FlattenState ι × List (ResTableConfig × List (FlatEntry ι))) (e : FlattenError) :
    entries.foldlM (flattenEntry ctx packageId t type) r ≠ .error e := by
  intro h
  obtain ⟨pre, entry, post, r', hsplit, -, hstep⟩ := exists_error_of_foldlM h
  exact flattenEntry_ne_error (hid entry (by simp [hsplit])) e hstep

end Entries

/-- What is written for a configuration is a type. -/
theorem flattenConfig_eq_ok {t : BitVec 8} {n : ℕ} {config : ResTableConfig × List (FlatEntry ι)}
    {chunk : PackageChunk ι} (h : flattenConfig t n config = .ok chunk) :
    ∃ entries, chunk = .type t config.1 entries := by
  rw [flattenConfig] at h
  split at h
  · cases h
  · obtain ⟨entries, -, h⟩ := bind_eq_ok_iff.mp h
    cases h
    exact ⟨entries, rfl⟩

/-- **The entries of a configuration are written** if there are not too many identifiers, and those
of the entries are smaller. -/
theorem flattenConfig_ne_error {t : BitVec 8} {n : ℕ} {config : ResTableConfig × List (FlatEntry ι)}
    (hn : n ≤ 65535) (hflat : ∀ flat ∈ config.2,
      (∃ id, flat.entry.id = some id ∧ id.toNat < n) ∧ flat.value.isSome = true)
    (e : FlattenError) : flattenConfig t n config ≠ .error e := by
  intro h
  rw [flattenConfig, if_neg (by omega)] at h
  rcases bind_eq_error_iff.mp h with h | ⟨entries, -, h⟩
  · obtain ⟨pre, flat, post, entries, hsplit, -, hstep⟩ := exists_error_of_foldlM h
    obtain ⟨⟨id, hid, hlt⟩, hvalue⟩ := hflat flat (by simp [hsplit])
    rcases bind_eq_error_iff.mp hstep with hstep | ⟨id', hid', hstep⟩
    · rw [(valueOrAbort_eq_error_iff.mp hstep).1] at hid
      cases hid
    rcases bind_eq_error_iff.mp hstep with hstep | ⟨value, -, hstep⟩
    · rw [(valueOrAbort_eq_error_iff.mp hstep).1] at hvalue
      cases hvalue
    · rw [valueOrAbort_eq_ok_iff, hid, Option.some.injEq] at hid'
      subst hid'
      rw [if_pos hlt] at hstep
      cases hstep
  · cases h

section Types

variable {ctx : FlattenContext} {packageId : BitVec 8} {s s' : FlattenState ι}
  {type : ResourceTableTypeView ι}

/-- **What is written of a type**: a specification with flags for each entry identifier, and the
entries of each configuration. -/
theorem flattenType_eq_ok (hreal : type.namedType.type.IsReal)
    (h : flattenType ctx packageId s type = .ok s') :
    ∃ t n flags chunks, type.id = some t ∧ type.numEntries = .ok n ∧ flags.length = n
      ∧ s'.chunks = s.chunks ++ .typeSpec t flags :: chunks
      ∧ ∀ chunk ∈ chunks, ∃ config entries, chunk = .type t config entries := by
  rw [flattenType, if_neg (not_or.mpr hreal)] at h
  obtain ⟨t, ht, h⟩ := bind_eq_ok_iff.mp h
  obtain ⟨typeSpec, hspec, h⟩ := bind_eq_ok_iff.mp h
  obtain ⟨n', hn', h⟩ := bind_eq_ok_iff.mp h
  obtain ⟨⟨s₁, map⟩, hmap, h⟩ := bind_eq_ok_iff.mp h
  obtain ⟨chunks, hchunks, h⟩ := bind_eq_ok_iff.mp h
  cases h
  obtain ⟨n, flags, hn, hlength, rfl⟩ := flattenTypeSpec_eq_ok hspec
  refine ⟨t, n, flags, chunks, valueOrAbort_eq_ok_iff.mp ht, hn, hlength, ?_, ?_⟩
  · exact congrArg (· ++ _) (foldlM_flattenEntry_spec hmap).1
  · exact forall_mem_of_forall₂ (mapM_eq_ok_iff.mp hchunks) fun config chunk hchunk =>
      ⟨config.1, flattenConfig_eq_ok hchunk⟩

/-- A styleable or a macro is skipped. -/
theorem flattenType_of_not_isReal (hreal : ¬ type.namedType.type.IsReal) :
    flattenType ctx packageId s type = .ok s := by
  rw [flattenType, if_pos]
  · rfl
  · by_contra hskip
    exact hreal (not_or.mp hskip)

/-- A type keeps the chunks that are there. -/
theorem mem_chunks_flattenType (h : flattenType ctx packageId s type = .ok s')
    {chunk : PackageChunk ι} (hchunk : chunk ∈ s.chunks) : chunk ∈ s'.chunks := by
  by_cases hreal : type.namedType.type.IsReal
  · obtain ⟨t, n, flags, chunks, -, -, -, heq, -⟩ := flattenType_eq_ok hreal h
    rw [heq]
    exact List.mem_append_left _ hchunk
  · rw [flattenType_of_not_isReal hreal] at h
    cases h
    exact hchunk

/-- The identifiers of a type that can be written. -/
theorem ResourceTableTypeView.Ready.entries_spec (h : type.Ready) :
    ∃ n, type.numEntries = .ok n ∧ 0 < n ∧ n ≤ 65535
      ∧ ∀ entry ∈ type.entries, ∃ e, entry.id = some e ∧ e.toNat < n := by
  obtain ⟨n, hn, hlt, entry, hentry, e, he, heq⟩ := numEntries_spec h.sorted h.nonempty
    fun entry hentry => by
      obtain ⟨e, he, -⟩ := h.entryId entry hentry
      rw [he]
      rfl
  refine ⟨n, hn, by omega, ?_, fun x hx => ?_⟩
  · obtain ⟨e', he', hmax⟩ := h.entryId entry hentry
    rw [he, Option.some.injEq] at he'
    subst he'
    -- the last identifier is not the greatest of all
    have hne : e.toNat ≠ 65535 := fun heq => hmax (BitVec.eq_of_toNat_eq heq)
    have hsize := e.isLt
    omega
  · obtain ⟨e', he', -⟩ := h.entryId x hx
    exact ⟨e', he', hlt x hx e' he'⟩

/-- **A type that is ready is written**. -/
theorem flattenType_ne_error (h : type.namedType.type.IsReal → type.Ready) (e : FlattenError) :
    flattenType ctx packageId s type ≠ .error e := by
  intro herror
  by_cases hreal : type.namedType.type.IsReal
  · replace h := h hreal
    obtain ⟨n, hn, -, hmax, hentries⟩ := h.entries_spec
    have hid : ∀ entry ∈ type.entries, entry.id.isSome = true := fun entry hentry => by
      obtain ⟨e, he, -⟩ := hentries entry hentry
      rw [he]
      rfl
    rw [flattenType, if_neg (not_or.mpr hreal)] at herror
    rcases bind_eq_error_iff.mp herror with herror | ⟨t, -, herror⟩
    · obtain ⟨t, ht, -⟩ := h.id
      rw [(valueOrAbort_eq_error_iff.mp herror).1] at ht
      cases ht
    rcases bind_eq_error_iff.mp herror with herror | ⟨typeSpec, -, herror⟩
    · exact flattenTypeSpec_ne_error hn hid e herror
    rcases bind_eq_error_iff.mp herror with herror | ⟨n', hn', herror⟩
    · rw [hn] at herror
      cases herror
    rw [hn, Except.ok.injEq] at hn'
    subst hn'
    rcases bind_eq_error_iff.mp herror with herror | ⟨⟨s₁, map⟩, hmap, herror⟩
    · exact foldlM_flattenEntry_ne_error hid _ e herror
    rcases bind_eq_error_iff.mp herror with herror | ⟨chunks, -, herror⟩
    · obtain ⟨config, hconfig, herror⟩ := exists_error_of_mapM herror
      refine flattenConfig_ne_error hmax (fun flat hflat => ?_) e herror
      obtain ⟨hentry, v, hv, hvalue⟩ := (foldlM_flattenEntry_spec hmap).2 config hconfig flat hflat
      exact ⟨hentries _ hentry, hvalue ▸ h.values _ hentry v hv⟩
    · cases herror
  · rw [flattenType_of_not_isReal hreal] at herror
    cases herror

end Types

/-! ## Overlayable entries -/

section Overlayable

variable {ctx : FlattenContext} {r r' : List ResourceId × List (Bytes × OverlayableChunk)}
  {x : Option ResourceId × Bytes × OverlayableItem}

/-- What is noted of an item: its identifier, and in the chunk of its overlayable, which is created if
there is none. -/
theorem addOverlayable_eq_ok (h : addOverlayable ctx r x = .ok r') :
    ∃ id f, x.1 = some id
      ∧ r' = (id :: r.1, KeyedVector.alter compare (ctx.overlayables x.2.2.overlayable).name f r.2)
      ∧ ((f none).source = (ctx.overlayables x.2.2.overlayable).source
        ∧ (f none).actor = (ctx.overlayables x.2.2.overlayable).actor)
      ∧ ∀ chunk, (f (some chunk)).source = chunk.source ∧ (f (some chunk)).actor = chunk.actor := by
  rw [addOverlayable] at h
  obtain ⟨id, hid, h⟩ := bind_eq_ok_iff.mp h
  rw [valueOrAbort_eq_ok_iff] at hid
  dsimp only at h
  split at h
  · cases h
  split at h
  next =>
    split at h
    · cases h
    · cases h
      exact ⟨id, _, hid, rfl, ⟨rfl, rfl⟩, fun chunk => ⟨rfl, rfl⟩⟩
  next =>
    split at h
    · cases h
    split at h
    · cases h
    split at h
    · cases h
    · cases h
      exact ⟨id, _, hid, rfl, ⟨rfl, rfl⟩, fun chunk => ⟨rfl, rfl⟩⟩

/-- The causes of an abort: there is no identifier, it is there already, or the actors of an
overlayable differ. -/
theorem addOverlayable_eq_aborted (h : addOverlayable ctx r x = .error .aborted) :
    x.1 = none ∨ (∃ id ∈ r.1, x.1 = some id)
      ∨ ∃ p ∈ r.2, p.1 = (ctx.overlayables x.2.2.overlayable).name
        ∧ p.2.source = (ctx.overlayables x.2.2.overlayable).source
        ∧ p.2.actor ≠ (ctx.overlayables x.2.2.overlayable).actor := by
  rw [addOverlayable] at h
  rcases bind_eq_error_iff.mp h with h | ⟨id, hid, h⟩
  · exact .inl (valueOrAbort_eq_error_iff.mp h).1
  dsimp only at h
  split at h
  next hseen => exact .inr (.inl ⟨id, hseen, valueOrAbort_eq_ok_iff.mp hid⟩)
  split at h
  next =>
    split at h
    · cases h
    · cases h
  next chunk hfind =>
    split at h
    next => cases h
    next hsource =>
      split at h
      next hactor =>
        obtain ⟨p, hp, hname, rfl⟩ := KeyedVector.exists_mem_of_find hfind
        rw [Std.LawfulEqCmp.compare_eq_iff_eq] at hname
        exact .inr (.inr ⟨p, hp, hname.symm, not_not.mp hsource, hactor⟩)
      next =>
        split at h
        · cases h
        · cases h

/-- **The loop over the overlayable items does not abort** if they have different identifiers, and
overlayables of one name and source have one actor. -/
theorem foldlM_addOverlayable_ne_aborted {items : List (Option ResourceId × Bytes × OverlayableItem)}
    (hid : ∀ x ∈ items, x.1.isSome = true) (hdistinct : items.Pairwise fun x y => x.1 ≠ y.1)
    (hactors : ∀ x ∈ items, ∀ y ∈ items,
      (ctx.overlayables x.2.2.overlayable).name = (ctx.overlayables y.2.2.overlayable).name →
      (ctx.overlayables x.2.2.overlayable).source = (ctx.overlayables y.2.2.overlayable).source →
      (ctx.overlayables x.2.2.overlayable).actor = (ctx.overlayables y.2.2.overlayable).actor) :
    items.foldlM (addOverlayable ctx) ([], []) ≠ .error .aborted := by
  intro h
  obtain ⟨pre, x, post, r, hsplit, hpre, hstep⟩ := exists_error_of_foldlM h
  rw [hsplit] at hdistinct
  have hbefore : ∀ y ∈ pre, y.1 ≠ x.1 := fun y hy =>
    (List.pairwise_append.mp hdistinct).2.2 y hy x List.mem_cons_self
  have hx : x ∈ items := by simp [hsplit]
  have hsub : ∀ y ∈ pre, y ∈ items := fun y hy => by simp [hsplit, hy]
  -- what has been noted is of the items before
  have hnoted : (∀ id ∈ r.1, ∃ y ∈ pre, y.1 = some id)
      ∧ ∀ p ∈ r.2, ∃ y ∈ pre, p.1 = (ctx.overlayables y.2.2.overlayable).name
        ∧ p.2.source = (ctx.overlayables y.2.2.overlayable).source
        ∧ p.2.actor = (ctx.overlayables y.2.2.overlayable).actor := by
    refine foldlM_invariant (P := fun r : List ResourceId × List (Bytes × OverlayableChunk) =>
      (∀ id ∈ r.1, ∃ y ∈ pre, y.1 = some id)
      ∧ ∀ p ∈ r.2, ∃ y ∈ pre, p.1 = (ctx.overlayables y.2.2.overlayable).name
        ∧ p.2.source = (ctx.overlayables y.2.2.overlayable).source
        ∧ p.2.actor = (ctx.overlayables y.2.2.overlayable).actor) hpre
      ⟨(fun id hid => by cases hid), (fun p hp => by cases hp)⟩ fun y hy t t' hok ht => ?_
    obtain ⟨id, f, hid, rfl, ⟨hsource, hactor⟩, hold⟩ := addOverlayable_eq_ok hok
    refine ⟨List.forall_mem_cons.mpr ⟨⟨y, hy, hid⟩, ht.1⟩, fun p hp => ?_⟩
    rcases KeyedVector.mem_alter hp with hp | rfl | ⟨chunk, hchunk, -, heq⟩
    · exact ht.2 p hp
    · exact ⟨y, hy, rfl, hsource, hactor⟩
    · obtain ⟨z, hz, hname, hsource', hactor'⟩ := ht.2 _ hchunk
      rw [heq, (hold chunk).1, (hold chunk).2]
      exact ⟨z, hz, hname, hsource', hactor'⟩
  rcases addOverlayable_eq_aborted hstep with hnone | ⟨id, hseen, hsome⟩ | ⟨p, hp, hname, hsource, hne⟩
  · have hsome := hid x hx
    rw [hnone] at hsome
    cases hsome
  · obtain ⟨y, hy, hyid⟩ := hnoted.1 id hseen
    exact hbefore y hy (hyid.trans hsome.symm)
  · obtain ⟨y, hy, hname', hsource', hactor⟩ := hnoted.2 p hp
    refine hne (hactor.trans (hactors y (hsub y hy) x hx ?_ ?_))
    · exact hname'.symm.trans hname
    · exact hsource'.symm.trans hsource

end Overlayable

/-- The overlayable items of a package are those of its entries. -/
theorem overlayableItems_eq (package : ResourceTablePackageView ι) :
    package.overlayableItems = package.placed.filterMap fun y =>
      y.entry.overlayableItem.map fun item => (y.id, y.entry.name, item) := by
  simp only [ResourceTablePackageView.overlayableItems, ResourceTablePackageView.placed,
    ResourceTableTypeView.placed, List.filterMap_flatMap, List.filterMap_map]
  rfl

/-! ## Tables with identifiers -/

/-- The entries of a table have identifiers, and entries with a common one have the same name. -/
structure ResourceTable.HasIds (table : ResourceTable ι) : Prop where
  id : ∀ e ∈ table.namedEntries, e.2.id.isSome = true
  name_eq : ∀ d ∈ table.namedEntries, ∀ e ∈ table.namedEntries, ∀ r ∈ d.2.ids, r ∈ e.2.ids → d.1 = e.1

/-- **What the pass assigns** are such identifiers. -/
theorem hasIds_of_consume {compilationPackage : Bytes} {packageId : BitVec 8}
    {assignedIdMap : Option (Dict ResourceName ResourceId)} {table table' : ResourceTable ι}
    (h : consume compilationPackage packageId assignedIdMap table = .ok table') : table'.HasIds := by
  obtain ⟨c, hwf, -, haccounts, hlength, hall, hpairs⟩ := consume_spec h
  have hzip : ∀ e ∈ table'.namedEntries, ∃ p ∈ table.namedEntries.zip table'.namedEntries, p.2 = e := by
    intro e he
    rw [← List.map_snd_zip (le_of_eq hlength)] at he
    exact List.mem_map.mp he
  -- an identifier of an entry is reserved, or handed out for an entry without one
  have hids : ∀ p ∈ table.namedEntries.zip table'.namedEntries, ∀ r ∈ p.2.2.ids,
      c.Reserves p.2.1 r ∨ IsFresh assignedIdMap p.1 ∧ c.Issued p.2.1 r ∧ p.2.2.id = some r := by
    intro p hp r hr
    obtain ⟨id, heq, hid⟩ := hall p hp
    rw [heq] at hr ⊢
    rcases List.mem_append.mp hr with hr | hr
    · obtain rfl : r = id := by simpa using hr
      rcases hid with ⟨-, hreserved⟩ | ⟨hfresh, hissued⟩
      · exact .inl hreserved
      · exact .inr ⟨hfresh, hissued, rfl⟩
    · refine .inl ((haccounts.reserves_iff p.1.1 r).mpr ?_)
      refine List.mem_append_left _ (List.mem_flatMap.mpr ⟨p.1, (List.of_mem_zip hp).1, ?_⟩)
      exact List.mem_map_of_mem (List.mem_append_right _ hr)
  refine ⟨fun e he => ?_, fun d hd e he r hrd hre => ?_⟩
  · obtain ⟨p, hp, rfl⟩ := hzip e he
    obtain ⟨id, heq, -⟩ := hall p hp
    rw [heq]
    rfl
  · obtain ⟨p, hp, rfl⟩ := hzip d hd
    obtain ⟨q, hq, rfl⟩ := hzip e he
    rcases hids p hp r hrd with hrp | ⟨hfp, hip, hidp⟩
    · rcases hids q hq r hre with hrq | ⟨-, hiq, -⟩
      · exact hwf.name_eq hrp hrq
      · exact absurd rfl (hwf.issued_ne_reserved hiq hrp)
    · rcases hids q hq r hre with hrq | ⟨hfq, hiq, hidq⟩
      · exact absurd rfl (hwf.issued_ne_reserved hip hrq)
      · -- both are handed out, and different entries get different ones
        have hall := List.Pairwise.forall_of_forall_of_flip (R := fun p q : (_ × _) × _ × _ =>
            IsFresh assignedIdMap p.1 → IsFresh assignedIdMap q.1 → p.2.2.id = q.2.2.id →
              p.2.1 = q.2.1) (fun p _ _ _ _ => rfl)
          (hpairs.imp fun {p q} h hp hq heq => absurd heq (h hp hq))
          (hpairs.imp fun {p q} h hp hq heq => absurd heq.symm (h hq hp))
        exact hall hp hq hfp hfq (hidp.trans hidq.symm)

/-- An entry in the view is an entry of the table under one of its identifiers. -/
theorem exists_of_mem_placedOf {e : ResourceName × ResourceEntry ι} {y : Placed ι}
    (hy : y ∈ placedOf e) :
    ∃ r ∈ e.2.ids, ∃ stagedId, y = ⟨e.1.package, e.1.type, some r, e.2.view r stagedId⟩ := by
  rcases List.mem_append.mp hy with hy | hy
  · obtain ⟨r, hr, rfl⟩ := List.mem_map.mp hy
    exact ⟨r, List.mem_append_left _ hr, _, rfl⟩
  · obtain ⟨s, hs, rfl⟩ := List.mem_map.mp hy
    exact ⟨s.id, List.mem_append_right _ (List.mem_map_of_mem hs), _, rfl⟩

/-- The name of an entry. -/
theorem entry_of_mem_namedEntries {table : ResourceTable ι} {e : ResourceName × ResourceEntry ι}
    (he : e ∈ table.namedEntries) : e.1.entry = e.2.name := by
  obtain ⟨package, -, he⟩ := List.mem_flatMap.mp he
  obtain ⟨type, -, he⟩ := List.mem_flatMap.mp he
  obtain ⟨entry, -, rfl⟩ := List.mem_map.mp he
  rfl

section Table

variable {table : ResourceTable ι} {package : ResourceTablePackageView ι}

/-- The places of entries with the same identifier are the same. -/
theorem ResourceTable.HasIds.place_eq (h : table.HasIds) {x y : Placed ι}
    (hx : ∃ e ∈ table.namedEntries, x ∈ placedOf e) (hy : ∃ e ∈ table.namedEntries, y ∈ placedOf e)
    (hid : x.id = y.id) :
    x.type = y.type ∧ x.entry.name = y.entry.name ∧ x.entry.id = y.entry.id ∧ x.id.isSome = true := by
  obtain ⟨d, hd, hx⟩ := hx
  obtain ⟨e, he, hy⟩ := hy
  obtain ⟨r, hr, stagedId, rfl⟩ := exists_of_mem_placedOf hx
  obtain ⟨r', hr', stagedId', rfl⟩ := exists_of_mem_placedOf hy
  obtain rfl : r = r' := Option.some.inj hid
  have hname := h.name_eq d hd e he r hr hr'
  refine ⟨by rw [hname], ?_, rfl, rfl⟩
  show d.2.name = e.2.name
  rw [← entry_of_mem_namedEntries hd, ← entry_of_mem_namedEntries he, hname]

/-- **The identifiers of a package of the view are different.** -/
theorem pairwise_placed (h : table.HasIds) (hpackage : package.Wf)
    (hfrom : ∀ y ∈ package.placed, ∃ e ∈ table.namedEntries, y ∈ placedOf e) :
    package.placed.Pairwise fun x y => x.id ≠ y.id := by
  have hmem : ∀ {type : ResourceTableTypeView ι} {x : Placed ι}, type ∈ package.types →
      x ∈ type.placed package.name package.id → ∃ e ∈ table.namedEntries, x ∈ placedOf e :=
    fun htype hx => hfrom _ (List.mem_flatMap.mpr ⟨_, htype, hx⟩)
  refine List.pairwise_flatMap.mpr ⟨fun type htype => ?_, ?_⟩
  · refine List.pairwise_map.mpr ((hpackage.entries type htype).imp_of_mem
      fun {x y} hx hy hlt heq => ?_)
    obtain ⟨-, hname, hid, -⟩ := h.place_eq (hmem htype (List.mem_map_of_mem hx))
      (hmem htype (List.mem_map_of_mem hy)) heq
    replace hname : x.name = y.name := hname
    replace hid : x.id = y.id := hid
    have hkey : x.key = y.key := Prod.ext (congrArg idKey hid) hname
    rw [(compareIdName_eq_iff _ _).mpr hkey] at hlt
    cases hlt
  · refine hpackage.types.imp_of_mem fun {u v} hu hv hlt x hx y hy heq => ?_
    obtain ⟨htype, -, -, hsome⟩ := h.place_eq (hmem hu hx) (hmem hv hy) heq
    obtain ⟨r, hr⟩ := Option.isSome_iff_exists.mp hsome
    have hr' := heq ▸ hr
    obtain ⟨a, -, rfl⟩ := List.mem_map.mp hx
    obtain ⟨b, -, rfl⟩ := List.mem_map.mp hy
    replace htype : u.namedType = v.namedType := htype
    have hid : u.id = v.id :=
      (fullId_eq_some_iff.mp hr).2.1.trans (fullId_eq_some_iff.mp hr').2.1.symm
    have hkey : u.key = v.key := Prod.ext (congrArg idKey hid) htype
    rw [(compareIdType_eq_iff _ _).mpr hkey] at hlt
    cases hlt

end Table

/-! ## The checks on identifiers -/

/-- The offsets of the entries of a type pass the checks, and none is taken for the mark of a missing
entry. -/
def EntriesPresent (ctx : FlattenContext) (opts : EntryOptions)
    (layout : Bool → FlatEntry ι → EntryLayout) (packageId : BitVec 8)
    (type : ResourceTableTypeView ι) : Prop :=
  ∀ t n s s' map, type.id = some t → type.numEntries = .ok n →
    type.entries.foldlM (flattenEntry ctx packageId t type.namedType) (s, []) = .ok (s', map) →
      ∀ config ∈ map, ∃ offsets indices,
        flattenIndices opts layout n config.2 = .ok (offsets, indices)
          ∧ ∀ flat ∈ config.2, ∀ id, flat.entry.id = some id →
            ∃ offset, offsets[id.toNat]? = some offset ∧ offset ≠ noEntry
              ∧ indices.Present id.toNat offset

/-- The types of a package are written, and the parser does not reject them for their identifiers or
numbers of entries. -/
structure PackageWritten (ctx : FlattenContext) (opts : EntryOptions)
    (layout : Bool → FlatEntry ι → EntryLayout) (package : ResourceTablePackageView ι) : Prop where
  chunks : ∃ packageId s, package.id = some packageId
    ∧ package.types.foldlM (flattenType ctx packageId) ⟨1, [], [], [], []⟩ = .ok s
    ∧ ∀ chunk ∈ s.chunks, chunk.Accepted
  entries : ∀ packageId, package.id = some packageId → ∀ type ∈ package.types,
    type.namedType.type.IsReal → EntriesPresent ctx opts layout packageId type

/-- Overlayables of one name and source have one actor; a check on this is not about identifiers. -/
def ActorsAgree (ctx : FlattenContext) (table : ResourceTable ι) : Prop :=
  ∀ d ∈ table.namedEntries, ∀ e ∈ table.namedEntries, ∀ x y, d.2.overlayableItem = some x →
    e.2.overlayableItem = some y →
    (ctx.overlayables x.overlayable).name = (ctx.overlayables y.overlayable).name →
    (ctx.overlayables x.overlayable).source = (ctx.overlayables y.overlayable).source →
    (ctx.overlayables x.overlayable).actor = (ctx.overlayables y.overlayable).actor

/-- **A table whose identifiers can be written and read**: its packages are, and `Consume` does not
abort. -/
structure IdsWritable (ctx : FlattenContext) (opts : EntryOptions)
    (layout : Bool → FlatEntry ι → EntryLayout) (table : ResourceTable ι) : Prop where
  packages : ∀ package ∈ (table.getPartitionedView true).packages,
    PackageWritten ctx opts layout package
  checks : ActorsAgree ctx table → flattenTable ctx table ≠ .error .aborted

section Table

variable {table : ResourceTable ι} {package : ResourceTablePackageView ι}
  {ctx : FlattenContext} {opts : EntryOptions} {layout : Bool → FlatEntry ι → EntryLayout}

/-- What an entry of the view is of the table. -/
theorem exists_entry_of_mem (h : table.HasIds)
    (hpackage : package ∈ (table.getPartitionedView true).packages)
    {type : ResourceTableTypeView ι} (htype : type ∈ package.types)
    {entry : ResourceTableEntryView ι} (hentry : entry ∈ type.entries) :
    ∃ e ∈ table.namedEntries, ∃ r ∈ e.2.ids, type.namedType = e.1.type
      ∧ type.id = some r.typeId ∧ entry.id = some r.entryId ∧ entry.values = e.2.values := by
  obtain ⟨-, hfrom, -⟩ := mem_placed_getPartitionedView h.id
  have hy : (⟨package.name, type.namedType, fullId package.id type.id entry.id, entry⟩ : Placed ι)
      ∈ (table.getPartitionedView true).placed :=
    List.mem_flatMap.mpr ⟨package, hpackage, List.mem_flatMap.mpr ⟨type, htype,
      List.mem_map_of_mem hentry⟩⟩
  obtain ⟨e, he, hy⟩ := hfrom _ hy
  obtain ⟨r, hr, stagedId, heq⟩ := exists_of_mem_placedOf hy
  rw [Placed.mk.injEq] at heq
  obtain ⟨-, hnamed, hid, hview⟩ := heq
  obtain ⟨-, htypeId, hentryId⟩ := fullId_eq_some_iff.mp hid
  exact ⟨e, he, r, hr, hnamed, htypeId, hentryId, by rw [hview]; rfl⟩

/-- **The types of a table whose identifiers are in range are ready.** -/
theorem ready_of_idsInRange (h : table.HasIds) (hrange : IdsInRange table)
    (hvalues : ∀ e ∈ table.namedEntries, ∀ v ∈ e.2.values, v.value.isSome = true)
    (hpackage : package ∈ (table.getPartitionedView true).packages)
    {type : ResourceTableTypeView ι} (htype : type ∈ package.types)
    (hreal : type.namedType.type.IsReal) : type.Ready := by
  have hwf := (mem_placed_getPartitionedView h.id).1
  have hnonempty := (hwf package hpackage).nonempty type htype
  refine ⟨(hwf package hpackage).entries type htype, hnonempty, ?_, fun entry hentry => ?_,
    fun entry hentry v hv => ?_⟩
  · obtain ⟨entry, hentry⟩ := List.exists_mem_of_ne_nil _ hnonempty
    obtain ⟨e, he, r, hr, hnamed, htypeId, -⟩ := exists_entry_of_mem h hpackage htype hentry
    exact ⟨r.typeId, htypeId, (hrange e he (hnamed ▸ hreal) r hr).1⟩
  · obtain ⟨e, he, r, hr, hnamed, -, hentryId, -⟩ := exists_entry_of_mem h hpackage htype hentry
    exact ⟨r.entryId, hentryId, (hrange e he (hnamed ▸ hreal) r hr).2⟩
  · obtain ⟨e, he, r, hr, -, -, -, heq⟩ := exists_entry_of_mem h hpackage htype hentry
    exact hvalues e he v (heq ▸ hv)

/-- The entries of a type that is ready are not taken for missing ones. -/
theorem ResourceTableTypeView.Ready.entriesPresent {type : ResourceTableTypeView ι} (h : type.Ready)
    (packageId : BitVec 8) : EntriesPresent ctx opts layout packageId type := by
  intro t n s s' map ht hn hmap config hconfig
  obtain ⟨n', hn', hpos, hmax, hentries⟩ := h.entries_spec
  obtain rfl : n' = n := Except.ok.inj (hn'.symm.trans hn)
  obtain ⟨offsets, indices, hindices⟩ := exists_flattenIndices opts layout
    hpos hmax fun flat hflat =>
      hentries _ ((foldlM_flattenEntry_spec hmap).2 config hconfig flat hflat).1
  exact ⟨offsets, indices, hindices, fun flat hflat id hid =>
    present_of_flattenIndices hindices hflat hid⟩

/-- **A package whose types are ready is written.** -/
theorem packageWritten_of_ready (hid : package.id.isSome = true)
    (hready : ∀ type ∈ package.types, type.namedType.type.IsReal → type.Ready) :
    PackageWritten ctx opts layout package := by
  obtain ⟨packageId, hpackageId⟩ := Option.isSome_iff_exists.mp hid
  refine ⟨?_, fun packageId _ type htype hreal => (hready type htype hreal).entriesPresent packageId⟩
  cases hrun : package.types.foldlM (flattenType ctx packageId) ⟨1, [], [], [], []⟩ with
  | error e =>
      obtain ⟨pre, type, post, s, hsplit, -, hstep⟩ := exists_error_of_foldlM hrun
      exact absurd hstep (flattenType_ne_error (hready type (by simp [hsplit])) e)
  | ok s =>
      refine ⟨packageId, s, hpackageId, hrun, ?_⟩
      refine foldlM_invariant (P := fun s : FlattenState ι => ∀ chunk ∈ s.chunks, chunk.Accepted)
        hrun (fun chunk hchunk => by cases hchunk) fun type htype s s' hstep hs => ?_
      by_cases hreal : type.namedType.type.IsReal
      · obtain ⟨t, n, flags, chunks, ht, hn, hlength, heq, hchunks⟩ := flattenType_eq_ok hreal hstep
        obtain ⟨t', ht', hne⟩ := (hready type htype hreal).id
        obtain rfl : t' = t := Option.some.inj (ht'.symm.trans ht)
        obtain ⟨n', hn', -, hmax, -⟩ := (hready type htype hreal).entries_spec
        obtain rfl : n' = n := Except.ok.inj (hn'.symm.trans hn)
        rw [heq]
        intro chunk hchunk
        rcases List.mem_append.mp hchunk with hchunk | hchunk
        · exact hs chunk hchunk
        rcases List.mem_cons.mp hchunk with rfl | hchunk
        · exact accepted_typeSpec_iff.mpr ⟨hne, by omega⟩
        · obtain ⟨config, entries, rfl⟩ := hchunks chunk hchunk
          exact accepted_type hne config entries
      · rw [flattenType_of_not_isReal hreal] at hstep
        cases hstep
        exact hs

/-- **A package whose types are ready does not abort.** -/
theorem flattenPackage_ne_aborted (h : table.HasIds) (hactors : ActorsAgree ctx table)
    (hpackage : package ∈ (table.getPartitionedView true).packages)
    (hready : ∀ type ∈ package.types, type.namedType.type.IsReal → type.Ready) :
    flattenPackage ctx package ≠ .error .aborted := by
  obtain ⟨hwf, hfrom, -⟩ := mem_placed_getPartitionedView h.id
  have hplaced : ∀ y ∈ package.placed, ∃ e ∈ table.namedEntries, y ∈ placedOf e := fun y hy =>
    hfrom y (List.mem_flatMap.mpr ⟨package, hpackage, hy⟩)
  intro herror
  rw [flattenPackage] at herror
  rcases bind_eq_error_iff.mp herror with herror | ⟨packageId, -, herror⟩
  · have hid := id_isSome_of_mem_getPartitionedView h.id package hpackage
    rw [(valueOrAbort_eq_error_iff.mp herror).1] at hid
    cases hid
  dsimp only at herror
  split at herror
  · cases herror
  rcases bind_eq_error_iff.mp herror with herror | ⟨s, -, herror⟩
  · obtain ⟨pre, type, post, s, hsplit, -, hstep⟩ := exists_error_of_foldlM herror
    exact flattenType_ne_error (hready type (by simp [hsplit])) _ hstep
  rcases bind_eq_error_iff.mp herror with herror | ⟨overlayables, -, herror⟩
  · rw [flattenOverlayable] at herror
    rcases bind_eq_error_iff.mp herror with herror | ⟨⟨ids, chunks⟩, -, herror⟩
    · -- the items of the package are those of different entries of the table
      have hitem : ∀ x ∈ package.overlayableItems, ∃ y ∈ package.placed, ∃ e ∈ table.namedEntries,
          y ∈ placedOf e ∧ e.2.overlayableItem = some x.2.2 ∧ x.1 = y.id := by
        intro x hx
        rw [overlayableItems_eq] at hx
        obtain ⟨y, hy, heq⟩ := List.mem_filterMap.mp hx
        obtain ⟨item, hitem, rfl⟩ := Option.map_eq_some_iff.mp heq
        obtain ⟨e, he, hye⟩ := hplaced y hy
        obtain ⟨r, -, stagedId, rfl⟩ := exists_of_mem_placedOf hye
        exact ⟨_, hy, e, he, hye, hitem, rfl⟩
      refine foldlM_addOverlayable_ne_aborted (fun x hx => ?_) ?_ (fun x hx y hy => ?_) herror
      · obtain ⟨y, hy, e, he, hye, -, heq⟩ := hitem x hx
        rw [heq]
        exact (h.place_eq (hplaced y hy) (hplaced y hy) rfl).2.2.2
      · rw [overlayableItems_eq]
        refine (pairwise_placed h (hwf package hpackage) hplaced).filterMap _
          fun y z hne a ha b hb => ?_
        obtain ⟨item, -, rfl⟩ := Option.map_eq_some_iff.mp ha
        obtain ⟨item', -, rfl⟩ := Option.map_eq_some_iff.mp hb
        exact hne
      · obtain ⟨-, -, d, hd, -, hdx, -⟩ := hitem x hx
        obtain ⟨-, -, e, he, -, hey, -⟩ := hitem y hy
        exact hactors d hd e he _ _ hdx hey
    · obtain ⟨chunk, -, herror⟩ := exists_error_of_mapM herror
      dsimp only at herror
      split at herror
      · cases herror
      · split at herror
        · cases herror
        · cases herror
  · cases herror

/-- **A table whose packages do not abort does not.** -/
theorem flattenTable_ne_aborted (h : table.HasIds)
    (hpackages : ∀ package ∈ (table.getPartitionedView true).packages,
      flattenPackage ctx package ≠ .error .aborted) :
    flattenTable ctx table ≠ .error .aborted := by
  intro herror
  rcases bind_eq_error_iff.mp herror with herror | ⟨⟨included, packages⟩, -, herror⟩
  · obtain ⟨pre, package, post, s, hsplit, -, hstep⟩ := exists_error_of_foldlM herror
    have hpackage : package ∈ (table.getPartitionedView true).packages := by simp [hsplit]
    obtain ⟨packageId, hid⟩ := Option.isSome_iff_exists.mp
      (id_isSome_of_mem_getPartitionedView h.id package hpackage)
    -- whatever is mapped, the package is written next
    have hnext : ∀ included : Dict (BitVec 8) Bytes, (do
        let included ← pure included
        let data ← flattenPackage ctx package
        return (included, s.2 ++ [data]) : Except FlattenError _) ≠ .error .aborted := by
      intro included hnext
      rcases bind_eq_error_iff.mp hnext with hnext | ⟨included, -, hnext⟩
      · cases hnext
      rcases bind_eq_error_iff.mp hnext with hnext | ⟨data, -, hnext⟩
      · exact hpackages package hpackage hnext
      · cases hnext
    rw [consumePackage] at hstep
    split at hstep
    · exact hnext _ hstep
    rcases bind_eq_error_iff.mp hstep with hstep | ⟨packageId', -, hstep⟩
    · rw [(valueOrAbort_eq_error_iff.mp hstep).1] at hid
      cases hid
    split at hstep
    · exact hnext _ hstep
    split at hstep
    · exact hnext _ hstep
    split at hstep
    · cases hstep
    · exact hnext _ hstep
  · cases herror

/-- **Types that are written have identifiers in range.** -/
theorem idsInRange_of_packageWritten (h : table.HasIds)
    (hpackages : ∀ package ∈ (table.getPartitionedView true).packages,
      PackageWritten ctx opts layout package) : IdsInRange table := by
  obtain ⟨hwf, -, hall⟩ := mem_placed_getPartitionedView h.id
  intro e he hreal r hr
  obtain ⟨y, hy, -, hytype, hyid⟩ := hall e he r hr
  obtain ⟨package, hpackage, hy⟩ := List.mem_flatMap.mp hy
  obtain ⟨type, htype, hy⟩ := List.mem_flatMap.mp hy
  obtain ⟨entry, hentry, rfl⟩ := List.mem_map.mp hy
  obtain ⟨-, htypeId, hentryId⟩ := fullId_eq_some_iff.mp hyid
  obtain ⟨packageId, s, -, hrun, haccepted⟩ := (hpackages package hpackage).chunks
  have hreal' : type.namedType.type.IsReal := by
    replace hytype : type.namedType = e.1.type := hytype
    rw [hytype]
    exact hreal
  -- the specification of the type is among the chunks
  obtain ⟨t, n, flags, ht, hn, hlength, hmem⟩ : ∃ t n flags, type.id = some t
      ∧ type.numEntries = .ok n ∧ flags.length = n ∧ .typeSpec t flags ∈ s.chunks := by
    refine foldlM_establishes hrun htype (fun s s' hstep => ?_)
      (P := fun s : FlattenState ι => ∃ t n flags, type.id = some t ∧ type.numEntries = .ok n
        ∧ flags.length = n ∧ .typeSpec t flags ∈ s.chunks) fun other _ s s' hstep hs => ?_
    · obtain ⟨t, n, flags, chunks, ht, hn, hlength, heq, -⟩ := flattenType_eq_ok hreal' hstep
      refine ⟨t, n, flags, ht, hn, hlength, ?_⟩
      rw [heq]
      exact List.mem_append_right _ List.mem_cons_self
    · obtain ⟨t, n, flags, ht, hn, hlength, hmem⟩ := hs
      exact ⟨t, n, flags, ht, hn, hlength, mem_chunks_flattenType hstep hmem⟩
  obtain ⟨hne, hmax⟩ := accepted_typeSpec_iff.mp (haccepted _ hmem)
  refine ⟨?_, fun hlast => ?_⟩
  · rw [htypeId, Option.some.injEq] at ht
    rw [ht]
    exact hne
  · have hsome : ∀ entry ∈ type.entries, entry.id.isSome = true := fun entry hentry => by
      obtain ⟨d, -, r', -, -, -, hid, -⟩ := exists_entry_of_mem h hpackage htype hentry
      rw [hid]
      rfl
    obtain ⟨n', hn', hlt, -⟩ := numEntries_spec ((hwf package hpackage).entries type htype)
      ((hwf package hpackage).nonempty type htype) hsome
    obtain rfl : n' = n := Except.ok.inj (hn'.symm.trans hn)
    have hlt := hlt entry hentry _ hentryId
    rw [hlast] at hlt
    have hvalue : (0xffff : BitVec 16).toNat = 65535 := by decide
    omega

end Table

/-- **When assigned identifiers can be written and read**: what the pass makes of a table with values
passes all checks of the flattener and of the parser on identifiers iff the identifiers that the table
was given, and those that it needs, fit. -/
theorem idsWritable_iff {compilationPackage : Bytes} {packageId : BitVec 8}
    {assignedIdMap : Option (Dict ResourceName ResourceId)} {table table' : ResourceTable ι}
    (h : consume compilationPackage packageId assignedIdMap table = .ok table')
    (hvalues : ∀ e ∈ table'.namedEntries, ∀ v ∈ e.2.values, v.value.isSome = true)
    (ctx : FlattenContext) (opts : EntryOptions) (layout : Bool → FlatEntry ι → EntryLayout) :
    IdsWritable ctx opts layout table' ↔ IdsFit assignedIdMap table := by
  have hids := hasIds_of_consume h
  rw [← idsInRange_iff h]
  constructor
  · intro hwritable
    exact idsInRange_of_packageWritten hids hwritable.packages
  · intro hrange
    have hready : ∀ package ∈ (table'.getPartitionedView true).packages, ∀ type ∈ package.types,
        type.namedType.type.IsReal → type.Ready := fun package hpackage type htype hreal =>
      ready_of_idsInRange hids hrange hvalues hpackage htype hreal
    exact ⟨fun package hpackage => packageWritten_of_ready
        (id_isSome_of_mem_getPartitionedView hids.id package hpackage) (hready package hpackage),
      fun hactors => flattenTable_ne_aborted hids fun package hpackage =>
        flattenPackage_ne_aborted hids hactors hpackage (hready package hpackage)⟩

/-- An entry of a table with a string. -/
def ResourceEntry.string (name : Bytes) (id : Option ResourceId) (stagedId : Option ResourceId) :
    ResourceEntry Unit :=
  { ResourceEntry.bare name id stagedId with
    values := [⟨.defaultConfig, [], some ⟨.string, (), false, true, none, .noFlag⟩, false⟩] }

/-- A string with the given identifier. -/
def stringTable (id : Option ResourceId) : ResourceTable Unit :=
  ⟨[⟨[97], [⟨⟨bytes "string", .kString⟩, .kUndefined, [.string [98] id none]⟩]⟩]⟩

/-- Three attributes, the first with a staged identifier, and two strings. -/
def writableTable (a b c d e : Option ResourceId) : ResourceTable Unit :=
  ⟨[⟨[97], [⟨⟨[98], .kAttr⟩, .kUndefined,
      [.string [1] a (some ⟨0x7fff0000#32⟩), .string [2] b none, .string [3] c none]⟩,
    ⟨⟨[99], .kString⟩, .kUndefined, [.string [4] d none, .string [5] e none]⟩]⟩]⟩

/-- An application, with no special treatment of names. -/
def plainContext : FlattenContext where
  packageType := .kApp
  includedPackages := ∅
  collapseKeyStringpool := false
  nameCollapseExemptions := []
  overlayables := fun name => ⟨name, [], []⟩
  packageName := fun name => name

theorem idsWritable_sample :
    consume [97] 0x7f#8 (some sampleMap) (writableTable (some ⟨0x7f010000#32⟩) none none none none)
        = .ok (writableTable (some ⟨0x7f010000#32⟩) (some ⟨0x7f010001#32⟩) (some ⟨0x7f010002#32⟩)
          (some ⟨0x7f030005#32⟩) (some ⟨0x7f030000#32⟩))
      ∧ IdsFit (some sampleMap) (writableTable (some ⟨0x7f010000#32⟩) none none none none)
      ∧ IdsWritable plainContext ⟨.disabled, false, false, 30⟩ (fun _ _ => .item [])
        (writableTable (some ⟨0x7f010000#32⟩) (some ⟨0x7f010001#32⟩) (some ⟨0x7f010002#32⟩)
          (some ⟨0x7f030005#32⟩) (some ⟨0x7f030000#32⟩)) := by
  have h : consume [97] 0x7f#8 (some sampleMap)
      (writableTable (some ⟨0x7f010000#32⟩) none none none none)
        = .ok (writableTable (some ⟨0x7f010000#32⟩) (some ⟨0x7f010001#32⟩) (some ⟨0x7f010002#32⟩)
          (some ⟨0x7f030005#32⟩) (some ⟨0x7f030000#32⟩)) := by rfl
  have hfit : IdsFit (some sampleMap) (writableTable (some ⟨0x7f010000#32⟩) none none none none) :=
    ⟨by decide, by decide, by decide⟩
  exact ⟨h, hfit, (idsWritable_iff h (by decide) plainContext ⟨.disabled, false, false, 30⟩
    fun _ _ => .item []).mpr hfit⟩

/-- The greatest entry identifier is taken by the first component, and aborts the second. -/
theorem not_idsWritable_lastEntryId :
    consume [97] 0x7f#8 none (stringTable (some ⟨0x7f01ffff#32⟩))
        = .ok (stringTable (some ⟨0x7f01ffff#32⟩))
      ∧ flattenTable plainContext (stringTable (some ⟨0x7f01ffff#32⟩)) = .error .aborted
      ∧ ¬ IdsWritable plainContext ⟨.disabled, false, false, 30⟩ (fun _ _ => .item [])
        (stringTable (some ⟨0x7f01ffff#32⟩)) := by
  have h : consume [97] 0x7f#8 none (stringTable (some ⟨0x7f01ffff#32⟩))
      = .ok (stringTable (some ⟨0x7f01ffff#32⟩)) := by rfl
  refine ⟨h, by rfl, fun hwritable => ?_⟩
  have hrange := idsInRange_of_packageWritten (hasIds_of_consume h) hwritable.packages
  have hlast := hrange _ List.mem_cons_self ⟨by decide, by decide⟩ ⟨0x7f01ffff#32⟩
    List.mem_cons_self
  exact hlast.2 (by decide)

end AndroidSdk.Aapt2
