import AndroidSdk.Lib.BinarySearch
import AndroidSdk.Aapt2.ResourceModel

/-! # Operations of the resource table

`ResourceTable.cpp`: lookups by binary search in sorted vectors, and the operations that add and
remove resources.

* **`findOrCreatePackage`**, … — look an element up, or insert it where it belongs.
* **`addResource`** — add a resource or change the one that exists. It can report an error, in which
  case what has been created so far stays, or abort in a failed `CHECK`.
* **`removeResource`**, **`findResource`**, **`findResourceWithId`**, **`findValue`** — the other
  operations.
* **`ResourceTable.Wf`** — the representation invariant, which `step` keeps.
* **`runOps`** — any sequence of operations on an empty table. -/

namespace AndroidSdk.Aapt2

open AndroidSdk.Lib SplitSelect

variable {ι : Type}

/-! ## Keys -/

/-- The constructor of `ResourceConfigValue`. -/
def ResourceConfigValue.new (config : ResTableConfig) (product : Bytes) : ResourceConfigValue ι :=
  ⟨config, product, none, false⟩

/-- `ConfigKey`. -/
structure ConfigKey where
  config : ResTableConfig
  product : Bytes

/-- The order of `lt_config_key_ref`. -/
def ConfigKey.compare : ConfigKey → ConfigKey → Ordering :=
  compareLex (fun a b => a.config.compare b.config) (compareOn ConfigKey.product)

/-- `ConfigFlagKey`. -/
structure ConfigFlagKey where
  config : ResTableConfig
  product : Bytes
  flag : FeatureFlagAttribute

/-- The order of `lt_config_flag_key_ref`. -/
def ConfigFlagKey.compare : ConfigFlagKey → ConfigFlagKey → Ordering :=
  compareLex (fun a b => a.config.compare b.config) <|
  compareLex (compareOn ConfigFlagKey.product) <|
  compareLex (compareOn fun k => k.flag.name)
    (compareOn fun k => k.flag.negated)

/-- The key of a value. -/
def ResourceConfigValue.key (v : ResourceConfigValue ι) : ConfigKey := ⟨v.config, v.product⟩

/-- The flag of a value behind a disabled flag; every such value has one (`ResourceEntry.Wf`). -/
def ResourceConfigValue.flag (v : ResourceConfigValue ι) : FeatureFlagAttribute :=
  (v.value.bind Value.flag).getD ⟨[], false⟩

/-- The key of a value behind a disabled flag. -/
def ResourceConfigValue.flagKey (v : ResourceConfigValue ι) : ConfigFlagKey :=
  ⟨v.config, v.product, v.flag⟩

/-! ## Lookup -/

/-- `FindPackage`. -/
def ResourceTable.findPackage (name : Bytes) (table : ResourceTable ι) :
    Option (ResourceTablePackage ι) :=
  findSorted compare ResourceTablePackage.name name table.packages

/-- `FindType`. -/
def ResourceTablePackage.findType (type : ResourceNamedType) (package : ResourceTablePackage ι) :
    Option (ResourceTableType ι) :=
  findSorted ResourceNamedType.compare ResourceTableType.namedType type package.types

/-- `FindEntry`. -/
def ResourceTableType.findEntry (name : Bytes) (type : ResourceTableType ι) :
    Option (ResourceEntry ι) :=
  findSorted compare ResourceEntry.name name type.entries

/-- `FindValue`. -/
def ResourceEntry.findValue (config : ResTableConfig) (product : Bytes) (entry : ResourceEntry ι) :
    Option (ResourceConfigValue ι) :=
  findSorted ConfigKey.compare ResourceConfigValue.key ⟨config, product⟩ entry.values

/-- The entries with the given name, as `std::equal_range` finds them, and the position of the
first. -/
def ResourceTableType.entriesNamed (name : Bytes) (type : ResourceTableType ι) :
    List (ResourceEntry ι) × ℕ :=
  let range := equalRange compare ResourceEntry.name name type.entries
  ((type.entries.drop range.1).take (range.2 - range.1), range.1)

/-- `FindResource(name)`. -/
def ResourceTable.findResource (name : ResourceName) (table : ResourceTable ι) :
    Option (ResourceTablePackage ι × ResourceTableType ι × ResourceEntry ι) := do
  let package ← table.findPackage name.package
  let type ← package.findType name.type
  let entry ← type.findEntry name.entry
  return (package, type, entry)

/-- `FindResource(name, id)`. -/
def ResourceTable.findResourceWithId (name : ResourceName) (id : ResourceId)
    (table : ResourceTable ι) :
    Option (ResourceTablePackage ι × ResourceTableType ι × ResourceEntry ι) := do
  let package ← table.findPackage name.package
  let type ← package.findType name.type
  let entry ← (type.entriesNamed name.entry).1.find? fun entry => entry.id = some id
  return (package, type, entry)

/-! ## Find or create

The element that is found or created is passed on to what the caller does with it. -/

/-- `FindOrCreatePackage`. -/
def ResourceTable.findOrCreatePackage (package : Bytes) (table : ResourceTable ι) :
    ResourceTable ι :=
  { table with
    packages := updateFoundOrCreated compare ResourceTablePackage.name package ⟨package, []⟩ id
      table.packages }

/-- `FindOrCreatePackage`, and what is done with the package. -/
def ResourceTable.onPackage {β : Type} (name : Bytes)
    (action : ResourceTablePackage ι → Option (β × ResourceTablePackage ι))
    (table : ResourceTable ι) : Option (β × ResourceTable ι) :=
  (onFoundOrCreated compare ResourceTablePackage.name name ⟨name, []⟩ action table.packages).map
    fun r => (r.1, { table with packages := r.2 })

/-- `FindOrCreateType`, and what is done with the type. -/
def ResourceTablePackage.onType {β : Type} (type : ResourceNamedType)
    (action : ResourceTableType ι → Option (β × ResourceTableType ι))
    (package : ResourceTablePackage ι) : Option (β × ResourceTablePackage ι) :=
  (onFoundOrCreated ResourceNamedType.compare ResourceTableType.namedType type
    ⟨type, .kUndefined, []⟩ action package.types).map fun r => (r.1, { package with types := r.2 })

/-- `FindOrCreateEntry`. -/
def ResourceTableType.findOrCreateEntry (name : Bytes) (type : ResourceTableType ι) :
    ResourceTableType ι :=
  { type with entries := (findOrCreate compare ResourceEntry.name name (.new name) type.entries).1 }

/-- `CreateEntry`; the position of the new entry. -/
def createEntry (name : Bytes) (entries : List (ResourceEntry ι)) : List (ResourceEntry ι) × ℕ :=
  let i := lowerBound (fun entry => compare entry.name name == .lt) entries
  (entries.insertIdx i (.new name), i)

/-- `FindOrCreateValue`, and what is done with the value. -/
def ResourceEntry.onValue {β : Type} (config : ResTableConfig) (product : Bytes)
    (action : ResourceConfigValue ι → Option (β × ResourceConfigValue ι))
    (entry : ResourceEntry ι) : Option (β × ResourceEntry ι) :=
  (onFoundOrCreated ConfigKey.compare ResourceConfigValue.key ⟨config, product⟩
    (.new config product) action entry.values).map fun r => (r.1, { entry with values := r.2 })

/-- `FindOrCreateFlagDisabledValue`, and what is done with the value. A new value has no flag until
the caller sets it, so its place is that of the key. -/
def ResourceEntry.onFlagDisabledValue {β : Type} (flag : FeatureFlagAttribute)
    (config : ResTableConfig) (product : Bytes)
    (action : ResourceConfigValue ι → Option (β × ResourceConfigValue ι))
    (entry : ResourceEntry ι) : Option (β × ResourceEntry ι) :=
  (onFoundOrCreated ConfigFlagKey.compare ResourceConfigValue.flagKey ⟨config, product, flag⟩
    (.new config product) action entry.flagDisabledValues).map
    fun r => (r.1, { entry with flagDisabledValues := r.2 })

/-! ## Collisions -/

/-- `CollisionResult`. -/
inductive CollisionResult where
  | kKeepBoth | kKeepOriginal | kConflict | kTakeNew
  deriving DecidableEq

/-- `ResolveFlagCollision`. -/
def resolveFlagCollision (existing incoming : FlagStatus) : CollisionResult :=
  match existing, incoming with
  | .noFlag, .noFlag => .kConflict
  | .noFlag, .disabled => .kKeepOriginal
  | .noFlag, .enabled => .kTakeNew
  | .disabled, .noFlag => .kTakeNew
  | .disabled, .disabled => .kKeepOriginal
  | .disabled, .enabled => .kTakeNew
  | .enabled, .noFlag => .kKeepOriginal
  | .enabled, .disabled => .kKeepOriginal
  | .enabled, .enabled => .kConflict

/-- `ResTable_map::TYPE_ANY`. -/
def typeAny : UInt32 := 0x0000ffff

/-- `ResTable_map::TYPE_REFERENCE`. -/
def typeReference : UInt32 := 0x00000001

/-- `Attribute::IsCompatibleWith`, on the type masks. -/
def isCompatibleWith (typeMask other : UInt32) : Bool :=
  if typeMask &&& ~~~ typeAny ≠ 0 ∨ other &&& ~~~ typeAny ≠ 0 then false
  else typeMask ||| typeReference = other ||| typeReference

/-- `ResolveValueCollision`. -/
def resolveValueCollision (existing incoming : Value ι) : CollisionResult :=
  match incoming.kind, existing.kind with
  | .attribute incomingMask, .attribute existingMask =>
      if isCompatibleWith existingMask incomingMask then
        if existing.weak then .kTakeNew else .kKeepOriginal
      else if existing.weak ∧ existingMask = typeAny then .kTakeNew
      else if incoming.weak ∧ incomingMask = typeAny then .kKeepOriginal
      else .kConflict
  | .attribute _, _ => if existing.weak then .kTakeNew else .kConflict
  | _, _ =>
      if incoming.weak then .kKeepOriginal
      else if existing.weak then .kTakeNew
      else .kConflict

/-- `CloningValueTransformer`: some values are copied as a whole, of the others the flag is kept but
not the weakness. -/
def Value.clone (v : Value ι) : Value ι :=
  match v.kind with
  | .reference | .id | .binaryPrimitive | .kMacro => v
  | _ => { v with weak := false, translatable := true }

/-! ## Adding a resource -/

/-- `OnIdConflict`. -/
inductive OnIdConflict where
  | error | createEntry
  deriving DecidableEq

/-- `Validation`. -/
inductive Validation where
  | kEnabled | kDisabled
  deriving DecidableEq

/-- `NewResource`. -/
structure NewResource (ι : Type) where
  name : ResourceName
  value : Option (Value ι)
  config : ResTableConfig
  product : Bytes
  id : Option (ResourceId × OnIdConflict)
  visibility : Option Visibility
  overlayable : Option OverlayableItem
  allowNew : Option AllowNew
  stagedId : Option StagedId
  allowMangled : Bool
  usesReadwriteFeatureFlags : Bool

/-- What `AddResource` reports before it returns false. -/
inductive AddError where
  /-- "resource … has invalid entry name …" -/
  | invalidEntryName (name : ResourceName)
  /-- "trying to add resource … with ID … but that ID is invalid" -/
  | invalidId (name : ResourceName) (id : ResourceId)
  /-- "trying to add resource … with ID … but resource already has ID …" -/
  | otherId (name : ResourceName) (id existing : ResourceId)
  /-- "duplicate overlayable declaration for resource …" -/
  | duplicateOverlayable (name : ResourceName)
  /-- "duplicate value for resource … with config … and flag …" -/
  | duplicateFlagValue (name : ResourceName) (config : ResTableConfig)
      (flag : FeatureFlagAttribute)
  /-- "duplicate value for resource … with config …" -/
  | duplicateValue (name : ResourceName) (config : ResTableConfig)
  deriving DecidableEq

/-- The number of a visibility level. -/
def VisibilityLevel.toNat : VisibilityLevel → ℕ
  | .kUndefined => 0
  | .kPrivate => 1
  | .kPublic => 2

/-- The loop over several entries of one name: the position of the one with the identifier. All
entries that it sees must have one; otherwise it aborts. -/
def findEntryWithId (id : ResourceId) : List (ResourceEntry ι) → ℕ → Option (Option ℕ)
  | [], _ => some none
  | entry :: rest, i =>
      match entry.id with
      | none => none
      | some entryId => if entryId = id then some (some i) else findEntryWithId id rest (i + 1)

/-- The entry that `AddResource` works on: a new one, the only one with the name, or the one with
the identifier. -/
def chooseEntry (res : NewResource ι) (type : ResourceTableType ι) :
    Option (List (ResourceEntry ι) × ℕ) :=
  let named := type.entriesNamed res.name.entry
  match named.1 with
  | [] => some (createEntry res.name.entry type.entries)
  | [_] => some (type.entries, named.2)
  | entries =>
      -- several resources with one name can only be told apart by their identifiers
      match res.id with
      | none => none
      | some (id, _) =>
          (findEntryWithId id entries named.2).map fun found => (type.entries, found.getD named.2)

/-- The identifier of the entry: an entry with another one is an error, or a new entry is
created. -/
def setEntryId (res : NewResource ι) (entries : List (ResourceEntry ι)) (i : ℕ) :
    Option AddError × List (ResourceEntry ι) × ℕ :=
  match res.id with
  | none => (none, entries, i)
  | some (id, onConflict) =>
      let setId (entries : List (ResourceEntry ι) × ℕ) :
          Option AddError × List (ResourceEntry ι) × ℕ :=
        (none, entries.1.modify entries.2 fun entry => { entry with id := some id }, entries.2)
      match entries[i]?.bind ResourceEntry.id with
      | none => setId (entries, i)
      | some existing =>
          if existing = id then setId (entries, i)
          else if onConflict ≠ .createEntry then (some (.otherId res.name id existing), entries, i)
          else setId (createEntry res.name.entry entries)

/-- The visibility of the entry: a higher level takes precedence. -/
def ResourceEntry.setVisibility (visibility : Visibility) (entry : ResourceEntry ι) :
    ResourceEntry ι :=
  let entry := if entry.visibility.level.toNat < visibility.level.toNat then
    { entry with visibility } else entry
  -- the flag of the entry is assigned to itself
  if visibility.stagedApi then
    { entry with visibility := { entry.visibility with stagedApi := entry.visibility.stagedApi } }
  else entry

/-- A value behind a disabled flag is put among the disabled values. -/
def ResourceEntry.addFlagDisabled (res : NewResource ι) (value : Value ι)
    (entry : ResourceEntry ι) : Option (Option AddError × ResourceEntry ι) :=
  if value.flagStatus ≠ .disabled then some (none, entry)
  else
    -- without a flag the access to it aborts
    value.flag.bind fun flag =>
      entry.onFlagDisabledValue flag res.config res.product fun configValue =>
        match configValue.value with
        | none => some (none, { configValue with value := some value.clone })
        | some _ => some (some (.duplicateFlagValue res.name res.config flag), configValue)

/-- The value is put under its configuration and product, or the collision is resolved. -/
def ResourceEntry.addValue (validation : Validation) (res : NewResource ι) (value : Value ι)
    (entry : ResourceEntry ι) : Option (Option AddError × ResourceEntry ι) :=
  let take (configValue : ResourceConfigValue ι) : ResourceConfigValue ι :=
    { configValue with
      value := some value
      usesReadwriteFeatureFlags := res.usesReadwriteFeatureFlags }
  let result : Option (CollisionResult × ResourceEntry ι) :=
    entry.onValue res.config res.product fun configValue =>
      match configValue.value with
      | none => some (.kKeepOriginal, take configValue)
      | some existing =>
          let result := match validation with
            | .kEnabled => resolveFlagCollision existing.flagStatus value.flagStatus
            | .kDisabled => .kKeepBoth
          let result := if result = .kConflict then resolveValueCollision existing value else result
          some (result, if result = .kTakeNew then take configValue else configValue)
  result.map fun r =>
    match r.1 with
    | .kKeepBoth =>
        let i := lowerBound
          (fun v => ConfigKey.compare v.key ⟨res.config, res.product⟩ == .lt) r.2.values
        (none, { r.2 with values := r.2.values.insertIdx i (take (.new res.config res.product)) })
    | .kConflict => (some (.duplicateValue res.name res.config), r.2)
    | .kTakeNew | .kKeepOriginal => (none, r.2)

/-- What `AddResource` does with the entry. -/
def ResourceEntry.add (validation : Validation) (res : NewResource ι) (entry : ResourceEntry ι) :
    Option (Option AddError × ResourceEntry ι) :=
  let entry := match res.visibility with
    | none => entry
    | some visibility => entry.setVisibility visibility
  if res.overlayable.isSome ∧ entry.overlayableItem.isSome then
    some (some (.duplicateOverlayable res.name), entry)
  else
    let entry := { entry with
      overlayableItem := res.overlayable.or entry.overlayableItem
      allowNew := res.allowNew.or entry.allowNew
      stagedId := res.stagedId.or entry.stagedId }
    match res.value with
    | none => some (none, entry)
    | some value =>
        match entry.addFlagDisabled res value with
        | none => none
        | some (some error, entry) => some (some error, entry)
        | some (none, entry) => entry.addValue validation res value

/-- What `AddResource` does with the type. -/
def ResourceTableType.add (validation : Validation) (res : NewResource ι)
    (type : ResourceTableType ι) : Option (Option AddError × ResourceTableType ι) :=
  (chooseEntry res type).bind fun chosen =>
    match setEntryId res chosen.1 chosen.2 with
    | (some error, entries, _) => some (some error, { type with entries })
    | (none, entries, i) =>
        -- only mark the level of the type as public, it does not care about being private
        let level := if res.visibility.map Visibility.level = some .kPublic then .kPublic
          else type.visibilityLevel
        entries[i]?.bind fun entry =>
          (entry.add validation res).map fun r =>
            (r.1, ⟨type.namedType, level, entries.set i r.2⟩)

/-- `AddResource`. The result is the error, if any, and the table; without a result the program has
aborted. -/
def ResourceTable.addResource (isValidResourceEntryName : Bytes → Bool) (validation : Validation)
    (res : NewResource ι) (table : ResourceTable ι) :
    Option (Option AddError × ResourceTable ι) :=
  if validation = .kEnabled ∧ ¬ res.allowMangled ∧ ¬ isValidResourceEntryName res.name.entry then
    some (some (.invalidEntryName res.name), table)
  else
    match res.id.filter fun id => !id.1.isValid with
    | some (id, _) => some (some (.invalidId res.name id), table)
    | none => table.onPackage res.name.package fun package =>
        package.onType res.name.type (ResourceTableType.add validation res)

/-! ## Removing a resource -/

/-- What `RemoveResource` does with the type: the first entry with the name and the identifier is
erased. -/
def ResourceTableType.remove (name : Bytes) (id : ResourceId) (type : ResourceTableType ι) :
    Bool × ResourceTableType ι :=
  let named := type.entriesNamed name
  match named.1.findIdx? fun entry => entry.id = some id with
  | none => (false, type)
  | some i => (true, { type with entries := type.entries.eraseIdx (named.2 + i) })

/-- `RemoveResource`: whether an entry was removed, and the table. -/
def ResourceTable.removeResource (name : ResourceName) (id : ResourceId)
    (table : ResourceTable ι) : Bool × ResourceTable ι :=
  let result := onFound compare ResourceTablePackage.name name.package (fun package =>
    let result := onFound ResourceNamedType.compare ResourceTableType.namedType name.type
      (ResourceTableType.remove name.entry id) package.types
    match result with
    | none => (false, package)
    | some (removed, types) => (removed, { package with types })) table.packages
  match result with
  | none => (false, table)
  | some (removed, packages) => (removed, { table with packages })

/-! ## The representation invariant -/

instance : Std.TransCmp ConfigKey.compare := by
  have : Std.TransCmp fun a b : ConfigKey => a.config.compare b.config :=
    { eq_swap := Std.OrientedCmp.eq_swap, isLE_trans := Std.TransCmp.isLE_trans }
  unfold ConfigKey.compare
  infer_instance

instance : Std.TransCmp ConfigFlagKey.compare := by
  have : Std.TransCmp fun a b : ConfigFlagKey => a.config.compare b.config :=
    { eq_swap := Std.OrientedCmp.eq_swap, isLE_trans := Std.TransCmp.isLE_trans }
  unfold ConfigFlagKey.compare
  infer_instance

/-- Keys that compare equal have configurations that do, and the same product. -/
theorem ConfigKey.compare_eq_iff (a b : ConfigKey) :
    a.compare b = .eq ↔ a.config.compare b.config = .eq ∧ a.product = b.product := by
  rw [ConfigKey.compare, compareLex_eq_eq]
  refine and_congr_right fun _ => ?_
  rw [compareOn, Std.LawfulEqCmp.compare_eq_iff_eq]

/-- The values of an entry are strictly sorted by configuration and product, those behind disabled
flags also by the flag, and each of the latter has one. -/
structure ResourceEntry.Wf (entry : ResourceEntry ι) : Prop where
  values : StrictlySortedBy ConfigKey.compare ResourceConfigValue.key entry.values
  flagDisabledValues :
    StrictlySortedBy ConfigFlagKey.compare ResourceConfigValue.flagKey entry.flagDisabledValues
  flag : ∀ v ∈ entry.flagDisabledValues, ∃ value flag, v.value = some value ∧ value.flag = some flag

/-- Names do not decrease, and entries with one name have different identifiers. -/
def EntryLt (a b : Bytes × Option ResourceId) : Prop :=
  compare a.1 b.1 = .lt ∨ (a.1 = b.1 ∧ ∃ i j, a.2 = some i ∧ b.2 = some j ∧ i ≠ j)

/-- What tells the entries of a type apart. -/
def ResourceEntry.nameAndId (entry : ResourceEntry ι) : Bytes × Option ResourceId :=
  (entry.name, entry.id)

/-- The entries of a type are sorted by name, and those of one name carry different identifiers. -/
structure ResourceTableType.Wf (type : ResourceTableType ι) : Prop where
  sorted : type.entries.Pairwise fun a b => EntryLt a.nameAndId b.nameAndId
  entry : ∀ entry ∈ type.entries, entry.Wf

/-- The types of a package are strictly sorted. -/
structure ResourceTablePackage.Wf (package : ResourceTablePackage ι) : Prop where
  sorted : StrictlySortedBy ResourceNamedType.compare ResourceTableType.namedType package.types
  type : ∀ type ∈ package.types, type.Wf

/-- **The representation invariant**: the packages are strictly sorted by name, and each is well
formed. -/
structure ResourceTable.Wf (table : ResourceTable ι) : Prop where
  sorted : StrictlySortedBy compare ResourceTablePackage.name table.packages
  package : ∀ package ∈ table.packages, package.Wf

/-- A new entry is well formed. -/
theorem ResourceEntry.wf_new (name : Bytes) : (ResourceEntry.new name : ResourceEntry ι).Wf :=
  ⟨List.Pairwise.nil, List.Pairwise.nil, fun v hv => by cases hv⟩

/-- What a step of `AddResource` on an entry keeps. -/
def KeepsEntry (entry entry' : ResourceEntry ι) : Prop :=
  (entry.Wf → entry'.Wf) ∧ entry'.nameAndId = entry.nameAndId

/-- A clone has the flag of the value. -/
theorem Value.clone_flag (v : Value ι) : v.clone.flag = v.flag := by
  rw [Value.clone]
  split <;> rfl

/-- Adding to the disabled values keeps the entry well formed. -/
theorem ResourceEntry.keeps_addFlagDisabled {res : NewResource ι} {value : Value ι}
    {entry entry' : ResourceEntry ι} {error : Option AddError}
    (h : entry.addFlagDisabled res value = some (error, entry')) : KeepsEntry entry entry' := by
  rw [addFlagDisabled] at h
  split_ifs at h
  · cases h
    exact ⟨fun h => h, rfl⟩
  · obtain ⟨flag, hflag, h⟩ := Option.bind_eq_some_iff.mp h
    obtain ⟨⟨b, values⟩, hvalues, h⟩ := Option.map_eq_some_iff.mp h
    cases h
    refine ⟨fun hentry => ?_, rfl⟩
    have hsorted := hentry.flagDisabledValues.onFoundOrCreated hentry.flag ?_ hvalues
    · exact ⟨hentry.values, hsorted.1, hsorted.2⟩
    · intro x x' hx hx'
      rcases hx with ⟨hmem, hkey⟩ | rfl
      · -- a value that is there has a flag, so it is a duplicate and stays
        obtain ⟨v, f, hv, hf⟩ := hentry.flag x hmem
        rw [hv] at hx'
        cases hx'
        exact ⟨hkey, v, f, hv, hf⟩
      · cases hx'
        refine ⟨?_, value.clone, flag, rfl, (Value.clone_flag value).trans hflag⟩
        have hkey : ResourceConfigValue.flagKey ⟨res.config, res.product, some value.clone, false⟩
            = ⟨res.config, res.product, flag⟩ := by
          simp [ResourceConfigValue.flagKey, ResourceConfigValue.flag, Value.clone_flag, hflag]
        show ConfigFlagKey.compare
          (ResourceConfigValue.flagKey ⟨res.config, res.product, some value.clone, false⟩) _ = .eq
        rw [hkey]
        exact Std.ReflCmp.compare_self

/-- No collision of flags keeps both values. -/
theorem resolveFlagCollision_ne_kKeepBoth (existing incoming : FlagStatus) :
    resolveFlagCollision existing incoming ≠ .kKeepBoth := by
  cases existing <;> cases incoming <;> simp [resolveFlagCollision]

/-- No collision of values keeps both values. -/
theorem resolveValueCollision_ne_kKeepBoth (existing incoming : Value ι) :
    resolveValueCollision existing incoming ≠ .kKeepBoth := by
  rw [resolveValueCollision]
  split <;> split_ifs <;> simp

/-- The update of a value that is found or created keeps the entry well formed. -/
theorem ResourceEntry.keeps_onValue {β : Type} {config : ResTableConfig} {product : Bytes}
    {action : ResourceConfigValue ι → Option (β × ResourceConfigValue ι)}
    {entry entry' : ResourceEntry ι} {b : β}
    (haction : ∀ v b v', action v = some (b, v') → v'.key = v.key)
    (h : entry.onValue config product action = some (b, entry')) : KeepsEntry entry entry' := by
  obtain ⟨⟨b', values⟩, hvalues, h⟩ := Option.map_eq_some_iff.mp h
  cases h
  refine ⟨fun hentry => ?_, rfl⟩
  have hsorted :=
    hentry.values.onFoundOrCreated (P := fun _ => True) (fun _ _ => trivial) ?_ hvalues
  · exact ⟨hsorted.1, hentry.flagDisabledValues, hentry.flag⟩
  · intro x x' hx hx'
    rw [haction x _ x' hx']
    rcases hx with ⟨-, hkey⟩ | rfl
    · exact ⟨hkey, trivial⟩
    · exact ⟨Std.ReflCmp.compare_self, trivial⟩

/-- With validation, adding a value keeps the entry well formed. -/
theorem ResourceEntry.keeps_addValue {res : NewResource ι} {value : Value ι}
    {entry entry' : ResourceEntry ι} {error : Option AddError}
    (h : entry.addValue .kEnabled res value = some (error, entry')) : KeepsEntry entry entry' := by
  rw [addValue] at h
  obtain ⟨⟨result, entry₁⟩, hvalue, h⟩ := Option.map_eq_some_iff.mp h
  have hkeeps : KeepsEntry entry entry₁ := by
    refine ResourceEntry.keeps_onValue ?_ hvalue
    intro v b v' hv
    split at hv
    · cases hv
      rfl
    · cases hv
      show ResourceConfigValue.key (if _ then _ else _) = _
      split_ifs <;> rfl
  cases result with
  | kKeepBoth =>
      -- with validation no collision is resolved in this way
      exfalso
      obtain ⟨⟨b, values⟩, hfound, hvalue⟩ := Option.map_eq_some_iff.mp hvalue
      rw [onFoundOrCreated] at hfound
      obtain ⟨x, -, hfound⟩ := Option.bind_eq_some_iff.mp hfound
      obtain ⟨⟨b', x'⟩, hx, hfound⟩ := Option.map_eq_some_iff.mp hfound
      cases hfound
      cases hvalue
      split at hx
      · cases hx
      · simp only [Option.some.injEq, Prod.mk.injEq] at hx
        obtain ⟨hresult, -⟩ := hx
        split_ifs at hresult
        · exact resolveValueCollision_ne_kKeepBoth _ _ hresult
        · exact resolveFlagCollision_ne_kKeepBoth _ _ hresult
  | kConflict =>
      cases h
      exact hkeeps
  | kTakeNew =>
      cases h
      exact hkeeps
  | kKeepOriginal =>
      cases h
      exact hkeeps

/-- `AddResource` keeps the entry well formed, with its name and identifier. -/
theorem ResourceEntry.keeps_add {res : NewResource ι} {entry entry' : ResourceEntry ι}
    {error : Option AddError} (h : entry.add .kEnabled res = some (error, entry')) :
    KeepsEntry entry entry' := by
  rw [ResourceEntry.add] at h
  -- the visibility comes first, and the values stay
  generalize hvisible : (match res.visibility with
    | none => entry
    | some visibility => entry.setVisibility visibility) = entry₁ at h
  have hkeeps₁ : KeepsEntry entry entry₁ := by
    rw [← hvisible]
    cases res.visibility with
    | none => exact ⟨fun h => h, rfl⟩
    | some visibility =>
        simp only [ResourceEntry.setVisibility]
        split_ifs <;> exact ⟨fun h => ⟨h.values, h.flagDisabledValues, h.flag⟩, rfl⟩
  simp only at h
  split_ifs at h
  · cases h
    exact hkeeps₁
  -- then the other attributes
  · generalize hattributes : ({ entry₁ with
      overlayableItem := res.overlayable.or entry₁.overlayableItem
      allowNew := res.allowNew.or entry₁.allowNew
      stagedId := res.stagedId.or entry₁.stagedId } : ResourceEntry ι) = entry₂ at h
    have hkeeps₂ : KeepsEntry entry entry₂ := by
      rw [← hattributes]
      exact ⟨fun h => ⟨(hkeeps₁.1 h).values, (hkeeps₁.1 h).flagDisabledValues, (hkeeps₁.1 h).flag⟩,
        hkeeps₁.2⟩
    have htrans {e₃ : ResourceEntry ι} (h₃ : KeepsEntry entry₂ e₃) : KeepsEntry entry e₃ :=
      ⟨fun h => h₃.1 (hkeeps₂.1 h), h₃.2.trans hkeeps₂.2⟩
    -- the value, if there is one, goes where its flag sends it
    split at h
    · cases h
      exact hkeeps₂
    next value hvalue =>
      split at h
      · cases h
      next error' entry₃ hdisabled =>
        cases h
        exact htrans (ResourceEntry.keeps_addFlagDisabled hdisabled)
      next entry₃ hdisabled =>
        have h₃ := htrans (ResourceEntry.keeps_addFlagDisabled hdisabled)
        have h₄ := ResourceEntry.keeps_addValue h
        exact ⟨fun h => h₄.1 (h₃.1 h), h₄.2.trans h₃.2⟩

/-! ## Entries of one name -/

/-- The entries of a well-formed type are sorted by name. -/
theorem sortedBy_of_entryLt {entries : List (ResourceEntry ι)}
    (h : entries.Pairwise fun a b => EntryLt a.nameAndId b.nameAndId) :
    SortedBy compare ResourceEntry.name entries := by
  refine h.imp ?_
  rintro a b (hlt | ⟨heq, -⟩)
  · exact Ordering.isLE_of_eq_lt hlt
  · have heq : a.name = b.name := heq
    rw [heq]
    exact Ordering.isLE_of_eq_eq Std.ReflCmp.compare_self

/-- The entries with a name stand together, and a new entry of that name is put before them. -/
theorem exists_split_entriesNamed {type : ResourceTableType ι} (h : type.Wf) (name : Bytes) :
    ∃ pre range post, type.entries = pre ++ (range ++ post)
      ∧ type.entriesNamed name = (range, pre.length)
      ∧ createEntry name type.entries = (pre ++ .new name :: (range ++ post), pre.length)
      ∧ (∀ e ∈ pre, compare e.name name = .lt) ∧ (∀ e ∈ range, e.name = name)
      ∧ ∀ e ∈ post, compare e.name name = .gt := by
  obtain ⟨pre, range, post, hsplit, hrange, hpre, heq, hpost⟩ :=
    equalRange_eq (sortedBy_of_entryLt h.sorted) name
  rw [List.append_assoc] at hsplit
  have hlower : lowerBound (fun e => compare e.name name == .lt) type.entries = pre.length :=
    congrArg Prod.fst hrange
  refine ⟨pre, range, post, hsplit, ?_, ?_, hpre, ?_, hpost⟩
  · rw [ResourceTableType.entriesNamed, hrange, hsplit]
    simp
  · rw [createEntry, hlower, hsplit, insertIdx_append_length]
  · intro e he
    exact Std.LawfulEqCmp.compare_eq_iff_eq.mp (heq e he)

/-- An entry can be put before the entries of its name if it differs from them. -/
theorem pairwise_entryLt_insert {pre range post : List (ResourceEntry ι)} {name : Bytes}
    (h : (pre ++ (range ++ post)).Pairwise fun a b => EntryLt a.nameAndId b.nameAndId)
    (hpre : ∀ e ∈ pre, compare e.name name = .lt) (hpost : ∀ e ∈ post, compare e.name name = .gt)
    {e : ResourceEntry ι} (hname : e.name = name)
    (hrange : ∀ r ∈ range, EntryLt e.nameAndId r.nameAndId) :
    (pre ++ e :: (range ++ post)).Pairwise fun a b => EntryLt a.nameAndId b.nameAndId := by
  obtain ⟨hpre', hrest, hcross⟩ := List.pairwise_append.mp h
  refine List.pairwise_append.mpr ⟨hpre', List.pairwise_cons.mpr ⟨?_, hrest⟩, ?_⟩
  · intro r hr
    rcases List.mem_append.mp hr with hr | hr
    · exact hrange r hr
    · left
      show compare e.name r.name = .lt
      rw [hname]
      exact Std.OrientedCmp.lt_of_gt (hpost r hr)
  · intro a ha b hb
    rcases List.mem_cons.mp hb with rfl | hb
    · left
      show compare a.name b.name = .lt
      rw [hname]
      exact hpre a ha
    · exact hcross a ha b hb

/-- What the loop over several entries of one name finds. -/
theorem findEntryWithId_spec {id : ResourceId} {entries : List (ResourceEntry ι)} {i : ℕ}
    {found : Option ℕ} (h : findEntryWithId id entries i = some found) :
    (∃ k e, found = some (i + k) ∧ entries[k]? = some e ∧ e.id = some id)
      ∨ (found = none ∧ ∀ e ∈ entries, ∃ j, e.id = some j ∧ j ≠ id) := by
  induction entries generalizing i with
  | nil =>
      cases h
      exact .inr ⟨rfl, by simp⟩
  | cons e rest ih =>
      rw [findEntryWithId] at h
      split at h
      · cases h
      next entryId hentry =>
        split_ifs at h with heq
        · cases h
          exact .inl ⟨0, e, rfl, rfl, by rw [hentry, heq]⟩
        · rcases ih h with ⟨k, e', hfound, hat, hid⟩ | ⟨hfound, hall⟩
          · refine .inl ⟨k + 1, e', ?_, by simpa using hat, hid⟩
            rw [hfound]
            congr 1
            omega
          · refine .inr ⟨hfound, ?_⟩
            intro e' he'
            rcases List.mem_cons.mp he' with rfl | he'
            · exact ⟨entryId, hentry, heq⟩
            · exact hall e' he'

/-- The entries are as in a well-formed type. -/
def EntriesWf (entries : List (ResourceEntry ι)) : Prop :=
  entries.Pairwise (fun a b => EntryLt a.nameAndId b.nameAndId) ∧ ∀ entry ∈ entries, entry.Wf

/-- Setting the identifier that an entry has changes nothing. -/
theorem modify_id_eq_self {entries : List (ResourceEntry ι)} {i : ℕ} {e : ResourceEntry ι}
    {id : ResourceId} (hat : entries[i]? = some e) (hid : e.id = some id) :
    entries.modify i (fun entry => { entry with id := some id }) = entries := by
  apply List.ext_getElem?
  intro j
  rw [List.getElem?_modify]
  split_ifs with hj
  · rw [← hj, hat]
    show some { e with id := some id } = some e
    rw [← hid]
  · exact Option.map_id_apply

section Choose

variable {res : NewResource ι} {pre range post : List (ResourceEntry ι)} {name : Bytes}

/-- The entries with one more before those of its name. -/
theorem entriesWf_insert (h : EntriesWf (pre ++ (range ++ post)))
    (hpre : ∀ e ∈ pre, compare e.name name = .lt) (hpost : ∀ e ∈ post, compare e.name name = .gt)
    {e : ResourceEntry ι} (hname : e.name = name) (he : e.Wf)
    (hrange : ∀ r ∈ range, EntryLt e.nameAndId r.nameAndId) :
    EntriesWf (pre ++ e :: (range ++ post)) := by
  refine ⟨pairwise_entryLt_insert h.1 hpre hpost hname hrange, ?_⟩
  intro x hx
  rcases List.mem_append.mp hx with hx | hx
  · exact h.2 x (List.mem_append_left _ hx)
  · rcases List.mem_cons.mp hx with rfl | hx
    · exact he
    · exact h.2 x (List.mem_append_right _ hx)

/-- A new entry with an identifier that no entry of its name has. -/
theorem entriesWf_createEntry (h : EntriesWf (pre ++ (range ++ post)))
    (hpre : ∀ e ∈ pre, compare e.name name = .lt) (hpost : ∀ e ∈ post, compare e.name name = .gt)
    (hrange : ∀ e ∈ range, e.name = name) {id : ResourceId}
    (hids : ∀ e ∈ range, ∃ j, e.id = some j ∧ j ≠ id) :
    EntriesWf ((pre ++ .new name :: (range ++ post)).modify pre.length
      fun entry => { entry with id := some id }) := by
  rw [modify_append_length]
  refine entriesWf_insert h hpre hpost rfl ⟨List.Pairwise.nil, List.Pairwise.nil, fun v hv => ?_⟩ ?_
  · cases hv
  · intro r hr
    obtain ⟨j, hj, hne⟩ := hids r hr
    exact .inr ⟨(hrange r hr).symm, id, j, rfl, hj, hne.symm⟩

/-- What the identifier does to the only entry of its name. -/
theorem entriesWf_setId {e : ResourceEntry ι} (h : EntriesWf (pre ++ e :: post))
    (hpre : ∀ e ∈ pre, compare e.name name = .lt) (hpost : ∀ e ∈ post, compare e.name name = .gt)
    (hname : e.name = name) (id : ResourceId) :
    EntriesWf ((pre ++ e :: post).modify pre.length fun entry => { entry with id := some id }) := by
  rw [modify_append_length]
  have hwf : e.Wf := h.2 e (by simp)
  have hsub : (pre ++ post).Sublist (pre ++ e :: post) :=
    List.Sublist.append_left (List.sublist_cons_self e post) pre
  have hrest : EntriesWf (pre ++ ([] ++ post)) :=
    ⟨h.1.sublist hsub, fun x hx => h.2 x (hsub.subset hx)⟩
  exact entriesWf_insert hrest hpre hpost hname ⟨hwf.values, hwf.flagDisabledValues, hwf.flag⟩
    (by simp)

/-- The identifier of an entry whose own one differs: an error, or a new entry. -/
theorem entriesWf_otherId (h : EntriesWf (pre ++ (range ++ post)))
    (hpre : ∀ e ∈ pre, compare e.name name = .lt) (hpost : ∀ e ∈ post, compare e.name name = .gt)
    (hrange : ∀ e ∈ range, e.name = name)
    (hcreate : createEntry name (pre ++ (range ++ post))
      = (pre ++ .new name :: (range ++ post), pre.length))
    (hname : res.name.entry = name) {id existing : ResourceId} {onConflict : OnIdConflict}
    (hid : res.id = some (id, onConflict)) {i : ℕ} {e : ResourceEntry ι}
    (hat : (pre ++ (range ++ post))[i]? = some e) (he : e.id = some existing)
    (hne : existing ≠ id) (hids : ∀ e ∈ range, ∃ j, e.id = some j ∧ j ≠ id) :
    EntriesWf (setEntryId res (pre ++ (range ++ post)) i).2.1 := by
  rw [setEntryId, hid]
  simp only [hat, Option.bind_some, he, if_neg hne, hname, hcreate]
  split_ifs
  · exact h
  · exact entriesWf_createEntry h hpre hpost hrange hids

/-- **Choosing the entry and setting its identifier** keeps the entries sorted, those of one name
with different identifiers. -/
theorem entriesWf_setEntryId {type : ResourceTableType ι} (htype : type.Wf)
    {entries : List (ResourceEntry ι)} {i : ℕ} (hchoose : chooseEntry res type = some (entries, i)) :
    EntriesWf (setEntryId res entries i).2.1 := by
  obtain ⟨pre, range, post, hsplit, hnamed, hcreate, hpre, hrange, hpost⟩ :=
    exists_split_entriesNamed htype res.name.entry
  have hwf : EntriesWf (pre ++ (range ++ post)) := hsplit ▸ ⟨htype.sorted, htype.entry⟩
  rw [hsplit] at hcreate
  rw [chooseEntry, hnamed] at hchoose
  cases hid : res.id with
  | none =>
      -- without an identifier the entries are those that exist, or one more
      have hsame : (setEntryId res entries i).2.1 = entries := by rw [setEntryId, hid]
      rw [hsame]
      match range, hchoose with
      | [], hchoose =>
          rw [hsplit, hcreate] at hchoose
          cases hchoose
          exact entriesWf_insert hwf hpre hpost rfl (ResourceEntry.wf_new _) (by simp)
      | [e], hchoose =>
          cases hchoose
          exact hsplit ▸ hwf
      | e₁ :: e₂ :: rest, hchoose =>
          rw [hid] at hchoose
          cases hchoose
  | some idAndConflict =>
      obtain ⟨id, onConflict⟩ := idAndConflict
      match range, hchoose with
      | [], hchoose =>
          rw [hsplit, hcreate] at hchoose
          cases hchoose
          have hat : (pre ++ ResourceEntry.new res.name.entry :: ([] ++ post))[pre.length]?.bind
              ResourceEntry.id = none := by simp [ResourceEntry.new]
          rw [setEntryId, hid]
          simp only [hat]
          exact entriesWf_createEntry hwf hpre hpost hrange (by simp)
      | [e], hchoose =>
          cases hchoose
          rw [hsplit]
          have hat : (pre ++ ([e] ++ post))[pre.length]? = some e := by simp
          have hname : e.name = res.name.entry := hrange e (by simp)
          have hset := entriesWf_setId hwf hpre hpost hname id
          by_cases hother : ∃ existing, e.id = some existing ∧ existing ≠ id
          · obtain ⟨existing, he, hne⟩ := hother
            refine entriesWf_otherId hwf hpre hpost hrange hcreate rfl hid hat he hne ?_
            intro r hr
            rw [List.mem_singleton.mp hr]
            exact ⟨existing, he, hne⟩
          · rw [setEntryId, hid]
            simp only [hat, Option.bind_some]
            split
            · exact hset
            next existing he =>
              have heq : existing = id := by
                by_contra hne
                exact hother ⟨existing, he, hne⟩
              rw [if_pos heq]
              exact hset
      | e₁ :: e₂ :: rest, hchoose =>
          rw [hid] at hchoose
          obtain ⟨found, hfound, hchoose⟩ := Option.map_eq_some_iff.mp hchoose
          cases hchoose
          rw [hsplit]
          rcases findEntryWithId_spec hfound with ⟨k, e, rfl, hk, he⟩ | ⟨rfl, hall⟩
          · -- the entry has the identifier already
            have hlt : k < (e₁ :: e₂ :: rest).length := (List.getElem?_eq_some_iff.mp hk).1
            have hat : (pre ++ (e₁ :: e₂ :: rest ++ post))[pre.length + k]? = some e := by
              rw [List.getElem?_append_right (by omega), Nat.add_sub_cancel_left,
                List.getElem?_append_left hlt, hk]
            rw [setEntryId, hid, Option.getD_some]
            simp only [hat, Option.bind_some, he, if_true]
            rw [modify_id_eq_self hat he]
            exact hwf
          · obtain ⟨j, hj, hne⟩ := hall e₁ List.mem_cons_self
            have hat : (pre ++ (e₁ :: e₂ :: rest ++ post))[pre.length]? = some e₁ := by simp
            exact entriesWf_otherId hwf hpre hpost hrange hcreate rfl hid hat hj hne hall

end Choose

/-! ## Steps -/

/-- The order of entries sees names and identifiers only. -/
theorem pairwise_entryLt_set {entries : List (ResourceEntry ι)} {i : ℕ} {e e' : ResourceEntry ι}
    (h : entries.Pairwise fun a b => EntryLt a.nameAndId b.nameAndId) (hat : entries[i]? = some e)
    (he : e'.nameAndId = e.nameAndId) :
    (entries.set i e').Pairwise fun a b => EntryLt a.nameAndId b.nameAndId := by
  have hmap : (entries.set i e').map ResourceEntry.nameAndId
      = entries.map ResourceEntry.nameAndId := by
    apply List.ext_getElem?
    intro j
    rw [List.map_set, List.getElem?_set, he]
    split_ifs with hj hlt
    · rw [← hj, List.getElem?_map, hat, Option.map_some]
    · rw [← hj, List.getElem?_eq_none (by simpa using hlt)]
    · rfl
  have hpairs := List.pairwise_map.mpr h
  rw [← hmap] at hpairs
  exact List.pairwise_map.mp hpairs

/-- `AddResource` keeps a type well formed, with its name. -/
theorem ResourceTableType.wf_add {res : NewResource ι} {type type' : ResourceTableType ι}
    {error : Option AddError} (htype : type.Wf)
    (h : type.add .kEnabled res = some (error, type')) :
    type'.Wf ∧ type'.namedType = type.namedType := by
  obtain ⟨⟨entries, i⟩, hchoose, h⟩ := Option.bind_eq_some_iff.mp h
  have hentries := entriesWf_setEntryId htype hchoose
  split at h
  next error' entries' i' hset =>
    cases h
    rw [hset] at hentries
    exact ⟨⟨hentries.1, hentries.2⟩, rfl⟩
  next entries' i' hset =>
    rw [hset] at hentries
    obtain ⟨entry, hat, h⟩ := Option.bind_eq_some_iff.mp h
    obtain ⟨⟨error', entry'⟩, hadd, h⟩ := Option.map_eq_some_iff.mp h
    cases h
    obtain ⟨hwf, hsame⟩ := ResourceEntry.keeps_add hadd
    refine ⟨⟨pairwise_entryLt_set hentries.1 hat hsame, ?_⟩, rfl⟩
    intro e he
    rcases List.mem_or_eq_of_mem_set he with he | rfl
    · exact hentries.2 e he
    · exact hwf (hentries.2 entry (List.mem_of_getElem? hat))

/-- An update of a type that is found or created keeps the package well formed. -/
theorem ResourceTablePackage.wf_onType {β : Type} {type : ResourceNamedType} {b : β}
    {action : ResourceTableType ι → Option (β × ResourceTableType ι)}
    {package package' : ResourceTablePackage ι} (hpackage : package.Wf)
    (haction : ∀ t t', t.Wf → action t = some (b, t') → t'.Wf ∧ t'.namedType = t.namedType)
    (h : package.onType type action = some (b, package')) :
    package'.Wf ∧ package'.name = package.name := by
  obtain ⟨⟨b', types⟩, htypes, h⟩ := Option.map_eq_some_iff.mp h
  cases h
  have hsorted := hpackage.sorted.onFoundOrCreated hpackage.type ?_ htypes
  · exact ⟨⟨hsorted.1, hsorted.2⟩, rfl⟩
  · intro t t' ht ht'
    have hwf : t.Wf := by
      rcases ht with ⟨hmem, -⟩ | rfl
      · exact hpackage.type t hmem
      · exact ⟨List.Pairwise.nil, fun e he => by cases he⟩
    obtain ⟨hwf', hname⟩ := haction t t' hwf ht'
    refine ⟨?_, hwf'⟩
    rw [hname]
    rcases ht with ⟨-, hkey⟩ | rfl
    · exact hkey
    · exact Std.ReflCmp.compare_self

/-- An update of a package that is found or created keeps the table well formed. -/
theorem ResourceTable.wf_onPackage {β : Type} {name : Bytes} {b : β}
    {action : ResourceTablePackage ι → Option (β × ResourceTablePackage ι)}
    {table table' : ResourceTable ι} (htable : table.Wf)
    (haction : ∀ p p', p.Wf → action p = some (b, p') → p'.Wf ∧ p'.name = p.name)
    (h : table.onPackage name action = some (b, table')) : table'.Wf := by
  obtain ⟨⟨b', packages⟩, hpackages, h⟩ := Option.map_eq_some_iff.mp h
  cases h
  have hsorted := htable.sorted.onFoundOrCreated htable.package ?_ hpackages
  · exact ⟨hsorted.1, hsorted.2⟩
  · intro p p' hp hp'
    have hwf : p.Wf := by
      rcases hp with ⟨hmem, -⟩ | rfl
      · exact htable.package p hmem
      · exact ⟨List.Pairwise.nil, fun t ht => by cases ht⟩
    obtain ⟨hwf', hname⟩ := haction p p' hwf hp'
    refine ⟨?_, hwf'⟩
    rw [hname]
    rcases hp with ⟨-, hkey⟩ | rfl
    · exact hkey
    · exact Std.ReflCmp.compare_self

/-- **`AddResource` keeps the table well formed**, whether or not it succeeds. -/
theorem ResourceTable.wf_addResource {isValidResourceEntryName : Bytes → Bool}
    {res : NewResource ι} {table table' : ResourceTable ι} {error : Option AddError}
    (htable : table.Wf)
    (h : table.addResource isValidResourceEntryName .kEnabled res = some (error, table')) :
    table'.Wf := by
  rw [ResourceTable.addResource] at h
  split_ifs at h
  · cases h
    exact htable
  · split at h
    · cases h
      exact htable
    · refine ResourceTable.wf_onPackage htable (fun p p' hp hp' => ?_) h
      exact ResourceTablePackage.wf_onType hp (fun t t' ht ht' => ResourceTableType.wf_add ht ht') hp'

/-- `RemoveResource` keeps a type well formed, with its name. -/
theorem ResourceTableType.wf_remove {type : ResourceTableType ι} (htype : type.Wf) (name : Bytes)
    (id : ResourceId) :
    (type.remove name id).2.Wf ∧ (type.remove name id).2.namedType = type.namedType := by
  rw [ResourceTableType.remove]
  split
  · exact ⟨htype, rfl⟩
  next i hi =>
    have hsub : (type.entries.eraseIdx ((type.entriesNamed name).2 + i)).Sublist type.entries :=
      List.eraseIdx_sublist _ _
    exact ⟨⟨htype.sorted.sublist hsub, fun e he => htype.entry e (hsub.subset he)⟩, rfl⟩

/-- **`RemoveResource` keeps the table well formed.** -/
theorem ResourceTable.wf_removeResource {table : ResourceTable ι} (htable : table.Wf)
    (name : ResourceName) (id : ResourceId) : (table.removeResource name id).2.Wf := by
  rw [ResourceTable.removeResource]
  split
  · exact htable
  next removed packages hpackages =>
    have hsorted := htable.sorted.onFound htable.package ?_ hpackages
    · exact ⟨hsorted.1, hsorted.2⟩
    · intro p hp
      have hpackage := htable.package p hp
      dsimp only
      split
      · exact ⟨rfl, hpackage⟩
      next removed' types htypes =>
        have htypes' := hpackage.sorted.onFound hpackage.type ?_ htypes
        · exact ⟨rfl, htypes'.1, htypes'.2⟩
        · intro t ht
          exact (ResourceTableType.wf_remove (hpackage.type t ht) name.entry id).symm

/-! ## Runs -/

/-- The operations on a table. Packages, types and entries that the caller holds are given by their
positions. -/
inductive TableOp (ι : Type) where
  | addResource (res : NewResource ι)
  | removeResource (name : ResourceName) (id : ResourceId)
  | findOrCreatePackage (name : Bytes)
  | findOrCreateType (package : ℕ) (type : ResourceNamedType)
  | findOrCreateEntry (package type : ℕ) (name : Bytes)
  | findOrCreateValue (package type entry : ℕ) (config : ResTableConfig) (product : Bytes)

/-- Do nothing with what is found or created. -/
def untouched {α : Type} (x : α) : Option (Unit × α) := some ((), x)

/-- One operation on a table; it fails only in a `CHECK` of `AddResource`. -/
def ResourceTable.step (isValidResourceEntryName : Bytes → Bool) (table : ResourceTable ι) :
    TableOp ι → Option (ResourceTable ι)
  | .addResource res =>
      (table.addResource isValidResourceEntryName .kEnabled res).map Prod.snd
  | .removeResource name id => some (table.removeResource name id).2
  | .findOrCreatePackage name => (table.onPackage name untouched).map Prod.snd
  | .findOrCreateType i type => some { table with
      packages := table.packages.modify i fun package =>
        ((package.onType type untouched).map Prod.snd).getD package }
  | .findOrCreateEntry i j name => some { table with
      packages := table.packages.modify i fun package =>
        { package with types := package.types.modify j (·.findOrCreateEntry name) } }
  | .findOrCreateValue i j k config product => some { table with
      packages := table.packages.modify i fun package =>
        { package with types := package.types.modify j fun type =>
            { type with entries := type.entries.modify k fun entry =>
                ((entry.onValue config product untouched).map Prod.snd).getD entry } } }

/-- A sequence of operations on an empty table. -/
def runOps (isValidResourceEntryName : Bytes → Bool) (ops : List (TableOp ι)) :
    Option (ResourceTable ι) :=
  ops.foldlM (ResourceTable.step isValidResourceEntryName) ⟨[]⟩

/-- Items after a modification. -/
theorem mem_modify {α : Type} {l : List α} {i : ℕ} {f : α → α} {P : α → Prop}
    (hl : ∀ x ∈ l, P x) (hf : ∀ x ∈ l, P (f x)) : ∀ x ∈ l.modify i f, P x := by
  intro x hx
  obtain ⟨j, hj⟩ := List.mem_iff_getElem?.mp hx
  rw [List.getElem?_modify] at hj
  obtain ⟨y, hy, rfl⟩ := Option.map_eq_some_iff.mp hj
  have hmem := List.mem_of_getElem? hy
  split_ifs
  · exact hf y hmem
  · exact hl y hmem

/-- A modification that keeps what a relation sees keeps the relation. -/
theorem pairwise_modify {α β : Type} {l : List α} {i : ℕ} {f : α → α} (key : α → β)
    (R : β → β → Prop) (h : l.Pairwise fun x y => R (key x) (key y))
    (hf : ∀ x ∈ l, key (f x) = key x) :
    (l.modify i f).Pairwise fun x y => R (key x) (key y) := by
  have hmap : (l.modify i f).map key = l.map key := by
    apply List.ext_getElem?
    intro j
    rw [List.getElem?_map, List.getElem?_modify, List.getElem?_map]
    cases hj : l[j]? with
    | none => rfl
    | some x =>
        split_ifs
        · exact congrArg some (hf x (List.mem_of_getElem? hj))
        · rfl
  have hpairs := List.pairwise_map.mpr h
  rw [← hmap] at hpairs
  exact List.pairwise_map.mp hpairs

/-- A modification of a package that keeps it well formed, with its name. -/
theorem ResourceTable.wf_modify {table : ResourceTable ι} (htable : table.Wf) {i : ℕ}
    {f : ResourceTablePackage ι → ResourceTablePackage ι}
    (hf : ∀ p, p.Wf → (f p).Wf ∧ (f p).name = p.name) :
    ResourceTable.Wf { table with packages := table.packages.modify i f } :=
  ⟨pairwise_modify _ (fun a b => compare a b = .lt) htable.sorted fun p hp => (hf p (htable.package p hp)).2,
    mem_modify htable.package fun p hp => (hf p (htable.package p hp)).1⟩

/-- A modification of a type that keeps it well formed, with its name. -/
theorem ResourceTablePackage.wf_modify {package : ResourceTablePackage ι} (hpackage : package.Wf)
    {j : ℕ} {f : ResourceTableType ι → ResourceTableType ι}
    (hf : ∀ t, t.Wf → (f t).Wf ∧ (f t).namedType = t.namedType) :
    ResourceTablePackage.Wf { package with types := package.types.modify j f } :=
  ⟨pairwise_modify _ (fun a b => ResourceNamedType.compare a b = .lt) hpackage.sorted
      fun t ht => (hf t (hpackage.type t ht)).2,
    mem_modify hpackage.type fun t ht => (hf t (hpackage.type t ht)).1⟩

/-- `FindOrCreateEntry` keeps a type well formed. -/
theorem ResourceTableType.wf_findOrCreateEntry {type : ResourceTableType ι} (htype : type.Wf)
    (name : Bytes) : (type.findOrCreateEntry name).Wf := by
  obtain ⟨pre, x, post, hfind, hl, hpre⟩ := exists_split_findOrCreate (k := name)
    (sortedBy_of_entryLt htype.sorted) (ResourceEntry.new name)
  rw [ResourceTableType.findOrCreateEntry, hfind]
  have hwf : EntriesWf type.entries := ⟨htype.sorted, htype.entry⟩
  rcases hl with ⟨hl, -⟩ | ⟨hl, rfl, hpost⟩
  · rw [hl] at hwf
    exact ⟨hwf.1, hwf.2⟩
  · rw [hl] at hwf
    have hsplit : EntriesWf (pre ++ ([] ++ post)) := hwf
    have hnew := entriesWf_insert hsplit hpre hpost rfl (ResourceEntry.wf_new name) (by simp)
    exact ⟨hnew.1, hnew.2⟩

/-- **One operation keeps the representation invariant.** -/
theorem ResourceTable.wf_step {isValidResourceEntryName : Bytes → Bool}
    {table table' : ResourceTable ι} {op : TableOp ι} (htable : table.Wf)
    (h : table.step isValidResourceEntryName op = some table') : table'.Wf := by
  cases op with
  | addResource res =>
      obtain ⟨⟨error, table''⟩, hadd, rfl⟩ := Option.map_eq_some_iff.mp h
      exact ResourceTable.wf_addResource htable hadd
  | removeResource name id =>
      cases h
      exact ResourceTable.wf_removeResource htable name id
  | findOrCreatePackage name =>
      obtain ⟨⟨u, table''⟩, hpackage, rfl⟩ := Option.map_eq_some_iff.mp h
      refine ResourceTable.wf_onPackage htable (fun p p' hp hp' => ?_) hpackage
      cases hp'
      exact ⟨hp, rfl⟩
  | findOrCreateType i type =>
      cases h
      refine ResourceTable.wf_modify htable fun p hp => ?_
      cases htype : p.onType type untouched with
      | none => exact ⟨hp, rfl⟩
      | some r =>
          refine ResourceTablePackage.wf_onType hp (fun t t' ht ht' => ?_) htype
          cases ht'
          exact ⟨ht, rfl⟩
  | findOrCreateEntry i j name =>
      cases h
      refine ResourceTable.wf_modify htable fun p hp => ⟨?_, rfl⟩
      refine ResourceTablePackage.wf_modify hp fun t ht => ⟨?_, rfl⟩
      exact ResourceTableType.wf_findOrCreateEntry ht name
  | findOrCreateValue i j k config product =>
      cases h
      refine ResourceTable.wf_modify htable fun p hp => ⟨?_, rfl⟩
      refine ResourceTablePackage.wf_modify hp fun t ht => ⟨?_, rfl⟩
      have hkeeps : ∀ e : ResourceEntry ι,
          KeepsEntry e (((e.onValue config product untouched).map Prod.snd).getD e) := by
        intro e
        cases hvalue : e.onValue config product untouched with
        | none => exact ⟨fun he => he, rfl⟩
        | some r =>
            refine ResourceEntry.keeps_onValue (fun v b v' hv => ?_) hvalue
            cases hv
            rfl
      exact ⟨pairwise_modify _ EntryLt ht.sorted fun e _ => (hkeeps e).2,
        mem_modify ht.entry fun e he => (hkeeps e).1 (ht.entry e he)⟩

/-- **Every sequence of operations keeps the representation invariant.** -/
theorem wf_of_runOps {isValidResourceEntryName : Bytes → Bool} {ops : List (TableOp ι)}
    {table : ResourceTable ι} (h : runOps isValidResourceEntryName ops = some table) :
    table.Wf := by
  have hrun : ∀ (ops : List (TableOp ι)) (t t' : ResourceTable ι), t.Wf →
      ops.foldlM (ResourceTable.step isValidResourceEntryName) t = some t' → t'.Wf := by
    intro ops
    induction ops with
    | nil =>
        intro t t' ht h
        cases h
        exact ht
    | cons op ops ih =>
        intro t t' ht h
        rw [List.foldlM_cons] at h
        obtain ⟨t₁, hstep, hrest⟩ := Option.bind_eq_some_iff.mp h
        exact ih t₁ t' (ResourceTable.wf_step ht hstep) hrest
  exact hrun ops ⟨[]⟩ table ⟨List.Pairwise.nil, fun p hp => by cases hp⟩ h

/-! ## The entries of a table -/

/-- A name compares equal to itself. -/
theorem compare_bytes_self (name : Bytes) : compare name name = .eq := Std.ReflCmp.compare_self

/-- A named type compares equal to itself. -/
theorem compare_namedType_self (t : ResourceNamedType) : t.compare t = .eq :=
  (ResourceNamedType.compare_eq_iff t t).mpr rfl

/-- A resource of a table: the entry is in a type of a package. -/
theorem mem_namedEntries_iff {table : ResourceTable ι} {e : ResourceName × ResourceEntry ι} :
    e ∈ table.namedEntries ↔ ∃ package ∈ table.packages, ∃ type ∈ package.types,
      e.2 ∈ type.entries ∧ e.1 = ⟨package.name, type.namedType, e.2.name⟩ := by
  simp only [ResourceTable.namedEntries, ResourceTablePackage.namedEntries,
    ResourceTableType.namedEntries, List.mem_flatMap, List.mem_map]
  constructor
  · rintro ⟨package, hpackage, type, htype, entry, hentry, rfl⟩
    exact ⟨package, hpackage, type, htype, hentry, rfl⟩
  · rintro ⟨package, hpackage, type, htype, hentry, hname⟩
    exact ⟨package, hpackage, type, htype, e.2, hentry, Prod.ext hname.symm rfl⟩

/-- Different resources of a table differ in their names or identifiers. -/
theorem ResourceTable.Wf.pairwise_namedEntries {table : ResourceTable ι} (h : table.Wf) :
    table.namedEntries.Pairwise fun a b => a.1 = b.1 → a.2.id ≠ b.2.id := by
  rw [ResourceTable.namedEntries, List.pairwise_flatMap]
  refine ⟨fun package hpackage => ?_, h.sorted.imp fun {p q} hlt => ?_⟩
  · have hwf := h.package package hpackage
    rw [ResourceTablePackage.namedEntries, List.pairwise_flatMap]
    refine ⟨fun type htype => ?_, hwf.sorted.imp fun {t u} hlt => ?_⟩
    · rw [ResourceTableType.namedEntries, List.pairwise_map]
      refine (hwf.type type htype).sorted.imp fun {x y} hlt hname hid => ?_
      have hname : x.name = y.name := congrArg ResourceName.entry hname
      rcases hlt with hlt | ⟨-, i, j, hi, hj, hne⟩
      · replace hlt : compare x.name y.name = .lt := hlt
        rw [hname, compare_bytes_self] at hlt
        cases hlt
      · replace hi : x.id = some i := hi
        replace hj : y.id = some j := hj
        rw [hi, hj] at hid
        exact hne (Option.some.inj hid)
    · -- entries of different types
      intro a ha b hb hname
      obtain ⟨x, -, rfl⟩ := List.mem_map.mp ha
      obtain ⟨y, -, rfl⟩ := List.mem_map.mp hb
      have htype : t.namedType = u.namedType := congrArg ResourceName.type hname
      rw [htype, compare_namedType_self] at hlt
      cases hlt
  · -- entries of different packages
    intro a ha b hb hname
    obtain ⟨t, -, ha⟩ := List.mem_flatMap.mp ha
    obtain ⟨u, -, hb⟩ := List.mem_flatMap.mp hb
    obtain ⟨x, -, rfl⟩ := List.mem_map.mp ha
    obtain ⟨y, -, rfl⟩ := List.mem_map.mp hb
    have hpackage : p.name = q.name := congrArg ResourceName.package hname
    rw [hpackage, compare_bytes_self] at hlt
    cases hlt

/-- The entries of a well-formed table are well formed. -/
theorem ResourceTable.Wf.entry {table : ResourceTable ι} (h : table.Wf)
    {e : ResourceName × ResourceEntry ι} (he : e ∈ table.namedEntries) : e.2.Wf := by
  obtain ⟨package, hpackage, type, htype, hentry, -⟩ := mem_namedEntries_iff.mp he
  exact ((h.package package hpackage).type type htype).entry e.2 hentry

/-! ## What the lookups find -/

/-- The table holds an entry under a name, in the given package and type. -/
def ResourceTable.Holds (table : ResourceTable ι) (name : ResourceName)
    (package : ResourceTablePackage ι) (type : ResourceTableType ι) (entry : ResourceEntry ι) :
    Prop :=
  package ∈ table.packages ∧ package.name = name.package ∧ type ∈ package.types
    ∧ type.namedType = name.type ∧ entry ∈ type.entries ∧ entry.name = name.entry

/-- `FindPackage` finds the package with the name. -/
theorem ResourceTable.findPackage_eq_some_iff {table : ResourceTable ι} (htable : table.Wf)
    {name : Bytes} {package : ResourceTablePackage ι} :
    table.findPackage name = some package ↔ package ∈ table.packages ∧ package.name = name := by
  rw [ResourceTable.findPackage, findSorted_eq_some_iff htable.sorted,
    Std.LawfulEqCmp.compare_eq_iff_eq]

/-- `FindType` finds the type with the name. -/
theorem ResourceTablePackage.findType_eq_some_iff {package : ResourceTablePackage ι}
    (hpackage : package.Wf) {name : ResourceNamedType} {type : ResourceTableType ι} :
    package.findType name = some type ↔ type ∈ package.types ∧ type.namedType = name := by
  rw [ResourceTablePackage.findType, findSorted_eq_some_iff hpackage.sorted,
    ResourceNamedType.compare_eq_iff]

/-- The entries with a name are found. -/
theorem ResourceTableType.mem_entriesNamed_iff {type : ResourceTableType ι} (htype : type.Wf)
    {name : Bytes} {entry : ResourceEntry ι} :
    entry ∈ (type.entriesNamed name).1 ↔ entry ∈ type.entries ∧ entry.name = name := by
  obtain ⟨pre, range, post, hsplit, hnamed, -, hpre, hrange, hpost⟩ :=
    exists_split_entriesNamed htype name
  rw [hnamed, hsplit]
  have hself : compare entry.name entry.name = .eq := Std.ReflCmp.compare_self
  constructor
  · intro h
    exact ⟨by simp [h], hrange entry h⟩
  · rintro ⟨h, rfl⟩
    rcases List.mem_append.mp h with h | h
    · have hlt := hpre entry h
      rw [hself] at hlt
      cases hlt
    · rcases List.mem_append.mp h with h | h
      · exact h
      · have hgt := hpost entry h
        rw [hself] at hgt
        cases hgt

/-- Entries with the same name and identifier are the same. -/
theorem ResourceTableType.entry_eq {type : ResourceTableType ι} (htype : type.Wf)
    {a b : ResourceEntry ι} (ha : a ∈ type.entries) (hb : b ∈ type.entries) (hname : a.name = b.name)
    {id : ResourceId} (hida : a.id = some id) (hidb : b.id = some id) : a = b := by
  have hlt : ∀ x y : ResourceEntry ι, x.name = y.name → x.id = some id → y.id = some id →
      ¬ EntryLt x.nameAndId y.nameAndId := by
    rintro x y hxy hx hy (hlt | ⟨-, i, j, hi, hj, hne⟩)
    · have hlt : compare x.name y.name = .lt := hlt
      have hself : compare y.name y.name = .eq := Std.ReflCmp.compare_self
      rw [hxy, hself] at hlt
      cases hlt
    · have hi : x.id = some i := hi
      have hj : y.id = some j := hj
      rw [hx] at hi
      rw [hy] at hj
      exact hne (Option.some.inj (hi.symm.trans hj))
  by_contra hne
  obtain ⟨i, hi, rfl⟩ := List.mem_iff_getElem.mp ha
  obtain ⟨j, hj, rfl⟩ := List.mem_iff_getElem.mp hb
  have hpairs := List.pairwise_iff_getElem.mp htype.sorted
  rcases Nat.lt_trichotomy i j with hij | rfl | hij
  · exact hlt _ _ hname hida hidb (hpairs i j hi hj hij)
  · exact hne rfl
  · exact hlt _ _ hname.symm hidb hida (hpairs j i hj hi hij)

/-- **`FindResource(name, id)` finds the one entry with that name and identifier.** -/
theorem ResourceTable.findResourceWithId_eq_some_iff {table : ResourceTable ι} (htable : table.Wf)
    {name : ResourceName} {id : ResourceId} {package : ResourceTablePackage ι}
    {type : ResourceTableType ι} {entry : ResourceEntry ι} :
    table.findResourceWithId name id = some (package, type, entry)
      ↔ table.Holds name package type entry ∧ entry.id = some id := by
  constructor
  · intro h
    obtain ⟨p, hp, h⟩ := Option.bind_eq_some_iff.mp h
    obtain ⟨t, ht, h⟩ := Option.bind_eq_some_iff.mp h
    obtain ⟨e, he, h⟩ := Option.bind_eq_some_iff.mp h
    cases h
    obtain ⟨hp, hpname⟩ := (ResourceTable.findPackage_eq_some_iff htable).mp hp
    have hpackage := htable.package package hp
    obtain ⟨ht, htname⟩ := (ResourceTablePackage.findType_eq_some_iff hpackage).mp ht
    obtain ⟨he', hename⟩ := (ResourceTableType.mem_entriesNamed_iff (hpackage.type type ht)).mp
      (List.mem_of_find?_eq_some he)
    exact ⟨⟨hp, hpname, ht, htname, he', hename⟩, by simpa using List.find?_some he⟩
  · rintro ⟨⟨hp, hpname, ht, htname, he, hename⟩, hid⟩
    have hpackage := htable.package package hp
    have htype := hpackage.type type ht
    have hmem := (ResourceTableType.mem_entriesNamed_iff htype).mpr ⟨he, hename⟩
    -- the search succeeds, and what it finds is the entry
    have hsome : ((type.entriesNamed name.entry).1.find? fun e => e.id = some id).isSome := by
      rw [List.find?_isSome]
      exact ⟨entry, hmem, by simpa using hid⟩
    obtain ⟨e, hfind⟩ := Option.isSome_iff_exists.mp hsome
    obtain ⟨he', hename'⟩ := (ResourceTableType.mem_entriesNamed_iff htype).mp
      (List.mem_of_find?_eq_some hfind)
    have heq : e = entry := ResourceTableType.entry_eq htype he' he (hename'.trans hename.symm)
      (by simpa using List.find?_some hfind) hid
    rw [ResourceTable.findResourceWithId,
      (ResourceTable.findPackage_eq_some_iff htable).mpr ⟨hp, hpname⟩, Option.bind_eq_bind,
      Option.bind_some, (ResourceTablePackage.findType_eq_some_iff hpackage).mpr ⟨ht, htname⟩,
      Option.bind_eq_bind, Option.bind_some, hfind, heq]
    rfl

/-- What `FindResource(name)` finds has that name. -/
theorem ResourceTable.holds_of_findResource {table : ResourceTable ι} (htable : table.Wf)
    {name : ResourceName} {package : ResourceTablePackage ι} {type : ResourceTableType ι}
    {entry : ResourceEntry ι} (h : table.findResource name = some (package, type, entry)) :
    table.Holds name package type entry := by
  obtain ⟨p, hp, h⟩ := Option.bind_eq_some_iff.mp h
  obtain ⟨t, ht, h⟩ := Option.bind_eq_some_iff.mp h
  obtain ⟨e, he, h⟩ := Option.bind_eq_some_iff.mp h
  cases h
  obtain ⟨hp, hpname⟩ := (ResourceTable.findPackage_eq_some_iff htable).mp hp
  obtain ⟨ht, htname⟩ :=
    (ResourceTablePackage.findType_eq_some_iff (htable.package package hp)).mp ht
  obtain ⟨he, hename⟩ := mem_of_findSorted he
  exact ⟨hp, hpname, ht, htname, he, Std.LawfulEqCmp.compare_eq_iff_eq.mp hename⟩

/-- **`FindResource(name)` finds an entry iff the table holds one with that name.** -/
theorem ResourceTable.findResource_isSome_iff {table : ResourceTable ι} (htable : table.Wf)
    (name : ResourceName) :
    (table.findResource name).isSome ↔ ∃ package type entry, table.Holds name package type entry := by
  constructor
  · intro h
    obtain ⟨⟨package, type, entry⟩, h⟩ := Option.isSome_iff_exists.mp h
    exact ⟨package, type, entry, ResourceTable.holds_of_findResource htable h⟩
  · rintro ⟨package, type, entry, hp, hpname, ht, htname, he, hename⟩
    have hpackage := htable.package package hp
    have hsome : (type.findEntry name.entry).isSome :=
      (findSorted_isSome_iff (sortedBy_of_entryLt (hpackage.type type ht).sorted) _).mpr
        ⟨entry, he, Std.LawfulEqCmp.compare_eq_iff_eq.mpr hename⟩
    obtain ⟨e, hfind⟩ := Option.isSome_iff_exists.mp hsome
    rw [ResourceTable.findResource,
      (ResourceTable.findPackage_eq_some_iff htable).mpr ⟨hp, hpname⟩, Option.bind_eq_bind,
      Option.bind_some, (ResourceTablePackage.findType_eq_some_iff hpackage).mpr ⟨ht, htname⟩,
      Option.bind_eq_bind, Option.bind_some, hfind]
    rfl

/-- **`FindValue` finds the one value with that configuration and product.** -/
theorem ResourceEntry.findValue_eq_some_iff {entry : ResourceEntry ι} (hentry : entry.Wf)
    {config : ResTableConfig} {product : Bytes} {value : ResourceConfigValue ι} :
    entry.findValue config product = some value
      ↔ value ∈ entry.values ∧ value.config.compare config = .eq ∧ value.product = product := by
  rw [ResourceEntry.findValue, findSorted_eq_some_iff hentry.values, ConfigKey.compare_eq_iff]
  rfl

/-- **The representation invariant over whole runs**: after every sequence of operations the vectors
of the table are sorted, so the lookups find exactly what the table holds. -/
theorem wf_and_lookups_of_runOps {isValidResourceEntryName : Bytes → Bool}
    {ops : List (TableOp ι)} {table : ResourceTable ι}
    (h : runOps isValidResourceEntryName ops = some table) :
    table.Wf
      ∧ (∀ name id package type entry,
        table.findResourceWithId name id = some (package, type, entry)
          ↔ table.Holds name package type entry ∧ entry.id = some id)
      ∧ (∀ name package type entry, table.findResource name = some (package, type, entry) →
        table.Holds name package type entry)
      ∧ (∀ name, (table.findResource name).isSome
          ↔ ∃ package type entry, table.Holds name package type entry)
      ∧ ∀ package ∈ table.packages, ∀ type ∈ package.types, ∀ entry ∈ type.entries,
        ∀ config product value, entry.findValue config product = some value
          ↔ value ∈ entry.values ∧ value.config.compare config = .eq ∧ value.product = product := by
  have htable := wf_of_runOps h
  refine ⟨htable, ?_, ?_, ?_, ?_⟩
  · intro name id package type entry
    exact ResourceTable.findResourceWithId_eq_some_iff htable
  · intro name package type entry hfind
    exact ResourceTable.holds_of_findResource htable hfind
  · intro name
    exact ResourceTable.findResource_isSome_iff htable name
  · intro package hp type ht entry he config product value
    exact ResourceEntry.findValue_eq_some_iff (((htable.package package hp).type type ht).entry entry he)

/-- A resource with a value behind a flag of the given status, and an identifier. -/
def sampleResource (status : FlagStatus) (id : BitVec 32) : NewResource Unit where
  name := ⟨[97], ⟨[98], .kString⟩, [99]⟩
  value := some ⟨.string, (), false, true, some ⟨[102], false⟩, status⟩
  config := ResTableConfig.defaultConfig
  product := []
  id := some (⟨id⟩, .createEntry)
  visibility := some ⟨.kPublic, false⟩
  overlayable := none
  allowNew := none
  stagedId := none
  allowMangled := false
  usesReadwriteFeatureFlags := false

/-- A run with two entries of one name, a second value of the same configuration, a removal and a
value without content. -/
def sampleOps : List (TableOp Unit) :=
  [.addResource (sampleResource .disabled 0x7f010000#32),
    .addResource (sampleResource .enabled 0x7f010001#32),
    .addResource (sampleResource .enabled 0x7f010001#32),
    .addResource (sampleResource .enabled 0x7f010002#32),
    .removeResource ⟨[97], ⟨[98], .kString⟩, [99]⟩ ⟨0x7f010000#32⟩,
    .findOrCreateValue 0 0 1 ResTableConfig.defaultConfig [100]]

theorem wf_and_lookups_of_runOps_sample :
    ∃ table, runOps (fun _ => true) sampleOps = some table ∧ table.Wf
      ∧ ∀ name, (table.findResource name).isSome
          ↔ ∃ package type entry, table.Holds name package type entry := by
  have hrun : (runOps (fun _ => true) sampleOps).isSome := by rfl
  obtain ⟨table, htable⟩ := Option.isSome_iff_exists.mp hrun
  have h := wf_and_lookups_of_runOps htable
  exact ⟨table, htable, h.1, h.2.2.2.1⟩

end AndroidSdk.Aapt2
