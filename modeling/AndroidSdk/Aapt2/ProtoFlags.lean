import Mathlib.Data.List.InsertIdx
import AndroidSdk.Aapt2.ResourceTable

/-! # Feature flags in the proto format

`SerializeTableToPb` writes the values of an entry, and those behind disabled flags, as messages
with the status and the flag of each; `DeserializePackageFromPb` reads them back into a new entry.
What a value holds besides its flag, and configurations, are written and read by a codec.

* **`PbCodec.serializeEntry`**, **`PbCodec.deserializeEntry`** — the loops over the values.
* **`ReadsTheSame`** — the values that are read have the keys, flags and statuses of those written.
* **`readsTheSame_iff`** — when this holds. -/

namespace AndroidSdk.Aapt2

open Lib SplitSelect

/-! ## Messages -/

/-- `pb::Item`: its value and the flag that it is behind. -/
structure PbItem (π : Type) where
  value : π
  flagStatus : UInt32
  flagNegated : Bool
  flagName : Bytes

/-- `pb::CompoundValue`: its value and the flag that it is behind. -/
structure PbCompoundValue (π : Type) where
  value : π
  flagStatus : UInt32
  flagNegated : Bool
  flagName : Bytes

/-- The oneof of `pb::Value`. -/
inductive PbValueCase (π : Type) where
  | item (item : PbItem π)
  | compoundValue (compound : PbCompoundValue π)

/-- `pb::Value`. -/
structure PbValue (π : Type) where
  value : PbValueCase π
  weak : Bool

/-- The flag that `item()` has; that of a compound value is the default instance. -/
def PbValue.itemFlag {π : Type} (pb : PbValue π) : FeatureFlagAttribute :=
  match pb.value with
  | .item item => ⟨item.flagName, item.flagNegated⟩
  | .compoundValue _ => ⟨[], false⟩

/-- `pb::ConfigValue`. -/
structure PbConfigValue (χ π : Type) where
  config : χ
  product : Bytes
  value : PbValue π

/-- The values of `pb::Entry`. -/
structure PbEntry (χ π : Type) where
  configValue : List (PbConfigValue χ π)
  flagDisabledConfigValue : List (PbConfigValue χ π)

/-- What writes and reads configurations and the contents of values. -/
structure PbCodec (ι χ π : Type) where
  /-- `SerializeConfig`. -/
  serializeConfig : ResTableConfig → χ
  /-- `DeserializeConfigFromPb`. -/
  deserializeConfig : χ → Except Bytes ResTableConfig
  /-- `ValueSerializer`. -/
  serializeContent : ValueKind → ι → π
  /-- `DeserializeItemFromPbInternal`. -/
  deserializeItem : ResTableConfig → π → Except Bytes (ValueKind × ι)
  /-- The cases of `DeserializeValueFromPb` for compound values. -/
  deserializeCompound : ResTableConfig → π → Except Bytes (ValueKind × ι)

/-! ## Writing -/

/-- The subclasses of `Item`; the others are compound values. -/
def ValueKind.isItem : ValueKind → Bool
  | .reference | .id | .rawString | .string | .styledString | .fileReference | .binaryPrimitive =>
      true
  | .attribute _ | .style | .array | .plural | .styleable | .kMacro => false

/-- The number of a status. -/
def FlagStatus.toUInt32 : FlagStatus → UInt32
  | .noFlag => 0
  | .disabled => 1
  | .enabled => 2

/-- The status with a number. -/
def FlagStatus.ofUInt32 (n : UInt32) : FlagStatus :=
  if n = 1 then .disabled else if n = 2 then .enabled else .noFlag

/-- A status survives as a number. -/
@[simp]
theorem FlagStatus.ofUInt32_toUInt32 (status : FlagStatus) : ofUInt32 status.toUInt32 = status := by
  cases status <;> rfl

/-- The value that a constructor makes; identifiers are weak from the start. -/
def Value.fresh {ι : Type} (kind : ValueKind) (content : ι) : Value ι :=
  ⟨kind, content, kind = .id, true, none, .noFlag⟩

variable {ι χ π : Type}

namespace PbCodec

variable (codec : PbCodec ι χ π)

/-- `SerializeValueToPb`. The fields of a flag that is not written have their defaults. -/
def serializeValueToPb (value : Value ι) : PbValue π :=
  let content := codec.serializeContent value.kind value.content
  let status := value.flagStatus.toUInt32
  if value.kind.isItem then
    match value.flag with
    | some flag => ⟨.item ⟨content, status, flag.negated, flag.name⟩, value.weak⟩
    | none => ⟨.item ⟨content, status, false, []⟩, value.weak⟩
  else
    match value.flag with
    | some flag => ⟨.compoundValue ⟨content, status, flag.negated, flag.name⟩, value.weak⟩
    | none => ⟨.compoundValue ⟨content, status, false, []⟩, value.weak⟩

/-- The body of both loops over values; there is no message without a value. -/
def serializeConfigValue (v : ResourceConfigValue ι) : Option (PbConfigValue χ π) :=
  v.value.map fun value =>
    ⟨codec.serializeConfig v.config, v.product, codec.serializeValueToPb value⟩

/-- The two loops of `SerializeTableToPb` over the values of an entry. -/
def serializeEntry (entry : ResourceEntry ι) : Option (PbEntry χ π) := do
  let configValue ← entry.values.mapM codec.serializeConfigValue
  let flagDisabledConfigValue ← entry.flagDisabledValues.mapM codec.serializeConfigValue
  return ⟨configValue, flagDisabledConfigValue⟩

/-! ## Reading -/

/-- `DeserializeItemFromPb`: a flag without a name is none. -/
def deserializeItemFromPb (config : ResTableConfig) (pb : PbItem π) : Except Bytes (Value ι) := do
  let (kind, content) ← codec.deserializeItem config pb.value
  let item := { Value.fresh kind content with flagStatus := .ofUInt32 pb.flagStatus }
  if pb.flagName.isEmpty then
    return item
  else
    return { item with flag := some ⟨pb.flagName, pb.flagNegated⟩ }

/-- `DeserializeValueFromPb`: a compound value always gets a flag. -/
def deserializeValueFromPb (config : ResTableConfig) (pb : PbValue π) :
    Except Bytes (Value ι) := do
  let value ← match pb.value with
    | .item item => codec.deserializeItemFromPb config item
    | .compoundValue compound => do
        let (kind, content) ← codec.deserializeCompound config compound.value
        pure { Value.fresh kind content with
          flagStatus := .ofUInt32 compound.flagStatus
          flag := some ⟨compound.flagName, compound.flagNegated⟩ }
  return { value with weak := pb.weak }

/-- The error of both loops. -/
def duplicateConfiguration : Bytes := bytes "duplicate configuration in resource table"

/-- The body of both loops: a value that was found must be new, and is set. -/
def setRead (found : List (ResourceConfigValue ι) × ℕ) (value : Except Bytes (Value ι)) :
    Except Bytes (List (ResourceConfigValue ι)) :=
  if (found.1[found.2]?.bind ResourceConfigValue.value).isSome then
    .error duplicateConfiguration
  else do
    let value ← value
    return found.1.modify found.2 fun v => { v with value := some value }

/-- The body of the loop over `config_value`, with `FindOrCreateValue`. -/
def deserializeConfigValue (values : List (ResourceConfigValue ι)) (pb : PbConfigValue χ π) :
    Except Bytes (List (ResourceConfigValue ι)) := do
  let config ← codec.deserializeConfig pb.config
  setRead (findOrCreate ConfigKey.compare ResourceConfigValue.key ⟨config, pb.product⟩
    (.new config pb.product) values) (codec.deserializeValueFromPb config pb.value)

/-- The body of the loop over `flag_disabled_config_value`, with `FindOrCreateFlagDisabledValue`:
the flag that is looked up is always that of the item. -/
def deserializeFlagDisabledConfigValue (values : List (ResourceConfigValue ι))
    (pb : PbConfigValue χ π) : Except Bytes (List (ResourceConfigValue ι)) := do
  let config ← codec.deserializeConfig pb.config
  setRead (findOrCreate ConfigFlagKey.compare ResourceConfigValue.flagKey
    ⟨config, pb.product, pb.value.itemFlag⟩ (.new config pb.product) values)
    (codec.deserializeValueFromPb config pb.value)

/-- The two loops of `DeserializePackageFromPb` over the values of a new entry. -/
def deserializeEntry (name : Bytes) (pb : PbEntry χ π) : Except Bytes (ResourceEntry ι) := do
  let values ← pb.configValue.foldlM codec.deserializeConfigValue []
  let flagDisabledValues ←
    pb.flagDisabledConfigValue.foldlM codec.deserializeFlagDisabledConfigValue []
  return { (ResourceEntry.new name : ResourceEntry ι) with values, flagDisabledValues }

end PbCodec

/-! ## One value -/

/-- The flag that a value has after it was read. -/
def Value.flagRead (value : Value ι) : Option FeatureFlagAttribute :=
  if value.kind.isItem then value.flag.filter fun flag => !flag.name.isEmpty
  else some (value.flag.getD ⟨[], false⟩)

/-- A value that was read: its content comes from the message, the rest from the value. -/
def Value.read (value : Value ι) (r : ValueKind × ι) : Value ι :=
  ⟨r.1, r.2, value.weak, true, value.flagRead, value.flagStatus⟩

/-- **The flag survives**: that of an item has a name, and a compound value has one. -/
def Value.KeepsFlag (value : Value ι) : Prop :=
  if value.kind.isItem then ∀ flag, value.flag = some flag → flag.name ≠ []
  else value.flag.isSome = true

/-- The flag survives iff it is the flag that is read. -/
theorem Value.keepsFlag_iff (value : Value ι) : value.KeepsFlag ↔ value.flagRead = value.flag := by
  rw [Value.KeepsFlag, Value.flagRead]
  split_ifs with hitem
  · cases value.flag with
    | none => simp
    | some flag => simp
  · cases value.flag with
    | none => simp
    | some flag => simp

namespace PbCodec

variable (codec : PbCodec ι χ π)

/-- The content of a value that was written, as it is read. -/
def content (config : ResTableConfig) (value : Value ι) : Except Bytes (ValueKind × ι) :=
  let content := codec.serializeContent value.kind value.content
  if value.kind.isItem then codec.deserializeItem config content
  else codec.deserializeCompound config content

/-- **A value that was written is read** with its status, and the flag that is left of it. -/
theorem deserializeValueFromPb_serializeValueToPb (config : ResTableConfig) (value : Value ι) :
    codec.deserializeValueFromPb config (codec.serializeValueToPb value)
      = (codec.content config value).map value.read := by
  obtain ⟨kind, content, weak, translatable, flag, status⟩ := value
  cases hitem : kind.isItem with
  | true =>
      cases hread : codec.deserializeItem config (codec.serializeContent kind content) with
      | error e =>
          cases flag <;> simp [serializeValueToPb, deserializeValueFromPb, deserializeItemFromPb,
            PbCodec.content, hitem, hread, bind, Except.bind, Except.map]
      | ok r =>
          have hcontent : codec.content config ⟨kind, content, weak, translatable, flag, status⟩
              = .ok r := by
            simp [PbCodec.content, hitem, hread]
          rw [hcontent]
          -- an item keeps its flag, unless the flag has no name
          cases flag with
          | none =>
              simp [serializeValueToPb, deserializeValueFromPb, deserializeItemFromPb, hitem, hread,
                bind, Except.bind, pure, Except.pure, Except.map, Value.fresh, Value.read,
                Value.flagRead]
          | some flag =>
              obtain ⟨name, negated⟩ := flag
              cases name with
              | nil =>
                  simp [serializeValueToPb, deserializeValueFromPb, deserializeItemFromPb, hitem,
                    hread, bind, Except.bind, pure, Except.pure, Except.map, Value.fresh, Value.read,
                    Value.flagRead]
                  rfl
              | cons c name =>
                  simp [serializeValueToPb, deserializeValueFromPb, deserializeItemFromPb, hitem,
                    hread, bind, Except.bind, pure, Except.pure, Except.map, Value.fresh, Value.read,
                    Value.flagRead]
                  rfl
  -- compound values are written apart from items
  | false =>
      cases hread : codec.deserializeCompound config (codec.serializeContent kind content) with
      | error e =>
          cases flag <;> simp [serializeValueToPb, deserializeValueFromPb, PbCodec.content, hitem,
            hread, bind, Except.bind, Except.map]
      | ok r =>
          cases flag <;> simp [serializeValueToPb, deserializeValueFromPb, PbCodec.content, hitem,
            hread, bind, Except.bind, pure, Except.pure, Except.map, Value.fresh, Value.read,
            Value.flagRead]

/-- The flag that is looked up for a value behind a disabled flag: that of an item, and none for
a compound value. -/
theorem itemFlag_serializeValueToPb (value : Value ι) :
    (codec.serializeValueToPb value).itemFlag
      = if value.kind.isItem then value.flag.getD ⟨[], false⟩ else ⟨[], false⟩ := by
  rw [serializeValueToPb]
  cases value.flag <;> cases value.kind.isItem <;> rfl

end PbCodec

/-! ## One step of the loops -/

/-- The key of a value, its flag and its status. -/
def ResourceConfigValue.flagging (v : ResourceConfigValue ι) :
    ResTableConfig × Bytes × Option FeatureFlagAttribute × Option FlagStatus :=
  (v.config, v.product, v.value.bind Value.flag, v.value.map Value.flagStatus)

/-- The same after the value was read. -/
def ResourceConfigValue.flaggingRead (v : ResourceConfigValue ι) :
    ResTableConfig × Bytes × Option FeatureFlagAttribute × Option FlagStatus :=
  (v.config, v.product, v.value.bind Value.flagRead, v.value.map Value.flagStatus)

/-- The flagging gives the key. -/
theorem ResourceConfigValue.key_eq {v w : ResourceConfigValue ι} (h : v.flagging = w.flagging) :
    v.key = w.key := by
  simp only [flagging, Prod.mk.injEq] at h
  rw [key, key, h.1, h.2.1]

/-- The flagging gives the key among the values behind disabled flags. -/
theorem ResourceConfigValue.flagKey_eq {v w : ResourceConfigValue ι}
    (h : v.flagging = w.flagging) : v.flagKey = w.flagKey := by
  simp only [flagging, Prod.mk.injEq] at h
  rw [flagKey, flagKey, flag, flag, h.1, h.2.1, h.2.2.1]

/-- Filling a new value between two parts of a list. -/
theorem PbCodec.setRead_append {pre post : List (ResourceConfigValue ι)} {κ : Type}
    {cmp : κ → κ → Ordering} {key : ResourceConfigValue ι → κ} {k : κ}
    (hpre : ∀ x ∈ pre, cmp (key x) k = .lt) (hpost : ∀ x ∈ post, cmp (key x) k ≠ .lt)
    (hsome : ∀ x ∈ post, x.value.isSome) (config : ResTableConfig) (product : Bytes)
    (value : Except Bytes (Value ι)) :
    setRead (findOrCreate cmp key k (.new config product) (pre ++ post)) value
      = if post.head?.any (fun x => cmp (key x) k == .eq) then .error duplicateConfiguration
        else value.map fun x => pre ++ ⟨config, product, some x, false⟩ :: post := by
  rw [findOrCreate_append hpre hpost, setRead]
  split_ifs with hfound hset hset
  · rfl
  · -- what is found was set before
    cases post with
    | nil => simp at hfound
    | cons x post =>
        refine absurd ?_ hset
        simpa using hsome x List.mem_cons_self
  · simp [ResourceConfigValue.new] at hset
  · cases value with
    | error e => rfl
    | ok x =>
        show Except.ok ((pre ++ ResourceConfigValue.new config product :: post).modify pre.length _) = _
        rw [modify_append_length]
        rfl

/-- **What a successful step does**: it inserts the value that was read. -/
theorem PbCodec.exists_of_setRead {l l' : List (ResourceConfigValue ι)} {κ : Type}
    {cmp : κ → κ → Ordering} {key : ResourceConfigValue ι → κ} {k : κ}
    (hsome : ∀ x ∈ l, x.value.isSome) {config : ResTableConfig} {product : Bytes}
    {value : Except Bytes (Value ι)}
    (h : setRead (findOrCreate cmp key k (.new config product) l) value = .ok l') :
    ∃ x i, value = .ok x ∧ i ≤ l.length ∧ l' = l.insertIdx i ⟨config, product, some x, false⟩ := by
  set i := lowerBound (fun x => cmp (key x) k == .lt) l with hi
  have hle : i ≤ l.length := lowerBound_le_length _ _
  by_cases hfound : l[i]?.any (fun x => cmp (key x) k == .eq) = true
  · -- what is found was set before, so this is an error
    obtain ⟨x, hx, -⟩ := (Option.any_eq_true _ _).mp hfound
    have hset := hsome x (List.mem_of_getElem? hx)
    rw [setRead, findOrCreate, ← hi, if_pos hfound] at h
    simp only [hx, Option.bind_some, hset, if_true] at h
    cases h
  · obtain ⟨pre, post, hl, hlen⟩ : ∃ pre post, l = pre ++ post ∧ i = pre.length :=
      ⟨l.take i, l.drop i, (List.take_append_drop i l).symm, by rw [List.length_take]; omega⟩
    have hcreate : findOrCreate cmp key k (.new config product) l
        = (pre ++ .new config product :: post, pre.length) := by
      rw [findOrCreate, ← hi, if_neg hfound, hl, hlen, insertIdx_append_length]
    have hnew : ((pre ++ ResourceConfigValue.new config product :: post)[pre.length]?.bind
        ResourceConfigValue.value).isSome = false := by
      simp [ResourceConfigValue.new]
    rw [hcreate, setRead, hnew] at h
    cases value with
    | error e => cases h
    | ok x =>
        refine ⟨x, i, rfl, hle, ?_⟩
        have heq := Except.ok.inj h
        rw [← heq, modify_append_length, hl, hlen, insertIdx_append_length]
        rfl

/-! ## The loops -/

section Loops

variable {codec : PbCodec ι χ π}

/-- A message that a value was written to, with a configuration that survives. -/
structure PbCodec.Written (codec : PbCodec ι χ π) (v : ResourceConfigValue ι)
    (m : PbConfigValue χ π) (x : Value ι) : Prop where
  value : v.value = some x
  message : m = ⟨codec.serializeConfig v.config, v.product, codec.serializeValueToPb x⟩
  config : codec.deserializeConfig (codec.serializeConfig v.config) = .ok v.config

/-- The step of the loop over values, on a message that was written. -/
theorem PbCodec.Written.deserializeConfigValue_eq {v : ResourceConfigValue ι}
    {m : PbConfigValue χ π} {x : Value ι} (h : codec.Written v m x)
    (values : List (ResourceConfigValue ι)) :
    codec.deserializeConfigValue values m
      = setRead (findOrCreate ConfigKey.compare ResourceConfigValue.key v.key
          (.new v.config v.product) values) ((codec.content v.config x).map x.read) := by
  rw [h.message, deserializeConfigValue, h.config]
  show setRead _ (codec.deserializeValueFromPb v.config (codec.serializeValueToPb x)) = _
  rw [deserializeValueFromPb_serializeValueToPb]
  rfl

/-- The key under which a value behind a disabled flag is looked up. -/
def ResourceConfigValue.readKey (v : ResourceConfigValue ι) (x : Value ι) : ConfigFlagKey :=
  ⟨v.config, v.product, if x.kind.isItem then v.flag else ⟨[], false⟩⟩

/-- The step of the loop over values behind disabled flags, on a message that was written. -/
theorem PbCodec.Written.deserializeFlagDisabledConfigValue_eq {v : ResourceConfigValue ι}
    {m : PbConfigValue χ π} {x : Value ι} (h : codec.Written v m x)
    (values : List (ResourceConfigValue ι)) :
    codec.deserializeFlagDisabledConfigValue values m
      = setRead (findOrCreate ConfigFlagKey.compare ResourceConfigValue.flagKey (v.readKey x)
          (.new v.config v.product) values) ((codec.content v.config x).map x.read) := by
  rw [h.message, deserializeFlagDisabledConfigValue, h.config]
  have hflag : (codec.serializeValueToPb x).itemFlag
      = if x.kind.isItem then v.flag else ⟨[], false⟩ := by
    rw [itemFlag_serializeValueToPb, ResourceConfigValue.flag, h.value, Option.bind_some]
  simp only [bind, Except.bind, deserializeValueFromPb_serializeValueToPb, hflag]
  rfl

/-- The flagging of a value that was read. -/
theorem PbCodec.Written.flagging_read {v : ResourceConfigValue ι} {m : PbConfigValue χ π}
    {x : Value ι} (h : codec.Written v m x) (r : ValueKind × ι) :
    (⟨v.config, v.product, some (x.read r), false⟩ : ResourceConfigValue ι).flagging
      = v.flaggingRead := by
  rw [ResourceConfigValue.flagging, ResourceConfigValue.flaggingRead, h.value]
  rfl

/-- The loop reads a message by looking up a key. -/
def PbCodec.Reads (codec : PbCodec ι χ π)
    (step : List (ResourceConfigValue ι) → PbConfigValue χ π →
      Except Bytes (List (ResourceConfigValue ι))) : Prop :=
  ∀ v m x, codec.Written v m x → ∃ (κ : Type) (cmp : κ → κ → Ordering)
    (key : ResourceConfigValue ι → κ) (k : κ), ∀ values, step values m
      = setRead (findOrCreate cmp key k (.new v.config v.product) values)
        ((codec.content v.config x).map x.read)

/-- **What a loop that succeeds reads**: every content is read, and each value has its key, its
status and the flag that is left. -/
theorem PbCodec.Reads.of_foldlM {step : List (ResourceConfigValue ι) → PbConfigValue χ π →
    Except Bytes (List (ResourceConfigValue ι))} (hstep : codec.Reads step)
    {l : List (ResourceConfigValue ι)} {ms : List (PbConfigValue χ π)}
    (hwritten : List.Forall₂ (fun v m => ∃ x, codec.Written v m x) l ms)
    {acc acc' : List (ResourceConfigValue ι)} (hacc : ∀ y ∈ acc, y.value.isSome)
    (h : ms.foldlM step acc = .ok acc') :
    (acc'.map ResourceConfigValue.flagging).Perm
        (acc.map ResourceConfigValue.flagging ++ l.map ResourceConfigValue.flaggingRead)
      ∧ acc.Sublist acc' ∧ (∀ y ∈ acc', y.value.isSome)
      ∧ ∀ v ∈ l, ∀ x, v.value = some x → ∃ r, codec.content v.config x = .ok r := by
  induction hwritten generalizing acc with
  | nil =>
      obtain rfl : acc = acc' := by simpa [pure, Except.pure] using h
      exact ⟨by simp, .refl _, hacc, by simp⟩
  | @cons v m l ms hv hrest ih =>
      obtain ⟨x, hx⟩ := hv
      rw [List.foldlM_cons] at h
      obtain ⟨mid, hmid, h⟩ := bind_eq_ok_iff.mp h
      -- a value is put where its key belongs, whatever the others are
      obtain ⟨κ, cmp, key, k, hread⟩ := hstep v m x hx
      rw [hread] at hmid
      obtain ⟨x', i, hx', hi, rfl⟩ := exists_of_setRead hacc hmid
      obtain ⟨r, hr⟩ : ∃ r, codec.content v.config x = .ok r := by
        cases hcontent : codec.content v.config x with
        | error e =>
            rw [hcontent] at hx'
            cases hx'
        | ok r => exact ⟨r, rfl⟩
      obtain rfl : x.read r = x' := by
        rw [hr] at hx'
        exact Except.ok.inj hx'
      have hperm := List.perm_insertIdx
        (⟨v.config, v.product, some (x.read r), false⟩ : ResourceConfigValue ι) acc hi
      have hmem : ∀ y ∈ acc.insertIdx i ⟨v.config, v.product, some (x.read r), false⟩,
          y.value.isSome := by
        intro y hy
        rcases List.mem_cons.mp (hperm.mem_iff.mp hy) with rfl | hy
        · rfl
        · exact hacc y hy
      obtain ⟨hperm', hsub, hsome, hcontents⟩ := ih hmem h
      refine ⟨?_, (List.sublist_insertIdx acc i _).trans hsub, hsome, ?_⟩
      -- the order may differ, so that what is read is a permutation
      · refine hperm'.trans (((hperm.map _).append_right _).trans ?_)
        rw [List.map_cons, List.map_cons, hx.flagging_read, List.cons_append]
        exact List.perm_middle.symm
      · intro w hw y hy
        rcases List.mem_cons.mp hw with rfl | hw
        · rw [hx.value] at hy
          obtain rfl := Option.some.inj hy
          exact ⟨r, hr⟩
        · exact hcontents w hw y hy

/-- Both loops read by looking up a key. -/
theorem PbCodec.reads_deserializeConfigValue : codec.Reads codec.deserializeConfigValue :=
  fun v _ _ h => ⟨ConfigKey, ConfigKey.compare, ResourceConfigValue.key, v.key,
    h.deserializeConfigValue_eq⟩

@[inherit_doc PbCodec.reads_deserializeConfigValue]
theorem PbCodec.reads_deserializeFlagDisabledConfigValue :
    codec.Reads codec.deserializeFlagDisabledConfigValue :=
  fun v _ x h => ⟨ConfigFlagKey, ConfigFlagKey.compare, ResourceConfigValue.flagKey, v.readKey x,
    h.deserializeFlagDisabledConfigValue_eq⟩

/-- A value whose content is read and that is behind all others is put at the end. -/
theorem PbCodec.setRead_last {acc : List (ResourceConfigValue ι)} {κ : Type}
    {cmp : κ → κ → Ordering} {key : ResourceConfigValue ι → κ} {k : κ}
    (hlast : ∀ y ∈ acc, cmp (key y) k = .lt) (config : ResTableConfig) (product : Bytes)
    (x : Value ι) :
    setRead (findOrCreate cmp key k (.new config product) acc) (.ok x)
      = .ok (acc ++ [⟨config, product, some x, false⟩]) := by
  have hread : setRead (findOrCreate cmp key k (.new config product) (acc ++ [])) (.ok x) = _ :=
    setRead_append hlast (by simp) (by simp) config product (.ok x)
  rwa [List.append_nil] at hread

/-- **The values are read in their order.** -/
theorem PbCodec.foldlM_deserializeConfigValue {l : List (ResourceConfigValue ι)}
    {ms : List (PbConfigValue χ π)}
    (hwritten : List.Forall₂ (fun v m => ∃ x, codec.Written v m x) l ms)
    (hsorted : StrictlySortedBy ConfigKey.compare ResourceConfigValue.key l)
    {acc : List (ResourceConfigValue ι)}
    (hacc : ∀ y ∈ acc, ∀ v ∈ l, ConfigKey.compare y.key v.key = .lt)
    (hcontent : ∀ v ∈ l, ∀ x, v.value = some x → ∃ r, codec.content v.config x = .ok r) :
    ∃ acc', ms.foldlM codec.deserializeConfigValue acc = .ok (acc ++ acc')
      ∧ acc'.map ResourceConfigValue.flagging = l.map ResourceConfigValue.flaggingRead := by
  induction hwritten generalizing acc with
  | nil => exact ⟨[], by simp [pure, Except.pure], rfl⟩
  | @cons v m l ms hv hrest ih =>
      obtain ⟨x, hx⟩ := hv
      obtain ⟨r, hr⟩ := hcontent v List.mem_cons_self x hx.value
      obtain ⟨hv, hl⟩ := List.pairwise_cons.mp hsorted
      have hstep : codec.deserializeConfigValue acc m
          = .ok (acc ++ [⟨v.config, v.product, some (x.read r), false⟩]) := by
        rw [hx.deserializeConfigValue_eq, hr]
        exact setRead_last (fun y hy => hacc y hy v List.mem_cons_self) _ _ _
      have hacc' : ∀ y ∈ acc ++ [⟨v.config, v.product, some (x.read r), false⟩],
          ∀ w ∈ l, ConfigKey.compare y.key w.key = .lt := by
        intro y hy w hw
        rcases List.mem_append.mp hy with hy | hy
        · exact hacc y hy w (List.mem_cons_of_mem v hw)
        · obtain rfl := List.mem_singleton.mp hy
          exact hv w hw
      obtain ⟨acc', hfold, hflagging⟩ := ih hl hacc'
        fun w hw => hcontent w (List.mem_cons_of_mem v hw)
      refine ⟨⟨v.config, v.product, some (x.read r), false⟩ :: acc', ?_, ?_⟩
      · rw [List.foldlM_cons]
        refine bind_eq_ok_iff.mpr ⟨_, hstep, ?_⟩
        rw [hfold, List.append_assoc, List.singleton_append]
      · rw [List.map_cons, List.map_cons, hflagging, hx.flagging_read]

/-! ## Values behind disabled flags

A compound value is looked up without its flag, so it is put before the other values of its
configuration and product. It takes the place of none of them unless one has that very key. -/

/-- The flag that the default instance of a message has. -/
def FeatureFlagAttribute.unnamed : FeatureFlagAttribute := ⟨[], false⟩

/-- The keys with flags compare as those without, and then by the flags. -/
theorem ConfigFlagKey.compare_eq_then (a b : ConfigFlagKey) :
    a.compare b = (ConfigKey.compare ⟨a.config, a.product⟩ ⟨b.config, b.product⟩).then
      ((Ord.compare a.flag.name b.flag.name).then
        (Ord.compare a.flag.negated b.flag.negated)) := by
  simp only [ConfigFlagKey.compare, ConfigKey.compare, compareLex, compareOn]
  cases a.config.compare b.config <;> rfl

variable {v w : ResourceConfigValue ι}

/-- Lesser keys are lesser whatever the flags are. -/
theorem compare_flagKey_of_lt {flag : FeatureFlagAttribute} (h : v.key.compare w.key = .lt) :
    ConfigFlagKey.compare v.flagKey ⟨w.config, w.product, flag⟩ = .lt := by
  rw [ConfigFlagKey.compare_eq_then]
  show (v.key.compare w.key).then _ = .lt
  rw [h]
  rfl

/-- A lesser key with a flag is not a greater one without. -/
theorem isLE_of_compare_flagKey (h : ConfigFlagKey.compare v.flagKey w.flagKey = .lt) :
    (v.key.compare w.key).isLE := by
  rw [ConfigFlagKey.compare_eq_then] at h
  change (v.key.compare w.key).then _ = .lt at h
  cases hkey : v.key.compare w.key with
  | lt => rfl
  | eq => rfl
  | gt =>
      rw [hkey] at h
      cases h

/-- No flag is less than the one without a name. -/
theorem compare_unnamed (h : v.key.compare w.key = .eq) :
    ConfigFlagKey.compare v.flagKey ⟨w.config, w.product, .unnamed⟩
      = if v.flag = .unnamed then .eq else .gt := by
  rw [ConfigFlagKey.compare_eq_then]
  show (v.key.compare w.key).then ((compare v.flag.name []).then (compare v.flag.negated false)) = _
  rw [h]
  obtain ⟨name, negated⟩ := v.flag
  cases name with
  | nil => cases negated <;> rfl
  | cons c name => rfl

/-- The value is an item; one that is not set counts as one. -/
def ResourceConfigValue.isItem (v : ResourceConfigValue ι) : Bool :=
  v.value.all fun x => x.kind.isItem

/-- **The values read so far**: they are sorted by configuration and product, and a value with the
unnamed flag is the first with its configuration and product. -/
structure DisabledInv (acc done : List (ResourceConfigValue ι)) : Prop where
  perm : (acc.map ResourceConfigValue.flagging).Perm (done.map ResourceConfigValue.flagging)
  set : ∀ y ∈ acc, y.value.isSome
  sorted : SortedBy ConfigKey.compare ResourceConfigValue.key acc
  first : acc.Pairwise fun y z => y.key.compare z.key = .eq → z.flag ≠ .unnamed

/-- What was read comes from what was written. -/
theorem DisabledInv.exists_of_mem {acc done : List (ResourceConfigValue ι)}
    (h : DisabledInv acc done) {y : ResourceConfigValue ι} (hy : y ∈ acc) :
    ∃ a ∈ done, a.flagging = y.flagging :=
  List.mem_map.mp (h.perm.mem_iff.mp (List.mem_map_of_mem hy))

/-- What was written is read. -/
theorem DisabledInv.exists_of_mem_done {acc done : List (ResourceConfigValue ι)}
    (h : DisabledInv acc done) {a : ResourceConfigValue ι} (ha : a ∈ done) :
    ∃ y ∈ acc, y.flagging = a.flagging :=
  List.mem_map.mp (h.perm.mem_iff.mpr (List.mem_map_of_mem ha))

/-- Adding a value keeps the invariant. -/
theorem DisabledInv.insert {pre post done : List (ResourceConfigValue ι)}
    (h : DisabledInv (pre ++ post) done) {y : ResourceConfigValue ι} (hy : y.flagging = v.flagging)
    (hset : y.value.isSome) (hpre : ∀ a ∈ pre, (a.key.compare v.key).isLE)
    (hpost : ∀ a ∈ post, v.key.compare a.key = .eq ∧ a.flag ≠ .unnamed)
    (hunnamed : v.flag = .unnamed → ∀ a ∈ pre, a.key.compare v.key ≠ .eq) :
    DisabledInv (pre ++ y :: post) (done ++ [v]) := by
  have hkey : y.key = v.key := ResourceConfigValue.key_eq hy
  have hflag : y.flag = v.flag := congrArg ConfigFlagKey.flag (ResourceConfigValue.flagKey_eq hy)
  refine ⟨?_, ?_, ?_, ?_⟩
  · rw [List.map_append, List.map_cons, List.map_append, List.map_singleton, hy]
    refine List.perm_middle.trans ?_
    rw [← List.map_append]
    exact (h.perm.cons v.flagging).trans (List.perm_append_singleton _ _).symm
  · intro z hz
    rcases List.mem_append.mp hz with hz | hz
    · exact h.set z (List.mem_append_left _ hz)
    · rcases List.mem_cons.mp hz with rfl | hz
      · exact hset
      · exact h.set z (List.mem_append_right _ hz)
  · obtain ⟨h₁, h₂, h₃⟩ := List.pairwise_append.mp h.sorted
    refine List.pairwise_append.mpr ⟨h₁, List.pairwise_cons.mpr ⟨?_, h₂⟩, ?_⟩
    · intro a ha
      rw [hkey, (hpost a ha).1]
      rfl
    · intro a ha z hz
      rcases List.mem_cons.mp hz with rfl | hz
      · rw [hkey]
        exact hpre a ha
      · exact h₃ a ha z hz
  · obtain ⟨h₁, h₂, h₃⟩ := List.pairwise_append.mp h.first
    refine List.pairwise_append.mpr ⟨h₁, List.pairwise_cons.mpr ⟨?_, h₂⟩, ?_⟩
    · exact fun a ha _ => (hpost a ha).2
    · intro a ha z hz heq
      rcases List.mem_cons.mp hz with rfl | hz
      · rw [hflag]
        rw [hkey] at heq
        exact fun hunn => hunnamed hunn a ha heq
      · exact h₃ a ha z hz heq

/-- The values of the configuration and product of a value that is not less than any of those read
are at the end. -/
theorem DisabledInv.exists_split {acc done : List (ResourceConfigValue ι)} (h : DisabledInv acc done)
    (hlast : ∀ a ∈ done, ConfigFlagKey.compare a.flagKey v.flagKey = .lt) :
    ∃ pre post, acc = pre ++ post ∧ (∀ a ∈ pre, a.key.compare v.key = .lt)
      ∧ ∀ a ∈ post, a.key.compare v.key = .eq := by
  obtain ⟨pre, post, hacc, -, hpre, hpost⟩ := exists_split_lowerBound h.sorted v.key
  refine ⟨pre, post, hacc, hpre, fun a ha => ?_⟩
  obtain ⟨b, hb, hab⟩ := h.exists_of_mem (hacc ▸ List.mem_append_right pre ha)
  have hle := isLE_of_compare_flagKey (hlast b hb)
  rw [ResourceConfigValue.key_eq hab] at hle
  have hnot := hpost a ha
  revert hle hnot
  cases a.key.compare v.key <;> simp

/-- Looking up the unnamed flag finds the value that has it. -/
theorem DisabledInv.head_any_iff {acc done pre post : List (ResourceConfigValue ι)}
    (h : DisabledInv acc done) (hacc : acc = pre ++ post)
    (hpost : ∀ a ∈ post, a.key.compare v.key = .eq) :
    post.head?.any (fun a => ConfigFlagKey.compare a.flagKey ⟨v.config, v.product, .unnamed⟩ == .eq)
      = true ↔ ∃ a ∈ post, a.flag = .unnamed := by
  have hcompare : ∀ a ∈ post, (ConfigFlagKey.compare a.flagKey ⟨v.config, v.product, .unnamed⟩ == .eq)
      = true ↔ a.flag = .unnamed := by
    intro a ha
    rw [compare_unnamed (hpost a ha)]
    split_ifs with hunnamed
    · simp [hunnamed]
    · simp [hunnamed]
  cases post with
  | nil => simp
  | cons z post =>
      rw [List.head?_cons, Option.any_some, hcompare z List.mem_cons_self]
      constructor
      · exact fun hz => ⟨z, List.mem_cons_self, hz⟩
      · rintro ⟨a, ha, hunnamed⟩
        rcases List.mem_cons.mp ha with rfl | hmem
        · exact hunnamed
        · -- only the first value can have it
          have hfirst := h.first
          rw [hacc] at hfirst
          have hz := (List.pairwise_cons.mp (List.pairwise_append.mp hfirst).2.1).1 a hmem
          have heq : z.key.compare a.key = .eq := Std.TransCmp.eq_trans
            (hpost z List.mem_cons_self) (Std.OrientedCmp.eq_symm (hpost a ha))
          exact absurd hunnamed (hz heq)

/-- A value that was read keeps another one from being read: a compound value is put before the
values of its configuration and product, and finds one with the unnamed flag there. -/
def Blocks (a v : ResourceConfigValue ι) : Prop :=
  a.key.compare v.key = .eq ∧ a.flag = .unnamed ∧ v.isItem = false

/-- **One step of the loop**: an item is put at the end, a compound value before the values of its
configuration and product. -/
theorem DisabledInv.step {acc done : List (ResourceConfigValue ι)} (h : DisabledInv acc done)
    {m : PbConfigValue χ π} {x : Value ι} (hx : codec.Written v m x) (hkeeps : x.KeepsFlag)
    (hflag : x.flag.isSome) {r : ValueKind × ι} (hr : codec.content v.config x = .ok r)
    (hlast : ∀ a ∈ done, ConfigFlagKey.compare a.flagKey v.flagKey = .lt) :
    ∃ pre post y, acc = pre ++ post ∧ y.flagging = v.flagging
      ∧ (post = [] ↔ ∀ a ∈ done, a.key.compare v.key = .eq → v.isItem = true)
      ∧ ((∃ a ∈ done, Blocks a v) →
        codec.deserializeFlagDisabledConfigValue acc m = .error PbCodec.duplicateConfiguration)
      ∧ ((∀ a ∈ done, ¬ Blocks a v) →
        codec.deserializeFlagDisabledConfigValue acc m = .ok (pre ++ y :: post)
          ∧ DisabledInv (pre ++ y :: post) (done ++ [v])) := by
  set y : ResourceConfigValue ι := ⟨v.config, v.product, some (x.read r), false⟩ with hy
  have hflagging : y.flagging = v.flagging := by
    rw [hx.flagging_read, ResourceConfigValue.flaggingRead, ResourceConfigValue.flagging, hx.value,
      Option.bind_some, Option.bind_some, x.keepsFlag_iff.mp hkeeps]
  have hisItem : v.isItem = x.kind.isItem := by
    rw [ResourceConfigValue.isItem, hx.value]
    rfl
  rw [hx.deserializeFlagDisabledConfigValue_eq, hr, ResourceConfigValue.readKey, ← hisItem]
  cases hitem : v.isItem with
  | true =>
      -- all values read so far have lesser keys
      have hless : ∀ a ∈ acc, ConfigFlagKey.compare a.flagKey v.flagKey = .lt := by
        intro a ha
        obtain ⟨b, hb, hab⟩ := h.exists_of_mem ha
        rw [← ResourceConfigValue.flagKey_eq hab]
        exact hlast b hb
      refine ⟨acc, [], y, (List.append_nil _).symm, hflagging, by simp, ?_, fun _ => ⟨?_, ?_⟩⟩
      · rintro ⟨a, -, -, -, hcompound⟩
        rw [hitem] at hcompound
        cases hcompound
      · exact PbCodec.setRead_last hless _ _ _
      · have hacc : DisabledInv (acc ++ []) done := by rwa [List.append_nil]
        refine hacc.insert hflagging rfl (fun a ha => isLE_of_compare_flagKey (hless a ha))
          (by simp) fun hunnamed => ?_
        -- the flag of an item has a name
        obtain ⟨flag, hflag⟩ := Option.isSome_iff_exists.mp hflag
        rw [Value.KeepsFlag, if_pos (hisItem ▸ hitem)] at hkeeps
        rw [ResourceConfigValue.flag, hx.value, Option.bind_some, hflag, Option.getD_some] at hunnamed
        exact absurd (congrArg FeatureFlagAttribute.name hunnamed) (hkeeps flag hflag)
  | false =>
      obtain ⟨pre, post, hacc, hpre, hpost⟩ := h.exists_split hlast
      have hread := PbCodec.setRead_append
        (fun a ha => compare_flagKey_of_lt (hpre a ha) : ∀ a ∈ pre, ConfigFlagKey.compare a.flagKey
          ⟨v.config, v.product, .unnamed⟩ = .lt)
        (fun a ha => by rw [compare_unnamed (hpost a ha)]; split_ifs <;> simp)
        (fun a ha => h.set a (hacc ▸ List.mem_append_right pre ha)) v.config v.product
        (.ok (x.read r))
      rw [← hacc] at hread
      -- the value with the unnamed flag is found first
      have hblocks : (∃ a ∈ done, Blocks a v) ↔ ∃ a ∈ post, a.flag = .unnamed := by
        constructor
        · rintro ⟨a, ha, heq, hunnamed, -⟩
          obtain ⟨b, hb, hab⟩ := h.exists_of_mem_done ha
          rw [← ResourceConfigValue.key_eq hab] at heq
          rw [hacc] at hb
          rcases List.mem_append.mp hb with hb | hb
          · rw [hpre b hb] at heq
            cases heq
          · refine ⟨b, hb, ?_⟩
            rw [← hunnamed]
            exact congrArg ConfigFlagKey.flag (ResourceConfigValue.flagKey_eq hab)
        · rintro ⟨b, hb, hunnamed⟩
          obtain ⟨a, ha, hab⟩ := h.exists_of_mem (hacc ▸ List.mem_append_right pre hb)
          refine ⟨a, ha, ?_, ?_, hitem⟩
          · rw [ResourceConfigValue.key_eq hab]
            exact hpost b hb
          · rw [← hunnamed]
            exact congrArg ConfigFlagKey.flag (ResourceConfigValue.flagKey_eq hab)
      have hhead := h.head_any_iff hacc hpost
      refine ⟨pre, post, y, hacc, hflagging, ?_, ?_, fun hfree => ⟨?_, ?_⟩⟩
      · constructor
        · rintro rfl a ha heq
          obtain ⟨b, hb, hab⟩ := h.exists_of_mem_done ha
          have hlt := hpre b (by rwa [hacc, List.append_nil] at hb)
          rw [ResourceConfigValue.key_eq hab, heq] at hlt
          cases hlt
        · intro hnone
          refine List.eq_nil_iff_forall_not_mem.mpr fun a ha => ?_
          obtain ⟨b, hb, hab⟩ := h.exists_of_mem (hacc ▸ List.mem_append_right pre ha)
          have heq := hnone b hb (by rw [ResourceConfigValue.key_eq hab]; exact hpost a ha)
          cases heq
      · intro hblocked
        exact hread.trans (if_pos (hhead.mpr (hblocks.mp hblocked)))
      · refine hread.trans (if_neg fun hfound => ?_)
        obtain ⟨a, ha, hblocked⟩ := hblocks.mpr (hhead.mp hfound)
        exact hfree a ha hblocked
      · rw [hacc] at h
        refine h.insert hflagging rfl (fun a ha => by rw [hpre a ha]; rfl) ?_ ?_
        · intro a ha
          refine ⟨Std.OrientedCmp.eq_symm (hpost a ha), fun hunnamed => ?_⟩
          obtain ⟨b, hb, hblocked⟩ := hblocks.mpr ⟨a, ha, hunnamed⟩
          exact hfree b hb hblocked
        · intro _ a ha heq
          rw [hpre a ha] at heq
          cases heq

/-- A compound value is the first of its configuration and product. -/
def InOrder (a v : ResourceConfigValue ι) : Prop := a.key.compare v.key = .eq → v.isItem = true

/-- What a value must have so that the loop can go on behind it. -/
def PbCodec.Readable (codec : PbCodec ι χ π) (v : ResourceConfigValue ι) : Prop :=
  ∀ x, v.value = some x → x.KeepsFlag ∧ x.flag.isSome ∧ ∃ r, codec.content v.config x = .ok r

/-- What holds between all items of two lists, when an item moves from the second to the first. -/
theorem forall_snoc_iff {α : Type} {R : α → α → Prop} {done : List α} {v : α}
    (hv : ∀ a ∈ done, R a v) (l : List α) :
    ((∀ a ∈ done ++ [v], ∀ w ∈ l, R a w) ∧ l.Pairwise R)
      ↔ (∀ a ∈ done, ∀ w ∈ v :: l, R a w) ∧ (v :: l).Pairwise R := by
  rw [List.pairwise_cons]
  constructor
  · rintro ⟨hdone, hpairs⟩
    refine ⟨?_, fun w hw => hdone v (by simp) w hw, hpairs⟩
    intro a ha w hw
    rcases List.mem_cons.mp hw with rfl | hw
    · exact hv a ha
    · exact hdone a (List.mem_append_left _ ha) w hw
  · rintro ⟨hdone, hvl, hpairs⟩
    refine ⟨?_, hpairs⟩
    intro a ha w hw
    rcases List.mem_append.mp ha with ha | ha
    · exact hdone a ha w (List.mem_cons_of_mem v hw)
    · obtain rfl := List.mem_singleton.mp ha
      exact hvl w hw

section Run

variable {l acc done : List (ResourceConfigValue ι)} {ms : List (PbConfigValue χ π)}
  (hwritten : List.Forall₂ (fun v m => ∃ x, codec.Written v m x) l ms)
  (hsorted : StrictlySortedBy ConfigFlagKey.compare ResourceConfigValue.flagKey l)
  (hlast : ∀ a ∈ done, ∀ v ∈ l, ConfigFlagKey.compare a.flagKey v.flagKey = .lt)
  (hreadable : ∀ v ∈ l, codec.Readable v) (h : DisabledInv acc done)

include hwritten hsorted hlast hreadable h

/-- **A run of the loop succeeds** iff no value blocks a later one. -/
theorem DisabledInv.foldlM_isOk_iff :
    (∃ acc', ms.foldlM codec.deserializeFlagDisabledConfigValue acc = .ok acc')
      ↔ (∀ a ∈ done, ∀ v ∈ l, ¬ Blocks a v) ∧ l.Pairwise fun a v => ¬ Blocks a v := by
  induction hwritten generalizing acc done with
  | nil => exact ⟨fun _ => by simp, fun _ => ⟨acc, rfl⟩⟩
  | @cons v m l ms hv hrest ih =>
      obtain ⟨x, hx⟩ := hv
      obtain ⟨hkeeps, hflag, r, hr⟩ := hreadable v List.mem_cons_self x hx.value
      have hlastv : ∀ a ∈ done, ConfigFlagKey.compare a.flagKey v.flagKey = .lt :=
        fun a ha => hlast a ha v List.mem_cons_self
      obtain ⟨hlast', hl⟩ := (forall_snoc_iff hlastv l).mpr ⟨hlast, hsorted⟩
      obtain ⟨pre, post, y, -, -, -, herror, hok⟩ := h.step hx hkeeps hflag hr hlastv
      rw [List.foldlM_cons]
      by_cases hblocked : ∃ a ∈ done, Blocks a v
      · obtain ⟨a, ha, hav⟩ := hblocked
        rw [herror ⟨a, ha, hav⟩]
        constructor
        · rintro ⟨acc', hacc'⟩
          cases hacc'
        · rintro ⟨hfree, -⟩
          exact absurd hav (hfree a ha v List.mem_cons_self)
      · push Not at hblocked
        obtain ⟨hstep, hinv⟩ := hok hblocked
        rw [hstep]
        refine (ih hl hlast' (fun w hw => hreadable w (List.mem_cons_of_mem v hw)) hinv).trans
          (forall_snoc_iff hblocked l)

/-- **A run of the loop keeps the order** iff every compound value is the first of its configuration
and product. -/
theorem DisabledInv.foldlM_sorted_iff
    (hacc : StrictlySortedBy ConfigFlagKey.compare ResourceConfigValue.flagKey acc) :
    (∃ acc', ms.foldlM codec.deserializeFlagDisabledConfigValue acc = .ok acc'
        ∧ StrictlySortedBy ConfigFlagKey.compare ResourceConfigValue.flagKey acc')
      ↔ (∀ a ∈ done, ∀ v ∈ l, InOrder a v) ∧ l.Pairwise InOrder := by
  induction hwritten generalizing acc done with
  | nil => exact ⟨fun _ => by simp, fun _ => ⟨acc, rfl, hacc⟩⟩
  | @cons v m l ms hv hrest ih =>
      obtain ⟨x, hx⟩ := hv
      obtain ⟨hkeeps, hflag, r, hr⟩ := hreadable v List.mem_cons_self x hx.value
      have hlastv : ∀ a ∈ done, ConfigFlagKey.compare a.flagKey v.flagKey = .lt :=
        fun a ha => hlast a ha v List.mem_cons_self
      obtain ⟨hlast', hl⟩ := (forall_snoc_iff hlastv l).mpr ⟨hlast, hsorted⟩
      obtain ⟨pre, post, y, hsplit, hy, hpost, herror, hok⟩ := h.step hx hkeeps hflag hr hlastv
      have hless : ∀ a ∈ acc, ConfigFlagKey.compare a.flagKey y.flagKey = .lt := by
        intro a ha
        obtain ⟨b, hb, hab⟩ := h.exists_of_mem ha
        rw [← ResourceConfigValue.flagKey_eq hab, ResourceConfigValue.flagKey_eq hy]
        exact hlast b hb v List.mem_cons_self
      rw [List.foldlM_cons]
      have hiff : (∀ a ∈ done, InOrder a v) ↔ post = [] := hpost.symm
      by_cases horder : ∀ a ∈ done, InOrder a v
      · have hblocked : ∀ a ∈ done, ¬ Blocks a v := by
          rintro a ha ⟨heq, -, hcompound⟩
          rw [horder a ha heq] at hcompound
          cases hcompound
        obtain ⟨hstep, hinv⟩ := hok hblocked
        obtain rfl := hiff.mp horder
        rw [List.append_nil] at hsplit
        subst hsplit
        have hacc' : StrictlySortedBy ConfigFlagKey.compare ResourceConfigValue.flagKey
            (acc ++ [y]) := by
          refine List.pairwise_append.mpr ⟨hacc, List.pairwise_singleton _ _, ?_⟩
          intro a ha z hz
          obtain rfl := List.mem_singleton.mp hz
          exact hless a ha
        rw [hstep]
        refine (ih hl hlast' (fun w hw => hreadable w (List.mem_cons_of_mem v hw)) hinv
          hacc').trans (forall_snoc_iff horder l)
      · constructor
        · rintro ⟨acc', hacc', hsorted'⟩
          obtain ⟨mid, hmid, hfold⟩ := bind_eq_ok_iff.mp hacc'
          by_cases hblocked : ∃ a ∈ done, Blocks a v
          · rw [herror hblocked] at hmid
            cases hmid
          · push Not at hblocked
            obtain ⟨hstep, hinv⟩ := hok hblocked
            obtain rfl := Except.ok.inj (hstep.symm.trans hmid)
            -- the value is before one with a lesser key, and stays there
            obtain ⟨z, hz⟩ := List.exists_mem_of_ne_nil post fun hnil => horder (hiff.mpr hnil)
            obtain ⟨-, hsub, -, -⟩ :=
              PbCodec.reads_deserializeFlagDisabledConfigValue.of_foldlM hrest hinv.set hfold
            have hpairs := List.Pairwise.sublist hsub hsorted'
            have hlt := (List.pairwise_cons.mp (List.pairwise_append.mp hpairs).2.1).1 z hz
            have hgt := hless z (hsplit ▸ List.mem_append_right pre hz)
            rw [Std.OrientedCmp.gt_of_lt hlt] at hgt
            cases hgt
        · rintro ⟨hdone, -⟩
          exact absurd (fun a ha => hdone a ha v List.mem_cons_self) horder

end Run

/-! ## The round trip -/

/-- The entry is written, and what is read has the same keys, each with the same flag and status. -/
def PbCodec.ReadsTheSame (codec : PbCodec ι χ π) (entry : ResourceEntry ι) : Prop :=
  ∃ pb read, codec.serializeEntry entry = some pb ∧ codec.deserializeEntry entry.name pb = .ok read
    ∧ (read.values.map ResourceConfigValue.flagging).Perm
      (entry.values.map ResourceConfigValue.flagging)
    ∧ (read.flagDisabledValues.map ResourceConfigValue.flagging).Perm
      (entry.flagDisabledValues.map ResourceConfigValue.flagging)

/-- The same, with the values in the order in which they were. -/
def PbCodec.ReadsInOrder (codec : PbCodec ι χ π) (entry : ResourceEntry ι) : Prop :=
  ∃ pb read, codec.serializeEntry entry = some pb ∧ codec.deserializeEntry entry.name pb = .ok read
    ∧ read.values.map ResourceConfigValue.flagging = entry.values.map ResourceConfigValue.flagging
    ∧ read.flagDisabledValues.map ResourceConfigValue.flagging
      = entry.flagDisabledValues.map ResourceConfigValue.flagging

/-- All values of an entry. -/
def ResourceEntry.allValues (entry : ResourceEntry ι) : List (ResourceConfigValue ι) :=
  entry.values ++ entry.flagDisabledValues

/-- Every content is read, and every flag survives. -/
def PbCodec.KeepsValues (codec : PbCodec ι χ π) (l : List (ResourceConfigValue ι)) : Prop :=
  ∀ v ∈ l, ∀ x, v.value = some x → x.KeepsFlag ∧ ∃ r, codec.content v.config x = .ok r

/-- Values that are set and whose configurations survive are written. -/
theorem PbCodec.exists_written {l : List (ResourceConfigValue ι)}
    (hset : ∀ v ∈ l, v.value.isSome)
    (hconfig : ∀ v ∈ l, codec.deserializeConfig (codec.serializeConfig v.config) = .ok v.config) :
    ∃ ms, l.mapM codec.serializeConfigValue = some ms
      ∧ List.Forall₂ (fun v m => ∃ x, codec.Written v m x) l ms := by
  induction l with
  | nil => exact ⟨[], rfl, .nil⟩
  | cons v l ih =>
      obtain ⟨ms, hms, hwritten⟩ := ih (fun w hw => hset w (List.mem_cons_of_mem v hw))
        fun w hw => hconfig w (List.mem_cons_of_mem v hw)
      obtain ⟨x, hx⟩ := Option.isSome_iff_exists.mp (hset v List.mem_cons_self)
      refine ⟨⟨codec.serializeConfig v.config, v.product, codec.serializeValueToPb x⟩ :: ms, ?_,
        .cons ⟨x, hx, rfl, hconfig v List.mem_cons_self⟩ hwritten⟩
      rw [List.mapM_cons, hms, serializeConfigValue, hx]
      rfl

/-- Flags that survive are read. -/
theorem map_flaggingRead_eq {l : List (ResourceConfigValue ι)}
    (h : ∀ v ∈ l, ∀ x, v.value = some x → x.KeepsFlag) :
    l.map ResourceConfigValue.flaggingRead = l.map ResourceConfigValue.flagging := by
  refine List.map_congr_left fun v hv => ?_
  rw [ResourceConfigValue.flaggingRead, ResourceConfigValue.flagging]
  cases hx : v.value with
  | none => rfl
  | some x =>
      rw [Option.bind_some, Option.bind_some, x.keepsFlag_iff.mp (h v hv x hx)]

/-- **The flags of values that are read under their keys survive.** -/
theorem keepsFlag_of_perm_values {l : List (ResourceConfigValue ι)}
    (hsorted : StrictlySortedBy ConfigKey.compare ResourceConfigValue.key l)
    (hperm : (l.map ResourceConfigValue.flaggingRead).Perm (l.map ResourceConfigValue.flagging)) :
    ∀ v ∈ l, ∀ x, v.value = some x → x.KeepsFlag := by
  intro v hv x hx
  obtain ⟨w, hw, hwv⟩ := List.mem_map.mp (hperm.mem_iff.mp (List.mem_map_of_mem hv))
  -- no other value has the key
  have hkey : w.key = v.key := by
    simp only [ResourceConfigValue.flagging, ResourceConfigValue.flaggingRead, Prod.mk.injEq] at hwv
    rw [ResourceConfigValue.key, ResourceConfigValue.key, hwv.1, hwv.2.1]
  obtain rfl : w = v := hsorted.eq_of_key_eq hw hv (by rw [hkey]; exact Std.ReflCmp.compare_self)
  simp only [ResourceConfigValue.flagging, ResourceConfigValue.flaggingRead, hx, Option.bind_some,
    Prod.mk.injEq] at hwv
  exact x.keepsFlag_iff.mpr hwv.2.2.1.symm

/-- **The flags of values behind disabled flags survive** if each that is read has one. -/
theorem keepsFlag_of_perm_disabled {l : List (ResourceConfigValue ι)}
    (hflag : ∀ v ∈ l, ∃ x flag, v.value = some x ∧ x.flag = some flag)
    (hperm : (l.map ResourceConfigValue.flaggingRead).Perm (l.map ResourceConfigValue.flagging)) :
    ∀ v ∈ l, ∀ x, v.value = some x → x.KeepsFlag := by
  intro v hv x hx
  obtain ⟨w, hw, hwv⟩ := List.mem_map.mp (hperm.mem_iff.mp (List.mem_map_of_mem hv))
  obtain ⟨y, flag, hy, hyflag⟩ := hflag w hw
  obtain ⟨x', flag', hx', hxflag⟩ := hflag v hv
  obtain rfl := Option.some.inj (hx.symm.trans hx')
  simp only [ResourceConfigValue.flagging, ResourceConfigValue.flaggingRead, hx, hy,
    Option.bind_some, hyflag, Prod.mk.injEq] at hwv
  have hread := hwv.2.2.1.symm
  rw [Value.flagRead, hxflag] at hread
  rw [Value.KeepsFlag, hxflag]
  split_ifs at hread ⊢ with hitem
  · intro flag'' hflag'' hname
    obtain rfl := Option.some.inj hflag''
    simp [Option.filter, hname] at hread
  · rfl

/-- The loop over values reads the same iff every content is read and every flag survives, and then
it keeps the order. -/
theorem PbCodec.values_iff {l : List (ResourceConfigValue ι)} {ms : List (PbConfigValue χ π)}
    (hwritten : List.Forall₂ (fun v m => ∃ x, codec.Written v m x) l ms)
    (hsorted : StrictlySortedBy ConfigKey.compare ResourceConfigValue.key l)
    {R : List (ResTableConfig × Bytes × Option FeatureFlagAttribute × Option FlagStatus) →
      List (ResTableConfig × Bytes × Option FeatureFlagAttribute × Option FlagStatus) → Prop}
    (hrefl : ∀ fs, R fs fs) (hperm : ∀ fs gs, R fs gs → fs.Perm gs) :
    (∃ acc, ms.foldlM codec.deserializeConfigValue [] = .ok acc
        ∧ R (acc.map ResourceConfigValue.flagging) (l.map ResourceConfigValue.flagging))
      ↔ codec.KeepsValues l := by
  constructor
  · rintro ⟨acc, hfold, hR⟩
    obtain ⟨hread, -, -, hcontent⟩ := reads_deserializeConfigValue.of_foldlM hwritten (by simp) hfold
    rw [List.map_nil, List.nil_append] at hread
    have hkeeps := keepsFlag_of_perm_values hsorted (hread.symm.trans (hperm _ _ hR))
    exact fun v hv x hx => ⟨hkeeps v hv x hx, hcontent v hv x hx⟩
  · intro hkeeps
    obtain ⟨acc, hfold, hflagging⟩ : ∃ acc',
        ms.foldlM codec.deserializeConfigValue [] = .ok ([] ++ acc') ∧ _ :=
      foldlM_deserializeConfigValue hwritten hsorted (by simp) fun v hv x hx => (hkeeps v hv x hx).2
    refine ⟨acc, hfold, ?_⟩
    rw [hflagging, map_flaggingRead_eq fun v hv x hx => (hkeeps v hv x hx).1]
    exact hrefl _

section Disabled

variable {l : List (ResourceConfigValue ι)} {ms : List (PbConfigValue χ π)}
  (hwritten : List.Forall₂ (fun v m => ∃ x, codec.Written v m x) l ms)
  (hsorted : StrictlySortedBy ConfigFlagKey.compare ResourceConfigValue.flagKey l)
  (hflag : ∀ v ∈ l, ∃ x flag, v.value = some x ∧ x.flag = some flag)

/-- The loop over values behind disabled flags starts with nothing. -/
theorem DisabledInv.nil : DisabledInv ([] : List (ResourceConfigValue ι)) [] :=
  ⟨.nil, by simp, .nil, .nil⟩

include hflag in
/-- Values behind disabled flags that survive can be read in turn. -/
theorem PbCodec.KeepsValues.readable (h : codec.KeepsValues l) : ∀ v ∈ l, codec.Readable v := by
  intro v hv x hx
  obtain ⟨x', flag, hx', hxflag⟩ := hflag v hv
  obtain rfl := Option.some.inj (hx.symm.trans hx')
  exact ⟨(h v hv x hx).1, by rw [hxflag]; rfl, (h v hv x hx).2⟩

include hwritten hflag in
/-- What is read behind disabled flags, if the loop succeeds, and when it is the same. -/
theorem PbCodec.keepsValues_of_foldlM {acc : List (ResourceConfigValue ι)}
    (hfold : ms.foldlM codec.deserializeFlagDisabledConfigValue [] = .ok acc)
    (hperm : (acc.map ResourceConfigValue.flagging).Perm (l.map ResourceConfigValue.flagging)) :
    codec.KeepsValues l := by
  obtain ⟨hread, -, -, hcontent⟩ :=
    reads_deserializeFlagDisabledConfigValue.of_foldlM hwritten (by simp) hfold
  rw [List.map_nil, List.nil_append] at hread
  have hkeeps := keepsFlag_of_perm_disabled hflag (hread.symm.trans hperm)
  exact fun v hv x hx => ⟨hkeeps v hv x hx, hcontent v hv x hx⟩

include hwritten in
/-- The values read behind disabled flags are those written if the flags survive. -/
theorem PbCodec.perm_of_foldlM {acc : List (ResourceConfigValue ι)} (hkeeps : codec.KeepsValues l)
    (hfold : ms.foldlM codec.deserializeFlagDisabledConfigValue [] = .ok acc) :
    (acc.map ResourceConfigValue.flagging).Perm (l.map ResourceConfigValue.flagging) := by
  obtain ⟨hread, -, -, -⟩ :=
    reads_deserializeFlagDisabledConfigValue.of_foldlM hwritten (by simp) hfold
  rwa [List.map_nil, List.nil_append,
    map_flaggingRead_eq fun v hv x hx => (hkeeps v hv x hx).1] at hread

include hwritten hsorted hflag

/-- The loop over values behind disabled flags reads the same iff, besides, no value blocks
another. -/
theorem PbCodec.disabled_perm_iff :
    (∃ acc, ms.foldlM codec.deserializeFlagDisabledConfigValue [] = .ok acc
        ∧ (acc.map ResourceConfigValue.flagging).Perm (l.map ResourceConfigValue.flagging))
      ↔ codec.KeepsValues l ∧ l.Pairwise fun a v => ¬ Blocks a v := by
  constructor
  · rintro ⟨acc, hfold, hperm⟩
    have hkeeps := keepsValues_of_foldlM hwritten hflag hfold hperm
    have hfree := (DisabledInv.foldlM_isOk_iff hwritten hsorted (by simp) (hkeeps.readable hflag)
      .nil).mp ⟨acc, hfold⟩
    exact ⟨hkeeps, hfree.2⟩
  · rintro ⟨hkeeps, hfree⟩
    obtain ⟨acc, hfold⟩ := (DisabledInv.foldlM_isOk_iff hwritten hsorted (by simp)
      (hkeeps.readable hflag) .nil).mpr ⟨by simp, hfree⟩
    exact ⟨acc, hfold, perm_of_foldlM hwritten hkeeps hfold⟩

/-- It keeps the order iff, besides, every compound value is the first of its configuration and
product. -/
theorem PbCodec.disabled_eq_iff :
    (∃ acc, ms.foldlM codec.deserializeFlagDisabledConfigValue [] = .ok acc
        ∧ acc.map ResourceConfigValue.flagging = l.map ResourceConfigValue.flagging)
      ↔ codec.KeepsValues l ∧ l.Pairwise InOrder := by
  -- the key of a flagging
  let flagKey : ResTableConfig × Bytes × Option FeatureFlagAttribute × Option FlagStatus →
    ConfigFlagKey := fun f => ⟨f.1, f.2.1, f.2.2.1.getD .unnamed⟩
  have hkey : ∀ l : List (ResourceConfigValue ι),
      StrictlySortedBy ConfigFlagKey.compare flagKey (l.map ResourceConfigValue.flagging)
        ↔ StrictlySortedBy ConfigFlagKey.compare ResourceConfigValue.flagKey l :=
    fun l => List.pairwise_map
  constructor
  · rintro ⟨acc, hfold, heq⟩
    have hkeeps := keepsValues_of_foldlM hwritten hflag hfold (by rw [heq])
    have horder := (DisabledInv.foldlM_sorted_iff hwritten hsorted (by simp)
      (hkeeps.readable hflag) .nil .nil).mp
        ⟨acc, hfold, (hkey acc).mp (by rw [heq]; exact (hkey l).mpr hsorted)⟩
    exact ⟨hkeeps, horder.2⟩
  · rintro ⟨hkeeps, horder⟩
    obtain ⟨acc, hfold, hacc⟩ := (DisabledInv.foldlM_sorted_iff hwritten hsorted (by simp)
      (hkeeps.readable hflag) .nil .nil).mpr ⟨by simp, horder⟩
    refine ⟨acc, hfold, ?_⟩
    exact ((hkey acc).mpr hacc).eq_of_perm ((hkey l).mpr hsorted)
      (perm_of_foldlM hwritten hkeeps hfold)

end Disabled

/-- Reading an entry runs both loops. -/
theorem PbCodec.exists_read_iff {entry : ResourceEntry ι} {ms ms' : List (PbConfigValue χ π)}
    (hms : entry.values.mapM codec.serializeConfigValue = some ms)
    (hms' : entry.flagDisabledValues.mapM codec.serializeConfigValue = some ms')
    {P Q : List (ResourceConfigValue ι) → Prop} :
    (∃ pb read, codec.serializeEntry entry = some pb
        ∧ codec.deserializeEntry entry.name pb = .ok read ∧ P read.values
        ∧ Q read.flagDisabledValues)
      ↔ (∃ acc, ms.foldlM codec.deserializeConfigValue [] = .ok acc ∧ P acc)
        ∧ ∃ acc, ms'.foldlM codec.deserializeFlagDisabledConfigValue [] = .ok acc ∧ Q acc := by
  have hpb : codec.serializeEntry entry = some ⟨ms, ms'⟩ := by
    rw [serializeEntry, hms, hms']
    rfl
  constructor
  · rintro ⟨pb, read, hwrite, hread, hP, hQ⟩
    obtain rfl := Option.some.inj (hpb.symm.trans hwrite)
    obtain ⟨values, hvalues, hread⟩ := bind_eq_ok_iff.mp hread
    obtain ⟨disabled, hdisabled, hread⟩ := bind_eq_ok_iff.mp hread
    cases hread
    exact ⟨⟨values, hvalues, hP⟩, disabled, hdisabled, hQ⟩
  · rintro ⟨⟨values, hvalues, hP⟩, disabled, hdisabled, hQ⟩
    refine ⟨_, _, hpb, bind_eq_ok_iff.mpr ⟨values, hvalues, bind_eq_ok_iff.mpr
      ⟨disabled, hdisabled, rfl⟩⟩, hP, hQ⟩

/-- **When the flags of an entry survive**: every content is read, the flag of every item has a
name, every compound value has a flag, and no compound value behind a disabled flag has the
configuration and product of one before it that is behind the flag without a name. The values stay
in their order iff, instead of the last, every compound value behind a disabled flag is the first of
its configuration and product. -/
theorem readsTheSame_iff {entry : ResourceEntry ι} (hentry : entry.Wf)
    (hset : ∀ v ∈ entry.values, v.value.isSome)
    (hconfig : ∀ v ∈ entry.allValues,
      codec.deserializeConfig (codec.serializeConfig v.config) = .ok v.config) :
    (codec.ReadsTheSame entry ↔ codec.KeepsValues entry.allValues
        ∧ entry.flagDisabledValues.Pairwise fun a v => ¬ Blocks a v)
      ∧ (codec.ReadsInOrder entry ↔ codec.KeepsValues entry.allValues
        ∧ entry.flagDisabledValues.Pairwise InOrder) := by
  have hset' : ∀ v ∈ entry.flagDisabledValues, v.value.isSome := by
    intro v hv
    obtain ⟨x, -, hx, -⟩ := hentry.flag v hv
    rw [hx]
    rfl
  obtain ⟨ms, hms, hwritten⟩ := PbCodec.exists_written hset
    fun v hv => hconfig v (List.mem_append_left _ hv)
  obtain ⟨ms', hms', hwritten'⟩ := PbCodec.exists_written hset'
    fun v hv => hconfig v (List.mem_append_right _ hv)
  have hall : codec.KeepsValues entry.allValues
      ↔ codec.KeepsValues entry.values ∧ codec.KeepsValues entry.flagDisabledValues :=
    List.forall_mem_append
  have hvalues := @PbCodec.values_iff _ _ _ codec _ _ hwritten hentry.values
  constructor
  · refine (PbCodec.exists_read_iff hms hms'
      (P := fun l => (l.map ResourceConfigValue.flagging).Perm _)
      (Q := fun l => (l.map ResourceConfigValue.flagging).Perm _)).trans ?_
    rw [hvalues List.Perm.refl fun _ _ h => h,
      PbCodec.disabled_perm_iff hwritten' hentry.flagDisabledValues hentry.flag, hall, and_assoc]
  · refine (PbCodec.exists_read_iff hms hms'
      (P := fun l => l.map ResourceConfigValue.flagging = _)
      (Q := fun l => l.map ResourceConfigValue.flagging = _)).trans ?_
    rw [hvalues (fun _ => rfl) fun _ _ h => h ▸ .refl _,
      PbCodec.disabled_eq_iff hwritten' hentry.flagDisabledValues hentry.flag, hall, and_assoc]

end Loops

/-- A codec for values without content: messages hold configurations and kinds as they are. -/
def plainCodec : PbCodec Unit ResTableConfig ValueKind where
  serializeConfig := id
  deserializeConfig := .ok
  serializeContent kind _ := kind
  deserializeItem _ kind := .ok (kind, ())
  deserializeCompound _ kind := .ok (kind, ())

/-- A value of the default configuration. -/
def plainValue (kind : ValueKind) (flag : Option FeatureFlagAttribute) (status : FlagStatus) :
    ResourceConfigValue Unit :=
  ⟨ResTableConfig.defaultConfig, [], some ⟨kind, (), false, true, flag, status⟩, false⟩

/-- An entry with a string behind an enabled flag, and a style and a string behind disabled ones. -/
def flaggedEntry : ResourceEntry Unit :=
  { (ResourceEntry.new (bytes "title") : ResourceEntry Unit) with
    values := [plainValue .string (some ⟨bytes "a", false⟩) .enabled]
    flagDisabledValues := [plainValue .style (some ⟨bytes "b", false⟩) .disabled,
      plainValue .string (some ⟨bytes "b", true⟩) .disabled] }

theorem readsTheSame_flaggedEntry : plainCodec.ReadsTheSame flaggedEntry
    ∧ plainCodec.ReadsInOrder flaggedEntry := by
  have hwf : flaggedEntry.Wf := by
    refine ⟨List.pairwise_singleton _ _, List.pairwise_pair.mpr (by decide), ?_⟩
    simp [flaggedEntry, plainValue]
  have hkeeps : plainCodec.KeepsValues flaggedEntry.allValues := by
    intro v hv x hx
    simp only [flaggedEntry, ResourceEntry.allValues, List.cons_append, List.nil_append,
      List.mem_cons, List.not_mem_nil, or_false] at hv
    rcases hv with rfl | rfl | rfl
    all_goals
      cases hx
      refine ⟨?_, _, rfl⟩
      simp [Value.KeepsFlag, ValueKind.isItem]
      try decide
  have hconfig : ∀ v ∈ flaggedEntry.allValues,
      plainCodec.deserializeConfig (plainCodec.serializeConfig v.config) = .ok v.config :=
    fun v _ => rfl
  have hiff := readsTheSame_iff hwf (by simp [flaggedEntry, plainValue]) hconfig
  refine ⟨hiff.1.mpr ⟨hkeeps, ?_⟩, hiff.2.mpr ⟨hkeeps, ?_⟩⟩
  · refine List.pairwise_pair.mpr ?_
    rintro ⟨-, -, hcompound⟩
    cases hcompound
  · exact List.pairwise_pair.mpr fun _ => rfl

/-- An entry with one style that is behind no flag. -/
def unflaggedEntry : ResourceEntry Unit :=
  { (ResourceEntry.new (bytes "theme") : ResourceEntry Unit) with
    values := [plainValue .style none .noFlag] }

/-- **A style behind no flag comes back with one** that has no name. -/
theorem not_readsTheSame_unflaggedEntry : ¬ plainCodec.ReadsTheSame unflaggedEntry := by
  rintro ⟨pb, read, hpb, hread, hperm, -⟩
  obtain rfl := Option.some.inj hpb
  have hvalues : read.values = [plainValue .style (some .unnamed) .noFlag] := by
    obtain rfl := Except.ok.inj hread
    rfl
  rw [hvalues] at hperm
  simp [plainValue, unflaggedEntry, ResourceConfigValue.flagging] at hperm

end AndroidSdk.Aapt2
