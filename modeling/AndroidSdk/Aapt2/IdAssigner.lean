import AndroidSdk.Lib.Dict
import AndroidSdk.Lib.Run
import AndroidSdk.Lib.SortedVector
import AndroidSdk.Aapt2.ResourceModel

/-! # Assigning resource identifiers

`IdAssigner::Consume` (`IdAssigner.cpp`): identifiers that are preset, staged or listed in the
stable map are reserved first, then every entry without an identifier gets the next free one.

* **`NextIdFinder`** — reserved identifiers and the next one that may be free, for type identifiers
  (8 bits) and entry identifiers (16 bits) alike.
* **`TypeGroup`**, **`IdAssignerContext`** — the finders of one type, and of the package.
* **`consume`** — the three loops. A failed `CHECK` is `Failure.abort`.
* **`IdsAssigned`** — what a successful run guarantees. -/

namespace AndroidSdk.Aapt2

open AndroidSdk.Lib

/-! ## Failures -/

/-- `ResourceTypeKey`. -/
structure ResourceTypeKey where
  type : ResourceType
  id : BitVec 8
  deriving DecidableEq

/-- What is reported before `Consume` returns false. -/
inductive IdError where
  /-- "can't assign ID … because package already has ID …" -/
  | packageId (name : ResourceName) (id : ResourceId)
  /-- "can't assign type ID … because this type ID have been assigned to …"; `restart` tells to
  restart the staged type IDs. -/
  | typeIdTaken (name : ResourceName) (id : ResourceId) (currentStaged assignedStaged : Bool)
      (assigned : ResourceType) (restart : Bool)
  /-- "can't assign ID … because type already has ID …" -/
  | secondNonStagedId (name : ResourceName) (id : ResourceId)
  /-- "can`t assign type ID … to staged type … because type ID … already has been assigned to a non
  staged resource type with the same type name" -/
  | stagedOverlap (name : ResourceName) (id : ResourceId)
  /-- "can't assign ID … because type … already has ID …" -/
  | groupTypeId (name : ResourceName) (id : ResourceId) (groupId : BitVec 8)
  /-- "can't assign ID … because entry ID is already assigned to …" -/
  | entryIdTaken (name : ResourceName) (id : ResourceId) (assigned : ResourceName)
  /-- "can't assign resource ID … because resource type ID has exceeded the maximum number of
  resource entries" -/
  | entriesExhausted (name : ResourceName)
  deriving DecidableEq

/-- How `Consume` can fail. -/
inductive Failure where
  /-- It returns false. -/
  | error (e : IdError)
  /-- A `CHECK` fails. -/
  | abort
  deriving DecidableEq

/-! ## The finder -/

/-- The order of identifiers as keys of a map. -/
def compareIds {w : ℕ} : BitVec w → BitVec w → Ordering := compareOn BitVec.toNat

instance {w : ℕ} : Std.TransCmp (compareIds (w := w)) := by
  unfold compareIds
  infer_instance

/-- `NextIdFinder`. The iterator `next_preassigned_id_` is the rest of the map from it on; it is set
when `NextId` is called for the first time. -/
structure NextIdFinder (w : ℕ) (Key : Type) where
  preAssignedIds : List (BitVec w × Key)
  nextId : BitVec w
  exhausted : Bool
  nextPreassignedId : Option (List (BitVec w × Key))

namespace NextIdFinder

variable {w : ℕ} {Key : Type}

/-- The constructor. -/
def new (startId : BitVec w) : NextIdFinder w Key := ⟨[], startId, false, none⟩

/-- `ReserveId`; the error is the key that has the identifier. -/
def reserveId [DecidableEq Key] (onTaken : Key → Failure) (f : NextIdFinder w Key) (key : Key)
    (id : BitVec w) : Except Failure (NextIdFinder w Key) :=
  if f.nextPreassignedId.isSome then .error .abort
  else
    match KeyedVector.find compareIds id f.preAssignedIds with
    | some assigned => if assigned ≠ key then .error (onTaken assigned) else .ok f
    | none =>
        .ok { f with preAssignedIds := KeyedVector.emplace compareIds id key f.preAssignedIds }

/-- What the loop of `SkipToNextAvailableId` finds. -/
inductive Skip (w : ℕ) (Key : Type) where
  /-- The last identifier was reserved. -/
  | exhausted (nextId : BitVec w) (rest : List (BitVec w × Key))
  /-- The identifier is available. -/
  | available (nextId : BitVec w) (rest : List (BitVec w × Key))
  /-- "Preassigned IDs are not in sorted order". -/
  | abort

/-- The loop of `SkipToNextAvailableId`, over the rest of the map. -/
def skip : List (BitVec w × Key) → BitVec w → Skip w Key
  | [], nextId => .available nextId []
  | (id, key) :: rest, nextId =>
      if id = nextId then
        if nextId = BitVec.allOnes w then .exhausted nextId ((id, key) :: rest)
        else skip rest (nextId + 1)
      else if nextId < id then .available nextId ((id, key) :: rest)
      else .abort

/-- `SkipToNextAvailableId`. -/
def skipToNextAvailableId (f : NextIdFinder w Key) (rest : List (BitVec w × Key)) :
    Except Failure (NextIdFinder w Key × Option (BitVec w)) :=
  if f.exhausted then .ok ({ f with nextPreassignedId := some rest }, none)
  else
    match skip rest f.nextId with
    | .exhausted nextId rest =>
        .ok (⟨f.preAssignedIds, nextId, true, some rest⟩, none)
    | .available nextId rest =>
        .ok (⟨f.preAssignedIds, nextId + 1, nextId = BitVec.allOnes w, some rest⟩, some nextId)
    | .abort => .error .abort

/-- `NextId`. -/
def next (f : NextIdFinder w Key) : Except Failure (NextIdFinder w Key × Option (BitVec w)) :=
  f.skipToNextAvailableId (f.nextPreassignedId.getD f.preAssignedIds)

end NextIdFinder

/-! ## The context -/

/-- `TypeGroup`. -/
structure TypeGroup where
  packageId : BitVec 8
  typeId : BitVec 8
  nextEntryId : NextIdFinder 16 ResourceName

/-- The constructor of `TypeGroup`. -/
def TypeGroup.new (packageId typeId : BitVec 8) : TypeGroup := ⟨packageId, typeId, .new 0⟩

/-- `TypeGroup::ReserveId`. -/
def TypeGroup.reserveId (g : TypeGroup) (name : ResourceName) (id : ResourceId) :
    Except Failure TypeGroup :=
  if g.typeId ≠ id.typeId then .error (.error (.groupTypeId name id g.typeId))
  else do
    let nextEntryId ←
      g.nextEntryId.reserveId (fun assigned => .error (.entryIdTaken name id assigned))
        name id.entryId
    return { g with nextEntryId }

/-- `TypeGroup::NextId`. -/
def TypeGroup.next (g : TypeGroup) (name : ResourceName) :
    Except Failure (TypeGroup × ResourceId) := do
  let (nextEntryId, entryId) ← g.nextEntryId.next
  match entryId with
  | none => .error (.error (.entriesExhausted name))
  | some entryId => return ({ g with nextEntryId }, .ofParts g.packageId g.typeId entryId)

/-- `IdAssignerContext`. -/
structure IdAssignerContext where
  packageName : Bytes
  packageId : BitVec 8
  types : Dict ResourceTypeKey TypeGroup
  nonStagedTypeIds : Dict ResourceType (BitVec 8)
  typeIdFinder : NextIdFinder 8 ResourceTypeKey

namespace IdAssignerContext

/-- The constructor; type identifiers start at 1. -/
def new (packageName : Bytes) (packageId : BitVec 8) : IdAssignerContext :=
  ⟨packageName, packageId, ∅, ∅, .new 1⟩

/-- The group of a key, created when it is missing: the identifier must not be used by another
type. -/
def findOrReserveType (c : IdAssignerContext) (name : ResourceName) (id : ResourceId)
    (visibility : Visibility) : Except Failure (IdAssignerContext × TypeGroup) :=
  let key : ResourceTypeKey := ⟨name.type.type, id.typeId⟩
  match c.types.lookup key with
  | some group => .ok (c, group)
  | none => do
      let onTaken (assigned : ResourceTypeKey) : Failure :=
        let assignedStaged : Bool := (c.nonStagedTypeIds.lookup assigned.type).isNone
        .error (.typeIdTaken name id visibility.stagedApi assignedStaged assigned.type
          (assignedStaged || visibility.stagedApi))
      let typeIdFinder ← c.typeIdFinder.reserveId onTaken key id.typeId
      let group := TypeGroup.new c.packageId id.typeId
      return ({ c with types := c.types.insert key group, typeIdFinder }, group)

/-- The check on staged and non-staged types: non-staged resources can only exist in one type
identifier, staged ones in none that non-staged ones of the type have. -/
def checkStaged (c : IdAssignerContext) (name : ResourceName) (id : ResourceId)
    (visibility : Visibility) : Except Failure IdAssignerContext :=
  let nonStaged := c.nonStagedTypeIds.lookup name.type.type
  if visibility.stagedApi then
    if nonStaged = some id.typeId then .error (.error (.stagedOverlap name id)) else .ok c
  else
    match nonStaged with
    | none => .ok { c with nonStagedTypeIds := c.nonStagedTypeIds.insert name.type.type id.typeId }
    | some typeId =>
        if typeId ≠ id.typeId then .error (.error (.secondNonStagedId name id)) else .ok c

/-- `IdAssignerContext::ReserveId`. -/
def reserveId (c : IdAssignerContext) (name : ResourceName) (id : ResourceId)
    (visibility : Visibility) : Except Failure IdAssignerContext :=
  if c.packageId ≠ id.packageId then .error (.error (.packageId name id))
  else do
    let (c, group) ← c.findOrReserveType name id visibility
    let c ← c.checkStaged name id visibility
    let group ← group.reserveId name id
    return { c with types := c.types.insert ⟨name.type.type, id.typeId⟩ group }

/-- Reserve an identifier if there is one. -/
def reserveOption (c : IdAssignerContext) (name : ResourceName) (id : Option ResourceId)
    (visibility : Visibility) : Except Failure IdAssignerContext :=
  match id with
  | some id => c.reserveId name id visibility
  | none => .ok c

/-- The type identifier for non-staged resources of a type, the next free one if there is none. -/
def nonStagedTypeId (c : IdAssignerContext) (type : ResourceType) :
    Except Failure (IdAssignerContext × BitVec 8) :=
  match c.nonStagedTypeIds.lookup type with
  | some typeId => .ok (c, typeId)
  | none => do
      let (typeIdFinder, typeId) ← c.typeIdFinder.next
      match typeId with
      | none => .error .abort
      | some typeId =>
          return ({ c with
            typeIdFinder
            nonStagedTypeIds := c.nonStagedTypeIds.insert type typeId }, typeId)

/-- `IdAssignerContext::NextId`. -/
def next (c : IdAssignerContext) (name : ResourceName) :
    Except Failure (IdAssignerContext × ResourceId) :=
  -- resources without a package name are considered a part of the app being linked
  if ¬ (name.package = [] ∨ name.package = c.packageName) then .error .abort
  else do
    let (c, typeId) ← c.nonStagedTypeId name.type.type
    let key : ResourceTypeKey := ⟨name.type.type, typeId⟩
    let group := (c.types.lookup key).getD (.new c.packageId typeId)
    let (group, id) ← group.next name
    return ({ c with types := c.types.insert key group }, id)

end IdAssignerContext

/-! ## The pass -/

section Consume

variable {ι : Type}

/-- The body of the first loop: reserve what the entry has, and take the mapped identifier. -/
def reserveEntry (assignedIdMap : Option (Dict ResourceName ResourceId)) (c : IdAssignerContext)
    (name : ResourceName) (entry : ResourceEntry ι) :
    Except Failure (IdAssignerContext × ResourceEntry ι) := do
  let c ← c.reserveOption name entry.id entry.visibility
  let c ← c.reserveOption name (entry.stagedId.map StagedId.id)
    { entry.visibility with stagedApi := true }
  match assignedIdMap.bind (·.lookup name) with
  | some assignedId =>
      let c ← c.reserveId name assignedId entry.visibility
      return (c, { entry with id := some assignedId })
  | none => return (c, entry)

/-- The body of the last loop: an entry without an identifier gets the next available one. -/
def assignEntry (c : IdAssignerContext) (name : ResourceName) (entry : ResourceEntry ι) :
    Except Failure (IdAssignerContext × ResourceEntry ι) :=
  match entry.id with
  | some _ => .ok (c, entry)
  | none => do
      let (c, id) ← c.next name
      return (c, { entry with id := some id })

/-- The body of the loop over the stable map. -/
def reserveStable (c : IdAssignerContext) (e : ResourceName × ResourceId) :
    Except Failure IdAssignerContext :=
  c.reserveId e.1 e.2 .default

/-- The pairs of the stable map, in the order of its iteration. -/
def stablePairs (assignedIdMap : Option (Dict ResourceName ResourceId)) :
    List (ResourceName × ResourceId) :=
  match assignedIdMap with
  | none => []
  | some map => map.entries.map fun e => (e.1, e.2)

/-- `IdAssigner::Consume`. -/
def consume (compilationPackage : Bytes) (packageId : BitVec 8)
    (assignedIdMap : Option (Dict ResourceName ResourceId)) (table : ResourceTable ι) :
    Except Failure (ResourceTable ι) := do
  let c := IdAssignerContext.new compilationPackage packageId
  let (c, table) ← table.rewriteEntries (reserveEntry assignedIdMap) c
  let c ← (stablePairs assignedIdMap).foldlM reserveStable c
  let (_, table) ← table.rewriteEntries assignEntry c
  return table

end Consume

/-! ## What the finder guarantees -/

namespace NextIdFinder

variable {w : ℕ} {Key : Type} {f f' : NextIdFinder w Key}

/-- Identifiers are equal as keys iff they are equal. -/
theorem compareIds_eq_iff (i j : BitVec w) : compareIds i j = .eq ↔ i = j := by
  rw [compareIds, compareOn, Std.LawfulEqCmp.compare_eq_iff_eq]
  exact ⟨BitVec.eq_of_toNat_eq, congrArg BitVec.toNat⟩

/-- The key that has reserved an identifier. -/
def reserved (f : NextIdFinder w Key) (id : BitVec w) : Option Key :=
  KeyedVector.find compareIds id f.preAssignedIds

/-- The reserved identifiers are sorted, and those before the iterator are below the next one. -/
structure Wf (f : NextIdFinder w Key) : Prop where
  sorted : f.preAssignedIds.Pairwise fun p q => compareIds p.1 q.1 = .lt
  passed : ∀ rest, f.nextPreassignedId = some rest → ∃ passed, f.preAssignedIds = passed ++ rest
    ∧ (f.exhausted = false → ∀ p ∈ passed, p.1 < f.nextId)

/-- The identifiers that may still be handed out. -/
def Issuable (f : NextIdFinder w Key) (id : BitVec w) : Prop :=
  f.exhausted = false ∧ f.nextId ≤ id

/-- A new finder is well formed. -/
theorem wf_new (startId : BitVec w) : (new startId : NextIdFinder w Key).Wf :=
  ⟨List.Pairwise.nil, fun rest h => by cases h⟩

/-- **What reserving does**: the identifier belongs to the key, all others are as before. -/
theorem reserveId_spec [DecidableEq Key] {onTaken : Key → Failure} {key : Key} {id : BitVec w}
    (hf : f.Wf) (h : f.reserveId onTaken key id = .ok f') :
    f'.Wf ∧ f.nextPreassignedId = none ∧ f'.nextPreassignedId = none ∧ f'.nextId = f.nextId
      ∧ f'.exhausted = f.exhausted ∧ (∀ k, f.reserved id = some k → k = key)
      ∧ ∀ i, f'.reserved i = if i = id then some key else f.reserved i := by
  rw [reserveId] at h
  split_ifs at h with hstarted
  have hnone : f.nextPreassignedId = none := by simpa using hstarted
  split at h
  next assigned hassigned =>
    split_ifs at h with hkey
    cases h
    have hsame : assigned = key := not_not.mp hkey
    refine ⟨hf, hnone, hnone, rfl, rfl, fun k hk => ?_, ?_⟩
    · rw [reserved, hassigned, Option.some.injEq] at hk
      rw [← hk, hsame]
    intro i
    split_ifs with hi
    · rw [hi, reserved, hassigned, hsame]
    · rfl
  next hfree =>
    cases h
    refine ⟨⟨KeyedVector.keys_emplace id key hf.sorted, fun rest hrest => ?_⟩, hnone, hnone, rfl,
      rfl, fun k hk => ?_, ?_⟩
    · rw [hnone] at hrest
      cases hrest
    · rw [reserved, hfree] at hk
      cases hk
    · intro i
      show KeyedVector.find compareIds i (KeyedVector.emplace compareIds id key f.preAssignedIds) = _
      rw [KeyedVector.find_emplace]
      simp only [compareIds_eq_iff]
      split_ifs with hi
      · rw [hi, hfree, Option.getD_none]
      · rfl

/-- The increment of an identifier that is not the last one. -/
theorem lt_add_one_of_ne_allOnes {n : BitVec w} (h : n ≠ BitVec.allOnes w) : n < n + 1 := by
  have hn := n.isLt
  have hne : n.toNat ≠ 2 ^ w - 1 := by
    intro heq
    apply h
    apply BitVec.eq_of_toNat_eq
    rw [heq, BitVec.toNat_allOnes]
  have hone : (BitVec.ofNat w 1).toNat = 1 := by
    rw [BitVec.toNat_ofNat]
    exact Nat.mod_eq_of_lt (by omega)
  show n < n + BitVec.ofNat w 1
  rw [BitVec.lt_def, BitVec.toNat_add, hone, Nat.mod_eq_of_lt (by omega)]
  exact Nat.lt_succ_self _

/-- Transitivity of the order of identifiers. -/
theorem id_lt_of_lt_of_le {a b c : BitVec w} (hab : a < b) (hbc : b ≤ c) : a < c :=
  BitVec.lt_def.mpr (Nat.lt_of_lt_of_le (BitVec.lt_def.mp hab) (BitVec.le_def.mp hbc))

/-- What the loop passes over is below the identifier that it finds, and what is left is above. -/
theorem skip_eq_available {rest rest' : List (BitVec w × Key)} {n m : BitVec w}
    (hsorted : rest.Pairwise fun p q => compareIds p.1 q.1 = .lt)
    (h : skip rest n = .available m rest') :
    n ≤ m ∧ ∃ passed, rest = passed ++ rest' ∧ (∀ p ∈ passed, p.1 < m) ∧ ∀ p ∈ rest', m < p.1 := by
  induction rest generalizing n with
  | nil =>
      cases h
      exact ⟨BitVec.le_refl _, [], rfl, by simp, by simp⟩
  | cons p rest ih =>
      obtain ⟨id, key⟩ := p
      obtain ⟨hfirst, hrest⟩ := List.pairwise_cons.mp hsorted
      rw [skip] at h
      split_ifs at h with heq hmax hlt
      · -- a reserved identifier is passed over
        obtain ⟨hle, passed, rfl, hpassed, hleft⟩ := ih hrest h
        have hstep := lt_add_one_of_ne_allOnes hmax
        have hnm : n < m := id_lt_of_lt_of_le hstep hle
        refine ⟨BitVec.le_of_lt hnm, (id, key) :: passed, rfl, ?_, hleft⟩
        intro p hp
        rcases List.mem_cons.mp hp with rfl | hp
        · exact heq ▸ hnm
        · exact hpassed p hp
      · cases h
        refine ⟨BitVec.le_refl _, [], rfl, by simp, ?_⟩
        intro p hp
        rcases List.mem_cons.mp hp with rfl | hp
        · exact hlt
        · have hcmp := hfirst p hp
          rw [compareIds, compareOn, Std.compare_eq_lt] at hcmp
          exact BitVec.lt_def.mpr (Nat.lt_trans (BitVec.lt_def.mp hlt) hcmp)

/-- The increment of an identifier is not above those that follow it. -/
theorem add_one_le_of_lt {n i : BitVec w} (h : n < i) : n + 1 ≤ i := by
  have hi := i.isLt
  have hlt : n.toNat < i.toNat := BitVec.lt_def.mp h
  have hone : (BitVec.ofNat w 1).toNat = 1 := by
    rw [BitVec.toNat_ofNat]
    exact Nat.mod_eq_of_lt (by omega)
  show n + BitVec.ofNat w 1 ≤ i
  rw [BitVec.le_def, BitVec.toNat_add, hone, Nat.mod_eq_of_lt (by omega)]
  exact hlt

/-- The identifiers before the one that the loop finds are reserved. -/
theorem mem_of_skip_eq_available {rest rest' : List (BitVec w × Key)} {n m i : BitVec w}
    (h : skip rest n = .available m rest') (hn : n ≤ i) (hm : i < m) : ∃ p ∈ rest, p.1 = i := by
  induction rest generalizing n with
  | nil =>
      cases h
      exact absurd (id_lt_of_lt_of_le hm hn) (BitVec.lt_irrefl _)
  | cons p rest ih =>
      obtain ⟨id, key⟩ := p
      rw [skip] at h
      split_ifs at h with heq hmax hlt
      · by_cases hni : n = i
        · exact ⟨_, List.mem_cons_self, heq.trans hni⟩
        · obtain ⟨p, hp, hpi⟩ := ih h (add_one_le_of_lt (BitVec.lt_of_le_ne hn hni))
          exact ⟨p, List.mem_cons_of_mem _ hp, hpi⟩
      · cases h
        exact absurd (id_lt_of_lt_of_le hm hn) (BitVec.lt_irrefl _)

/-- **What handing out does**: the identifier was still to be handed out and is not reserved, it
cannot be handed out again, and no other one is lost. -/
structure HandsOut (f f' : NextIdFinder w Key) (id : BitVec w) : Prop where
  reserved_eq : f'.reserved = f.reserved
  issuable : f.Issuable id
  free : f.reserved id = none
  gone : ¬ f'.Issuable id
  mono : ∀ i, f'.Issuable i → f.Issuable i
  rest : ∀ i, f.Issuable i → f.reserved i = none → i = id ∨ f'.Issuable i

/-- `NextId` hands out the identifier that it returns. -/
theorem next_spec {id : BitVec w} (hf : f.Wf) (h : f.next = .ok (f', some id)) :
    f'.Wf ∧ f'.nextPreassignedId.isSome ∧ HandsOut f f' id := by
  rw [next, skipToNextAvailableId] at h
  split_ifs at h with hexhausted
  · simp at h
  · have hlive : f.exhausted = false := by simpa using hexhausted
    obtain ⟨passed, hpassed, hbelow⟩ : ∃ passed,
        f.preAssignedIds = passed ++ f.nextPreassignedId.getD f.preAssignedIds
          ∧ ∀ p ∈ passed, p.1 < f.nextId := by
      cases hiter : f.nextPreassignedId with
      | none => exact ⟨[], rfl, by simp⟩
      | some rest =>
          obtain ⟨passed, hpassed, hbelow⟩ := hf.passed rest hiter
          exact ⟨passed, hpassed, hbelow hlive⟩
    split at h
    next nextId rest hskip => simp at h
    next nextId rest hskip =>
      obtain ⟨rfl, hid⟩ : _ ∧ nextId = id := by simpa using h
      subst hid
      have hsorted : (f.nextPreassignedId.getD f.preAssignedIds).Pairwise
          fun p q => compareIds p.1 q.1 = .lt := by
        have := hf.sorted
        rw [hpassed] at this
        exact (List.pairwise_append.mp this).2.1
      obtain ⟨hle, more, hmore, hmorebelow, habove⟩ := skip_eq_available hsorted hskip
      have hall : f.preAssignedIds = (passed ++ more) ++ rest := by
        rw [hpassed, hmore, List.append_assoc]
      have hallbelow : ∀ p ∈ passed ++ more, p.1 < nextId := by
        intro p hp
        rcases List.mem_append.mp hp with hp | hp
        · exact id_lt_of_lt_of_le (hbelow p hp) hle
        · exact hmorebelow p hp
      have hstep (hne : decide (nextId = BitVec.allOnes w) = false) : nextId < nextId + 1 :=
        lt_add_one_of_ne_allOnes (by simpa using hne)
      refine ⟨⟨hf.sorted, ?_⟩, rfl, rfl, ⟨hlive, hle⟩, ?_, ?_, ?_, ?_⟩
      · intro r hr
        cases hr
        refine ⟨passed ++ more, hall, fun hne p hp => ?_⟩
        exact BitVec.lt_trans (hallbelow p hp) (hstep hne)
      · rw [reserved, KeyedVector.find_eq_none_iff]
        intro p hp heq
        rw [compareIds_eq_iff] at heq
        rw [hall] at hp
        rcases List.mem_append.mp hp with hp | hp
        · exact absurd (heq ▸ hallbelow p hp) (BitVec.lt_irrefl _)
        · exact absurd (heq ▸ habove p hp) (BitVec.lt_irrefl _)
      · rintro ⟨hne, hle'⟩
        exact absurd (id_lt_of_lt_of_le (hstep hne) hle') (BitVec.lt_irrefl _)
      · rintro i ⟨hne, hle'⟩
        exact ⟨hlive, BitVec.le_trans hle (BitVec.le_of_lt (id_lt_of_lt_of_le (hstep hne) hle'))⟩
      · rintro i ⟨-, hle'⟩ hfree
        by_cases hsame : i = nextId
        · exact .inl hsame
        by_cases hlt : i < nextId
        · -- what is skipped is reserved
          obtain ⟨p, hp, rfl⟩ := mem_of_skip_eq_available hskip hle' hlt
          rw [reserved, KeyedVector.find_eq_none_iff] at hfree
          refine absurd ((compareIds_eq_iff _ _).mpr rfl) (hfree p ?_)
          rw [hpassed]
          exact List.mem_append_right _ hp
        · have hgt : nextId < i :=
            BitVec.lt_of_le_ne (BitVec.not_lt.mp hlt) fun heq => hsame heq.symm
          refine .inr ⟨?_, add_one_le_of_lt hgt⟩
          rw [decide_eq_false_iff_not]
          intro hmax
          have hi := i.isLt
          rw [hmax, BitVec.lt_def, BitVec.toNat_allOnes] at hgt
          omega
    next hskip => cases h

end NextIdFinder

/-! ## What the context guarantees -/

/-- `TypeGroup::ReserveId` reserves in the finder of the group. -/
theorem TypeGroup.reserveId_spec {g g' : TypeGroup} {name : ResourceName} {id : ResourceId}
    (hg : g.nextEntryId.Wf) (h : g.reserveId name id = .ok g') :
    g'.packageId = g.packageId ∧ g'.typeId = g.typeId ∧ g'.nextEntryId.Wf
      ∧ (∀ n, g.nextEntryId.reserved id.entryId = some n → n = name)
      ∧ (∀ i, g'.nextEntryId.Issuable i ↔ g.nextEntryId.Issuable i)
      ∧ ∀ i, g'.nextEntryId.reserved i
        = if i = id.entryId then some name else g.nextEntryId.reserved i := by
  rw [TypeGroup.reserveId] at h
  split_ifs at h
  obtain ⟨f, hf, h⟩ := bind_eq_ok_iff.mp h
  cases h
  obtain ⟨hwf, -, -, hnext, hexhausted, hsame, hreserved⟩ := NextIdFinder.reserveId_spec hg hf
  refine ⟨rfl, rfl, hwf, hsame, fun i => ?_, hreserved⟩
  rw [NextIdFinder.Issuable, hnext, hexhausted]
  rfl

/-- `TypeGroup::NextId` hands out an entry identifier of the finder of the group. -/
theorem TypeGroup.next_spec {g g' : TypeGroup} {name : ResourceName} {id : ResourceId}
    (h : g.next name = .ok (g', id)) :
    ∃ entryId, id = .ofParts g.packageId g.typeId entryId ∧ g'.packageId = g.packageId
      ∧ g'.typeId = g.typeId ∧ g.nextEntryId.next = .ok (g'.nextEntryId, some entryId) := by
  obtain ⟨⟨f, entryId⟩, hf, h⟩ := bind_eq_ok_iff.mp h
  cases entryId with
  | none => cases h
  | some entryId =>
      cases h
      exact ⟨entryId, rfl, rfl, rfl, hf⟩

namespace IdAssignerContext

variable {c c' : IdAssignerContext}

/-- The invariant of the context: a type identifier that is in use belongs to one type, which has
reserved it or got it from the finder, which does not hand out 0, and the groups are those of their
keys. -/
structure Wf (c : IdAssignerContext) : Prop where
  finder : c.typeIdFinder.Wf
  typeId_used : ∀ key g, c.types.lookup key = some g →
    c.typeIdFinder.reserved key.id = some key
      ∨ (c.typeIdFinder.nextPreassignedId.isSome ∧ c.typeIdFinder.reserved key.id = none
        ∧ ¬ c.typeIdFinder.Issuable key.id)
  key_eq : ∀ key key' g g', c.types.lookup key = some g → c.types.lookup key' = some g' →
    key.id = key'.id → key = key'
  nonStaged : ∀ type typeId, c.nonStagedTypeIds.lookup type = some typeId →
    ∃ g, c.types.lookup ⟨type, typeId⟩ = some g
  group : ∀ key g, c.types.lookup key = some g →
    g.packageId = c.packageId ∧ g.typeId = key.id ∧ g.nextEntryId.Wf
  reserved_type : ∀ key g, c.types.lookup key = some g → ∀ i n, g.nextEntryId.reserved i = some n →
    n.type.type = key.type
  typeId_pos : ¬ c.typeIdFinder.Issuable 0

/-- The identifier is reserved under the name. -/
def Reserves (c : IdAssignerContext) (name : ResourceName) (id : ResourceId) : Prop :=
  id.packageId = c.packageId ∧ ∃ g, c.types.lookup ⟨name.type.type, id.typeId⟩ = some g
    ∧ g.nextEntryId.reserved id.entryId = some name

/-- The identifier has been handed out for the name. -/
def Issued (c : IdAssignerContext) (name : ResourceName) (id : ResourceId) : Prop :=
  id.packageId = c.packageId ∧ c.nonStagedTypeIds.lookup name.type.type = some id.typeId
    ∧ ∃ g, c.types.lookup ⟨name.type.type, id.typeId⟩ = some g
      ∧ g.nextEntryId.reserved id.entryId = none ∧ ¬ g.nextEntryId.Issuable id.entryId

/-- A new context satisfies the invariant. -/
theorem wf_new (packageName : Bytes) (packageId : BitVec 8) : (new packageName packageId).Wf where
  finder := NextIdFinder.wf_new 1
  typeId_used := fun key g h => by cases h
  key_eq := fun key key' g g' h => by cases h
  nonStaged := fun type typeId h => by cases h
  group := fun key g h => by cases h
  reserved_type := fun key g h => by cases h
  typeId_pos := fun h => absurd (show (1 : BitVec 8) ≤ 0 from h.2) (by decide)

/-- The invariant survives an update of a group. -/
theorem Wf.insertGroup (hc : c.Wf) {key : ResourceTypeKey} {g g' : TypeGroup}
    (hg : c.types.lookup key = some g) (hpackage : g'.packageId = g.packageId)
    (htype : g'.typeId = g.typeId) (hfinder : g'.nextEntryId.Wf)
    (hreserved : ∀ i n, g'.nextEntryId.reserved i = some n → n.type.type = key.type) :
    Wf { c with types := c.types.insert key g' } := by
  -- the keys are the same as before
  have hkeys : ∀ k h, AList.lookup k (c.types.insert key g') = some h →
      ∃ h', c.types.lookup k = some h' := by
    intro k h hk
    rw [Dict.lookup_insert] at hk
    split_ifs at hk with heq
    · exact ⟨g, heq ▸ hg⟩
    · exact ⟨h, hk⟩
  constructor
  · exact hc.finder
  · intro k h hk
    obtain ⟨h', hk'⟩ := hkeys k h hk
    exact hc.typeId_used k h' hk'
  · intro k k' h h' hk hk' hid
    obtain ⟨g₁, hk⟩ := hkeys k h hk
    obtain ⟨g₂, hk'⟩ := hkeys k' h' hk'
    exact hc.key_eq k k' g₁ g₂ hk hk' hid
  · intro type typeId htypeId
    obtain ⟨h, hh⟩ := hc.nonStaged type typeId htypeId
    show ∃ g, AList.lookup _ (c.types.insert key g') = some g
    rw [Dict.lookup_insert]
    split_ifs
    · exact ⟨g', rfl⟩
    · exact ⟨h, hh⟩
  · intro k h hk
    rw [show AList.lookup k _ = _ from Dict.lookup_insert c.types k key g'] at hk
    split_ifs at hk with heq
    · cases hk
      obtain ⟨hp, ht, -⟩ := hc.group key g hg
      exact ⟨hpackage.trans hp, htype.trans (heq ▸ ht), hfinder⟩
    · exact hc.group k h hk
  · intro k h hk
    rw [show AList.lookup k _ = _ from Dict.lookup_insert c.types k key g'] at hk
    split_ifs at hk with heq
    · cases hk
      exact heq ▸ hreserved
    · exact hc.reserved_type k h hk
  · exact hc.typeId_pos

/-- The invariant survives a new group whose type identifier no key has. -/
theorem Wf.insertNew (hc : c.Wf) {key : ResourceTypeKey} {f : NextIdFinder 8 ResourceTypeKey}
    (hnew : ∀ k g, c.types.lookup k = some g → k.id ≠ key.id) (hf : f.Wf)
    (hpos : ∀ i, f.Issuable i → c.typeIdFinder.Issuable i)
    (hkey : f.reserved key.id = some key
      ∨ (f.nextPreassignedId.isSome ∧ f.reserved key.id = none ∧ ¬ f.Issuable key.id))
    (hold : ∀ k g, c.types.lookup k = some g → f.reserved k.id = some k
      ∨ (f.nextPreassignedId.isSome ∧ f.reserved k.id = none ∧ ¬ f.Issuable k.id))
    {nonStaged : Dict ResourceType (BitVec 8)}
    (hstaged : ∀ type typeId, nonStaged.lookup type = some typeId →
      key = ⟨type, typeId⟩ ∨ c.nonStagedTypeIds.lookup type = some typeId) :
    Wf ⟨c.packageName, c.packageId, c.types.insert key (.new c.packageId key.id), nonStaged, f⟩ := by
  -- the new group is the only one under its key
  have hlookup := fun k => Dict.lookup_insert c.types k key (.new c.packageId key.id)
  constructor
  · exact hf
  · intro k g hk
    simp only [hlookup] at hk
    split_ifs at hk with heq
    · exact heq ▸ hkey
    · exact hold k g hk
  · intro k k' g g' hk hk' hid
    simp only [hlookup] at hk hk'
    split_ifs at hk hk' with heq heq' heq'
    · rw [heq, heq']
    · exact absurd (heq ▸ hid).symm (hnew k' g' hk')
    · exact absurd (heq' ▸ hid) (hnew k g hk)
    · exact hc.key_eq k k' g g' hk hk' hid
  · intro type typeId htypeId
    simp only [hlookup]
    split_ifs with heq
    · exact ⟨_, rfl⟩
    · rcases hstaged type typeId htypeId with hkey' | hold'
      · exact absurd hkey'.symm heq
      · exact hc.nonStaged type typeId hold'
  · intro k g hk
    simp only [hlookup] at hk
    split_ifs at hk with heq
    · cases hk
      exact ⟨rfl, heq ▸ rfl, NextIdFinder.wf_new 0⟩
    · exact hc.group k g hk
  · intro k g hk i n hn
    simp only [hlookup] at hk
    split_ifs at hk
    · cases hk
      cases hn
    · exact hc.reserved_type k g hk i n hn
  · exact fun h => hc.typeId_pos (hpos 0 h)

/-- What `findOrReserveType` does: the key has the group, which may be new, and all other groups are
as before. -/
theorem findOrReserveType_spec {name : ResourceName} {id : ResourceId} {visibility : Visibility}
    {g : TypeGroup} (hc : c.Wf) (h : c.findOrReserveType name id visibility = .ok (c', g)) :
    c'.Wf ∧ c'.packageId = c.packageId ∧ c'.types.lookup ⟨name.type.type, id.typeId⟩ = some g
      ∧ c'.nonStagedTypeIds = c.nonStagedTypeIds
      ∧ (∀ k, k ≠ ⟨name.type.type, id.typeId⟩ → c'.types.lookup k = c.types.lookup k)
      ∧ (c.types.lookup ⟨name.type.type, id.typeId⟩ = some g
        ∨ c.types.lookup ⟨name.type.type, id.typeId⟩ = none ∧ g.nextEntryId = .new 0) := by
  rw [findOrReserveType] at h
  split at h
  next group hgroup =>
    cases h
    exact ⟨hc, rfl, hgroup, rfl, fun k _ => rfl, .inl hgroup⟩
  next hnone =>
    obtain ⟨f, hf, h⟩ := bind_eq_ok_iff.mp h
    cases h
    obtain ⟨hwf, hstarted, -, hnext, hexhausted, hsame, hreserved⟩ :=
      NextIdFinder.reserveId_spec hc.finder hf
    -- the finder has not been started, so the identifiers in use are reserved
    have hused : ∀ k g, c.types.lookup k = some g →
        c.typeIdFinder.reserved k.id = some k ∧ k.id ≠ id.typeId := by
      intro k g hk
      rcases hc.typeId_used k g hk with hk' | ⟨hk', -⟩
      · refine ⟨hk', fun hid => ?_⟩
        have hkey : k = ⟨name.type.type, id.typeId⟩ := hsame k (hid ▸ hk')
        rw [hkey, hnone] at hk
        cases hk
      · rw [hstarted] at hk'
        cases hk'
    refine ⟨?_, rfl, AList.lookup_insert _, rfl, fun k hk => ?_, .inr ⟨hnone, rfl⟩⟩
    · refine hc.insertNew (fun k g hk => (hused k g hk).2) hwf
        (fun i hi => ⟨hexhausted ▸ hi.1, hnext ▸ hi.2⟩) (.inl ?_) ?_ fun _ _ => .inr
      · rw [hreserved, if_pos rfl]
      · intro k g hk
        left
        rw [hreserved, if_neg (hused k g hk).2, (hused k g hk).1]
    · show AList.lookup k (c.types.insert _ _) = _
      rw [Dict.lookup_insert, if_neg hk]

/-- What `checkStaged` does: if the resource is not staged, the type has the type identifier as its
non-staged one, and that of no other type changes. -/
theorem checkStaged_spec {name : ResourceName} {id : ResourceId} {visibility : Visibility}
    {g : TypeGroup} (hc : c.Wf) (hg : c.types.lookup ⟨name.type.type, id.typeId⟩ = some g)
    (h : c.checkStaged name id visibility = .ok c') :
    c'.Wf ∧ c'.packageId = c.packageId ∧ c'.types = c.types
      ∧ ∀ t i, c'.nonStagedTypeIds.lookup t = some i ↔ c.nonStagedTypeIds.lookup t = some i
        ∨ visibility.stagedApi = false ∧ t = name.type.type ∧ i = id.typeId := by
  rw [checkStaged] at h
  split_ifs at h with hstaged
  · cases h
    exact ⟨hc, rfl, rfl, by simp [hstaged]⟩
  · split at h
    next hnone =>
      cases h
      refine ⟨⟨hc.finder, hc.typeId_used, hc.key_eq, ?_, hc.group, hc.reserved_type, hc.typeId_pos⟩,
        rfl, rfl, fun t i => ?_⟩
      · intro type typeId htypeId
        rw [show AList.lookup type _ = _ from Dict.lookup_insert c.nonStagedTypeIds _ _ _] at htypeId
        split_ifs at htypeId with htype
        · cases htypeId
          exact ⟨g, htype ▸ hg⟩
        · exact hc.nonStaged type typeId htypeId
      · rw [show AList.lookup t _ = _ from Dict.lookup_insert c.nonStagedTypeIds _ _ _]
        split_ifs with htype
        · rw [htype, hnone]
          simp [hstaged, eq_comm]
        · simp [htype]
    next typeId htypeId =>
      split_ifs at h with hsame
      cases h
      refine ⟨hc, rfl, rfl, fun t i => ⟨.inl, ?_⟩⟩
      rintro (hold | ⟨-, rfl, rfl⟩)
      · exact hold
      · rw [htypeId, not_not.mp hsame]

/-- **A turn of the context**: one group takes the place of that under its key, which may be new. -/
structure Turn (c c' : IdAssignerContext) (key : ResourceTypeKey) (g g' : TypeGroup) : Prop where
  packageId : c'.packageId = c.packageId
  lookup : ∀ k, c'.types.lookup k = if k = key then some g' else c.types.lookup k
  group : c.types.lookup key = some g ∨ c.types.lookup key = none ∧ g.nextEntryId = .new 0

section Turn

variable {key : ResourceTypeKey} {g g' : TypeGroup} (h : c.Turn c' key g g')
include h

/-- The group that was there. -/
theorem Turn.eq_group {k : ResourceTypeKey} {u : TypeGroup} (hk : k = key)
    (hu : c.types.lookup k = some u) : u = g := by
  rw [hk] at hu
  rcases h.group with hg | ⟨hnone, -⟩
  · rw [hg] at hu
    exact (Option.some.inj hu).symm
  · rw [hnone] at hu
    cases hu

/-- What is reserved under the key before the turn. -/
theorem Turn.reserves_before {n : ResourceName} {i : ResourceId}
    (hkey : ⟨n.type.type, i.typeId⟩ = key) :
    c.Reserves n i ↔ i.packageId = c.packageId ∧ g.nextEntryId.reserved i.entryId = some n := by
  refine and_congr_right fun _ => ⟨?_, fun hn => ?_⟩
  · rintro ⟨u, hu, hn⟩
    rwa [← h.eq_group hkey hu]
  · rcases h.group with hg | ⟨-, hnew⟩
    · exact ⟨g, hkey ▸ hg, hn⟩
    · rw [hnew] at hn
      cases hn

/-- What is reserved after the turn. -/
theorem Turn.reserves_after (n : ResourceName) (i : ResourceId) :
    c'.Reserves n i ↔ if ⟨n.type.type, i.typeId⟩ = key
      then i.packageId = c.packageId ∧ g'.nextEntryId.reserved i.entryId = some n
      else c.Reserves n i := by
  rw [Reserves, h.packageId, h.lookup]
  split_ifs with hkey
  · simp
  · rfl

/-- A turn that reserves nothing in the group reserves nothing. -/
theorem Turn.reserves_iff (hreserved : g'.nextEntryId.reserved = g.nextEntryId.reserved)
    (n : ResourceName) (i : ResourceId) : c'.Reserves n i ↔ c.Reserves n i := by
  rw [h.reserves_after]
  split_ifs with hkey
  · rw [h.reserves_before hkey, hreserved]
  · rfl

/-- **A turn that reserves in the group**: one more identifier is reserved. -/
theorem Turn.reserves_iff_or {name : ResourceName} {id : ResourceId}
    (hkey : key = ⟨name.type.type, id.typeId⟩) (hpackage : id.packageId = c.packageId)
    (hsame : ∀ n, g.nextEntryId.reserved id.entryId = some n → n = name)
    (hreserved : ∀ i, g'.nextEntryId.reserved i
      = if i = id.entryId then some name else g.nextEntryId.reserved i)
    (n : ResourceName) (i : ResourceId) :
    c'.Reserves n i ↔ c.Reserves n i ∨ n = name ∧ i = id := by
  rw [h.reserves_after]
  split_ifs with hmine
  · rw [h.reserves_before hmine, hreserved]
    split_ifs with hentry
    · constructor
      · rintro ⟨hi, hn⟩
        rw [hkey, ResourceTypeKey.mk.injEq] at hmine
        exact .inr ⟨(Option.some.inj hn).symm,
          ResourceId.eq_of_parts (hi.trans hpackage.symm) hmine.2 hentry⟩
      · rintro (⟨hi, hn⟩ | ⟨rfl, rfl⟩)
        · -- the entry identifier was reserved before, so it was by this name
          exact ⟨hi, congrArg some (hsame n (hentry ▸ hn)).symm⟩
        · exact ⟨hpackage, rfl⟩
    · refine (or_iff_left ?_).symm
      rintro ⟨-, rfl⟩
      exact hentry rfl
  · refine (or_iff_left ?_).symm
    rintro ⟨rfl, rfl⟩
    exact hmine hkey.symm

end Turn

/-- **The context while identifiers are reserved**: which ones are, and which of them are not staged;
none has been handed out. -/
structure Holds (c : IdAssignerContext) (reserved nonStaged : ResourceName × ResourceId → Prop) :
    Prop where
  wf : c.Wf
  reserves_iff : ∀ n i, c.Reserves n i ↔ reserved (n, i)
  nonStaged_iff : ∀ t i, c.nonStagedTypeIds.lookup t = some i
    ↔ ∃ r, nonStaged r ∧ r.1.type.type = t ∧ r.2.typeId = i
  issuable : ∀ key g, c.types.lookup key = some g → ∀ i, g.nextEntryId.Issuable i

/-- In a new context nothing is reserved. -/
theorem holds_new (packageName : Bytes) (packageId : BitVec 8) :
    (new packageName packageId).Holds (fun _ => False) fun _ => False where
  wf := wf_new packageName packageId
  reserves_iff := fun n i => iff_of_false (fun ⟨_, g, hg, _⟩ => by cases hg) not_false
  nonStaged_iff := fun t i => iff_of_false (fun h => by cases h) fun ⟨_, hr, _⟩ => hr
  issuable := fun key g h => by cases h

variable {reserved nonStaged reserved' nonStaged' : ResourceName × ResourceId → Prop}

/-- What is reserved, in other words. -/
theorem Holds.congr (hc : c.Holds reserved nonStaged) (h : ∀ r, reserved r ↔ reserved' r)
    (h' : ∀ r, nonStaged r ↔ nonStaged' r) : c.Holds reserved' nonStaged' := by
  rwa [← funext fun r => propext (h r), ← funext fun r => propext (h' r)]

/-- **What reserving in the context does**: one more identifier is reserved. -/
theorem Holds.reserveId {name : ResourceName} {id : ResourceId} {visibility : Visibility}
    (hc : c.Holds reserved nonStaged) (h : c.reserveId name id visibility = .ok c') :
    c'.packageId = c.packageId ∧ c'.Holds (fun r => reserved r ∨ r = (name, id))
      fun r => nonStaged r ∨ visibility.stagedApi = false ∧ r = (name, id) := by
  rw [IdAssignerContext.reserveId] at h
  split_ifs at h with hpackage
  obtain ⟨⟨c₁, g⟩, hfind, h⟩ := bind_eq_ok_iff.mp h
  obtain ⟨c₂, hcheck, h⟩ := bind_eq_ok_iff.mp h
  obtain ⟨g', hreserve, h⟩ := bind_eq_ok_iff.mp h
  cases h
  -- the three steps: the group of the type, the staged identifiers, the identifier in the group
  obtain ⟨hwf₁, hpackage₁, hg, hnonStaged, hkept, hgroup⟩ := findOrReserveType_spec hc.wf hfind
  obtain ⟨hwf₂, hpackage₂, htypes, hcheck⟩ := checkStaged_spec hwf₁ hg hcheck
  obtain ⟨hp, ht, hwf', hsame, hfinder, hreserved⟩ :=
    TypeGroup.reserveId_spec (hwf₁.group _ _ hg).2.2 hreserve
  rw [← htypes] at hg hkept
  -- all that changes is this group
  have hturn : c.Turn { c₂ with types := c₂.types.insert ⟨name.type.type, id.typeId⟩ g' }
      ⟨name.type.type, id.typeId⟩ g g' := by
    refine ⟨hpackage₂.trans hpackage₁, fun k => ?_, hgroup⟩
    refine (Dict.lookup_insert c₂.types k _ g').trans ?_
    split_ifs with hk
    · rfl
    · exact hkept k hk
  refine ⟨hturn.packageId, hwf₂.insertGroup hg hp ht hwf' ?_, fun n i => ?_, fun t i => ?_,
    fun k u hu i => ?_⟩
  · intro i n hn
    rw [hreserved] at hn
    split_ifs at hn
    · cases hn
      rfl
    · exact hwf₂.reserved_type _ g hg i n hn
  · rw [hturn.reserves_iff_or rfl (not_not.mp hpackage).symm hsame hreserved, hc.reserves_iff,
      Prod.mk.injEq]
  · refine (hcheck t i).trans ?_
    rw [hnonStaged, hc.nonStaged_iff]
    constructor
    · rintro (⟨r, hr, heq⟩ | ⟨hstaged, rfl, rfl⟩)
      · exact ⟨r, .inl hr, heq⟩
      · exact ⟨_, .inr ⟨hstaged, rfl⟩, rfl, rfl⟩
    · rintro ⟨r, hr | ⟨hstaged, rfl⟩, heq⟩
      · exact .inl ⟨r, hr, heq⟩
      · exact .inr ⟨hstaged, heq.1.symm, heq.2.symm⟩
  -- the group may be new, and then nothing has been given out from it
  · rw [hturn.lookup] at hu
    split_ifs at hu
    · cases hu
      refine (hfinder i).mpr ?_
      rcases hgroup with hg | ⟨-, hnew⟩
      · exact hc.issuable _ _ hg i
      · rw [hnew]
        exact ⟨rfl, BitVec.le_def.mpr (Nat.zero_le _)⟩
    · exact hc.issuable k u hu i

/-- What `nonStagedTypeId` does: the type has a group under its type identifier, which is new, and not
0, if the type had none. -/
theorem nonStagedTypeId_spec {type : ResourceType} {typeId : BitVec 8} (hc : c.Wf)
    (h : c.nonStagedTypeId type = .ok (c', typeId)) :
    Wf { c' with types := (c'.types.insert ⟨type, typeId⟩
          ((c'.types.lookup ⟨type, typeId⟩).getD (.new c'.packageId typeId))) }
      ∧ c'.packageId = c.packageId ∧ c'.nonStagedTypeIds.lookup type = some typeId
      ∧ (∀ t i, c.nonStagedTypeIds.lookup t = some i → c'.nonStagedTypeIds.lookup t = some i)
      ∧ (∀ k, c'.types.lookup k = c.types.lookup k)
      ∧ ∀ t i, c'.nonStagedTypeIds.lookup t = some i → c.nonStagedTypeIds.lookup t = some i
        ∨ t = type ∧ i ≠ 0 ∧ ∀ k g, c.types.lookup k = some g → k.id ≠ i := by
  rw [nonStagedTypeId] at h
  split at h
  next assigned hassigned =>
    cases h
    obtain ⟨g, hg⟩ := hc.nonStaged type typeId hassigned
    refine ⟨?_, rfl, hassigned, fun t i hi => hi, fun k => rfl, fun t i hi => .inl hi⟩
    rw [hg]
    exact hc.insertGroup hg rfl rfl (hc.group _ g hg).2.2 (hc.reserved_type _ g hg)
  next hnone =>
    obtain ⟨⟨f, next⟩, hf, h⟩ := bind_eq_ok_iff.mp h
    cases next with
    | none => cases h
    | some next =>
        cases h
        obtain ⟨hwf, hstarted, hreserved, hissuable, hfree, hissued, hmono, -⟩ :=
          NextIdFinder.next_spec hc.finder hf
        -- an identifier that the finder hands out is not in use
        have hnew : ∀ k g, c.types.lookup k = some g → k.id ≠ typeId := by
          intro k g hk heq
          rcases hc.typeId_used k g hk with hk' | ⟨-, -, hk'⟩
          · rw [heq, hfree] at hk'
            cases hk'
          · exact hk' (heq ▸ hissuable)
        have hmissing : c.types.lookup ⟨type, typeId⟩ = none := by
          cases hk : c.types.lookup ⟨type, typeId⟩ with
          | none => rfl
          | some g => exact absurd rfl (hnew _ g hk)
        refine ⟨?_, rfl, AList.lookup_insert _, ?_, fun k => rfl, fun t i hi => ?_⟩
        · show Wf ⟨c.packageName, c.packageId, c.types.insert _ _, _, f⟩
          rw [hmissing]
          refine hc.insertNew hnew hwf hmono (.inr ⟨hstarted, ?_, hissued⟩) ?_ ?_
          · rw [hreserved, hfree]
          · intro k g hk
            rw [hreserved]
            rcases hc.typeId_used k g hk with hk' | ⟨-, hk', hk''⟩
            · exact .inl hk'
            · exact .inr ⟨hstarted, hk', fun hi => hk'' (hmono _ hi)⟩
          · intro t i hi
            rw [Dict.lookup_insert] at hi
            split_ifs at hi with ht
            · cases hi
              exact .inl (ht ▸ rfl)
            · exact .inr hi
        · intro t i hi
          show AList.lookup t (c.nonStagedTypeIds.insert _ _) = _
          rw [Dict.lookup_insert, if_neg]
          · exact hi
          · rintro rfl
            rw [hnone] at hi
            cases hi
        · rw [show AList.lookup t _ = _ from Dict.lookup_insert c.nonStagedTypeIds _ _ _] at hi
          split_ifs at hi with ht
          · cases hi
            exact .inr ⟨ht, fun hzero => hc.typeId_pos (hzero ▸ hissuable), hnew⟩
          · exact .inl hi

/-- **A context in which more identifiers have been handed out**: nothing else is reserved, and a type
whose non-staged type identifier is new has one that is not reserved. -/
structure Hands (c c' : IdAssignerContext) (issued : ResourceType → ResourceId → Prop) : Prop where
  packageId : c'.packageId = c.packageId
  reserves_iff : ∀ n i, c'.Reserves n i ↔ c.Reserves n i
  issued_iff : ∀ n i, c'.Issued n i ↔ c.Issued n i ∨ issued n.type.type i
  nonStaged : ∀ t i, c.nonStagedTypeIds.lookup t = some i → c'.nonStagedTypeIds.lookup t = some i
  eq_or_new : ∀ t i, c'.nonStagedTypeIds.lookup t = some i → c.nonStagedTypeIds.lookup t = some i
    ∨ i ≠ 0 ∧ ∀ n j, c.Reserves n j → j.typeId ≠ i

/-- Nothing has been handed out. -/
theorem Hands.refl (c : IdAssignerContext) : c.Hands c fun _ _ => False :=
  ⟨rfl, fun _ _ => .rfl, fun _ _ => (or_iff_left not_false).symm, fun _ _ h => h,
    fun _ _ h => .inl h⟩

/-- What is handed out in turn is handed out together. -/
theorem Hands.trans {c₁ c₂ c₃ : IdAssignerContext} {issued issued' : ResourceType → ResourceId → Prop}
    (h : c₁.Hands c₂ issued) (h' : c₂.Hands c₃ issued') :
    c₁.Hands c₃ fun t i => issued t i ∨ issued' t i where
  packageId := h'.packageId.trans h.packageId
  reserves_iff := fun n i => (h'.reserves_iff n i).trans (h.reserves_iff n i)
  issued_iff := fun n i => by
    rw [h'.issued_iff, h.issued_iff, or_assoc]
  nonStaged := fun t i hi => h'.nonStaged t i (h.nonStaged t i hi)
  eq_or_new := fun t i hi => by
    rcases h'.eq_or_new t i hi with hi | ⟨hpos, hnew⟩
    · exact h.eq_or_new t i hi
    · exact .inr ⟨hpos, fun n j hj => hnew n j ((h.reserves_iff n j).mpr hj)⟩

/-- What has been handed out, in other words. -/
theorem Hands.congr {issued issued' : ResourceType → ResourceId → Prop} (h : c.Hands c' issued)
    (hiff : ∀ t i, issued t i ↔ issued' t i) : c.Hands c' issued' := by
  rwa [← funext fun t => funext fun i => propext (hiff t i)]

section Turn

variable {key : ResourceTypeKey} {g g' : TypeGroup} (h : c.Turn c' key g g')
include h

variable {id : ResourceId}

/-- What can still be handed out in the group has not been handed out for any name. -/
theorem Turn.not_issued (hc' : c'.Wf) (hid : key.id = id.typeId)
    (hissuable : g.nextEntryId.Issuable id.entryId) (n : ResourceName) : ¬ c.Issued n id := by
  rintro ⟨-, -, u, hu, -, hgone⟩
  have hkey : (⟨n.type.type, id.typeId⟩ : ResourceTypeKey) = key := by
    by_contra hne
    exact hne (hc'.key_eq _ _ u g' (by rw [h.lookup, if_neg hne, hu]) (by rw [h.lookup, if_pos rfl])
      hid.symm)
  exact hgone (h.eq_group hkey hu ▸ hissuable)

/-- **A turn that hands out in the group**: the identifier is handed out for its type. -/
theorem Turn.issued_iff (hid : key.id = id.typeId) (hpackage : id.packageId = c.packageId)
    (hands : g.nextEntryId.HandsOut g'.nextEntryId id.entryId)
    (hmine : c'.nonStagedTypeIds.lookup key.type = some id.typeId)
    (hkept : ∀ t i, c.nonStagedTypeIds.lookup t = some i → c'.nonStagedTypeIds.lookup t = some i)
    (hnew : ∀ t i, c'.nonStagedTypeIds.lookup t = some i → c.nonStagedTypeIds.lookup t = some i
      ∨ t = key.type ∧ ∀ k u, c.types.lookup k = some u → k.id ≠ i)
    (n : ResourceName) (i : ResourceId) :
    c'.Issued n i ↔ c.Issued n i ∨ n.type.type = key.type ∧ i = id := by
  constructor
  · rintro ⟨hi, hn, u, hu, hnone, hgone⟩
    rw [h.lookup] at hu
    split_ifs at hu with hkey
    · cases hu
      subst hkey
      rw [hands.reserved_eq] at hnone
      by_cases hleft : g.nextEntryId.Issuable i.entryId
      · -- only the identifier that is handed out cannot be handed out any more
        have hentry := (hands.rest _ hleft hnone).resolve_right hgone
        exact .inr ⟨rfl, ResourceId.eq_of_parts (hi.trans (h.packageId.trans hpackage.symm)) hid
          hentry⟩
      · rcases h.group with hg | ⟨-, hfirst⟩
        · refine .inl ⟨hi.trans h.packageId, ?_, g, hg, hnone, hleft⟩
          rcases hnew _ _ hn with hn | ⟨-, hnew⟩
          · exact hn
          · exact absurd rfl (hnew _ g hg)
        · rw [hfirst] at hleft
          exact absurd ⟨rfl, BitVec.le_def.mpr (Nat.zero_le _)⟩ hleft
    · refine .inl ⟨hi.trans h.packageId, ?_, u, hu, hnone, hgone⟩
      rcases hnew _ _ hn with hn' | ⟨htype, -⟩
      · exact hn'
      · rw [htype, hmine, Option.some.injEq] at hn
        exact absurd (by rw [htype, ← hn, ← hid]) hkey
  · rintro (⟨hi, hn, u, hu, hnone, hgone⟩ | ⟨htype, rfl⟩)
    · refine ⟨hi.trans h.packageId.symm, hkept _ _ hn, ?_⟩
      by_cases hkey : (⟨n.type.type, i.typeId⟩ : ResourceTypeKey) = key
      · obtain rfl := h.eq_group hkey hu
        exact ⟨g', by rw [h.lookup, if_pos hkey], by rw [hands.reserved_eq, hnone],
          fun hleft => hgone (hands.mono _ hleft)⟩
      · exact ⟨u, by rw [h.lookup, if_neg hkey, hu], hnone, hgone⟩
    · refine ⟨hpackage.trans h.packageId.symm, htype ▸ hmine, g', ?_,
        by rw [hands.reserved_eq, hands.free], hands.gone⟩
      rw [h.lookup, if_pos (by rw [htype, ← hid])]

end Turn

/-- **What handing out in the context does**: the identifier is handed out for the type of the name,
and it has not been handed out before. -/
theorem next_spec {name : ResourceName} {id : ResourceId} (hc : c.Wf)
    (h : c.next name = .ok (c', id)) :
    c'.Wf ∧ c.Hands c' (fun t i => t = name.type.type ∧ i = id) ∧ ∀ n, ¬ c.Issued n id := by
  rw [next] at h
  split_ifs at h
  obtain ⟨⟨c₁, typeId⟩, htypeId, h⟩ := bind_eq_ok_iff.mp h
  obtain ⟨⟨g', id'⟩, hnext, h⟩ := bind_eq_ok_iff.mp h
  cases h
  obtain ⟨hwf, hpackage, hmine, hkept, hlookup, hnew⟩ := nonStagedTypeId_spec hc htypeId
  -- the type identifier, and then an identifier of the group
  obtain ⟨entryId, hid, hp, ht, hentry⟩ := TypeGroup.next_spec hnext
  generalize hgroup : (c₁.types.lookup ⟨name.type.type, typeId⟩).getD (.new c₁.packageId typeId) = g
    at hwf hid hp ht hentry
  have hg : AList.lookup (⟨name.type.type, typeId⟩ : ResourceTypeKey)
      (c₁.types.insert ⟨name.type.type, typeId⟩ g) = some g := AList.lookup_insert _
  obtain ⟨hgpackage, hgtype, hgwf⟩ := hwf.group _ g hg
  obtain ⟨hwf', -, hands⟩ := NextIdFinder.next_spec hgwf hentry
  have hfinal := hwf.insertGroup hg hp ht hwf' (hands.reserved_eq ▸ hwf.reserved_type _ g hg)
  simp only [AList.insert_insert] at hfinal
  -- the identifier is made from the package, the type and the entry
  have hidpackage : id.packageId = c.packageId := by
    rw [hid, ResourceId.packageId_ofParts, hgpackage]
    exact hpackage
  have hidtype : typeId = id.typeId := by
    rw [hid, ResourceId.typeId_ofParts, hgtype]
  have hidentry : entryId = id.entryId := by
    rw [hid, ResourceId.entryId_ofParts]
  subst hidtype hidentry
  -- all that changes is the group that the identifier is from
  have hturn : c.Turn { c₁ with types := c₁.types.insert ⟨name.type.type, id.typeId⟩ g' }
      ⟨name.type.type, id.typeId⟩ g g' := by
    refine ⟨hpackage, fun k => ?_, ?_⟩
    · rw [← hlookup k]
      exact Dict.lookup_insert c₁.types k _ g'
    · rw [← hlookup]
      cases hlook : c₁.types.lookup ⟨name.type.type, id.typeId⟩ with
      | none => exact .inr ⟨rfl, by rw [← hgroup, hlook]; rfl⟩
      | some u => exact .inl (by rw [← hgroup, hlook]; rfl)
  refine ⟨hfinal, ⟨hpackage, hturn.reserves_iff hands.reserved_eq,
    hturn.issued_iff rfl hidpackage hands hmine hkept fun t i hi => ?_, hkept, fun t i hi => ?_⟩,
    hturn.not_issued hfinal rfl hands.issuable⟩
  · rcases hnew t i hi with hi | ⟨htype, -, hunused⟩
    · exact .inl hi
    · exact .inr ⟨htype, hunused⟩
  · rcases hnew t i hi with hi | ⟨-, hpos, hunused⟩
    · exact .inl hi
    · refine .inr ⟨hpos, ?_⟩
      rintro n j ⟨-, u, hu, -⟩
      exact hunused _ u hu

/-- Reserved identifiers are reserved under one name. -/
theorem Wf.name_eq (hc : c.Wf) {n m : ResourceName} {i : ResourceId} (hn : c.Reserves n i)
    (hm : c.Reserves m i) : n = m := by
  obtain ⟨-, g, hg, hn⟩ := hn
  obtain ⟨-, g', hg', hm⟩ := hm
  have hkey := hc.key_eq _ _ g g' hg hg' rfl
  rw [hkey, hg'] at hg
  cases hg
  exact Option.some.inj (hn.symm.trans hm)

/-- An identifier that is handed out has a type identifier of its own type. -/
theorem Wf.type_eq (hc : c.Wf) {n m : ResourceName} {i j : ResourceId} (hn : c.Issued n i)
    (hm : c.Reserves m j ∨ c.Issued m j) (htype : j.typeId = i.typeId) :
    m.type.type = n.type.type := by
  obtain ⟨-, -, g, hg, -⟩ := hn
  obtain ⟨g', hg'⟩ : ∃ g', c.types.lookup ⟨m.type.type, j.typeId⟩ = some g' := by
    rcases hm with ⟨-, g', hg', -⟩ | ⟨-, -, g', hg', -⟩
    · exact ⟨g', hg'⟩
    · exact ⟨g', hg'⟩
  exact congrArg ResourceTypeKey.type (hc.key_eq _ _ g' g hg' hg htype)

/-- An identifier that is handed out is not reserved. -/
theorem Wf.issued_ne_reserved (hc : c.Wf) {n m : ResourceName} {i j : ResourceId}
    (hn : c.Issued n i) (hm : c.Reserves m j) : j ≠ i := by
  rintro rfl
  have htype := hc.type_eq hn (.inl hm) rfl
  obtain ⟨-, -, g, hg, hnone, -⟩ := hn
  obtain ⟨-, g', hg', hm⟩ := hm
  rw [htype, hg] at hg'
  cases hg'
  rw [hnone] at hm
  cases hm

end IdAssignerContext

/-! ## What the pass guarantees -/

section Guarantee

variable {ι : Type} {c c' : IdAssignerContext}

/-- The identifier that the stable map gives to a name. -/
def mappedId (assignedIdMap : Option (Dict ResourceName ResourceId)) (name : ResourceName) :
    Option ResourceId :=
  assignedIdMap.bind (·.lookup name)

/-- The identifiers that an entry brings along: its own one and its staged one. -/
def ownIds (e : ResourceName × ResourceEntry ι) : List (ResourceName × ResourceId) :=
  (e.2.id.toList ++ e.2.stagedId.toList.map StagedId.id).map (e.1, ·)

/-- All identifiers that are reserved: those of the entries, and those of the stable map whether or
not the name is in the table. -/
def reservations (assignedIdMap : Option (Dict ResourceName ResourceId)) (table : ResourceTable ι) :
    List (ResourceName × ResourceId) :=
  table.namedEntries.flatMap ownIds ++ stablePairs assignedIdMap

/-- Those of them that are reserved as not staged. -/
def nonStagedIds (assignedIdMap : Option (Dict ResourceName ResourceId)) (table : ResourceTable ι) :
    List (ResourceName × ResourceId) :=
  (table.namedEntries.filter fun e => !e.2.visibility.stagedApi).flatMap
      (fun e => e.2.id.toList.map (e.1, ·)) ++ stablePairs assignedIdMap

/-- An entry that has neither an identifier nor a mapping. -/
def IsFresh (assignedIdMap : Option (Dict ResourceName ResourceId))
    (e : ResourceName × ResourceEntry ι) : Prop :=
  e.2.id = none ∧ mappedId assignedIdMap e.1 = none

instance (assignedIdMap : Option (Dict ResourceName ResourceId)) :
    DecidablePred (IsFresh (ι := ι) assignedIdMap) := fun e =>
  inferInstanceAs (Decidable (e.2.id = none ∧ mappedId assignedIdMap e.1 = none))

/-- **What the pass guarantees** of a table and the table that it becomes. -/
structure IdsAssigned (packageId : BitVec 8)
    (assignedIdMap : Option (Dict ResourceName ResourceId)) (table table' : ResourceTable ι) :
    Prop where
  /-- The entries are the same up to their identifiers, and every entry has one of the package. -/
  entries : List.Forall₂ (fun e e' => ∃ id, e' = (e.1, { e.2 with id := some id })
    ∧ id.packageId = packageId) table.namedEntries table'.namedEntries
  /-- No two entries have the same identifier. -/
  nodup : (table'.namedEntries.map fun e => e.2.id).Nodup
  /-- A name of the stable map has its mapped identifier. -/
  mapped : ∀ p ∈ table.namedEntries.zip table'.namedEntries, ∀ id,
    mappedId assignedIdMap p.1.1 = some id → p.2.2.id = some id
  /-- A preset identifier without a mapping stays. -/
  preset : ∀ p ∈ table.namedEntries.zip table'.namedEntries, ∀ id,
    p.1.2.id = some id → mappedId assignedIdMap p.1.1 = none → p.2.2.id = some id
  /-- Fresh identifiers of one type share a type identifier, and no entry of another type has it. -/
  freshType : ∀ p ∈ table.namedEntries.zip table'.namedEntries,
    ∀ q ∈ table.namedEntries.zip table'.namedEntries, ∀ i j, IsFresh assignedIdMap p.1 →
      p.2.2.id = some i → q.2.2.id = some j →
        (IsFresh assignedIdMap q.1 → q.1.1.type.type = p.1.1.type.type → j.typeId = i.typeId)
          ∧ (q.1.1.type.type ≠ p.1.1.type.type → j.typeId ≠ i.typeId)
  /-- A fresh identifier is not reserved, and its type identifier is reserved for no other type. -/
  freshFree : ∀ p ∈ table.namedEntries.zip table'.namedEntries, ∀ i, IsFresh assignedIdMap p.1 →
    p.2.2.id = some i → ∀ r ∈ reservations assignedIdMap table,
      r.2 ≠ i ∧ (r.1.type.type ≠ p.1.1.type.type → r.2.typeId ≠ i.typeId)

variable {assignedIdMap : Option (Dict ResourceName ResourceId)}

/-- The entry after the first loop. -/
def presetEntry (assignedIdMap : Option (Dict ResourceName ResourceId))
    (e : ResourceName × ResourceEntry ι) : ResourceName × ResourceEntry ι :=
  (e.1, { e.2 with id := (mappedId assignedIdMap e.1).or e.2.id })

variable {reserved nonStaged : ResourceName × ResourceId → Prop}

/-- Reserving an optional identifier. -/
theorem reserveOption_spec {name : ResourceName} {visibility : Visibility} {id : Option ResourceId}
    (hc : c.Holds reserved nonStaged) (h : c.reserveOption name id visibility = .ok c') :
    c'.packageId = c.packageId ∧ c'.Holds (fun r => reserved r ∨ r.1 = name ∧ id = some r.2)
      fun r => nonStaged r ∨ visibility.stagedApi = false ∧ r.1 = name ∧ id = some r.2 := by
  cases id with
  | none =>
      cases h
      exact ⟨rfl, hc.congr (fun r => by simp) fun r => by simp⟩
  | some id =>
      obtain ⟨hpackage, hholds⟩ := hc.reserveId h
      have heq : ∀ r : ResourceName × ResourceId, r = (name, id) ↔ r.1 = name ∧ some id = some r.2 :=
        fun r => by rw [Prod.ext_iff, Option.some.injEq, eq_comm (a := id)]
      exact ⟨hpackage, hholds.congr (fun r => or_congr_right (heq r))
        fun r => or_congr_right (and_congr_right' (heq r))⟩

/-- What is reserved for an entry: what it has, and what it is mapped to. -/
def EntryReserves (assignedIdMap : Option (Dict ResourceName ResourceId))
    (e : ResourceName × ResourceEntry ι) (r : ResourceName × ResourceId) : Prop :=
  r ∈ ownIds e ∨ r.1 = e.1 ∧ mappedId assignedIdMap e.1 = some r.2

/-- What is reserved for it as not staged. -/
def EntryNonStaged (assignedIdMap : Option (Dict ResourceName ResourceId))
    (e : ResourceName × ResourceEntry ι) (r : ResourceName × ResourceId) : Prop :=
  e.2.visibility.stagedApi = false ∧ r.1 = e.1
    ∧ (e.2.id = some r.2 ∨ mappedId assignedIdMap e.1 = some r.2)

/-- The mapped identifier is reserved as the others are. -/
theorem reserveEntry_eq (c : IdAssignerContext) (name : ResourceName) (entry : ResourceEntry ι) :
    reserveEntry assignedIdMap c name entry = (do
      let c ← c.reserveOption name entry.id entry.visibility
      let c ← c.reserveOption name (entry.stagedId.map StagedId.id)
        { entry.visibility with stagedApi := true }
      let c ← c.reserveOption name (mappedId assignedIdMap name) entry.visibility
      return (c, { entry with id := (mappedId assignedIdMap name).or entry.id })) := by
  rw [reserveEntry, mappedId]
  cases assignedIdMap.bind (·.lookup name) <;> rfl

/-- **One step of the first loop** reserves what the entry has and what it is mapped to. -/
theorem reserveEntry_spec {name : ResourceName} {entry entry' : ResourceEntry ι}
    (hc : c.Holds reserved nonStaged)
    (h : reserveEntry assignedIdMap c name entry = .ok (c', entry')) :
    c'.packageId = c.packageId ∧ (name, entry') = presetEntry assignedIdMap (name, entry)
      ∧ c'.Holds (fun r => reserved r ∨ EntryReserves assignedIdMap (name, entry) r)
        fun r => nonStaged r ∨ EntryNonStaged assignedIdMap (name, entry) r := by
  rw [reserveEntry_eq] at h
  obtain ⟨c₁, h₁, h⟩ := bind_eq_ok_iff.mp h
  obtain ⟨c₂, h₂, h⟩ := bind_eq_ok_iff.mp h
  obtain ⟨c₃, h₃, h⟩ := bind_eq_ok_iff.mp h
  cases h
  obtain ⟨hpackage₁, hholds₁⟩ := reserveOption_spec hc h₁
  obtain ⟨hpackage₂, hholds₂⟩ := reserveOption_spec hholds₁ h₂
  obtain ⟨hpackage₃, hholds₃⟩ := reserveOption_spec hholds₂ h₃
  have hown : ∀ r : ResourceName × ResourceId, r ∈ ownIds (name, entry)
      ↔ r.1 = name ∧ (entry.id = some r.2 ∨ entry.stagedId.map StagedId.id = some r.2) := by
    rintro ⟨n, i⟩
    simp only [ownIds, List.mem_map, List.mem_append, Option.mem_toList, Prod.mk.injEq,
      Option.map_eq_some_iff]
    constructor
    · rintro ⟨j, hj, rfl, rfl⟩
      exact ⟨rfl, hj⟩
    · rintro ⟨rfl, hi⟩
      exact ⟨i, hi, rfl, rfl⟩
  refine ⟨hpackage₃.trans (hpackage₂.trans hpackage₁), rfl,
    hholds₃.congr (fun r => ?_) fun r => ?_⟩
  · simp only [EntryReserves, hown, and_or_left, or_assoc]
  · simp only [EntryNonStaged, Bool.true_eq_false, false_and, or_false, and_or_left, or_assoc]

/-- A step on a named entry is the step on the entry. -/
theorem rewriteNamed_eq_ok {σ ε : Type}
    {f : σ → ResourceName → ResourceEntry ι → Except ε (σ × ResourceEntry ι)} {s s' : σ}
    {e e' : ResourceName × ResourceEntry ι} (h : rewriteNamed f s e = .ok (s', e')) :
    f s e.1 e.2 = .ok (s', e'.2) ∧ e'.1 = e.1 := by
  obtain ⟨⟨t, entry⟩, hf, h⟩ := bind_eq_ok_iff.mp h
  cases h
  exact ⟨hf, rfl⟩

/-- **The first loop** reserves what the entries have and what they are mapped to. -/
theorem reserveEntry_run {l l' : List (ResourceName × ResourceEntry ι)}
    (hc : c.Holds reserved nonStaged)
    (h : mapAccumM (rewriteNamed (reserveEntry assignedIdMap)) c l = .ok (c', l')) :
    c'.packageId = c.packageId ∧ l' = l.map (presetEntry assignedIdMap)
      ∧ c'.Holds (fun r => reserved r ∨ ∃ e ∈ l, EntryReserves assignedIdMap e r)
        fun r => nonStaged r ∨ ∃ e ∈ l, EntryNonStaged assignedIdMap e r := by
  induction l generalizing c l' reserved nonStaged with
  | nil =>
      cases h
      exact ⟨rfl, rfl, hc.congr (fun r => by simp) fun r => by simp⟩
  | cons e l ih =>
      obtain ⟨c₁, e', m, hstep, hrest, rfl⟩ := mapAccumM_cons_eq_ok_iff.mp h
      obtain ⟨hstep, hname⟩ := rewriteNamed_eq_ok hstep
      obtain ⟨hpackage₁, hentry, hholds₁⟩ := reserveEntry_spec hc hstep
      obtain ⟨hpackage, rfl, hholds⟩ := ih hholds₁ hrest
      refine ⟨hpackage.trans hpackage₁, ?_, hholds.congr (fun r => ?_) fun r => ?_⟩
      · rw [List.map_cons, ← hentry, ← hname]
      · simp only [List.exists_mem_cons_iff, or_assoc]
      · simp only [List.exists_mem_cons_iff, or_assoc]

/-- **The second loop** reserves the pairs of the stable map. -/
theorem reserveStable_run {l : List (ResourceName × ResourceId)} (hc : c.Holds reserved nonStaged)
    (h : l.foldlM reserveStable c = .ok c') :
    c'.packageId = c.packageId ∧ c'.Holds (fun r => reserved r ∨ r ∈ l)
      fun r => nonStaged r ∨ r ∈ l := by
  induction l generalizing c reserved nonStaged with
  | nil =>
      cases h
      exact ⟨rfl, hc.congr (fun r => by simp) fun r => by simp⟩
  | cons r l ih =>
      rw [List.foldlM_cons, bind_eq_ok_iff] at h
      obtain ⟨c₁, h₁, h⟩ := h
      obtain ⟨hpackage₁, hholds₁⟩ := hc.reserveId h₁
      obtain ⟨hpackage, hholds⟩ := ih hholds₁ h
      refine ⟨hpackage.trans hpackage₁, hholds.congr (fun x => ?_) fun x => ?_⟩
      · simp only [List.mem_cons, or_assoc]
      · simp only [List.mem_cons, or_assoc, Visibility.default, true_and]

/-- **One step of the last loop** leaves an entry with an identifier alone and hands one out to an
entry without. -/
theorem assignEntry_spec {name : ResourceName} {entry entry' : ResourceEntry ι} (hc : c.Wf)
    (h : assignEntry c name entry = .ok (c', entry')) :
    c'.Wf ∧ c.Hands c' (fun t i => entry.id = none ∧ t = name.type.type ∧ entry'.id = some i)
      ∧ ∃ id, entry' = { entry with id := some id } ∧ (entry.id = some id
        ∨ (entry.id = none ∧ ∀ n, ¬ c.Issued n id)) := by
  rw [assignEntry] at h
  split at h
  next id hid =>
    cases h
    refine ⟨hc, (IdAssignerContext.Hands.refl c).congr fun t i => ?_, id, by rw [← hid], .inl hid⟩
    simp [hid]
  next hnone =>
    obtain ⟨⟨c₁, id⟩, hnext, h⟩ := bind_eq_ok_iff.mp h
    cases h
    obtain ⟨hwf, hhands, hnew⟩ := IdAssignerContext.next_spec hc hnext
    refine ⟨hwf, hhands.congr fun t i => ?_, id, rfl, .inr ⟨hnone, hnew⟩⟩
    simp [hnone, eq_comm]

/-- **The last loop** hands out identifiers that differ from each other. -/
theorem assignEntry_run {l l' : List (ResourceName × ResourceEntry ι)} (hc : c.Wf)
    (h : mapAccumM (rewriteNamed assignEntry) c l = .ok (c', l')) :
    c'.Wf ∧ c.Hands c' (fun t i =>
        ∃ p ∈ l.zip l', p.1.2.id = none ∧ t = p.1.1.type.type ∧ p.2.2.id = some i)
      ∧ (∀ p ∈ l.zip l', ∃ id, p.2 = (p.1.1, { p.1.2 with id := some id }) ∧ (p.1.2.id = some id
        ∨ (p.1.2.id = none ∧ ∀ n, ¬ c.Issued n id)))
      ∧ (l.zip l').Pairwise fun p q =>
        p.1.2.id = none → q.1.2.id = none → p.2.2.id ≠ q.2.2.id := by
  induction l generalizing c l' with
  | nil =>
      cases h
      exact ⟨hc, (IdAssignerContext.Hands.refl _).congr fun t i => by simp, by simp,
        List.Pairwise.nil⟩
  | cons e l ih =>
      obtain ⟨c₁, e', m, hstep, hrest, rfl⟩ := mapAccumM_cons_eq_ok_iff.mp h
      obtain ⟨hstep, hname⟩ := rewriteNamed_eq_ok hstep
      obtain ⟨hwf₁, hhands₁, id, hentry, hid⟩ := assignEntry_spec hc hstep
      obtain ⟨hwf, hhands, hall, hpairs⟩ := ih hwf₁ hrest
      refine ⟨hwf, (hhands₁.trans hhands).congr fun t i => ?_, ?_, ?_⟩
      · rw [List.zip_cons_cons, List.exists_mem_cons_iff]
      · intro p hp
        rcases List.mem_cons.mp hp with rfl | hp
        · exact ⟨id, Prod.ext hname hentry, hid⟩
        · obtain ⟨id', hp', hid'⟩ := hall p hp
          refine ⟨id', hp', hid'.imp_right fun h => ⟨h.1, fun n hn => h.2 n ?_⟩⟩
          exact (hhands₁.issued_iff n id').mpr (.inl hn)
      · refine List.pairwise_cons.mpr ⟨?_, hpairs⟩
        -- what is handed out later differs from what has been handed out now
        intro q hq hnone hnone' heq
        obtain ⟨id', hq', hid'⟩ := hall q hq
        rcases hid' with hid' | ⟨-, hnew⟩
        · rw [hnone'] at hid'
          cases hid'
        · refine hnew e.1 ((hhands₁.issued_iff e.1 id').mpr (.inr ⟨hnone, rfl, heq.trans ?_⟩))
          rw [hq']

/-- The first loop keeps the names of the entries. -/
theorem name_of_reserveEntry {name : ResourceName} {entry entry' : ResourceEntry ι}
    (h : reserveEntry assignedIdMap c name entry = .ok (c', entry')) : entry'.name = entry.name := by
  rw [reserveEntry] at h
  obtain ⟨c₁, -, h⟩ := bind_eq_ok_iff.mp h
  obtain ⟨c₂, -, h⟩ := bind_eq_ok_iff.mp h
  split at h
  · obtain ⟨c₃, -, h⟩ := bind_eq_ok_iff.mp h
    cases h
    rfl
  · cases h
    rfl

/-- The last loop keeps the names of the entries. -/
theorem name_of_assignEntry {name : ResourceName} {entry entry' : ResourceEntry ι}
    (h : assignEntry c name entry = .ok (c', entry')) : entry'.name = entry.name := by
  rw [assignEntry] at h
  split at h
  · cases h
    rfl
  · obtain ⟨⟨c₁, id⟩, -, h⟩ := bind_eq_ok_iff.mp h
    cases h
    rfl

/-- What became of an entry: it has an identifier that is reserved under its name, the mapped one or
else its own, or one that has been handed out for it. -/
def Outcome (assignedIdMap : Option (Dict ResourceName ResourceId)) (c : IdAssignerContext)
    (e e' : ResourceName × ResourceEntry ι) : Prop :=
  ∃ id, e' = (e.1, { e.2 with id := some id })
    ∧ (((mappedId assignedIdMap e.1).or e.2.id = some id ∧ c.Reserves e.1 id)
      ∨ (IsFresh assignedIdMap e ∧ c.Issued e.1 id))

/-- A mapped identifier is in the stable map. -/
theorem mem_stablePairs {r : ResourceName × ResourceId}
    (h : mappedId assignedIdMap r.1 = some r.2) : r ∈ stablePairs assignedIdMap := by
  obtain ⟨map, rfl, h⟩ := Option.bind_eq_some_iff.mp h
  exact List.mem_map.mpr ⟨⟨r.1, r.2⟩, AList.mem_lookup_iff.mp h, rfl⟩

/-- **What is reserved and handed out in the end**: a type has the type identifier of what is reserved
for it as not staged, or else one that is reserved for nothing. -/
structure IdAssignerContext.Accounts (c : IdAssignerContext)
    (assignedIdMap : Option (Dict ResourceName ResourceId)) (table table' : ResourceTable ι) :
    Prop where
  reserves_iff : ∀ n i, c.Reserves n i ↔ (n, i) ∈ reservations assignedIdMap table
  issued_iff : ∀ n i, c.Issued n i ↔ ∃ p ∈ table.namedEntries.zip table'.namedEntries,
    IsFresh assignedIdMap p.1 ∧ n.type.type = p.1.1.type.type ∧ p.2.2.id = some i
  nonStaged : ∀ r ∈ nonStagedIds assignedIdMap table,
    c.nonStagedTypeIds.lookup r.1.type.type = some r.2.typeId
  eq_or_new : ∀ t i, c.nonStagedTypeIds.lookup t = some i →
    (∃ r ∈ nonStagedIds assignedIdMap table, r.1.type.type = t ∧ r.2.typeId = i)
      ∨ i ≠ 0 ∧ ∀ r ∈ reservations assignedIdMap table, r.2.typeId ≠ i

/-- **The three loops together**. -/
theorem consume_spec {compilationPackage : Bytes} {packageId : BitVec 8}
    {table table' : ResourceTable ι}
    (h : consume compilationPackage packageId assignedIdMap table = .ok table') :
    ∃ c : IdAssignerContext, c.Wf ∧ c.packageId = packageId
      ∧ c.Accounts assignedIdMap table table'
      ∧ table'.namedEntries.length = table.namedEntries.length
      ∧ (∀ p ∈ table.namedEntries.zip table'.namedEntries, Outcome assignedIdMap c p.1 p.2)
      ∧ (table.namedEntries.zip table'.namedEntries).Pairwise fun p q =>
        IsFresh assignedIdMap p.1 → IsFresh assignedIdMap q.1 → p.2.2.id ≠ q.2.2.id := by
  rw [consume] at h
  obtain ⟨⟨c₁, table₁⟩, h₁, h⟩ := bind_eq_ok_iff.mp h
  obtain ⟨c₂, h₂, h⟩ := bind_eq_ok_iff.mp h
  obtain ⟨⟨c₃, table₂⟩, h₃, h⟩ := bind_eq_ok_iff.mp h
  cases h
  have hloop₁ := ResourceTable.mapAccumM_namedEntries
    (fun _ _ _ _ _ he => name_of_reserveEntry he) h₁
  have hloop₃ := ResourceTable.mapAccumM_namedEntries
    (fun _ _ _ _ _ he => name_of_assignEntry he) h₃
  obtain ⟨hpackage₁, hpreset, hholds₁⟩ :=
    reserveEntry_run (IdAssignerContext.holds_new compilationPackage packageId) hloop₁
  obtain ⟨hpackage₂, hholds₂⟩ := reserveStable_run hholds₁ h₂
  obtain ⟨hwf, hhands, hall, hpairs⟩ := assignEntry_run hholds₂.wf hloop₃
  have hlength := length_of_mapAccumM hloop₃
  rw [hpreset] at hhands hall hpairs hlength
  rw [List.zip_map_left] at hhands hall hpairs
  -- an entry has no identifier after the first loop iff it is fresh
  have hfresh : ∀ e : ResourceName × ResourceEntry ι,
      (presetEntry assignedIdMap e).2.id = none ↔ IsFresh assignedIdMap e := fun e =>
    Option.or_eq_none_iff.trans and_comm
  have hholds : c₂.Holds (· ∈ reservations assignedIdMap table)
      (· ∈ nonStagedIds assignedIdMap table) := by
    refine hholds₂.congr (fun r => ?_) fun r => ?_
    · simp only [reservations, EntryReserves, List.mem_append, List.mem_flatMap, false_or]
      refine ⟨?_, fun h => h.imp_left fun ⟨e, he, hr⟩ => ⟨e, he, .inl hr⟩⟩
      rintro (⟨e, he, hr | ⟨hname, hr⟩⟩ | hr)
      · exact .inl ⟨e, he, hr⟩
      · exact .inr (mem_stablePairs (hname ▸ hr))
      · exact .inr hr
    · simp only [nonStagedIds, EntryNonStaged, List.mem_append, List.mem_flatMap, List.mem_filter,
        List.mem_map, Option.mem_toList, false_or]
      constructor
      · rintro (⟨e, he, hstaged, hname, hr | hr⟩ | hr)
        · exact .inl ⟨e, ⟨he, by simp [hstaged]⟩, r.2, hr, Prod.ext hname.symm rfl⟩
        · exact .inr (mem_stablePairs (hname ▸ hr))
        · exact .inr hr
      · rintro (⟨e, ⟨he, hstaged⟩, i, hi, rfl⟩ | hr)
        · exact .inl ⟨e, he, by simpa using hstaged, rfl, .inl hi⟩
        · exact .inr hr
  have hnone : ∀ n i, ¬ c₂.Issued n i := fun n i ⟨_, _, g, hg, _, hgone⟩ =>
    hgone (hholds.issuable _ g hg _)
  refine ⟨c₃, hwf, hhands.packageId.trans (hpackage₂.trans hpackage₁), ⟨fun n i =>
    (hhands.reserves_iff n i).trans (hholds.reserves_iff n i), fun n i => ?_, fun r hr =>
    hhands.nonStaged _ _ ((hholds.nonStaged_iff _ _).mpr ⟨r, hr, rfl, rfl⟩), fun t i hi => ?_⟩,
    by simpa using hlength, fun p hp => ?_, ?_⟩
  · rw [hhands.issued_iff, or_iff_right (hnone n i)]
    constructor
    · rintro ⟨q, hq, hfresh', htype, hid⟩
      obtain ⟨p, hp, rfl⟩ := List.mem_map.mp hq
      exact ⟨p, hp, (hfresh p.1).mp hfresh', htype, hid⟩
    · rintro ⟨p, hp, hfresh', htype, hid⟩
      exact ⟨_, List.mem_map_of_mem hp, (hfresh p.1).mpr hfresh', htype, hid⟩
  · refine (hhands.eq_or_new t i hi).imp (hholds.nonStaged_iff t i).mp fun hnew => ⟨hnew.1, ?_⟩
    exact fun r hr => hnew.2 r.1 r.2 ((hholds.reserves_iff _ _).mpr hr)
  · obtain ⟨id, hp', hid⟩ := hall _ (List.mem_map_of_mem hp)
    refine ⟨id, hp', ?_⟩
    rcases hid with hid | ⟨hnone', -⟩
    · -- the identifier was there after the first loop, so it is mapped or preset
      refine .inl ⟨hid, (hhands.reserves_iff _ _).mpr ((hholds.reserves_iff _ _).mpr ?_)⟩
      rcases Option.or_eq_some_iff.mp hid with hid | ⟨-, hid⟩
      · exact List.mem_append_right _ (mem_stablePairs hid)
      · refine List.mem_append_left _ (List.mem_flatMap.mpr ⟨p.1, (List.of_mem_zip hp).1, ?_⟩)
        exact List.mem_map_of_mem (List.mem_append_left _ (Option.mem_toList.mpr hid))
    · refine .inr ⟨(hfresh p.1).mp hnone', (hhands.issued_iff _ _).mpr (.inr ?_)⟩
      exact ⟨_, List.mem_map_of_mem hp, hnone', rfl, by rw [hp']⟩
  · refine (List.pairwise_map.mp hpairs).imp ?_
    intro p q hpq hp hq
    exact hpq ((hfresh p.1).mpr hp) ((hfresh q.1).mpr hq)

/-- **Assigning identifiers**: if the pass returns true on a table with distinct names, every entry
has an identifier of the compilation package, no two entries have the same one, mapped and preset
identifiers are kept, and fresh ones are free and use one type identifier for each type. -/
theorem idsAssigned_of_consume {compilationPackage : Bytes} {packageId : BitVec 8}
    {table table' : ResourceTable ι}
    (hnames : (table.namedEntries.map Prod.fst).Nodup)
    (h : consume compilationPackage packageId assignedIdMap table = .ok table') :
    IdsAssigned packageId assignedIdMap table table' := by
  obtain ⟨c, hwf, hpackage, haccounts, hlength, hall, hpairs⟩ := consume_spec h
  have hreserves : ∀ r ∈ reservations assignedIdMap table, c.Reserves r.1 r.2 := fun r hr =>
    (haccounts.reserves_iff _ _).mpr hr
  -- a fresh entry has an identifier that has been handed out, any other entry a reserved one
  have hfresh : ∀ p ∈ table.namedEntries.zip table'.namedEntries, ∀ i,
      IsFresh assignedIdMap p.1 → p.2.2.id = some i → c.Issued p.1.1 i := by
    intro p hp i hfresh hi
    obtain ⟨id, hp', hid⟩ := hall p hp
    obtain rfl : id = i := by simpa [hp'] using hi
    rcases hid with ⟨hid, -⟩ | ⟨-, hissued⟩
    · rw [hfresh.1, hfresh.2] at hid
      cases hid
    · exact hissued
  have hany : ∀ p ∈ table.namedEntries.zip table'.namedEntries, ∀ i, p.2.2.id = some i →
      c.Reserves p.1.1 i ∨ (IsFresh assignedIdMap p.1 ∧ c.Issued p.1.1 i) := by
    intro p hp i hi
    obtain ⟨id, hp', hid⟩ := hall p hp
    obtain rfl : id = i := by simpa [hp'] using hi
    exact hid.imp_left And.right
  constructor
  · refine List.forall₂_iff_zip.mpr ⟨hlength.symm, ?_⟩
    intro e e' hp
    obtain ⟨id, hp', hid⟩ := hall (e, e') hp
    refine ⟨id, hp', ?_⟩
    rcases hid with ⟨-, hpackage', -⟩ | ⟨-, hpackage', -⟩
    · exact hpackage'.trans hpackage
    · exact hpackage'.trans hpackage
  · have hsnd : table'.namedEntries
        = (table.namedEntries.zip table'.namedEntries).map Prod.snd :=
      (List.map_snd_zip (le_of_eq hlength)).symm
    have hfst : (table.namedEntries.zip table'.namedEntries).map Prod.fst = table.namedEntries :=
      List.map_fst_zip (le_of_eq hlength.symm)
    rw [← hfst, List.map_map] at hnames
    rw [hsnd, List.map_map]
    refine List.pairwise_map.mpr ?_
    refine ((List.pairwise_map.mp hnames).and hpairs).imp_of_mem ?_
    rintro p q hp hq ⟨hne, hpq⟩ heq
    obtain ⟨id, hp', -⟩ := hall p hp
    have hi : p.2.2.id = some id := by rw [hp']
    have hj : q.2.2.id = some id := (show p.2.2.id = q.2.2.id from heq) ▸ hi
    rcases hany p hp id hi with hp₁ | ⟨hp₀, hp₁⟩
    · rcases hany q hq id hj with hq₁ | ⟨-, hq₁⟩
      · exact hne (hwf.name_eq hp₁ hq₁)
      · exact hwf.issued_ne_reserved hq₁ hp₁ rfl
    · rcases hany q hq id hj with hq₁ | ⟨hq₀, -⟩
      · exact hwf.issued_ne_reserved hp₁ hq₁ rfl
      · exact hpq hp₀ hq₀ heq
  · intro p hp id hid
    obtain ⟨i, hp', hi⟩ := hall p hp
    rcases hi with ⟨hi, -⟩ | ⟨hi, -⟩
    · rw [hid, Option.some_or] at hi
      rw [hp', ← hi]
    · rw [hi.2] at hid
      cases hid
  · intro p hp id hid hnone
    obtain ⟨i, hp', hi⟩ := hall p hp
    rcases hi with ⟨hi, -⟩ | ⟨hi, -⟩
    · rw [hnone, Option.none_or, hid] at hi
      rw [hp', ← hi]
    · rw [hi.1] at hid
      cases hid
  · intro p hp q hq i j hp₀ hi hj
    have hissued := hfresh p hp i hp₀ hi
    constructor
    · intro hq₀ htype
      obtain ⟨-, hp₁, -⟩ := hissued
      obtain ⟨-, hq₁, -⟩ := hfresh q hq j hq₀ hj
      rw [htype, hp₁] at hq₁
      exact (Option.some.inj hq₁).symm
    · intro hne htype
      exact hne (hwf.type_eq hissued ((hany q hq j hj).imp_right And.right) htype)
  · intro p hp i hp₀ hi r hr
    have hissued := hfresh p hp i hp₀ hi
    exact ⟨hwf.issued_ne_reserved hissued (hreserves r hr),
      fun hne htype => hne (hwf.type_eq hissued (.inl (hreserves r hr)) htype)⟩

/-- An entry of a table without values. -/
def ResourceEntry.bare (name : Bytes) (id : Option ResourceId) (stagedId : Option ResourceId) :
    ResourceEntry ι :=
  ⟨name, id, .default, none, none, stagedId.map StagedId.mk, [], []⟩

/-- Three attributes, with a preset, a staged and no identifier, and a mapped string. -/
def sampleTable : ResourceTable Unit :=
  ⟨[⟨[97], [⟨⟨[98], .kAttr⟩, .kUndefined,
      [.bare [1] (some ⟨0x7f010000#32⟩) (some ⟨0x7fff0000#32⟩), .bare [2] none none,
        .bare [3] none none]⟩,
    ⟨⟨[99], .kString⟩, .kUndefined, [.bare [4] none none, .bare [5] none none]⟩]⟩]⟩

/-- The stable map of the sample. -/
def sampleMap : Dict ResourceName ResourceId :=
  AList.insert ⟨[97], ⟨[99], .kString⟩, [4]⟩ ⟨0x7f030005#32⟩ ∅

/-- What the sample becomes. -/
def sampleResult : ResourceTable Unit :=
  ⟨[⟨[97], [⟨⟨[98], .kAttr⟩, .kUndefined,
      [.bare [1] (some ⟨0x7f010000#32⟩) (some ⟨0x7fff0000#32⟩),
        .bare [2] (some ⟨0x7f010001#32⟩) none, .bare [3] (some ⟨0x7f010002#32⟩) none]⟩,
    ⟨⟨[99], .kString⟩, .kUndefined, [.bare [4] (some ⟨0x7f030005#32⟩) none,
      .bare [5] (some ⟨0x7f030000#32⟩) none]⟩]⟩]⟩

theorem idsAssigned_of_consume_sample :
    consume [97] 0x7f#8 (some sampleMap) sampleTable = .ok sampleResult
      ∧ IdsAssigned 0x7f#8 (some sampleMap) sampleTable sampleResult := by
  have h : consume [97] 0x7f#8 (some sampleMap) sampleTable = .ok sampleResult := by rfl
  exact ⟨h, idsAssigned_of_consume (by decide) h⟩

end Guarantee

end AndroidSdk.Aapt2
