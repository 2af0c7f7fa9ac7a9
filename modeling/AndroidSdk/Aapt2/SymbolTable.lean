import AndroidSdk.Aapt2.TableMerger
import AndroidSdk.Utils.LruCache

/-! # The symbol table

`SymbolTable.cpp`: symbols are looked up by name or by identifier in a list of sources, through a
delegate that decides how, and are kept in two caches of limited size. Sources and delegates are
interfaces; here they are functions that answer the same whenever they are asked. An operation fails
where a cache follows a pointer to a deleted entry, or where the value of an empty optional is
taken.

* **`SymbolTable.findByName`**, **`findById`**, **`findByReference`** — the lookups.
* **`defaultDelegate`**, **`featureSplitDelegate`** — the two delegates of the linker.
* **`SymbolTable.plainByName`** — the lookup by name without the cache.
* **`findByName_of_runOps`** — after any run, the cached lookup by name answers as the plain one. -/

namespace AndroidSdk.Aapt2

open Lib Utils

/-! ## Names -/

/-- `NameManglerPolicy`. -/
structure NameManglerPolicy where
  targetPackageName : Bytes
  packagesToMangle : List Bytes

namespace NameManglerPolicy

/-- `MangleName`. -/
def mangleName (policy : NameManglerPolicy) (name : ResourceName) : Option ResourceName :=
  if policy.targetPackageName = name.package ∨ name.package ∉ policy.packagesToMangle then none
  else some ⟨policy.targetPackageName, name.type, mangleEntry name.package name.entry⟩

/-- `ShouldMangle`. -/
def shouldMangle (policy : NameManglerPolicy) (package : Bytes) : Bool :=
  if package = [] ∨ policy.targetPackageName = package then false
  else package ∈ policy.packagesToMangle

/-- A name that should be mangled can be. -/
theorem exists_mangleName {policy : NameManglerPolicy} {name : ResourceName}
    (h : policy.shouldMangle name.package = true) :
    ∃ mangled, policy.mangleName name = some mangled := by
  simp only [shouldMangle, Bool.if_false_left, Bool.and_eq_true, Bool.not_eq_true',
    decide_eq_false_iff_not, decide_eq_true_eq, not_or] at h
  obtain ⟨⟨-, hne⟩, hin⟩ := h
  refine ⟨_, if_neg ?_⟩
  rintro (heq | hnot)
  · exact hne heq
  · exact hnot hin

end NameManglerPolicy

/-! ## Sources and delegates -/

/-- `SymbolTable::Symbol`, with attributes of any kind. -/
structure Symbol (α : Type) where
  id : Option ResourceId
  attr : Option α
  isPublic : Bool
  isDynamic : Bool
  deriving DecidableEq

/-- `ISymbolSource`. -/
structure SymbolSource (α : Type) where
  findByName : ResourceName → Option (Symbol α)
  findById : ResourceId → Option (Symbol α)

/-- `ISymbolTableDelegate`. -/
structure SymbolTableDelegate (α : Type) where
  findByName : ResourceName → List (SymbolSource α) → Option (Symbol α)
  findById : ResourceId → List (SymbolSource α) → Option (Symbol α)

variable {α : Type}

/-- `DefaultSymbolTableDelegate`: the first source that knows the symbol. -/
def defaultDelegate : SymbolTableDelegate α where
  findByName name sources := sources.findSome? fun source => source.findByName name
  findById id sources := sources.findSome? fun source => source.findById id

/-- `kAppPackageId`. -/
def kAppPackageId : BitVec 8 := 0x7f

/-- `FeatureSplitSymbolTableDelegate`: identifiers of feature splits are rewritten as those of the
application are, if no other resource has them. -/
def featureSplitDelegate : SymbolTableDelegate α where
  findByName name sources :=
    match defaultDelegate.findByName name sources with
    | none => none
    | some symbol =>
        match symbol.id with
        | none => some symbol
        | some id =>
            if name.type.type = .kId ∧ kAppPackageId < id.packageId then
              let rewritten := ResourceId.ofParts kAppPackageId id.packageId id.entryId
              if (defaultDelegate.findById rewritten sources).isSome then none
              else some { symbol with id := some rewritten }
            else some symbol
  findById := defaultDelegate.findById

/-- **What the cache assumes when a source is appended**: sources earlier in the list take
precedence. -/
def SymbolTableDelegate.Stable (delegate : SymbolTableDelegate α) : Prop :=
  ∀ name sources source symbol, delegate.findByName name sources = some symbol →
    delegate.findByName name (sources ++ [source]) = some symbol

/-- The default delegate gives precedence to sources earlier in the list. -/
theorem stable_defaultDelegate : (defaultDelegate : SymbolTableDelegate α).Stable := by
  intro name sources source symbol h
  simp only [defaultDelegate] at h ⊢
  rw [List.findSome?_append, h, Option.some_or]

/-! ## The table -/

/-- `SymbolTable`. -/
structure SymbolTable (α : Type) where
  mangler : NameManglerPolicy
  delegate : SymbolTableDelegate α
  sources : List (SymbolSource α)
  cache : LruCache ResourceName (Option (Symbol α))
  idCache : LruCache ResourceId (Option (Symbol α))

namespace SymbolTable

/-- The constructor. -/
def create (mangler : NameManglerPolicy) : SymbolTable α where
  mangler
  delegate := defaultDelegate
  sources := []
  cache := .create 200 none
  idCache := .create 200 none

/-- `SetDelegate`. -/
def setDelegate (delegate : SymbolTableDelegate α) (t : SymbolTable α) : SymbolTable α :=
  { t with delegate, cache := t.cache.clear }

/-- `AppendSource`, which does not clear the cache. -/
def appendSource (source : SymbolSource α) (t : SymbolTable α) : SymbolTable α :=
  { t with sources := t.sources ++ [source] }

/-- `PrependSource`. -/
def prependSource (source : SymbolSource α) (t : SymbolTable α) : SymbolTable α :=
  { t with sources := source :: t.sources, cache := t.cache.clear }

/-- A name with the package that is built, if it has none. -/
def withPackage (t : SymbolTable α) (name : ResourceName) : ResourceName :=
  if name.package = [] then { name with package := t.mangler.targetPackageName } else name

/-- The name that the sources know. -/
def mangled (t : SymbolTable α) (name : ResourceName) : Option ResourceName :=
  if t.mangler.shouldMangle name.package then t.mangler.mangleName name else some name

/-- `FindByName`. -/
def findByName (name : ResourceName) (t : SymbolTable α) :
    Option (Option (Symbol α) × SymbolTable α) := do
  let (cached, cache) ← t.cache.get (t.withPackage name)
  match cached with
  | some symbol => return (some symbol, { t with cache })
  | none =>
      let mangledName ← t.mangled (t.withPackage name)
      match t.delegate.findByName mangledName t.sources with
      | none => return (none, { t with cache })
      | some symbol =>
          let (_, cache) ← cache.put (t.withPackage name) (some symbol)
          match symbol.id with
          | none => return (some symbol, { t with cache })
          | some id =>
              let (_, idCache) ← t.idCache.put id (some symbol)
              return (some symbol, { t with cache, idCache })

/-- `FindById`. -/
def findById (id : ResourceId) (t : SymbolTable α) :
    Option (Option (Symbol α) × SymbolTable α) := do
  let (cached, idCache) ← t.idCache.get id
  match cached with
  | some symbol => return (some symbol, { t with idCache })
  | none =>
      match t.delegate.findById id t.sources with
      | none => return (none, { t with idCache })
      | some symbol =>
          let (_, idCache) ← idCache.put id (some symbol)
          return (some symbol, { t with idCache })

/-- The lookup by the identifier of a reference, if it has one. -/
def findByReferenceId (t : SymbolTable α) :
    Option ResourceId → Option (Option (Symbol α) × SymbolTable α)
  | none => some (none, t)
  | some id => t.findById id

/-- `FindByReference`: first by identifier, then by name. -/
def findByReference (id : Option ResourceId) (name : Option ResourceName) (t : SymbolTable α) :
    Option (Option (Symbol α) × SymbolTable α) := do
  let (symbol, t) ← t.findByReferenceId id
  match name, symbol with
  | some name, none => t.findByName name
  | _, _ => return (symbol, t)

/-- The lookup by name without the cache. -/
def plainByName (t : SymbolTable α) (name : ResourceName) : Option (Symbol α) :=
  (t.mangled (t.withPackage name)).bind fun name => t.delegate.findByName name t.sources

/-! ## The caches -/

/-- **The invariant of the caches**: a name is kept with the symbol that the sources give for it
now, and never with nothing. -/
structure Sound (t : SymbolTable α) : Prop where
  names : ∃ r, t.cache.Holds r ∧ ∀ e ∈ r, ∃ mangledName symbol, t.mangled e.1 = some mangledName
    ∧ t.delegate.findByName mangledName t.sources = some symbol ∧ e.2 = some symbol
  ids : ∃ r, t.idCache.Holds r
  nullName : t.cache.nullValue = none
  nullId : t.idCache.nullValue = none

/-- Two tables that answer alike without their caches. -/
structure SameSources (t t' : SymbolTable α) : Prop where
  mangler : t'.mangler = t.mangler
  delegate : t'.delegate = t.delegate
  sources : t'.sources = t.sources

/-- The name that the sources know, for any name. -/
theorem exists_mangled (t : SymbolTable α) (name : ResourceName) :
    ∃ mangledName, t.mangled name = some mangledName := by
  rw [mangled]
  split_ifs with h
  · exact NameManglerPolicy.exists_mangleName h
  · exact ⟨name, rfl⟩

/-- A new table. -/
theorem sound_create (mangler : NameManglerPolicy) : (create mangler : SymbolTable α).Sound where
  names := ⟨[], LruCache.holds_create 200 none, fun _ he => absurd he List.not_mem_nil⟩
  ids := ⟨[], LruCache.holds_create 200 none⟩
  nullName := rfl
  nullId := rfl

/-- **The cached lookup by name answers as the plain one**, and keeps the invariant. -/
theorem findByName_spec {t : SymbolTable α} (h : t.Sound) (name : ResourceName) :
    ∃ t', t.findByName name = some (t.plainByName name, t') ∧ t'.Sound ∧ SameSources t t' := by
  obtain ⟨r, hr, hnames⟩ := h.names
  obtain ⟨cache, hget, hcache, -, hnull⟩ := LruCache.get_spec hr (t.withPackage name)
  rw [h.nullName] at hget hcache hnull
  obtain ⟨mangledName, hmangled⟩ := t.exists_mangled (t.withPackage name)
  have hplain : t.plainByName name = t.delegate.findByName mangledName t.sources := by
    rw [plainByName, hmangled, Option.bind_some]
  have hkept : ∀ e ∈ (Recency.get none (t.withPackage name) r).2, ∃ mangledName symbol,
      t.mangled e.1 = some mangledName
        ∧ t.delegate.findByName mangledName t.sources = some symbol ∧ e.2 = some symbol :=
    fun e he => hnames e (Recency.mem_of_mem_get he)
  rw [findByName, hget]
  dsimp only [Option.bind_eq_bind, Option.bind_some]
  cases hfound : (Recency.get none (t.withPackage name) r).1 with
  | some symbol =>
      -- a symbol that is in the cache is the one that the sources give
      have hmem := (Recency.get_eq_or_mem none (t.withPackage name) r).resolve_left
        (by rw [hfound]; exact Option.some_ne_none _)
      obtain ⟨mangledName', symbol', hmangled', hsymbol, hvalue⟩ := hnames _ hmem
      rw [hmangled] at hmangled'
      cases hmangled'
      rw [hfound] at hvalue
      cases hvalue
      rw [hplain, hsymbol]
      exact ⟨_, rfl, ⟨⟨_, hcache, hkept⟩, h.ids, hnull, h.nullId⟩, rfl, rfl, rfl⟩
  | none =>
      dsimp only
      rw [hmangled, hplain]
      dsimp only [Option.bind_some]
      cases hsymbol : t.delegate.findByName mangledName t.sources with
      | none =>
          exact ⟨_, rfl, ⟨⟨_, hcache, hkept⟩, h.ids, hnull, h.nullId⟩, rfl, rfl, rfl⟩
      | some symbol =>
          obtain ⟨cache', hput, hcache', -, hnull'⟩ :=
            LruCache.put_spec hcache (t.withPackage name) (some symbol)
          have hnames' : ∃ r, cache'.Holds r ∧ ∀ e ∈ r, ∃ mangledName symbol,
              t.mangled e.1 = some mangledName
                ∧ t.delegate.findByName mangledName t.sources = some symbol
                ∧ e.2 = some symbol := by
            refine ⟨_, hcache', fun e he => ?_⟩
            rcases Recency.mem_of_mem_put he with he | rfl
            · exact hkept e he
            · exact ⟨mangledName, symbol, hmangled, hsymbol, rfl⟩
          dsimp only
          rw [hput]
          dsimp only [Option.bind_some]
          cases hid : symbol.id with
          | none =>
              exact ⟨_, rfl, ⟨hnames', h.ids, hnull'.trans hnull, h.nullId⟩, rfl, rfl, rfl⟩
          | some id =>
              obtain ⟨ids, hids⟩ := h.ids
              obtain ⟨idCache, hput', hidCache, -, hnullId⟩ :=
                LruCache.put_spec hids id (some symbol)
              dsimp only
              rw [hput']
              exact ⟨_, rfl, ⟨hnames', ⟨_, hidCache⟩, hnull'.trans hnull, hnullId.trans h.nullId⟩,
                rfl, rfl, rfl⟩

/-- The lookup by identifier does not touch the names. -/
theorem findById_spec {t : SymbolTable α} (h : t.Sound) (id : ResourceId) :
    ∃ symbol t', t.findById id = some (symbol, t') ∧ t'.Sound ∧ SameSources t t' := by
  obtain ⟨r, hr⟩ := h.ids
  obtain ⟨idCache, hget, hidCache, -, hnull⟩ := LruCache.get_spec hr id
  rw [h.nullId] at hget hnull
  rw [findById, hget]
  dsimp only [Option.bind_eq_bind, Option.bind_some]
  cases hfound : (Recency.get none id r).1 with
  | some symbol =>
      exact ⟨_, _, rfl, ⟨h.names, ⟨_, hidCache⟩, h.nullName, hnull⟩, rfl, rfl, rfl⟩
  | none =>
      dsimp only
      cases t.delegate.findById id t.sources with
      | none => exact ⟨_, _, rfl, ⟨h.names, ⟨_, hidCache⟩, h.nullName, hnull⟩, rfl, rfl, rfl⟩
      | some symbol =>
          obtain ⟨idCache', hput, hidCache', -, hnull'⟩ :=
            LruCache.put_spec hidCache id (some symbol)
          dsimp only
          rw [hput]
          exact ⟨_, _, rfl, ⟨h.names, ⟨_, hidCache'⟩, h.nullName, hnull'.trans hnull⟩,
            rfl, rfl, rfl⟩

/-- So does the lookup by reference. -/
theorem findByReference_spec {t : SymbolTable α} (h : t.Sound) (id : Option ResourceId)
    (name : Option ResourceName) :
    ∃ symbol t', t.findByReference id name = some (symbol, t') ∧ t'.Sound ∧ SameSources t t' := by
  have hfirst : ∃ symbol t', t.findByReferenceId id = some (symbol, t')
      ∧ t'.Sound ∧ SameSources t t' := by
    cases id with
    | none => exact ⟨none, t, rfl, h, rfl, rfl, rfl⟩
    | some id => exact findById_spec h id
  obtain ⟨symbol, t₁, hid, hsound, hsame⟩ := hfirst
  rw [findByReference, hid]
  dsimp only [Option.bind_some]
  cases name with
  | none => exact ⟨_, _, rfl, hsound, hsame⟩
  | some name =>
      cases symbol with
      | some symbol => exact ⟨_, _, rfl, hsound, hsame⟩
      | none =>
          obtain ⟨t₂, hname, hsound₂, hsame₂⟩ := findByName_spec hsound name
          exact ⟨_, t₂, hname, hsound₂, hsame₂.mangler.trans hsame.mangler,
            hsame₂.delegate.trans hsame.delegate, hsame₂.sources.trans hsame.sources⟩

end SymbolTable

/-! ## Runs -/

/-- An operation on a symbol table. -/
inductive SymbolTableOp (α : Type) where
  | setDelegate (delegate : SymbolTableDelegate α)
  | appendSource (source : SymbolSource α)
  | prependSource (source : SymbolSource α)
  | findByName (name : ResourceName)
  | findById (id : ResourceId)
  | findByReference (id : Option ResourceId) (name : Option ResourceName)

namespace SymbolTable

/-- An operation. -/
def runOp (t : SymbolTable α) : SymbolTableOp α → Option (SymbolTable α)
  | .setDelegate delegate => some (t.setDelegate delegate)
  | .appendSource source => some (t.appendSource source)
  | .prependSource source => some (t.prependSource source)
  | .findByName name => (t.findByName name).map Prod.snd
  | .findById id => (t.findById id).map Prod.snd
  | .findByReference id name => (t.findByReference id name).map Prod.snd

/-- A run of operations. -/
def runOps (t : SymbolTable α) (ops : List (SymbolTableOp α)) : Option (SymbolTable α) :=
  ops.foldlM runOp t

/-- Sources are only appended while the delegate gives precedence to sources earlier in the list. -/
def AppendsStable : SymbolTableDelegate α → List (SymbolTableOp α) → Prop
  | _, [] => True
  | _, .setDelegate delegate :: ops => AppendsStable delegate ops
  | delegate, .appendSource _ :: ops => delegate.Stable ∧ AppendsStable delegate ops
  | delegate, .prependSource _ :: ops => AppendsStable delegate ops
  | delegate, .findByName _ :: ops => AppendsStable delegate ops
  | delegate, .findById _ :: ops => AppendsStable delegate ops
  | delegate, .findByReference _ _ :: ops => AppendsStable delegate ops

/-- Cleared caches are sound for any delegate and sources. -/
theorem Sound.clear {t t' : SymbolTable α} (h : t.Sound) (hcache : t'.cache = t.cache.clear)
    (hid : t'.idCache = t.idCache) : t'.Sound := by
  obtain ⟨r, hr, -⟩ := h.names
  obtain ⟨hclear, -, hnull⟩ := LruCache.clear_spec hr
  rw [← hcache] at hclear hnull
  refine ⟨⟨[], hclear, fun _ he => absurd he List.not_mem_nil⟩, ?_, hnull.trans h.nullName, ?_⟩
  · rw [hid]
    exact h.ids
  · rw [hid]
    exact h.nullId

/-- What is kept stays right when a source is appended. -/
theorem sound_appendSource {t : SymbolTable α} (h : t.Sound) (hstable : t.delegate.Stable)
    (source : SymbolSource α) : (t.appendSource source).Sound := by
  obtain ⟨r, hr, hnames⟩ := h.names
  refine ⟨⟨r, hr, fun e he => ?_⟩, h.ids, h.nullName, h.nullId⟩
  obtain ⟨mangledName, symbol, hmangled, hsymbol, hvalue⟩ := hnames e he
  exact ⟨mangledName, symbol, hmangled, hstable _ _ source _ hsymbol, hvalue⟩

/-- **Every run keeps the invariant**, and none of its operations fails. -/
theorem exists_runOps {t : SymbolTable α} (h : t.Sound) {ops : List (SymbolTableOp α)}
    (hops : AppendsStable t.delegate ops) : ∃ t', t.runOps ops = some t' ∧ t'.Sound := by
  induction ops generalizing t with
  | nil => exact ⟨t, rfl, h⟩
  | cons op ops ih =>
      have hstep : ∃ t₁, t.runOp op = some t₁ ∧ t₁.Sound ∧ AppendsStable t₁.delegate ops := by
        cases op with
        | setDelegate delegate => exact ⟨_, rfl, h.clear rfl rfl, hops⟩
        | appendSource source => exact ⟨_, rfl, sound_appendSource h hops.1 source, hops.2⟩
        | prependSource source => exact ⟨_, rfl, h.clear rfl rfl, hops⟩
        | findByName name =>
            obtain ⟨t₁, hrun, hsound, hsame⟩ := findByName_spec h name
            refine ⟨t₁, by rw [runOp, hrun]; rfl, hsound, ?_⟩
            rw [hsame.delegate]
            exact hops
        | findById id =>
            obtain ⟨symbol, t₁, hrun, hsound, hsame⟩ := findById_spec h id
            refine ⟨t₁, by rw [runOp, hrun]; rfl, hsound, ?_⟩
            rw [hsame.delegate]
            exact hops
        | findByReference id name =>
            obtain ⟨symbol, t₁, hrun, hsound, hsame⟩ := findByReference_spec h id name
            refine ⟨t₁, by rw [runOp, hrun]; rfl, hsound, ?_⟩
            rw [hsame.delegate]
            exact hops
      obtain ⟨t₁, hrun, hsound, hops'⟩ := hstep
      obtain ⟨t', hrest, hsound'⟩ := ih hsound hops'
      refine ⟨t', ?_, hsound'⟩
      rw [runOps, List.foldlM_cons, hrun]
      exact hrest

/-- **The cache never changes an answer**: after any run of a new symbol table, whatever has been
looked up before and forgotten since, a lookup by name gives the symbol that the delegate finds in
the sources now. -/
theorem findByName_of_runOps (mangler : NameManglerPolicy) (ops : List (SymbolTableOp α))
    (hops : AppendsStable defaultDelegate ops) :
    ∃ t : SymbolTable α, (create mangler).runOps ops = some t ∧ ∀ name, ∃ t',
      t.findByName name = some (t.plainByName name, t') := by
  obtain ⟨t, hrun, hsound⟩ := exists_runOps (sound_create mangler) hops
  refine ⟨t, hrun, fun name => ?_⟩
  obtain ⟨t', hfind, -⟩ := findByName_spec hsound name
  exact ⟨t', hfind⟩

/-- A source that knows every name, for the delegate of feature splits. -/
def everyName (id : ResourceId) : SymbolSource Unit where
  findByName _ := some ⟨some id, none, true, false⟩
  findById _ := none

/-- Sources before and behind a lookup, and another delegate after them. -/
theorem findByName_of_runOps_featureSplit :
    ∃ t : SymbolTable Unit, (create ⟨bytes "a", []⟩).runOps
        [.appendSource (everyName ⟨0x7f010000⟩), .findByName ⟨[], ⟨bytes "id", .kId⟩, bytes "x"⟩,
          .appendSource (everyName ⟨0x7f010001⟩), .setDelegate featureSplitDelegate,
          .prependSource (everyName ⟨0x80010000⟩)] = some t
      ∧ ∀ name, ∃ t', t.findByName name = some (t.plainByName name, t') :=
  findByName_of_runOps _ _ ⟨stable_defaultDelegate, stable_defaultDelegate, trivial⟩

end SymbolTable

end AndroidSdk.Aapt2
