import AndroidSdk.Aapt2.TableMerger

/-! # What a merged table holds

A merge that returns true leaves a union: under every type, entry name, configuration and product
the main package holds what it held and what the source brings, resolved in the order of the source.
Only the conflict of staged identifiers is reported as an error without failing the merge.

* **`EntryView`** — what the merge sees under a type and a name.
* **`ResourceEntry.mergeWith_spec`** — what merging one entry does to it.
* **`MergeCall.run_follows`** — a merge as the sequence of its entries.
* **`copyOf`**, **`IsUnion`** — a copy of a value, and the union.
* **`StagedIdsAgree`**, **`TakesWhole`** — the conditions: nothing is reported, and nothing is lost
  of the values that are taken.
* **`MergeCall.run_isUnion_iff`** — the merge that returns true leaves a union and reports nothing
  where both hold. -/

namespace AndroidSdk.Aapt2

open AndroidSdk.Lib SplitSelect

variable {ι : Type}

/-! ## Views -/

/-- What there is under a type and a name: the values, and the staged identifier. -/
structure EntryView (ι : Type) where
  values : ConfigKey → Option (Value ι)
  stagedId : Option StagedId

/-- The view of an entry. -/
def ResourceEntry.mergeView (entry : ResourceEntry ι) : EntryView ι where
  values k := (entry.findValue k.config k.product).bind (·.value)
  stagedId := entry.stagedId

/-- The view of a name; without an entry there is nothing. -/
def ResourceTableType.mergeView (type : ResourceTableType ι) (name : Bytes) : EntryView ι :=
  ((type.findEntry name).map (·.mergeView)).getD ⟨fun _ => none, none⟩

/-- The view of a type and a name. -/
def ResourceTablePackage.mergeView (package : ResourceTablePackage ι)
    (e : ResourceNamedType × Bytes) : EntryView ι :=
  ((package.findType e.1).map (·.mergeView e.2)).getD ⟨fun _ => none, none⟩

/-- The values of an entry are sorted. -/
def ResourceEntry.Sorted (entry : ResourceEntry ι) : Prop :=
  SortedBy ConfigKey.compare ResourceConfigValue.key entry.values

/-- The entries of a type are sorted by name; there may be several of one name. -/
structure ResourceTableType.Sorted (type : ResourceTableType ι) : Prop where
  entries : SortedBy compare ResourceEntry.name type.entries
  entry : ∀ entry ∈ type.entries, entry.Sorted

/-- The types of a package are sorted. -/
structure ResourceTablePackage.Sorted (package : ResourceTablePackage ι) : Prop where
  types : SortedBy ResourceNamedType.compare ResourceTableType.namedType package.types
  type : ∀ type ∈ package.types, type.Sorted

section Merger

variable (ops : ContentOps ι) (options : TableMergerOptions)

/-! ## What a value becomes -/

/-- The path that a file of a package gets whose names are mangled. -/
def mangledPath (mode : MergeMode) (v : Value ι) : Option Bytes :=
  match v.kind, mode.mangledBy with
  | .fileReference, some package =>
      (extractResFilePathParts (ops.path v.content)).map fun parts =>
        parts.1 ++ mangleEntry package parts.2.1 ++ parts.2.2
  | _, _ => none

/-- The contents with the comment of the value that is replaced; files have their own. -/
def commentedContent (mode : MergeMode) (original : Option (Value ι)) (v : Value ι) (content : ι) :
    ι :=
  match v.kind with
  | .fileReference => content
  | _ => keepComment ops mode original content

/-- **A copy of a value**: the value itself, a file under its mangled path, and other contents with
the comment that is kept. -/
def copyOf (mode : MergeMode) (original : Option (Value ι)) (v : Value ι) : Value ι :=
  { v with
    content :=
      match mangledPath ops mode v with
      | some path => ops.setPath path v.content
      | none => commentedContent ops mode original v v.content }

/-- What copies a value, given the one that it replaces. -/
abbrev Copying (ι : Type) := MergeMode → Option (Value ι) → Value ι → Value ι

/-- The value that the collision of a value with an incoming one leaves. -/
def resolvedValue (copy : Copying ι) (mode : MergeMode) (existing incoming : Value ι) : Value ι :=
  let merged := mergeConfigValue ops options mode.overlay existing incoming
  match merged.1 with
  | .kKeepOriginal | .kConflict => merged.2
  | .kTakeNew | .kKeepBoth => copy mode (some merged.2) incoming

/-- The value that an incoming one leaves: a copy where there was none. -/
def prescribedValue (copy : Copying ι) (mode : MergeMode) (current : Option (Value ι))
    (incoming : Value ι) : Value ι :=
  match current with
  | none => copy mode none incoming
  | some existing => resolvedValue ops options copy mode existing incoming

/-- What a value of the source entry does to the value under a configuration and product. -/
def mergedValue (mode : MergeMode) (k : ConfigKey) (current : Option (Value ι))
    (src : ResourceConfigValue ι) : Option (Value ι) :=
  match src.value with
  | some incoming =>
      if src.key.compare k = .eq then
        some (prescribedValue ops options (takenValue ops) mode current incoming)
      else current
  | none => current

/-- What a source entry does to the view of its name. -/
def mergeAct (step : MergeMode × ResourceEntry ι) (v : EntryView ι) : EntryView ι where
  values k := step.2.values.foldl (mergedValue ops options step.1 k) (v.values k)
  stagedId := step.2.stagedId.or v.stagedId

/-- The staged identifier of a source entry does not conflict. -/
def mergeQuiet (step : MergeMode × ResourceEntry ι) (v : EntryView ι) : Prop :=
  stagedIdConflict v.stagedId step.2.stagedId = false

/-! ## Entries -/

variable {ops options}

/-- What is done to a value under a key leaves the rest of an entry. -/
theorem ResourceEntry.onValue_eq_some {β : Type} {config : ResTableConfig} {product : Bytes}
    {action : ResourceConfigValue ι → Option (β × ResourceConfigValue ι)} {entry entry' : ResourceEntry ι}
    {b : β} (h : entry.onValue config product action = some (b, entry')) :
    ∃ values, entry' = { entry with values } ∧
      onFoundOrCreated ConfigKey.compare ResourceConfigValue.key ⟨config, product⟩ (.new config product)
        action entry.values = some (b, values) := by
  obtain ⟨⟨b', values⟩, hvalues, heq⟩ := Option.map_eq_some_iff.mp h
  cases heq
  exact ⟨values, rfl, hvalues⟩

/-- What a value of the source does to the view, if what it leaves is put under its key. -/
theorem ResourceEntry.spec_onValue {src : ResourceConfigValue ι} {incoming : Value ι}
    {action : ResourceConfigValue ι → Option (Report MergeError × ResourceConfigValue ι)}
    {mode : MergeMode} {entry entry' : ResourceEntry ι} {r : Report MergeError}
    (hsrc : src.value = some incoming)
    (haction : ∀ x, ∃ x', action x = some (.clean, x') ∧ x'.key = x.key ∧
      x'.value = some (prescribedValue ops options (takenValue ops) mode
        (entry.mergeView.values src.key) incoming))
    (h : entry.onValue src.config src.product action = some (r, entry')) :
    r.diagnostics = [] ∧ entry'.name = entry.name ∧ entry'.stagedId = entry.stagedId ∧
    (entry.Sorted → entry'.Sorted ∧ ∀ k, entry'.mergeView.values k
      = mergedValue ops options mode k (entry.mergeView.values k) src) := by
  obtain ⟨values, rfl, hvalues⟩ := entry.onValue_eq_some h
  obtain ⟨x, x', hx⟩ := exists_of_onFoundOrCreated hvalues
  obtain rfl : Report.clean = r := by
    obtain ⟨y, hy, -⟩ := haction x
    exact (Prod.mk.inj (Option.some.inj (hy.symm.trans hx))).1
  refine ⟨rfl, rfl, rfl, fun hsorted => ?_⟩
  have hnew : ConfigKey.compare (ResourceConfigValue.new src.config src.product :
      ResourceConfigValue ι).key ⟨src.config, src.product⟩ = .eq := Std.ReflCmp.compare_self
  have hkeeps : ∀ x x', action x = some (.clean, x') → x'.key = x.key ∧
      x'.value = some (prescribedValue ops options (takenValue ops) mode
        (entry.mergeView.values src.key) incoming) := by
    intro x x' hx
    obtain ⟨y, hy, hkey, hvalue⟩ := haction x
    obtain rfl : y = x' := (Prod.mk.inj (Option.some.inj (hy.symm.trans hx))).2
    exact ⟨hkey, hvalue⟩
  obtain ⟨hsorted', x', hx', hfound, -, hother⟩ := SortedBy.onFoundOrCreated hsorted hnew
    (fun x x' _ hx => (hkeeps x x' hx).1) hvalues
  refine ⟨hsorted', fun k => ?_⟩
  simp only [mergedValue, hsrc]
  by_cases hk : src.key.compare k = .eq
  · -- the key of the value, or one that is not told apart from it
    have hcurrent : entry.mergeView.values k = entry.mergeView.values src.key := by
      show (findSorted ConfigKey.compare ResourceConfigValue.key k entry.values).bind _ = _
      rw [← findSorted_congr hsorted hk]
      rfl
    have hlookup : findSorted ConfigKey.compare ResourceConfigValue.key k values = some x' := by
      rw [← findSorted_congr hsorted' hk]
      exact hfound
    rw [if_pos hk, hcurrent]
    show (findSorted ConfigKey.compare ResourceConfigValue.key k values).bind _ = _
    rw [hlookup, Option.bind_some, (hkeeps _ x' hx').2]
  · rw [if_neg hk]
    show (findSorted ConfigKey.compare ResourceConfigValue.key k values).bind _ = _
    rw [hother k hk]
    rfl

/-- **One value of the source entry**, where it does not fail. -/
theorem ResourceEntry.mergeValue_spec {mode : MergeMode} {name : ResourceName}
    {src : ResourceConfigValue ι} {dst dst' : ResourceEntry ι} {r : Report MergeError}
    (h : ResourceEntry.mergeValue ops options mode name src dst = some (r, dst'))
    (hr : r.error = false) :
    r.diagnostics = [] ∧ dst'.name = dst.name ∧ dst'.stagedId = dst.stagedId ∧
    (dst.Sorted → dst'.Sorted ∧ ∀ k, dst'.mergeView.values k
      = mergedValue ops options mode k (dst.mergeView.values k) src) := by
  obtain ⟨incoming, hsrc, h⟩ := Option.bind_eq_some_iff.mp h
  have hview : dst.mergeView.values src.key
      = (dst.findValue src.config src.product).bind (·.value) := rfl
  cases hfind : dst.findValue src.config src.product with
  -- a new value takes its place as it is
  | none =>
      simp only [hfind] at h
      refine ResourceEntry.spec_onValue hsrc ?_ h
      refine fun x => ⟨_, rfl, rfl, congrArg some ?_⟩
      rw [hview, hfind]
      rfl
  | some found =>
      simp only [hfind] at h
      obtain ⟨existing, hexisting, h⟩ := Option.bind_eq_some_iff.mp h
      have hprescribed :
          prescribedValue ops options (takenValue ops) mode (dst.mergeView.values src.key) incoming
            = resolvedValue ops options (takenValue ops) mode existing incoming := by
        rw [hview, hfind, Option.bind_some, hexisting]
        rfl
      cases hmerged : (mergeConfigValue ops options mode.overlay existing incoming).1 with
      -- a conflict is reported, which `hr` rules out
      | kConflict =>
          simp only [hmerged] at h
          cases h
          cases hr
      | kKeepOriginal =>
          simp only [hmerged] at h
          refine ResourceEntry.spec_onValue hsrc ?_ h
          refine fun x => ⟨_, rfl, rfl, congrArg some ?_⟩
          rw [hprescribed, resolvedValue, hmerged]
      | kTakeNew =>
          simp only [hmerged] at h
          refine ResourceEntry.spec_onValue hsrc ?_ h
          refine fun x => ⟨_, rfl, rfl, congrArg some ?_⟩
          rw [hprescribed, resolvedValue, hmerged]
      | kKeepBoth =>
          simp only [hmerged] at h
          refine ResourceEntry.spec_onValue hsrc ?_ h
          refine fun x => ⟨_, rfl, rfl, congrArg some ?_⟩
          rw [hprescribed, resolvedValue, hmerged]

/-- The values of the source entry, where none fails. -/
theorem ResourceEntry.mergeValues_spec {mode : MergeMode} {name : ResourceName}
    {srcs : List (ResourceConfigValue ι)} {dst dst' : ResourceEntry ι} {r : Report MergeError}
    (h : runSteps (ResourceEntry.mergeValue ops options mode name) srcs dst = some (r, dst'))
    (hr : r.error = false) :
    r.diagnostics = [] ∧ dst'.name = dst.name ∧ dst'.stagedId = dst.stagedId ∧
    (dst.Sorted → dst'.Sorted ∧ ∀ k, dst'.mergeView.values k
      = srcs.foldl (mergedValue ops options mode k) (dst.mergeView.values k)) := by
  induction srcs generalizing dst r with
  | nil =>
      cases h
      exact ⟨rfl, rfl, rfl, fun hsorted => ⟨hsorted, fun _ => rfl⟩⟩
  | cons src srcs ih =>
      obtain ⟨r₁, mid, r₂, hfirst, hrest, rfl⟩ := runSteps_cons_eq_some_iff.mp h
      rw [Report.error_andThen, Bool.or_eq_false_iff] at hr
      obtain ⟨hdiagnostics, hname, hstaged, hvalues⟩ := ResourceEntry.mergeValue_spec hfirst hr.1
      obtain ⟨hdiagnostics', hname', hstaged', hvalues'⟩ := ih hrest hr.2
      refine ⟨?_, hname'.trans hname, hstaged'.trans hstaged, fun hsorted => ?_⟩
      · rw [Report.diagnostics_andThen, hdiagnostics, hdiagnostics', List.nil_append]
      · obtain ⟨hmid, hview⟩ := hvalues hsorted
        obtain ⟨hlast, hview'⟩ := hvalues' hmid
        refine ⟨hlast, fun k => ?_⟩
        rw [hview', hview, List.foldl_cons]

/-- The values behind disabled flags change nothing else. -/
theorem ResourceEntry.mergeFlagDisabledValues_spec {name : Bytes} {srcs : List (ResourceConfigValue ι)}
    {dst dst' : ResourceEntry ι} {r : Report MergeError}
    (h : runSteps (ResourceEntry.mergeFlagDisabledValue ops name) srcs dst = some (r, dst'))
    (hr : r.error = false) :
    r.diagnostics = [] ∧ ∃ flagDisabledValues, dst' = { dst with flagDisabledValues } := by
  induction srcs generalizing dst r with
  | nil =>
      cases h
      exact ⟨rfl, _, rfl⟩
  | cons src srcs ih =>
      obtain ⟨r₁, mid, r₂, hfirst, hrest, rfl⟩ := runSteps_cons_eq_some_iff.mp h
      rw [Report.error_andThen, Bool.or_eq_false_iff] at hr
      obtain ⟨hdiagnostics', flagged, rfl⟩ := ih hrest hr.2
      obtain ⟨incoming, -, hfirst⟩ := Option.bind_eq_some_iff.mp hfirst
      obtain ⟨flag, -, hfirst⟩ := Option.bind_eq_some_iff.mp hfirst
      obtain ⟨⟨r', values⟩, hvalues, heq⟩ := Option.map_eq_some_iff.mp hfirst
      cases heq
      -- a value that is there already fails
      obtain ⟨x, x', hx⟩ := exists_of_onFoundOrCreated hvalues
      cases hvalue : x.value with
      | none =>
          rw [hvalue] at hx
          cases hx
          exact ⟨by simp [hdiagnostics'], flagged, rfl⟩
      | some _ =>
          rw [hvalue] at hx
          cases hx
          exact absurd hr.1 (by simp)

/-- The properties of an entry: where they can be merged, only the staged identifier is reported. -/
theorem ResourceEntry.mergeEntry_spec {strictVisibility : Bool} {src dst : ResourceEntry ι}
    (h : (src.mergeEntry strictVisibility dst).2.1 = true) :
    ((src.mergeEntry strictVisibility dst).1 = [] ↔
      stagedIdConflict dst.stagedId src.stagedId = false) ∧
    (src.mergeEntry strictVisibility dst).2.2.name = dst.name ∧
    (src.mergeEntry strictVisibility dst).2.2.values = dst.values ∧
    (src.mergeEntry strictVisibility dst).2.2.stagedId = src.stagedId.or dst.stagedId := by
  have hstaged : (src.takeVisibility dst).stagedId = dst.stagedId := by
    rw [takeVisibility]
    split <;> rfl
  have hname : (src.takeVisibility dst).name = dst.name := by
    rw [takeVisibility]
    split <;> rfl
  have hvalues : (src.takeVisibility dst).values = dst.values := by
    rw [takeVisibility]
    split <;> rfl
  rw [mergeEntry] at h ⊢
  -- the first three checks fail
  split at h
  · cases h
  · split at h
    · cases h
    · rename_i hvisibility hids
      rw [if_neg hvisibility, if_neg hids]
      dsimp only at h ⊢
      split at h
      · cases h
      · rename_i hoverlayable
        rw [if_neg hoverlayable]
        refine ⟨?_, hname, hvalues, congrArg src.stagedId.or hstaged⟩
        dsimp only
        rw [hstaged]
        cases stagedIdConflict dst.stagedId src.stagedId <;> simp

/-- **One entry of the source**, where it does not fail: the view changes as `mergeAct` says, and
something is reported where the staged identifiers conflict. -/
theorem ResourceEntry.mergeWith_spec {mode : MergeMode} {name : ResourceName}
    {src dst dst' : ResourceEntry ι} {r : Report MergeError}
    (h : src.mergeWith ops options mode name dst = some (r, dst')) (hr : r.error = false) :
    (r.diagnostics = [] ↔ mergeQuiet (mode, src) dst.mergeView) ∧ dst'.name = dst.name ∧
    (dst.Sorted → dst'.Sorted ∧ dst'.mergeView = mergeAct ops options (mode, src) dst.mergeView) := by
  rw [mergeWith] at h
  split at h
  · rename_i hmerged
    obtain ⟨hquiet, hname, hvalues, hstaged⟩ := ResourceEntry.mergeEntry_spec hmerged
    obtain ⟨⟨r₁, mid⟩, hfirst, h⟩ := Option.bind_eq_some_iff.mp h
    obtain ⟨⟨r₂, last⟩, hsecond, heq⟩ := Option.map_eq_some_iff.mp h
    cases heq
    simp only [Report.error_andThen, Bool.false_or, Bool.or_eq_false_iff] at hr
    obtain ⟨hdiagnostics₁, hname₁, hstaged₁, hvalues₁⟩ := ResourceEntry.mergeValues_spec hfirst hr.1
    obtain ⟨hdiagnostics₂, flagged, rfl⟩ := ResourceEntry.mergeFlagDisabledValues_spec hsecond hr.2
    refine ⟨?_, hname₁.trans hname, fun hsorted => ?_⟩
    · simp only [Report.diagnostics_andThen, hdiagnostics₁, hdiagnostics₂, List.append_nil]
      exact hquiet
    · -- the properties leave the values as they are
      have hsorted' : (src.mergeEntry options.strictVisibility dst).2.2.Sorted := by
        rw [Sorted, hvalues]
        exact hsorted
      obtain ⟨hmid, hview⟩ := hvalues₁ hsorted'
      refine ⟨hmid, ?_⟩
      have hviews : ∀ k, mid.mergeView.values k
          = (mergeAct ops options (mode, src) dst.mergeView).values k := by
        intro k
        rw [hview k]
        show src.values.foldl _ ((findSorted _ _ _ _).bind _) = _
        rw [hvalues]
        rfl
      have hstagedId : mid.stagedId = src.stagedId.or dst.stagedId := hstaged₁.trans hstaged
      show EntryView.mk mid.mergeView.values mid.stagedId = _
      rw [funext hviews, hstagedId]
      rfl
  · cases h
    cases hr

/-! ## Types and packages -/

/-- What looking an entry up and merging into it does to the views of a type. -/
theorem ResourceTableType.mergeResource_follows {mode : MergeMode} {allowNew : Bool} {package : Bytes}
    {src : ResourceEntry ι} {type type' : ResourceTableType ι} {r : Report MergeError}
    (hsorted : type.Sorted)
    (h : ResourceTableType.mergeResource ops options mode allowNew package src type = some (r, type'))
    (hr : r.error = false) :
    (type'.Sorted ∧ type'.namedType = type.namedType) ∧
    Follows (mergeAct ops options) mergeQuiet [(mode.entryName src.name, (mode, src))] type.mergeView
      type'.mergeView (r.diagnostics = []) := by
  rw [mergeResource] at h
  split at h
  · obtain ⟨⟨r', entries⟩, hentries, heq⟩ := Option.map_eq_some_iff.mp h
    cases heq
    have hnew : compare (ResourceEntry.new (mode.entryName src.name) : ResourceEntry ι).name
        (mode.entryName src.name) = .eq := Std.ReflCmp.compare_self
    obtain ⟨hsorted', x', hx', hfound, hmem, hother⟩ := SortedBy.onFoundOrCreated hsorted.entries hnew
      (fun x x' _ hx => (ResourceEntry.mergeWith_spec hx hr).2.1) hentries
    obtain ⟨hquiet, hname, hview⟩ := ResourceEntry.mergeWith_spec hx' hr
    -- the entry that is found is sorted, and a new one is
    have hentry : ((type.findEntry (mode.entryName src.name)).getD
        (.new (mode.entryName src.name))).Sorted := by
      cases hfind : type.findEntry (mode.entryName src.name) with
      | none => exact List.Pairwise.nil
      | some e => exact hsorted.entry e (mem_of_findSorted hfind).1
    obtain ⟨hentry', hview⟩ := hview hentry
    have hbefore : type.mergeView (mode.entryName src.name)
        = ((type.findEntry (mode.entryName src.name)).getD (.new (mode.entryName src.name))).mergeView := by
      rw [mergeView]
      cases type.findEntry (mode.entryName src.name) <;> rfl
    refine ⟨⟨⟨hsorted', ?_⟩, rfl⟩, .single ?_ ?_ ?_⟩
    · intro e he
      rcases hmem e he with he | rfl
      · exact hsorted.entry e he
      · exact hentry'
    · show ((findSorted _ _ _ entries).map _).getD _ = _
      rw [hfound, hbefore]
      exact hview
    · intro name hne
      show ((findSorted _ _ _ entries).map _).getD _ = _
      rw [hother name fun heq => hne (Std.LawfulEqCmp.eq_of_compare heq).symm]
      rfl
    · rw [hbefore]
      exact hquiet
  · cases h
    cases hr

/-- The keyed steps of a type of the source. -/
def ResourceTableType.mergeSteps (mode : MergeMode) (type : ResourceTableType ι) :
    List ((ResourceNamedType × Bytes) × (MergeMode × ResourceEntry ι)) :=
  type.entries.map fun entry => ((type.namedType, mode.entryName entry.name), (mode, entry))

/-- The entries of a type of the source, merged into a type. -/
theorem ResourceTableType.mergeResources_follows {mode : MergeMode} {allowNew : Bool} {package : Bytes}
    {src type type' : ResourceTableType ι} {r : Report MergeError} (hsorted : type.Sorted)
    (h : runSteps (ResourceTableType.mergeResource ops options mode allowNew package) src.entries
      (src.mergeType type) = some (r, type')) (hr : r.error = false) :
    (type'.Sorted ∧ type'.namedType = type.namedType) ∧
    Follows (mergeAct ops options) mergeQuiet
      (src.entries.map fun entry => (mode.entryName entry.name, (mode, entry))) type.mergeView
      type'.mergeView (r.diagnostics = []) := by
  -- the visibility of the type is not seen
  have hmerged : (src.mergeType type).entries = type.entries ∧
      (src.mergeType type).namedType = type.namedType := by
    rw [mergeType]
    split <;> exact ⟨rfl, rfl⟩
  have hview : (src.mergeType type).mergeView = type.mergeView := by
    funext name
    show ((findSorted _ _ _ (src.mergeType type).entries).map _).getD _ = _
    rw [hmerged.1]
    rfl
  have hsorted' : (src.mergeType type).Sorted := ⟨hmerged.1 ▸ hsorted.entries, hmerged.1 ▸ hsorted.entry⟩
  rw [← hview, ← hmerged.2, List.map_eq_flatMap]
  have hstep : ∀ entry t r t', (t.Sorted ∧ t.namedType = (src.mergeType type).namedType) →
      ResourceTableType.mergeResource ops options mode allowNew package entry t = some (r, t') →
      r.error = false → (t'.Sorted ∧ t'.namedType = (src.mergeType type).namedType) ∧
        Follows (mergeAct ops options) mergeQuiet [(mode.entryName entry.name, (mode, entry))] t.mergeView
          t'.mergeView (r.diagnostics = []) := by
    intro entry t r t' ht hstep hr
    obtain ⟨⟨ht', hname⟩, hfollows⟩ := ResourceTableType.mergeResource_follows ht.1 hstep hr
    exact ⟨⟨ht', hname.trans ht.2⟩, hfollows⟩
  exact runSteps_follows hstep ⟨hsorted', rfl⟩ h hr

/-- What merging a type of the source does to the views of the package. -/
theorem ResourceTablePackage.mergeTypeOf_follows {mode : MergeMode} {allowNew : Bool} {name : Bytes}
    {src : ResourceTableType ι} {package package' : ResourceTablePackage ι} {r : Report MergeError}
    (hsorted : package.Sorted)
    (h : ResourceTablePackage.mergeTypeOf ops options mode allowNew name src package = some (r, package'))
    (hr : r.error = false) :
    package'.Sorted ∧ Follows (mergeAct ops options) mergeQuiet (src.mergeSteps mode) package.mergeView
      package'.mergeView (r.diagnostics = []) := by
  obtain ⟨⟨r', types⟩, htypes, heq⟩ := Option.map_eq_some_iff.mp h
  cases heq
  have hempty : (⟨src.namedType, .kUndefined, []⟩ : ResourceTableType ι).Sorted :=
    ⟨List.Pairwise.nil, fun entry hentry => by cases hentry⟩
  have htype : ∀ t, (t ∈ package.types ∨ t = ⟨src.namedType, .kUndefined, []⟩) → t.Sorted := by
    rintro t (ht | rfl)
    · exact hsorted.type t ht
    · exact hempty
  have hnew : ResourceNamedType.compare (⟨src.namedType, .kUndefined, []⟩ : ResourceTableType ι).namedType
      src.namedType = .eq := compare_namedType_self _
  obtain ⟨hsorted', t', ht', hfound, hmem, hother⟩ := SortedBy.onFoundOrCreated hsorted.types hnew
    (fun t t' ht hrun => (ResourceTableType.mergeResources_follows (htype t ht) hrun hr).1.2) htypes
  have hfind : ((package.findType src.namedType).getD ⟨src.namedType, .kUndefined, []⟩).Sorted := by
    cases hfind : package.findType src.namedType with
    | none => exact hempty
    | some t => exact hsorted.type t (mem_of_findSorted hfind).1
  obtain ⟨⟨ht'sorted, -⟩, hfollows⟩ := ResourceTableType.mergeResources_follows hfind ht' hr
  have hsteps : src.mergeSteps mode = (src.entries.map fun entry => (mode.entryName entry.name,
      (mode, entry))).map fun x => ((src.namedType, x.1), x.2) := by
    rw [List.map_map]
    rfl
  refine ⟨⟨hsorted', ?_⟩, hsteps ▸ hfollows.pair ?_ ?_ ?_⟩
  · intro t ht
    rcases hmem t ht with ht | rfl
    · exact hsorted.type t ht
    · exact ht'sorted
  · intro entryName
    rw [mergeView]
    cases package.findType src.namedType <;> rfl
  · intro entryName
    show ((findSorted _ _ _ types).map _).getD _ = _
    rw [hfound]
    rfl
  · intro namedType hne entryName
    show ((findSorted _ _ _ types).map _).getD _ = _
    rw [hother namedType fun heq => hne (ResourceNamedType.compare_eq_iff _ _ |>.mp heq).symm]
    rfl

/-- The keyed steps of a package of the source. -/
def ResourceTablePackage.mergeSteps (mode : MergeMode) (package : ResourceTablePackage ι) :
    List ((ResourceNamedType × Bytes) × (MergeMode × ResourceEntry ι)) :=
  package.types.flatMap (·.mergeSteps mode)

/-- The keyed steps of a merge: the entries of the packages that are merged, under the names that
they get. -/
def MergeCall.mergeSteps (call : MergeCall) (compilationPackage : Bytes) (table : ResourceTable ι) :
    List ((ResourceNamedType × Bytes) × (MergeMode × ResourceEntry ι)) :=
  (table.packages.filter (call.selects compilationPackage)).flatMap fun package =>
    package.mergeSteps (call.mode compilationPackage package)

/-- **A merge that returns true is the sequence of its entries.** -/
theorem MergeCall.run_follows {call : MergeCall} {compilationPackage : Bytes} {table : ResourceTable ι}
    {main main' : ResourceTablePackage ι} {r : Report MergeError} (hsorted : main.Sorted)
    (h : call.run ops options compilationPackage table main = some (r, main')) (hr : r.error = false) :
    main'.Sorted ∧ Follows (mergeAct ops options) mergeQuiet (call.mergeSteps compilationPackage table)
      main.mergeView main'.mergeView (r.diagnostics = []) := by
  refine runSteps_follows (fun package s r s' hs hstep hr => ?_) hsorted h hr
  refine runSteps_follows (fun type s r s' hs hstep hr => ?_) hs hstep hr
  exact ResourceTablePackage.mergeTypeOf_follows hs hstep hr

/-! ## The union -/

/-- The value of the package under a type, a name, a configuration and a product. -/
def ResourceTablePackage.valueAt (package : ResourceTablePackage ι) (e : ResourceNamedType × Bytes)
    (c : ConfigKey) : Option (Value ι) :=
  (package.mergeView e).values c

/-- The values of a source entry under a configuration and product, each with how it is merged. -/
def incomingOf (c : ConfigKey) (step : MergeMode × ResourceEntry ι) : List (MergeMode × Value ι) :=
  step.2.values.filterMap fun src =>
    if src.key.compare c = .eq then src.value.map fun v => (step.1, v) else none

/-- The values that a merge brings under a type, a name, a configuration and a product, in order. -/
def MergeCall.incoming (call : MergeCall) (compilationPackage : Bytes) (table : ResourceTable ι)
    (e : ResourceNamedType × Bytes) (c : ConfigKey) : List (MergeMode × Value ι) :=
  (touching e (call.mergeSteps compilationPackage table)).flatMap (incomingOf c)

variable (ops options) in
/-- The package after the merge is the union of the package before and what the merge brings: it has
the keys of both; what the merge does not bring stays; what is new is copied; and what is in both is
resolved, where a value that is taken is copied too. Where the merge brings several values under one
key, each is resolved against what the ones before left. -/
structure IsUnion (main main' : ResourceTablePackage ι)
    (incoming : ResourceNamedType × Bytes → ConfigKey → List (MergeMode × Value ι)) : Prop where
  keys : ∀ e c, (main'.valueAt e c).isSome = true ↔
    (main.valueAt e c).isSome = true ∨ incoming e c ≠ []
  kept : ∀ e c, incoming e c = [] → main'.valueAt e c = main.valueAt e c
  copied : ∀ e c mode v, main.valueAt e c = none → incoming e c = [(mode, v)] →
    main'.valueAt e c = some (copyOf ops mode none v)
  resolved : ∀ e c existing mode v, main.valueAt e c = some existing → incoming e c = [(mode, v)] →
    main'.valueAt e c = some (resolvedValue ops options (copyOf ops) mode existing v)
  repeated : ∀ e c mode v rest, incoming e c = (mode, v) :: rest → main'.valueAt e c
    = some (rest.foldl (fun cur x => resolvedValue ops options (copyOf ops) x.1 cur x.2)
      (prescribedValue ops options (copyOf ops) mode (main.valueAt e c) v))

/-- The kinds of values of which `CloningValueTransformer` copies all members. -/
def ValueKind.copiedWhole : ValueKind → Bool
  | .reference | .id | .binaryPrimitive | .kMacro => true
  | _ => false

/-- Nothing is lost when the main table takes a value. -/
structure CopiesWhole (ops : ContentOps ι) (mode : MergeMode) (original : Option (Value ι))
    (v : Value ι) : Prop where
  /-- The other kinds are copied without being weak, and to be translated. -/
  members : v.kind.copiedWhole = false → v.weak = false ∧ v.translatable = true
  /-- A file under a mangled path has no flag. -/
  flag : (mangledPath ops mode v).isSome = true → v.flag = none ∧ v.flagStatus = .noFlag
  /-- The contents are copied whole, but for a comment that is replaced. -/
  content : mangledPath ops mode v = none →
    commentedContent ops mode original v (ops.clone v.content)
      = commentedContent ops mode original v v.content

variable (ops options) in
/-- The value, or nothing, that an incoming value replaces if it is taken. -/
def replacedBy (mode : MergeMode) (current : Option (Value ι)) (incoming : Value ι) :
    Option (Option (Value ι)) :=
  match current with
  | none => some none
  | some existing =>
      let merged := mergeConfigValue ops options mode.overlay existing incoming
      match merged.1 with
      | .kKeepOriginal | .kConflict => none
      | .kTakeNew | .kKeepBoth => some (some merged.2)

variable (ops options) in
/-- Of the values that come one after the other, nothing is lost of those that are taken. -/
def TakesWhole : Option (Value ι) → List (MergeMode × Value ι) → Prop
  | _, [] => True
  | current, x :: xs =>
      (∀ original ∈ replacedBy ops options x.1 current x.2, CopiesWhole ops x.1 original x.2)
        ∧ TakesWhole (some (prescribedValue ops options (copyOf ops) x.1 current x.2)) xs

/-- The staged identifiers that the main table and the source have for one resource are the same. -/
def StagedIdsAgree (main : ResourceTablePackage ι)
    (steps : List ((ResourceNamedType × Bytes) × (MergeMode × ResourceEntry ι))) : Prop :=
  ∀ e, ∀ a ∈ (main.mergeView e).stagedId.toList ++ (touching e steps).filterMap (·.2.stagedId),
    ∀ b ∈ (main.mergeView e).stagedId.toList ++ (touching e steps).filterMap (·.2.stagedId), a = b

/-- The values of one source entry, one after another. -/
theorem foldl_mergedValue (step : MergeMode × ResourceEntry ι) (c : ConfigKey)
    (current : Option (Value ι)) :
    step.2.values.foldl (mergedValue ops options step.1 c) current
      = (incomingOf c step).foldl
        (fun cur x => some (prescribedValue ops options (takenValue ops) x.1 cur x.2)) current := by
  rw [incomingOf, List.foldl_filterMap]
  congr 1
  funext cur src
  rw [mergedValue]
  by_cases hkey : src.key.compare c = .eq
  · cases src.value <;> simp [hkey]
  · cases src.value <;> simp [hkey]

/-- The values of several source entries, one after another. -/
theorem values_foldl_mergeAct (steps : List (MergeMode × ResourceEntry ι)) (v : EntryView ι)
    (c : ConfigKey) : (steps.foldl (fun v x => mergeAct ops options x v) v).values c
      = (steps.flatMap (incomingOf c)).foldl
        (fun cur x => some (prescribedValue ops options (takenValue ops) x.1 cur x.2))
        (v.values c) := by
  induction steps generalizing v with
  | nil => rfl
  | cons step steps ih =>
      rw [List.foldl_cons, ih, List.flatMap_cons, List.foldl_append, ← foldl_mergedValue]
      rfl

/-- A value that is there stays there. -/
theorem foldl_prescribedValue_some (copy : Copying ι) (xs : List (MergeMode × Value ι))
    (existing : Value ι) :
    xs.foldl (fun cur x => some (prescribedValue ops options copy x.1 cur x.2)) (some existing)
      = some (xs.foldl (fun cur x => resolvedValue ops options copy x.1 cur x.2) existing) := by
  induction xs generalizing existing with
  | nil => rfl
  | cons x xs ih =>
      rw [List.foldl_cons, List.foldl_cons, ← ih]
      rfl

/-- A package is a union if its values are those that are resolved one after another. -/
theorem isUnion_iff_foldl {main main' : ResourceTablePackage ι}
    {incoming : ResourceNamedType × Bytes → ConfigKey → List (MergeMode × Value ι)} :
    IsUnion ops options main main' incoming ↔ ∀ e c, main'.valueAt e c = (incoming e c).foldl
      (fun cur x => some (prescribedValue ops options (copyOf ops) x.1 cur x.2))
      (main.valueAt e c) := by
  constructor
  · intro h e c
    cases hincoming : incoming e c with
    | nil => exact h.kept e c hincoming
    | cons x rest =>
        rw [h.repeated e c x.1 x.2 rest hincoming, List.foldl_cons, foldl_prescribedValue_some]
  · intro h
    have hrepeated : ∀ e c mode v rest, incoming e c = (mode, v) :: rest → main'.valueAt e c
        = some (rest.foldl (fun cur x => resolvedValue ops options (copyOf ops) x.1 cur x.2)
          (prescribedValue ops options (copyOf ops) mode (main.valueAt e c) v)) := by
      intro e c mode v rest hincoming
      rw [h, hincoming, List.foldl_cons, foldl_prescribedValue_some]
    refine ⟨?_, ?_, ?_, ?_, hrepeated⟩
    · intro e c
      cases hincoming : incoming e c with
      | nil => simp [h, hincoming]
      | cons x rest => simp [hrepeated e c x.1 x.2 rest hincoming]
    · intro e c hincoming
      rw [h, hincoming]
      rfl
    · intro e c mode v hmain hincoming
      rw [hrepeated e c mode v [] hincoming, hmain]
      rfl
    · intro e c existing mode v hmain hincoming
      rw [hrepeated e c mode v [] hincoming, hmain]
      rfl

/-- `Transform` changes only some members of a value. -/
theorem cloneValue_eq_iff {v : Value ι} {content content' : ι} :
    ({ ops.cloneValue v with content } : Value ι) = { v with content := content' }
      ↔ (v.kind.copiedWhole = false → v.weak = false ∧ v.translatable = true)
        ∧ content = content' := by
  obtain ⟨kind, c, weak, translatable, flag, status⟩ := v
  cases kind <;> simp [ContentOps.cloneValue, Value.clone, ValueKind.copiedWhole, eq_comm, and_comm]

/-- **What the main table takes is a copy** exactly if nothing is lost. -/
theorem takenValue_eq_copyOf_iff {mode : MergeMode} {original : Option (Value ι)} {v : Value ι} :
    takenValue ops mode original v = copyOf ops mode original v
      ↔ CopiesWhole ops mode original v := by
  cases hpath : mangledPath ops mode v with
  -- without a mangled path both are clones, up to the comment
  | none =>
      have htaken : takenValue ops mode original v = { ops.cloneValue v with
          content := commentedContent ops mode original v (ops.clone v.content) } := by
        unfold mangledPath at hpath
        unfold takenValue commentedContent
        cases hkind : v.kind <;> simp only [hkind] at hpath ⊢
        case fileReference =>
          cases hmode : mode.mangledBy with
          | none => rfl
          | some package =>
              simp only [hmode, Option.map_eq_none_iff] at hpath ⊢
              rw [cloneAndMangleFile, hpath]
              rfl
        all_goals rfl
      rw [htaken, copyOf, hpath, cloneValue_eq_iff]
      exact ⟨fun h => ⟨h.1, fun hsome => absurd hsome (by simp [hpath]), fun _ => h.2⟩,
        fun h => ⟨h.members, h.content hpath⟩⟩
  | some path =>
      -- a mangled path is that of a file reference
      obtain ⟨hkind, package, parts, hmode, hparts, rfl⟩ : v.kind = .fileReference ∧ ∃ package parts,
          mode.mangledBy = some package
            ∧ extractResFilePathParts (ops.path v.content) = some parts
            ∧ parts.1 ++ mangleEntry package parts.2.1 ++ parts.2.2 = path := by
        unfold mangledPath at hpath
        split at hpath
        next package hkind hmode =>
            obtain ⟨parts, hparts, rfl⟩ := Option.map_eq_some_iff.mp hpath
            exact ⟨hkind, package, parts, hmode, hparts, rfl⟩
        next => cases hpath
      rw [takenValue, hkind]
      dsimp only
      rw [hmode]
      dsimp only
      rw [cloneAndMangleFile, hparts, copyOf, hpath]
      obtain ⟨kind, c, weak, translatable, flag, status⟩ := v
      obtain rfl : kind = .fileReference := hkind
      simp only [Value.mk.injEq, true_and]
      constructor
      · rintro ⟨rfl, rfl, rfl, rfl⟩
        exact ⟨fun _ => ⟨rfl, rfl⟩, fun _ => ⟨rfl, rfl⟩,
          fun hnone => absurd hnone (by simp [hpath])⟩
      · intro h
        obtain ⟨hweak, htranslatable⟩ := h.members rfl
        obtain ⟨hflag, hstatus⟩ := h.flag (by simp [hpath])
        exact ⟨hweak.symm, htranslatable.symm, hflag.symm, hstatus.symm⟩

/-- Two ways to copy leave the same value exactly if they agree on a value that is taken. -/
theorem prescribedValue_congr {copy copy' : Copying ι} {mode : MergeMode}
    {current : Option (Value ι)} {incoming : Value ι} :
    prescribedValue ops options copy mode current incoming
        = prescribedValue ops options copy' mode current incoming
      ↔ ∀ original ∈ replacedBy ops options mode current incoming,
        copy mode original incoming = copy' mode original incoming := by
  cases current with
  | none => simp [prescribedValue, replacedBy]
  | some existing =>
      simp only [prescribedValue, resolvedValue, replacedBy]
      cases (mergeConfigValue ops options mode.overlay existing incoming).1 <;> simp

/-- What is left after values of which nothing is lost are the copies. -/
theorem foldl_eq_of_takesWhole {current : Option (Value ι)} {xs : List (MergeMode × Value ι)}
    (h : TakesWhole ops options current xs) :
    xs.foldl (fun cur x => some (prescribedValue ops options (takenValue ops) x.1 cur x.2)) current
      = xs.foldl (fun cur x => some (prescribedValue ops options (copyOf ops) x.1 cur x.2))
        current := by
  induction xs generalizing current with
  | nil => rfl
  | cons x xs ih =>
      have hx : prescribedValue ops options (takenValue ops) x.1 current x.2
          = prescribedValue ops options (copyOf ops) x.1 current x.2 :=
        prescribedValue_congr.mpr fun original horiginal =>
          takenValue_eq_copyOf_iff.mpr (h.1 original horiginal)
      rw [List.foldl_cons, List.foldl_cons, hx, ih h.2]

/-- One value at most, of which nothing is lost. -/
theorem takesWhole_of_foldl_eq {current : Option (Value ι)} {xs : List (MergeMode × Value ι)}
    (hxs : xs.length ≤ 1)
    (h : xs.foldl (fun cur x => some (prescribedValue ops options (takenValue ops) x.1 cur x.2))
        current
      = xs.foldl (fun cur x => some (prescribedValue ops options (copyOf ops) x.1 cur x.2))
        current) : TakesWhole ops options current xs := by
  cases xs with
  | nil => trivial
  | cons x xs =>
      obtain rfl : xs = [] :=
        List.length_eq_zero_iff.mp (Nat.le_zero.mp (Nat.le_of_succ_le_succ hxs))
      have hx := prescribedValue_congr.mp (Option.some.inj h)
      exact ⟨fun original horiginal => takenValue_eq_copyOf_iff.mp (hx original horiginal), trivial⟩

/-- Values of which nothing is lost whatever they replace. -/
theorem takesWhole_of_forall {current : Option (Value ι)} {xs : List (MergeMode × Value ι)}
    (h : ∀ x ∈ xs, ∀ original, CopiesWhole ops x.1 original x.2) :
    TakesWhole ops options current xs := by
  induction xs generalizing current with
  | nil => trivial
  | cons x xs ih =>
      exact ⟨fun original _ => h x List.mem_cons_self original,
        ih fun y hy => h y (List.mem_cons_of_mem x hy)⟩

/-- Source entries of one name are quiet exactly if all staged identifiers are the same. -/
theorem quietRun_iff_stagedIds (steps : List (MergeMode × ResourceEntry ι)) (v : EntryView ι) :
    QuietRun (mergeAct ops options) mergeQuiet steps v ↔
    ∀ a ∈ v.stagedId.toList ++ steps.filterMap (·.2.stagedId),
      ∀ b ∈ v.stagedId.toList ++ steps.filterMap (·.2.stagedId), a = b := by
  induction steps generalizing v with
  | nil => cases v.stagedId <;> simp [QuietRun]
  | cons step steps ih =>
      rw [QuietRun, ih, mergeQuiet]
      show _ ∧ (∀ a ∈ (step.2.stagedId.or v.stagedId).toList ++ _,
        ∀ b ∈ (step.2.stagedId.or v.stagedId).toList ++ _, a = b) ↔ _
      cases hsrc : step.2.stagedId with
      | none => simp [hsrc, stagedIdConflict]
      | some s =>
          cases hdst : v.stagedId with
          | none => simp [hsrc, stagedIdConflict]
          | some d =>
              -- the identifier that the step leaves stands for the one before it
              have hconflict : stagedIdConflict (some d) (some s) = false ↔ d = s := by
                obtain ⟨d⟩ := d
                obtain ⟨s⟩ := s
                simp [stagedIdConflict]
              have hcons : (step :: steps).filterMap (·.2.stagedId)
                  = s :: steps.filterMap (·.2.stagedId) := by
                rw [List.filterMap_cons, hsrc]
              rw [hconflict, hcons]
              constructor
              · rintro ⟨rfl, hrest⟩ a ha b hb
                exact hrest a (by simpa using ha) b (by simpa using hb)
              · intro hall
                obtain rfl : d = s := hall d (by simp) s (by simp)
                exact ⟨rfl, fun a ha b hb => hall a (List.mem_cons_of_mem d ha) b (List.mem_cons_of_mem d hb)⟩

/-- **A merge that returns true leaves a union and has reported no error** if the staged identifiers
agree and nothing is lost of the values that it takes; and only then, where it brings one value at
most under each key. -/
theorem MergeCall.run_isUnion_iff {call : MergeCall} {compilationPackage : Bytes}
    {table : ResourceTable ι} {main main' : ResourceTablePackage ι} {r : Report MergeError}
    (hsorted : main.Sorted)
    (h : call.run ops options compilationPackage table main = some (r, main'))
    (hr : r.error = false) :
    (StagedIdsAgree main (call.mergeSteps compilationPackage table)
        ∧ (∀ e c, TakesWhole ops options (main.valueAt e c)
          (call.incoming compilationPackage table e c))
      → IsUnion ops options main main' (call.incoming compilationPackage table)
        ∧ r.diagnostics = [])
    ∧ ((∀ e c, (call.incoming compilationPackage table e c).length ≤ 1)
      → IsUnion ops options main main' (call.incoming compilationPackage table)
        ∧ r.diagnostics = []
      → StagedIdsAgree main (call.mergeSteps compilationPackage table)
        ∧ ∀ e c, TakesWhole ops options (main.valueAt e c)
          (call.incoming compilationPackage table e c)) := by
  obtain ⟨-, hview, hclean⟩ := call.run_follows hsorted h hr
  have hvalues : ∀ e c, main'.valueAt e c = (call.incoming compilationPackage table e c).foldl
      (fun cur x => some (prescribedValue ops options (takenValue ops) x.1 cur x.2))
      (main.valueAt e c) := by
    intro e c
    show (main'.mergeView e).values c = _
    rw [hview e, values_foldl_mergeAct]
    rfl
  have hstaged :
      r.diagnostics = [] ↔ StagedIdsAgree main (call.mergeSteps compilationPackage table) :=
    hclean.trans (forall_congr' fun e => quietRun_iff_stagedIds _ _)
  rw [hstaged]
  constructor
  · rintro ⟨hagree, htakes⟩
    refine ⟨isUnion_iff_foldl.mpr fun e c => ?_, hagree⟩
    rw [hvalues, foldl_eq_of_takesWhole (htakes e c)]
  · rintro hsingle ⟨hunion, hagree⟩
    refine ⟨hagree, fun e c => takesWhole_of_foldl_eq (hsingle e c) ?_⟩
    rw [← hvalues, isUnion_iff_foldl.mp hunion]

end Merger

/-- Values without contents. -/
def unitOps : ContentOps Unit where
  comment _ := []
  setComment _ _ := ()
  path _ := []
  setPath _ _ := ()
  mergeStyleable _ _ := ()
  mergeStyle _ _ := ()
  clone _ := ()

/-- The default options. -/
def defaultOptions : TableMergerOptions := ⟨false, false, false⟩

/-- A resource with a value of the given kind, which is weak or not. -/
def plainEntry (name : Bytes) (kind : ValueKind) (weak : Bool) (stagedId : Option StagedId) :
    ResourceEntry Unit :=
  ⟨name, none, .default, none, none, stagedId,
    [⟨ResTableConfig.defaultConfig, [], some ⟨kind, (), weak, true, none, .noFlag⟩, false⟩], []⟩

/-- An identifier resource `a` with a value and a staged identifier. -/
def stagedEntry (stagedId : BitVec 32) : ResourceEntry Unit :=
  plainEntry (bytes "a") .id true (some ⟨⟨stagedId⟩⟩)

/-- The package with this resource. -/
def stagedPackage (stagedId : BitVec 32) : ResourceTablePackage Unit :=
  ⟨bytes "app", [⟨⟨bytes "id", .kId⟩, .kUndefined, [stagedEntry stagedId]⟩]⟩

theorem sorted_stagedPackage (stagedId : BitVec 32) : (stagedPackage stagedId).Sorted := by
  refine ⟨List.pairwise_singleton _ _, fun type htype => ?_⟩
  obtain rfl := List.mem_singleton.mp htype
  refine ⟨List.pairwise_singleton _ _, fun entry hentry => ?_⟩
  obtain rfl := List.mem_singleton.mp hentry
  exact List.pairwise_singleton _ _

/-- Two different staged identifiers of one resource are reported as an error, and the merge returns
true. -/
theorem not_clean_run_stagedPackage : ∃ r main', (MergeCall.merge false).run unitOps defaultOptions
      (bytes "app") ⟨[stagedPackage 0x7f010001#32]⟩ (stagedPackage 0x7f010000#32)
        = some (r, main') ∧
    r.error = false ∧ r.diagnostics = [.conflictingStagedId (bytes "a")] :=
  ⟨_, _, rfl, rfl, rfl⟩

/-- A table with this resource, another one of its type and a string. -/
def sourceTable : ResourceTable Unit :=
  ⟨[⟨bytes "app",
    [⟨⟨bytes "id", .kId⟩, .kUndefined,
        [stagedEntry 0x7f010000#32, plainEntry (bytes "b") .id true none]⟩,
      ⟨⟨bytes "string", .kString⟩, .kUndefined, [plainEntry (bytes "c") .string false none]⟩]⟩]⟩

/-- The entries of the table. -/
def sourceEntries : List (ResourceEntry Unit) :=
  [stagedEntry 0x7f010000#32, plainEntry (bytes "b") .id true none,
    plainEntry (bytes "c") .string false none]

/-- The steps of merging the table are its entries. -/
theorem mem_sourceEntries {e : ResourceNamedType × Bytes} {step : MergeMode × ResourceEntry Unit}
    (h : step ∈ touching e ((MergeCall.merge false).mergeSteps (bytes "app") sourceTable)) :
    step.2 ∈ sourceEntries := by
  have hsteps : ((MergeCall.merge false).mergeSteps (bytes "app") sourceTable).map (·.2.2)
      = sourceEntries := rfl
  rw [← hsteps]
  exact List.mem_map.mpr ⟨(e, step), mem_touching_iff.mp h, rfl⟩

/-- All staged identifiers are the same. -/
theorem stagedIdsAgree_sourceTable : StagedIdsAgree (stagedPackage 0x7f010000#32)
    ((MergeCall.merge false).mergeSteps (bytes "app") sourceTable) := by
  have hmain : ∀ e, ∀ a ∈ ((stagedPackage 0x7f010000#32).mergeView e).stagedId,
      a = ⟨⟨0x7f010000#32⟩⟩ := by
    intro e a ha
    rw [ResourceTablePackage.mergeView] at ha
    cases htype : (stagedPackage 0x7f010000#32).findType e.1 with
    | none => simp [htype] at ha
    | some type =>
        obtain rfl := List.mem_singleton.mp (mem_of_findSorted htype).1
        simp only [htype, Option.map_some, Option.getD_some, ResourceTableType.mergeView] at ha
        revert ha
        generalize hfind : ResourceTableType.findEntry e.2 _ = found
        intro ha
        cases found with
        | none => simp at ha
        | some entry =>
            obtain rfl := List.mem_singleton.mp (mem_of_findSorted hfind).1
            exact (Option.some.inj ha).symm
  have hall : ∀ e, ∀ a ∈ ((stagedPackage 0x7f010000#32).mergeView e).stagedId.toList ++
      (touching e ((MergeCall.merge false).mergeSteps (bytes "app") sourceTable)).filterMap
        (·.2.stagedId), a = ⟨⟨0x7f010000#32⟩⟩ := by
    intro e a ha
    rcases List.mem_append.mp ha with ha | ha
    · exact hmain e a (Option.mem_toList.mp ha)
    · obtain ⟨step, hstep, hstaged⟩ := List.mem_filterMap.mp ha
      have hentries : ∀ entry ∈ sourceEntries, ∀ id ∈ entry.stagedId, id = ⟨⟨0x7f010000#32⟩⟩ := by
        decide
      exact hentries step.2 (mem_sourceEntries hstep) a hstaged
  intro e a ha b hb
  rw [hall e a ha, hall e b hb]

/-- Nothing is lost of the values of the table: the string is neither weak nor untranslatable. -/
theorem copiesWhole_sourceTable {e : ResourceNamedType × Bytes} {c : ConfigKey}
    {x : MergeMode × Value Unit}
    (hx : x ∈ (MergeCall.merge false).incoming (bytes "app") sourceTable e c)
    (original : Option (Value Unit)) : CopiesWhole unitOps x.1 original x.2 := by
  obtain ⟨step, hstep, hx⟩ := List.mem_flatMap.mp hx
  obtain ⟨src, hsrc, hx⟩ := List.mem_filterMap.mp hx
  split at hx
  · obtain ⟨v, hv, rfl⟩ := Option.map_eq_some_iff.mp hx
    have hentries : ∀ entry ∈ sourceEntries, ∀ src ∈ entry.values, ∀ v ∈ src.value,
        (v.kind.copiedWhole = false → v.weak = false ∧ v.translatable = true)
          ∧ v.flag = none ∧ v.flagStatus = .noFlag := by decide
    obtain ⟨hmembers, hflag⟩ := hentries step.2 (mem_sourceEntries hstep) src hsrc v hv
    exact ⟨hmembers, fun _ => hflag, fun _ => rfl⟩
  · cases hx

/-- Merged into the package, the table leaves a union of three resources and reports nothing. -/
theorem run_isUnion_sourceTable : ∃ r main', (MergeCall.merge false).run unitOps defaultOptions
      (bytes "app") sourceTable (stagedPackage 0x7f010000#32) = some (r, main') ∧
    r.error = false ∧ IsUnion unitOps defaultOptions (stagedPackage 0x7f010000#32) main'
      ((MergeCall.merge false).incoming (bytes "app") sourceTable) ∧
    r.diagnostics = [] := by
  refine ⟨_, _, rfl, rfl, ?_⟩
  refine (MergeCall.run_isUnion_iff (sorted_stagedPackage _) rfl rfl).1
    ⟨stagedIdsAgree_sourceTable, fun e c => takesWhole_of_forall fun x hx original => ?_⟩
  exact copiesWhole_sourceTable hx original

end AndroidSdk.Aapt2
