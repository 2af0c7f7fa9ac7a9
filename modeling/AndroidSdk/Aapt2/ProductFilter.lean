import AndroidSdk.Aapt2.ResourceTable
import AndroidSdk.Lib.KeyedRun
import AndroidSdk.Lib.Ranges
import AndroidSdk.Lib.Run

/-! # Filtering by product

`ProductFilter` keeps one value for each configuration of an entry: that of a requested product, or
the default one (`ProductFilter.cpp`).

* **`selectProductToKeep`** — the choice among the values with one configuration.
* **`consume`**, **`clearEmptyValues`** — the pass on a table, and what it removes afterwards.
* **`isChosen`**, **`Undecided`**, **`ResourceTable.withValues`** — what the pass is for: the values
  that stay, when there is no choice, and a table without what holds no value.
* **`consume_selectsProducts`** — the pass fails exactly when there is no choice for a
  configuration, and else keeps exactly the chosen values. -/

namespace AndroidSdk.Aapt2

open AndroidSdk.Lib SplitSelect

variable {ι : Type}

/-- An error that `SelectProductToKeep` reports, with the note that follows it. -/
inductive ProductError where
  /-- "selection of product '…' for resource … is ambiguous", "product '…' is also a candidate" -/
  | ambiguous (product previous : Bytes) (name : ResourceName)
  /-- "multiple default products defined for resource …" -/
  | multipleDefaults (name : ResourceName)
  /-- "no default product defined for resource …" -/
  | noDefault (name : ResourceName)
  deriving DecidableEq

/-- `ProductFilter`. -/
structure ProductFilter where
  products : List Bytes
  removeDefaultConfigValues : Bool

/-- Whether two values have one configuration. -/
def sameConfig : ResourceConfigValue ι → ResourceConfigValue ι → Bool :=
  sameKey ResTableConfig.compare ResourceConfigValue.config

/-- The test for a default product. -/
def ResourceConfigValue.isDefault (v : ResourceConfigValue ι) : Bool :=
  v.product = [] ∨ v.product = bytes "default"

namespace ProductFilter

/-! ## The choice among the values with one configuration -/

/-- Whether the product of a value is requested. -/
def isRequested (filter : ProductFilter) (v : ResourceConfigValue ι) : Bool :=
  v.product ∈ filter.products

/-- Note a value that is looked for; a second one is an error. -/
def mark {α ε : Type} (hit : Bool) (error : α → ε) (v : α) (found : Option α) :
    Except ε (Option α) :=
  match hit, found with
  | false, found => .ok found
  | true, none => .ok (some v)
  | true, some previous => .error (error previous)

/-- A turn of the loop of `SelectProductToKeep`, with the default and the selected value so far. -/
def scan (filter : ProductFilter) (name : ResourceName)
    (found : Option (ResourceConfigValue ι) × Option (ResourceConfigValue ι))
    (v : ResourceConfigValue ι) :
    Except ProductError (Option (ResourceConfigValue ι) × Option (ResourceConfigValue ι)) := do
  let selected ← mark (filter.isRequested v)
    (fun previous => .ambiguous v.product previous.product name) v found.2
  let default ← mark v.isDefault (fun _ => .multipleDefaults name) v found.1
  return (default, selected)

/-- `SelectProductToKeep`. -/
def selectProductToKeep (filter : ProductFilter) (name : ResourceName)
    (range : List (ResourceConfigValue ι)) :
    Except ProductError (Option (ResourceConfigValue ι)) := do
  let (default, selected) ← range.foldlM (filter.scan name) (none, none)
  if filter.removeDefaultConfigValues then return selected
  match default with
  | none => throw (.noDefault name)
  | some default => return some (selected.getD default)

/-! ## The pass -/

/-- What is put into the new array for a selected value: with the option, a new value under the
empty product. -/
def moved (filter : ProductFilter) (v : ResourceConfigValue ι) : ResourceConfigValue ι :=
  if filter.removeDefaultConfigValues then
    { (ResourceConfigValue.new v.config [] : ResourceConfigValue ι) with value := v.value }
  else v

/-- The end of a range of values with one configuration. The value that is moved out lies in the
range, which is not read again. -/
def consumeRange (filter : ProductFilter) (name : ResourceName)
    (state : Report ProductError × List (ResourceConfigValue ι))
    (range : List (ResourceConfigValue ι)) :
    Report ProductError × List (ResourceConfigValue ι) :=
  match filter.selectProductToKeep name range with
  | .error e => (state.1.andThen ⟨[e], true⟩, state.2)
  | .ok none => state
  | .ok (some val) => (state.1, state.2 ++ [filter.moved val])

/-- `Consume`, on an entry. -/
def consumeEntry (filter : ProductFilter) (package : Bytes) (type : ResourceNamedType)
    (report : Report ProductError) (entry : ResourceEntry ι) :
    Report ProductError × ResourceEntry ι :=
  let r := rangesLoop sameConfig (filter.consumeRange ⟨package, type, entry.name⟩) (report, []) []
    entry.values
  (r.1, { entry with values := r.2 })

/-- `Consume`, on a type. -/
def consumeType (filter : ProductFilter) (package : Bytes) (report : Report ProductError)
    (type : ResourceTableType ι) : Report ProductError × ResourceTableType ι :=
  let r := mapAccum (filter.consumeEntry package type.namedType) report type.entries
  (r.1, { type with entries := r.2 })

/-- `Consume`, on a package. -/
def consumePackage (filter : ProductFilter) (report : Report ProductError)
    (package : ResourceTablePackage ι) : Report ProductError × ResourceTablePackage ι :=
  let r := mapAccum (filter.consumeType package.name) report package.types
  (r.1, { package with types := r.2 })

/-- `ClearEmptyValues`. -/
def clearEmptyValues (table : ResourceTable ι) : ResourceTable ι :=
  let packages := table.packages.map fun package =>
    let types := package.types.map fun type =>
      { type with entries := type.entries.filter fun entry => !entry.values.isEmpty }
    { package with types := types.filter fun type => !type.entries.isEmpty }
  { table with packages := packages.filter fun package => !package.types.isEmpty }

/-- `Consume`. It returns true unless an error was reported. -/
def consume (filter : ProductFilter) (table : ResourceTable ι) :
    Report ProductError × ResourceTable ι :=
  let r := mapAccum filter.consumePackage .clean table.packages
  let table := { table with packages := r.2 }
  (r.1, if filter.removeDefaultConfigValues then clearEmptyValues table else table)

/-! ## The choice -/

variable {filter : ProductFilter}

/-- Whether a value stays among the values with its configuration: its product is requested, or it
is the default one and no product is requested. -/
def isChosenIn (filter : ProductFilter) (range : List (ResourceConfigValue ι))
    (v : ResourceConfigValue ι) : Bool :=
  filter.isRequested v || v.isDefault && !range.any filter.isRequested

/-- There is no choice among the values with one configuration: two of them are requested, two are
the default one, or none is and one is needed. -/
def Undecided (filter : ProductFilter) (range : List (ResourceConfigValue ι)) : Prop :=
  2 ≤ (range.filter filter.isRequested).length ∨
    2 ≤ (range.filter ResourceConfigValue.isDefault).length ∨
    filter.removeDefaultConfigValues = false ∧ range.filter ResourceConfigValue.isDefault = []

/-- What stays of the values with one configuration. -/
def keptIn (filter : ProductFilter) (range : List (ResourceConfigValue ι)) :
    List (ResourceConfigValue ι) :=
  if filter.removeDefaultConfigValues then (range.filter filter.isRequested).map filter.moved
  else range.filter (filter.isChosenIn range)

/-- A loop that marks at most one value finds it, unless there are two. -/
theorem mark_eq_ok_iff {α ε : Type} {p : α → Bool} (error : α → ε) {v : α}
    {found found' : Option α} {l : List α} :
    (∃ next, mark (p v) error v found = .ok next ∧ next.toList ++ l.filter p = found'.toList) ↔
      found.toList ++ (v :: l).filter p = found'.toList := by
  rw [List.filter_cons]
  cases p v with
  | false => simp [mark]
  | true =>
      cases found with
      | none => simp [mark]
      | some w => cases found' <;> simp [mark]

/-- The loop over a range succeeds with the only default and the only requested value. -/
theorem foldlM_scan_eq_ok_iff {name : ResourceName} {range : List (ResourceConfigValue ι)}
    {found found' : Option (ResourceConfigValue ι) × Option (ResourceConfigValue ι)} :
    range.foldlM (filter.scan name) found = .ok found' ↔
      found.1.toList ++ range.filter ResourceConfigValue.isDefault = found'.1.toList ∧
        found.2.toList ++ range.filter filter.isRequested = found'.2.toList := by
  induction range generalizing found with
  | nil =>
      obtain ⟨d, s⟩ := found
      obtain ⟨d', s'⟩ := found'
      cases d <;> cases d' <;> cases s <;> cases s' <;> simp [pure, Except.pure]
  | cons v range ih =>
      rw [List.foldlM_cons, bind_eq_ok_iff,
        ← mark_eq_ok_iff fun _ => ProductError.multipleDefaults name,
        ← mark_eq_ok_iff fun previous : ResourceConfigValue ι =>
          ProductError.ambiguous v.product previous.product name]
      constructor
      · rintro ⟨next, hnext, hrest⟩
        obtain ⟨selected, hselected, hnext⟩ := bind_eq_ok_iff.mp hnext
        obtain ⟨default, hdefault, hnext⟩ := bind_eq_ok_iff.mp hnext
        cases hnext
        obtain ⟨hrest, hrest'⟩ := ih.mp hrest
        exact ⟨⟨default, hdefault, hrest⟩, ⟨selected, hselected, hrest'⟩⟩
      · rintro ⟨⟨default, hdefault, hrest⟩, ⟨selected, hselected, hrest'⟩⟩
        refine ⟨(default, selected), ?_, ih.mpr ⟨hrest, hrest'⟩⟩
        rw [scan, hselected, bind_ok, hdefault]
        rfl

/-- A list with at most one item is that of an option. -/
theorem exists_toList_of_length_le {α : Type} {l : List α} (h : l.length ≤ 1) :
    ∃ o : Option α, l = o.toList := by
  match l with
  | [] => exact ⟨none, rfl⟩
  | [a] => exact ⟨some a, rfl⟩
  | _ :: _ :: _ => simp at h

/-- Without a choice an error is reported. -/
theorem selectProductToKeep_of_undecided {range : List (ResourceConfigValue ι)}
    (h : filter.Undecided range) (name : ResourceName) :
    ∃ e, filter.selectProductToKeep name range = .error e := by
  cases hfound : filter.selectProductToKeep name range with
  | error e => exact ⟨e, rfl⟩
  | ok selected =>
      exfalso
      obtain ⟨found, hscan, hrest⟩ := bind_eq_ok_iff.mp hfound
      obtain ⟨hdefault, hselected⟩ := foldlM_scan_eq_ok_iff.mp hscan
      obtain ⟨default, selected'⟩ := found
      rw [Option.toList_none, List.nil_append] at hdefault hselected
      have hlen : ∀ o : Option (ResourceConfigValue ι), o.toList.length ≤ 1 := by
        rintro (_ | _) <;> simp
      rcases h with h | h | ⟨hoption, h⟩
      · have := hlen selected'
        rw [← hselected] at this
        omega
      · have := hlen default
        rw [← hdefault] at this
        omega
      · cases default with
        | none =>
            simp only [hoption] at hrest
            cases hrest
        | some d =>
            rw [h] at hdefault
            cases hdefault

/-- **With a choice, a value is selected unless nothing stays.** -/
theorem selectProductToKeep_of_not_undecided {range : List (ResourceConfigValue ι)}
    (h : ¬ filter.Undecided range) (name : ResourceName) :
    ∃ selected : Option (ResourceConfigValue ι),
      filter.selectProductToKeep name range = .ok selected ∧
        filter.keptIn range = (selected.map filter.moved).toList ∧
        (filter.removeDefaultConfigValues = false → selected.isSome = true) := by
  simp only [Undecided, not_or, not_and] at h
  obtain ⟨hrequested, hdefaults, hneeded⟩ := h
  obtain ⟨default, hdefault⟩ : ∃ o : Option (ResourceConfigValue ι),
      range.filter ResourceConfigValue.isDefault = o.toList :=
    exists_toList_of_length_le (by omega)
  obtain ⟨selected, hselected⟩ : ∃ o : Option (ResourceConfigValue ι),
      range.filter filter.isRequested = o.toList := exists_toList_of_length_le (by omega)
  have hscan : range.foldlM (filter.scan name) (none, none) = .ok (default, selected) :=
    foldlM_scan_eq_ok_iff.mpr ⟨hdefault, hselected⟩
  rw [selectProductToKeep, hscan, bind_ok]
  cases hoption : filter.removeDefaultConfigValues with
  | true =>
      refine ⟨selected, by simp [pure, Except.pure], ?_, nofun⟩
      rw [keptIn, hoption, if_pos rfl, hselected]
      cases selected <;> rfl
  | false =>
      obtain ⟨d, rfl⟩ : ∃ d, default = some d := by
        cases default with
        | none => exact absurd hdefault (hneeded hoption)
        | some d => exact ⟨d, rfl⟩
      refine ⟨some (selected.getD d), by simp [pure, Except.pure], ?_, fun _ => rfl⟩
      have hmoved : filter.moved = (id : ResourceConfigValue ι → ResourceConfigValue ι) := by
        funext v
        simp [moved, hoption]
      rw [keptIn, hoption, if_neg Bool.false_ne_true, hmoved, Option.map_id]
      cases selected with
      | none =>
          -- nothing is requested, so the default one is chosen
          have hnone := List.filter_eq_nil_iff.mp hselected
          have hany : range.any filter.isRequested = false := by simpa using hnone
          rw [Option.getD_none, id, ← hdefault]
          refine List.filter_congr fun v hv => ?_
          rw [isChosenIn, hany, Bool.eq_false_iff.mpr (hnone v hv), Bool.false_or, Bool.not_false,
            Bool.and_true]
      | some w =>
          have hany : range.any filter.isRequested = true := by
            have hw : w ∈ range.filter filter.isRequested := by
              rw [hselected]
              exact List.mem_singleton_self w
            exact List.any_eq_true.mpr ⟨w, List.mem_filter.mp hw⟩
          rw [Option.getD_some, id, ← hselected]
          refine List.filter_congr fun v _ => ?_
          rw [isChosenIn, hany, Bool.not_true, Bool.and_false, Bool.or_false]

/-! ## The values of an entry -/

/-- Whether a value stays among the values of an entry. -/
def isChosen (filter : ProductFilter) (values : List (ResourceConfigValue ι))
    (v : ResourceConfigValue ι) : Bool := filter.isChosenIn (values.filter (sameConfig v)) v

/-- What stays of the values of an entry. -/
def kept (filter : ProductFilter) (values : List (ResourceConfigValue ι)) :
    List (ResourceConfigValue ι) :=
  if filter.removeDefaultConfigValues then (values.filter filter.isRequested).map filter.moved
  else values.filter (filter.isChosen values)

/-- There is a choice for the configuration of every value. -/
def Decided (filter : ProductFilter) (values : List (ResourceConfigValue ι)) : Prop :=
  ∀ v ∈ values, ¬ filter.Undecided (values.filter (sameConfig v))

section Values

variable {values : List (ResourceConfigValue ι)}

/-- What stays of an entry stays of its ranges. -/
theorem kept_eq_flatMap (h : SortedBy ResTableConfig.compare ResourceConfigValue.config values) :
    filter.kept values = (values.splitBy sameConfig).flatMap filter.keptIn := by
  have hpieces : ∀ p : ResourceConfigValue ι → Bool,
      values.filter p = (values.splitBy sameConfig).flatMap (List.filter p) := by
    intro p
    conv_lhs => rw [← List.flatten_splitBy sameConfig values]
    rw [List.filter_flatten, List.flatMap_def]
  cases hoption : filter.removeDefaultConfigValues with
  | true =>
      rw [kept, hoption, if_pos rfl, hpieces, List.map_flatMap, List.flatMap_def, List.flatMap_def]
      refine congrArg List.flatten (List.map_congr_left fun range _ => ?_)
      rw [keptIn, hoption, if_pos rfl]
  | false =>
      rw [kept, hoption, if_neg Bool.false_ne_true, hpieces, List.flatMap_def, List.flatMap_def]
      refine congrArg List.flatten (List.map_congr_left fun range hrange => ?_)
      rw [keptIn, hoption, if_neg Bool.false_ne_true]
      refine List.filter_congr fun v hv => ?_
      have hgroup : values.filter (sameConfig v) = range := filter_of_mem_splitBy h hrange hv
      rw [isChosen, hgroup]

/-- The ranges decide about the values. -/
theorem decided_iff (h : SortedBy ResTableConfig.compare ResourceConfigValue.config values) :
    filter.Decided values ↔ ∀ range ∈ values.splitBy sameConfig, ¬ filter.Undecided range := by
  constructor
  · intro hdecided range hrange
    obtain ⟨v, hv⟩ := List.exists_mem_of_ne_nil range (List.ne_nil_of_mem_splitBy hrange)
    have hgroup : values.filter (sameConfig v) = range := filter_of_mem_splitBy h hrange hv
    rw [← hgroup]
    refine hdecided v ?_
    rw [← List.flatten_splitBy sameConfig values]
    exact List.mem_flatten.mpr ⟨range, hrange, hv⟩
  · intro hranges v hv
    rw [← List.flatten_splitBy sameConfig values] at hv
    obtain ⟨range, hrange, hv⟩ := List.mem_flatten.mp hv
    have hgroup : values.filter (sameConfig v) = range := filter_of_mem_splitBy h hrange hv
    rw [hgroup]
    exact hranges range hrange

/-- The end of a range. -/
theorem consumeRange_spec (filter : ProductFilter) (name : ResourceName)
    (range : List (ResourceConfigValue ι))
    (state : Report ProductError × List (ResourceConfigValue ι)) :
    ((filter.consumeRange name state range).1.error = true ↔
      state.1.error = true ∨ filter.Undecided range) ∧
    (¬ filter.Undecided range →
      (filter.consumeRange name state range).2 = state.2 ++ filter.keptIn range) := by
  by_cases h : filter.Undecided range
  · obtain ⟨e, he⟩ := selectProductToKeep_of_undecided h name
    simp [consumeRange, he, h]
  · obtain ⟨selected, hselected, hkept, -⟩ := selectProductToKeep_of_not_undecided h name
    cases selected <;> simp [consumeRange, hselected, h, hkept]

/-- The loop over the ranges. -/
theorem foldl_consumeRange (filter : ProductFilter) (name : ResourceName)
    (ranges : List (List (ResourceConfigValue ι)))
    (state : Report ProductError × List (ResourceConfigValue ι)) :
    ((ranges.foldl (filter.consumeRange name) state).1.error = true ↔
      state.1.error = true ∨ ∃ range ∈ ranges, filter.Undecided range) ∧
    ((∀ range ∈ ranges, ¬ filter.Undecided range) →
      (ranges.foldl (filter.consumeRange name) state).2
        = state.2 ++ ranges.flatMap filter.keptIn) := by
  induction ranges generalizing state with
  | nil => simp
  | cons range ranges ih =>
      obtain ⟨herror, hkept⟩ := consumeRange_spec filter name range state
      obtain ⟨herrors, hrest⟩ := ih (filter.consumeRange name state range)
      rw [List.foldl_cons, List.exists_mem_cons_iff, List.forall_mem_cons]
      constructor
      · rw [herrors, herror, or_assoc]
      · rintro ⟨hrange, hranges⟩
        rw [hrest hranges, hkept hrange, List.flatMap_cons, List.append_assoc]

/-- **The pass on an entry.** -/
theorem consumeEntry_spec (filter : ProductFilter) (package : Bytes) (type : ResourceNamedType)
    (report : Report ProductError) {entry : ResourceEntry ι}
    (h : SortedBy ResTableConfig.compare ResourceConfigValue.config entry.values) :
    ((filter.consumeEntry package type report entry).1.error = true ↔
      report.error = true ∨ ¬ filter.Decided entry.values) ∧
    (filter.Decided entry.values → (filter.consumeEntry package type report entry).2
      = { entry with values := filter.kept entry.values }) := by
  have hloop : rangesLoop sameConfig (filter.consumeRange ⟨package, type, entry.name⟩) (report, [])
      [] entry.values = (entry.values.splitBy sameConfig).foldl
        (filter.consumeRange ⟨package, type, entry.name⟩) (report, []) :=
    rangesLoop_eq (sameKey_equivalence _ _) (report, []) entry.values
  have hspec := foldl_consumeRange filter ⟨package, type, entry.name⟩
    (entry.values.splitBy sameConfig) (report, [])
  simp only [consumeEntry]
  rw [hloop, decided_iff h, kept_eq_flatMap h]
  constructor
  · rw [hspec.1]
    simp
  · intro hdecided
    rw [hspec.2 hdecided, List.nil_append]

end Values

/-! ## One value for each configuration -/

section Single

variable {values : List (ResourceConfigValue ι)}

/-- The values with the configuration of a value are those of every one of them. -/
theorem filter_sameConfig_congr {v w : ResourceConfigValue ι}
    (hw : w ∈ values.filter (sameConfig v)) :
    values.filter (sameConfig w) = values.filter (sameConfig v) := by
  have hsame := sameKey_equivalence ResTableConfig.compare
    (ResourceConfigValue.config (ι := ι))
  have hvw := (List.mem_filter.mp hw).2
  refine List.filter_congr fun u _ => Bool.eq_iff_iff.mpr ⟨?_, ?_⟩
  · exact fun h => hsame.trans hvw h
  · exact fun h => hsame.trans (hsame.symm hvw) h

/-- Without the option, exactly one value of each configuration is chosen. -/
theorem exists_filter_isChosen (hoption : filter.removeDefaultConfigValues = false)
    {v : ResourceConfigValue ι} (h : ¬ filter.Undecided (values.filter (sameConfig v))) :
    ∃ w, (values.filter (filter.isChosen values)).filter (sameConfig v) = [w] ∧
      (filter.isRequested w = true ∨ w.isDefault = true ∧
        ∀ u ∈ values, sameConfig v u = true → filter.isRequested u = false) := by
  obtain ⟨selected, -, hkept, hsome⟩ :=
    selectProductToKeep_of_not_undecided h ⟨[], ⟨[], .kId⟩, []⟩
  obtain ⟨w, rfl⟩ := Option.isSome_iff_exists.mp (hsome hoption)
  have hchosen : (values.filter (filter.isChosen values)).filter (sameConfig v)
      = (values.filter (sameConfig v)).filter
          (filter.isChosenIn (values.filter (sameConfig v))) := by
    rw [List.filter_comm]
    refine List.filter_congr fun u hu => ?_
    rw [isChosen, filter_sameConfig_congr hu]
  have hmoved : filter.moved w = w := by simp [moved, hoption]
  rw [keptIn, hoption, if_neg Bool.false_ne_true, ← hchosen, Option.map_some, hmoved,
    Option.toList_some] at hkept
  refine ⟨w, hkept, ?_⟩
  have hw : w ∈ (values.filter (sameConfig v)).filter
      (filter.isChosenIn (values.filter (sameConfig v))) := by
    rw [← hchosen, hkept]
    exact List.mem_singleton_self w
  have hin := (List.mem_filter.mp hw).2
  rw [isChosenIn, Bool.or_eq_true, Bool.and_eq_true, Bool.not_eq_true', List.any_eq_false] at hin
  refine hin.imp_right fun hdefault => ⟨hdefault.1, fun u hu huv => ?_⟩
  exact Bool.eq_false_iff.mpr (hdefault.2 u (List.mem_filter.mpr ⟨hu, huv⟩))

/-- A requested value is the only one of its configuration. -/
theorem filter_isRequested_eq {v : ResourceConfigValue ι} (hv : v ∈ values)
    (hrequested : filter.isRequested v = true)
    (h : ¬ filter.Undecided (values.filter (sameConfig v))) :
    (values.filter filter.isRequested).filter (sameConfig v) = [v] := by
  rw [List.filter_comm]
  have hmem : v ∈ (values.filter (sameConfig v)).filter filter.isRequested :=
    List.mem_filter.mpr ⟨List.mem_filter.mpr ⟨hv, (sameKey_equivalence _ _).refl v⟩, hrequested⟩
  have hlen : ((values.filter (sameConfig v)).filter filter.isRequested).length ≤ 1 := by
    by_contra hlong
    exact h (.inl (by omega))
  obtain ⟨o, ho⟩ := exists_toList_of_length_le hlen
  rw [ho] at hmem ⊢
  cases o with
  | none => cases hmem
  | some w =>
      obtain rfl := List.mem_singleton.mp hmem
      rfl

end Single

/-! ## The whole table -/

/-- The errors of a loop are those of its turns. -/
theorem error_mapAccum_iff {α β ε : Type} {f : Report ε → α → Report ε × β} {C : α → Prop}
    {l : List α} (h : ∀ report, ∀ a ∈ l, (f report a).1.error = true ↔ report.error = true ∨ C a)
    (report : Report ε) :
    (mapAccum f report l).1.error = true ↔ report.error = true ∨ ∃ a ∈ l, C a := by
  induction l generalizing report with
  | nil => simp [mapAccum]
  | cons a l ih =>
      rw [mapAccum, ih (fun report b hb => h report b (List.mem_cons_of_mem a hb)),
        h report a List.mem_cons_self, List.exists_mem_cons_iff, or_assoc]

/-- Values sorted by configuration and product are sorted by configuration. -/
theorem sortedBy_config {values : List (ResourceConfigValue ι)}
    (h : SortedBy ConfigKey.compare ResourceConfigValue.key values) :
    SortedBy ResTableConfig.compare ResourceConfigValue.config values := by
  refine h.imp fun {v w} hle => ?_
  rw [ConfigKey.compare, compareLex] at hle
  show (v.config.compare w.config).isLE = true
  cases hcmp : v.config.compare w.config with
  | lt => rfl
  | eq => rfl
  | gt =>
      have hthen : (Ordering.gt.then (compareOn ConfigKey.product v.key w.key)).isLE = true := by
        rw [← hcmp]
        exact hle
      cases hthen

/-- What an entry becomes. -/
def filtered (filter : ProductFilter) (entry : ResourceEntry ι) : ResourceEntry ι :=
  { entry with values := filter.kept entry.values }

section Table

/-- The pass on a type. -/
theorem consumeType_spec (filter : ProductFilter) (package : Bytes) (report : Report ProductError)
    {type : ResourceTableType ι} (h : ∀ entry ∈ type.entries,
      SortedBy ResTableConfig.compare ResourceConfigValue.config entry.values) :
    ((filter.consumeType package report type).1.error = true ↔
      report.error = true ∨ ∃ entry ∈ type.entries, ¬ filter.Decided entry.values) ∧
    ((∀ entry ∈ type.entries, filter.Decided entry.values) →
      (filter.consumeType package report type).2
        = { type with entries := type.entries.map filter.filtered }) := by
  have hspec := fun report entry hentry =>
    consumeEntry_spec filter package type.namedType report (h entry hentry)
  constructor
  · exact error_mapAccum_iff (fun report entry hentry => (hspec report entry hentry).1) report
  · intro hdecided
    rw [consumeType, mapAccum_snd report fun report entry hentry =>
      (hspec report entry hentry).2 (hdecided entry hentry)]
    rfl

/-- The pass on a package. -/
theorem consumePackage_spec (filter : ProductFilter) (report : Report ProductError)
    {package : ResourceTablePackage ι} (h : ∀ type ∈ package.types, ∀ entry ∈ type.entries,
      SortedBy ResTableConfig.compare ResourceConfigValue.config entry.values) :
    ((filter.consumePackage report package).1.error = true ↔ report.error = true ∨
      ∃ type ∈ package.types, ∃ entry ∈ type.entries, ¬ filter.Decided entry.values) ∧
    ((∀ type ∈ package.types, ∀ entry ∈ type.entries, filter.Decided entry.values) →
      (filter.consumePackage report package).2 = { package with
        types := package.types.map fun type =>
          { type with entries := type.entries.map filter.filtered } }) := by
  have hspec := fun report type htype =>
    consumeType_spec filter package.name report (h type htype)
  constructor
  · exact error_mapAccum_iff (fun report type htype => (hspec report type htype).1) report
  · intro hdecided
    rw [consumePackage, mapAccum_snd report fun report type htype =>
      (hspec report type htype).2 (hdecided type htype)]

/-- A property of some entry, by package, type and entry. -/
theorem exists_namedEntries_iff (table : ResourceTable ι) {C : ResourceEntry ι → Prop} :
    (∃ e ∈ table.namedEntries, C e.2) ↔
      ∃ package ∈ table.packages, ∃ type ∈ package.types, ∃ entry ∈ type.entries, C entry := by
  constructor
  · rintro ⟨e, he, hC⟩
    obtain ⟨package, hpackage, type, htype, hentry, -⟩ := mem_namedEntries_iff.mp he
    exact ⟨package, hpackage, type, htype, e.2, hentry, hC⟩
  · rintro ⟨package, hpackage, type, htype, entry, hentry, hC⟩
    exact ⟨(⟨package.name, type.namedType, entry.name⟩, entry),
      mem_namedEntries_iff.mpr ⟨package, hpackage, type, htype, hentry, rfl⟩, hC⟩

/-- A property of all entries, by package, type and entry. -/
theorem forall_namedEntries_iff (table : ResourceTable ι) {C : ResourceEntry ι → Prop} :
    (∀ e ∈ table.namedEntries, C e.2) ↔
      ∀ package ∈ table.packages, ∀ type ∈ package.types, ∀ entry ∈ type.entries, C entry := by
  have h := exists_namedEntries_iff table (C := fun entry => ¬ C entry)
  rw [← not_iff_not]
  push Not
  exact h

/-- **The loops over a table.** -/
theorem consume_loops (filter : ProductFilter) {table : ResourceTable ι}
    (h : ∀ e ∈ table.namedEntries,
      SortedBy ResTableConfig.compare ResourceConfigValue.config e.2.values) :
    ((filter.consume table).1.error = true ↔
      ∃ e ∈ table.namedEntries, ¬ filter.Decided e.2.values) ∧
    ((∀ e ∈ table.namedEntries, filter.Decided e.2.values) → (filter.consume table).2
      = if filter.removeDefaultConfigValues then clearEmptyValues (table.mapEntries filter.filtered)
        else table.mapEntries filter.filtered) := by
  rw [forall_namedEntries_iff table (C := fun entry =>
    SortedBy ResTableConfig.compare ResourceConfigValue.config entry.values)] at h
  rw [exists_namedEntries_iff table (C := fun entry => ¬ filter.Decided entry.values),
    forall_namedEntries_iff table (C := fun entry => filter.Decided entry.values)]
  have hspec := fun report package hpackage =>
    consumePackage_spec filter report (h package hpackage)
  constructor
  · have herror := error_mapAccum_iff
      (fun report package hpackage => (hspec report package hpackage).1) .clean
    rw [Report.error_clean] at herror
    rw [consume, herror]
    simp
  · intro hdecided
    rw [consume, mapAccum_snd .clean fun report package hpackage =>
      (hspec report package hpackage).2 (hdecided package hpackage)]
    rfl

end Table

/-! ## What holds no value -/

/-- A type holds a value. -/
def hasValues (type : ResourceTableType ι) : Bool :=
  type.entries.any fun entry => !entry.values.isEmpty

/-- A package holds a value. -/
def packageHasValues (package : ResourceTablePackage ι) : Bool := package.types.any hasValues

/-- A table without the packages, the types and the entries that hold no value. -/
def withValues (table : ResourceTable ι) : ResourceTable ι :=
  { table with packages := (table.packages.filter packageHasValues).map fun package =>
      { package with types := (package.types.filter hasValues).map fun type =>
          { type with entries := type.entries.filter fun entry => !entry.values.isEmpty } } }

/-- A filtered list is empty if no item passes. -/
theorem isEmpty_filter {α : Type} (p : α → Bool) (l : List α) :
    (!(l.filter p).isEmpty) = l.any p := by
  induction l with
  | nil => rfl
  | cons a l ih =>
      rw [List.filter_cons, List.any_cons]
      cases p a with
      | false => simpa using ih
      | true => rfl

/-- **The cascade removes what holds no value**, on every level. -/
theorem clearEmptyValues_eq (table : ResourceTable ι) :
    clearEmptyValues table = withValues table := by
  have htypes : ∀ types : List (ResourceTableType ι),
      (types.map fun type =>
        { type with entries := type.entries.filter fun entry => !entry.values.isEmpty }).filter
          (fun type => !type.entries.isEmpty)
        = (types.filter hasValues).map fun type =>
            { type with entries := type.entries.filter fun entry => !entry.values.isEmpty } := by
    intro types
    rw [List.filter_map]
    congr 2
    funext type
    exact isEmpty_filter _ _
  rw [clearEmptyValues, withValues]
  simp only [htypes]
  rw [List.filter_map]
  congr 3
  funext package
  show (!((package.types.filter hasValues).map _).isEmpty) = package.types.any hasValues
  rw [List.isEmpty_map, isEmpty_filter]

/-! ## The pass on every table -/

/-- **Filtering by product.** For every table whose entries keep their values sorted by
configuration and product, the pass fails exactly if there is no choice for the configuration of
some value. If it does not, then

* without the option every entry has exactly one value for each configuration that it had: that of a
  requested product, or else the default one;
* with the option it has the values of requested products under the empty product, one for each
  configuration, and the entries, types and packages that hold no value are removed. -/
theorem consume_selectsProducts (filter : ProductFilter) (table : ResourceTable ι)
    (hsorted : ∀ e ∈ table.namedEntries,
      SortedBy ConfigKey.compare ResourceConfigValue.key e.2.values) :
    ((filter.consume table).1.error = true ↔ ∃ e ∈ table.namedEntries, ∃ v ∈ e.2.values,
      filter.Undecided (e.2.values.filter (sameConfig v))) ∧
    ((filter.consume table).1.error = false → filter.removeDefaultConfigValues = false →
      (filter.consume table).2 = table.mapEntries (fun entry =>
        { entry with values := entry.values.filter (filter.isChosen entry.values) }) ∧
      ∀ e ∈ table.namedEntries, ∀ v ∈ e.2.values, ∃ w,
        (e.2.values.filter (filter.isChosen e.2.values)).filter (sameConfig v) = [w] ∧
        (filter.isRequested w = true ∨ w.isDefault = true ∧
          ∀ u ∈ e.2.values, sameConfig v u = true → filter.isRequested u = false)) ∧
    ((filter.consume table).1.error = false → filter.removeDefaultConfigValues = true →
      (filter.consume table).2 = withValues (table.mapEntries fun entry =>
        { entry with values := (entry.values.filter filter.isRequested).map fun v =>
            ⟨v.config, [], v.value, false⟩ }) ∧
      ∀ e ∈ table.namedEntries, ∀ v ∈ e.2.values, filter.isRequested v = true →
        (e.2.values.filter filter.isRequested).filter (sameConfig v) = [v]) := by
  obtain ⟨herror, htable⟩ := consume_loops filter
    fun e he => sortedBy_config (hsorted e he)
  -- no error means that the filter has decided on every group of values
  have hdecided : (filter.consume table).1.error = false →
      ∀ e ∈ table.namedEntries, filter.Decided e.2.values := by
    intro hfalse e he
    by_contra hnot
    rw [herror.mpr ⟨e, he, hnot⟩] at hfalse
    cases hfalse
  refine ⟨?_, ?_, ?_⟩
  · rw [herror]
    simp only [Decided, not_forall, not_not, exists_prop]
  -- without the option the chosen values stay
  · intro hfalse hoption
    refine ⟨?_, fun e he v hv => exists_filter_isChosen hoption (hdecided hfalse e he v hv)⟩
    rw [htable (hdecided hfalse), hoption, if_neg Bool.false_ne_true]
    have hfiltered : (filter.filtered : ResourceEntry ι → ResourceEntry ι) = fun entry =>
        { entry with values := entry.values.filter (filter.isChosen entry.values) } := by
      funext entry
      rw [filtered, kept, hoption, if_neg Bool.false_ne_true]
    rw [hfiltered]
  -- with it the requested ones stay, under the configuration alone
  · intro hfalse hoption
    refine ⟨?_, fun e he v hv hrequested =>
      filter_isRequested_eq hv hrequested (hdecided hfalse e he v hv)⟩
    rw [htable (hdecided hfalse), hoption, if_pos rfl, clearEmptyValues_eq]
    have hfiltered : (filter.filtered : ResourceEntry ι → ResourceEntry ι) = fun entry =>
        { entry with values := (entry.values.filter filter.isRequested).map fun v =>
            ⟨v.config, [], v.value, false⟩ } := by
      funext entry
      rw [filtered, kept, hoption, if_pos rfl]
      congr 2
      funext v
      rw [moved, hoption, if_pos rfl]
      rfl
    rw [hfiltered]

/-! ## Samples -/

/-- A value of a product. -/
def productValue (product : String) : ResourceConfigValue Unit :=
  ⟨.defaultConfig, bytes product, none, false⟩

/-- A table with one string. -/
def stringTable (values flagDisabledValues : List (ResourceConfigValue Unit)) :
    ResourceTable Unit :=
  ⟨[⟨bytes "app", [⟨⟨bytes "string", .kString⟩, .kUndefined,
    [⟨bytes "title", none, .default, none, none, none, values, flagDisabledValues⟩]⟩]⟩]⟩

/-- A table with a default value and one for tablets. -/
def tabletTable : ResourceTable Unit :=
  stringTable [productValue "default", productValue "tablet"] []

/-- Of these two the requested one stays. -/
theorem consume_selectsProducts_tablet :
    ((ProductFilter.mk [bytes "tablet"] false).consume tabletTable).2
      = tabletTable.mapEntries fun entry => { entry with
          values := entry.values.filter <|
            (ProductFilter.mk [bytes "tablet"] false).isChosen entry.values } := by
  have hsorted : ∀ e ∈ tabletTable.namedEntries,
      SortedBy ConfigKey.compare ResourceConfigValue.key e.2.values := by
    intro e he
    obtain rfl := List.mem_singleton.mp he
    exact List.pairwise_pair.mpr rfl
  have hspec := consume_selectsProducts (ProductFilter.mk [bytes "tablet"] false) _ hsorted
  exact (hspec.2.1 rfl rfl).1

/-- With the option, a string that has no value but one behind a disabled flag is removed, with its
type and its package, although the filter takes nothing from it. -/
theorem not_onlyEmptied_flagged :
    (stringTable [] [productValue "tablet"]).mapEntries
        (ProductFilter.mk [bytes "tablet"] true).filtered = stringTable [] [productValue "tablet"] ∧
      (∀ e ∈ (stringTable [] [productValue "tablet"]).namedEntries, e.2.flagDisabledValues ≠ []) ∧
      ((ProductFilter.mk [bytes "tablet"] true).consume
        (stringTable [] [productValue "tablet"])).1.error = false ∧
      ((ProductFilter.mk [bytes "tablet"] true).consume
        (stringTable [] [productValue "tablet"])).2.packages = [] := by
  refine ⟨rfl, ?_, rfl, rfl⟩
  intro e he
  obtain rfl := List.mem_singleton.mp he
  exact List.cons_ne_nil _ _

end ProductFilter

end AndroidSdk.Aapt2
