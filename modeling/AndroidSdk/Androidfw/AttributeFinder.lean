import AndroidSdk.Lib.Dict
import Mathlib.Data.List.Chain
import Mathlib.Data.List.Infix
import Mathlib.Order.Nat

/-! # Looking attributes up in the order of the document

`BackTrackingAttributeFinder` (`AttributeFinder.h`), with which attribute resolution looks the
attributes of a request up among those of an element or of a style. It remembers how far it has come
and where each package began, and goes back only when a request changes to another package.

* **`find`** — a lookup: an initialisation, a jump to another package, and a walk.
* **`Grouped`** — what the finder assumes of the attributes: those of a package stand together, in
  increasing order.
* **`Located`** — the invariant of the finder; **`Fresh`** — what it has passed of a package.
* **`run_eq_map_idxOf`** — over any run of lookups that increase within a package, the finder
  answers as a search from the beginning does. -/

namespace AndroidSdk.Androidfw

open Lib

/-- `get_package`. -/
def getPackage (attr : UInt32) : UInt32 := attr >>> 24

/-- `BackTrackingAttributeFinder`. Iterators are places, and the end is the number of attributes. -/
structure AttributeFinder where
  firstTime : Bool
  current : ℕ
  largest : ℕ
  lastPackageId : UInt32
  currentAttr : UInt32
  frameworkStart : ℕ
  appStart : ℕ
  packageOffsets : Dict UInt32 ℕ

namespace AttributeFinder

variable (attrs : List UInt32)

/-! ## The finder -/

/-- `GetAttribute`, which is only called in front of the end. -/
def getAttribute (it : ℕ) : UInt32 := attrs.getD it 0

/-- The constructor of `BackTrackingAttributeFinder`. -/
def create : AttributeFinder where
  firstTime := true
  current := 0
  largest := 0
  lastPackageId := 0
  currentAttr := 0
  frameworkStart := attrs.length
  appStart := attrs.length
  packageOffsets := ∅

/-- Where a package began, or the end if it has not been seen. -/
def packageStart (f : AttributeFinder) (packageId : UInt32) : ℕ :=
  if packageId = 0x01 then f.frameworkStart
  else if packageId = 0x7f then f.appStart
  else (f.packageOffsets.lookup packageId).getD attrs.length

/-- `JumpToClosestAttribute`. -/
def jumpToClosestAttribute (packageId : UInt32) (f : AttributeFinder) : AttributeFinder :=
  let start := packageStart attrs f packageId
  -- a package that has never been seen can only come after all that has
  let current := if start = attrs.length then f.largest else start
  { f with
    current
    currentAttr := if current ≠ attrs.length then getAttribute attrs current else f.currentAttr }

/-- `MarkCurrentPackageId`. -/
def markCurrentPackageId (packageId : UInt32) (f : AttributeFinder) : AttributeFinder :=
  if packageId = 0x01 then { f with frameworkStart := f.current }
  else if packageId = 0x7f then { f with appStart := f.current }
  else { f with packageOffsets := f.packageOffsets.insert packageId f.current }

/-- The initialisation at the first lookup. -/
def initOnce (f : AttributeFinder) : AttributeFinder :=
  if f.firstTime then
    let first := getAttribute attrs 0
    markCurrentPackageId (getPackage first)
      { f with firstTime := false, currentAttr := first, lastPackageId := getPackage first }
  else f

/-- The step to the next attribute, with the marks that it makes. -/
def advance (f : AttributeFinder) : AttributeFinder :=
  let next := f.current + 1
  let moved :=
    if next ≠ attrs.length then
      let attr := getAttribute attrs next
      let there := { f with current := next, currentAttr := attr }
      if getPackage f.currentAttr ≠ getPackage attr then
        markCurrentPackageId (getPackage attr) there
      else there
    else { f with current := next }
  { moved with largest := max f.largest next }

@[simp]
theorem current_markCurrentPackageId (packageId : UInt32) (f : AttributeFinder) :
    (markCurrentPackageId packageId f).current = f.current := by
  simp only [markCurrentPackageId]
  split_ifs <;> rfl

@[simp]
theorem current_advance (f : AttributeFinder) : (advance attrs f).current = f.current + 1 := by
  simp only [advance]
  split_ifs <;> simp

/-- The walk of `Find`. An iterator never comes past the end (`Located.current_le`), so that not
being there is being in front of it. -/
def walk (attr : UInt32) (f : AttributeFinder) : ℕ × AttributeFinder :=
  if _h : f.current < attrs.length then
    if getPackage attr = getPackage f.currentAttr ∧ attr < f.currentAttr then (attrs.length, f)
    else
      let next := advance attrs f
      if attr = f.currentAttr then (next.current - 1, next) else walk attr next
  else (attrs.length, f)
termination_by attrs.length - f.current
decreasing_by
  rw [current_advance]
  omega

/-- `Find`: the place of the attribute, or the end. -/
def find (attr : UInt32) (f : AttributeFinder) : ℕ × AttributeFinder :=
  if attrs.length = 0 then (attrs.length, f)
  else
    let f := initOnce attrs f
    if f.lastPackageId ≠ getPackage attr then
      walk attrs attr
        { jumpToClosestAttribute attrs (getPackage attr) f with lastPackageId := getPackage attr }
    else walk attrs attr f

/-- A run of lookups. -/
def run (f : AttributeFinder) : List UInt32 → List ℕ
  | [] => []
  | attr :: needles =>
      let r := find attrs attr f
      r.1 :: run r.2 needles

/-! ## The attributes -/

/-- **What the finder assumes of the attributes**: those of a package stand together, in increasing
order. The packages are in any order. -/
structure Grouped : Prop where
  together : ∀ i j k, i ≤ j → j ≤ k → k < attrs.length →
    getPackage (getAttribute attrs i) = getPackage (getAttribute attrs k) →
    getPackage (getAttribute attrs j) = getPackage (getAttribute attrs k)
  increasing : ∀ i j, i < j → j < attrs.length →
    getPackage (getAttribute attrs i) = getPackage (getAttribute attrs j) →
    getAttribute attrs i ≤ getAttribute attrs j

/-- Where a package begins, or the end. -/
def firstOf (packageId : UInt32) : ℕ := attrs.findIdx fun a => getPackage a = packageId

variable {attrs}

/-- An attribute in front of the end. -/
theorem getAttribute_of_lt {i : ℕ} (h : i < attrs.length) : getAttribute attrs i = attrs[i] := by
  rw [getAttribute, List.getD_eq_getElem?_getD, List.getElem?_eq_getElem h, Option.getD_some]

/-- A package begins at its first attribute. -/
theorem firstOf_le {i : ℕ} (h : i < attrs.length) :
    firstOf attrs (getPackage (getAttribute attrs i)) ≤ i := by
  rw [getAttribute_of_lt h]
  refine Nat.le_of_not_lt fun hlt => ?_
  exact Bool.false_ne_true ((List.not_of_lt_findIdx hlt).symm.trans (decide_eq_true rfl))

/-- What stands where a package begins. -/
theorem getPackage_firstOf {packageId : UInt32} (h : firstOf attrs packageId < attrs.length) :
    getPackage (getAttribute attrs (firstOf attrs packageId)) = packageId := by
  rw [getAttribute_of_lt h]
  exact of_decide_eq_true (List.findIdx_getElem (w := h))

/-- A package that begins nowhere begins at the end. -/
theorem firstOf_le_length (packageId : UInt32) : firstOf attrs packageId ≤ attrs.length :=
  List.findIdx_le_length

/-- The place of an attribute, found by its first occurrence. -/
theorem idxOf_eq {attr : UInt32} {i : ℕ} (hi : i < attrs.length)
    (hattr : getAttribute attrs i = attr)
    (hbefore : ∀ j < i, getAttribute attrs j ≠ attr) : attrs.idxOf attr = i := by
  rw [List.idxOf, List.findIdx_eq hi]
  constructor
  · rw [getAttribute_of_lt hi] at hattr
    simp [hattr]
  · intro j hj
    have hne := hbefore j hj
    rw [getAttribute_of_lt (hj.trans hi)] at hne
    simpa using hne

/-- The place of an attribute that does not occur. -/
theorem idxOf_eq_length {attr : UInt32} (h : ∀ i < attrs.length, getAttribute attrs i ≠ attr) :
    attrs.idxOf attr = attrs.length := by
  refine List.idxOf_eq_length_iff.mpr fun hmem => ?_
  obtain ⟨i, hi, hattr⟩ := List.getElem_of_mem hmem
  exact h i hi ((getAttribute_of_lt hi).trans hattr)

/-! ## The invariant -/

variable (attrs) in
/-- **The invariant of the finder**: it knows where the packages begin that it has come to, and no
others. -/
structure Located (f : AttributeFinder) : Prop where
  current_le : f.current ≤ f.largest
  largest_le : f.largest ≤ attrs.length
  currentAttr_eq : f.current < attrs.length → f.currentAttr = getAttribute attrs f.current
  packageStart_eq : ∀ packageId, packageStart attrs f packageId
    = if firstOf attrs packageId ≤ f.largest then firstOf attrs packageId else attrs.length

/-- Where the packages begin after a mark. -/
theorem packageStart_markCurrentPackageId (packageId packageId' : UInt32) (f : AttributeFinder) :
    packageStart attrs (markCurrentPackageId packageId f) packageId'
      = if packageId' = packageId then f.current else packageStart attrs f packageId' := by
  simp only [packageStart, markCurrentPackageId]
  by_cases h₁ : packageId = 0x01
  · rw [if_pos h₁, h₁]
    split_ifs <;> rfl
  · rw [if_neg h₁]
    by_cases h₂ : packageId = 0x7f
    · rw [if_pos h₂, h₂]
      by_cases h₃ : packageId' = 0x7f
      · rw [h₃, if_neg (by decide), if_pos rfl, if_pos rfl]
      · rw [if_neg h₃, if_neg h₃, if_neg h₃]
    · rw [if_neg h₂, Dict.lookup_insert]
      by_cases h₃ : packageId' = packageId
      · rw [h₃, if_neg h₁, if_neg h₂, if_pos rfl, if_pos rfl, Option.getD_some]
      · rw [if_neg h₃, if_neg h₃]

@[simp]
theorem largest_markCurrentPackageId (packageId : UInt32) (f : AttributeFinder) :
    (markCurrentPackageId packageId f).largest = f.largest := by
  simp only [markCurrentPackageId]
  split_ifs <;> rfl

@[simp]
theorem currentAttr_markCurrentPackageId (packageId : UInt32) (f : AttributeFinder) :
    (markCurrentPackageId packageId f).currentAttr = f.currentAttr := by
  simp only [markCurrentPackageId]
  split_ifs <;> rfl

@[simp]
theorem lastPackageId_markCurrentPackageId (packageId : UInt32) (f : AttributeFinder) :
    (markCurrentPackageId packageId f).lastPackageId = f.lastPackageId := by
  simp only [markCurrentPackageId]
  split_ifs <;> rfl

@[simp]
theorem firstTime_markCurrentPackageId (packageId : UInt32) (f : AttributeFinder) :
    (markCurrentPackageId packageId f).firstTime = f.firstTime := by
  simp only [markCurrentPackageId]
  split_ifs <;> rfl

/-! ## What each step keeps -/

/-- The step to the next attribute leaves the package of the request. -/
theorem advance_request (attrs : List UInt32) (f : AttributeFinder) :
    (advance attrs f).lastPackageId = f.lastPackageId
      ∧ (advance attrs f).firstTime = f.firstTime := by
  simp only [advance]
  split_ifs <;> simp

/-- What the step to the next attribute marks. -/
theorem packageStart_advance (f : AttributeFinder) (packageId : UInt32) :
    packageStart attrs (advance attrs f) packageId
      = if f.current + 1 ≠ attrs.length
            ∧ getPackage f.currentAttr ≠ getPackage (getAttribute attrs (f.current + 1))
            ∧ packageId = getPackage (getAttribute attrs (f.current + 1))
        then f.current + 1 else packageStart attrs f packageId := by
  simp only [advance]
  by_cases hnext : f.current + 1 ≠ attrs.length
  · rw [if_pos hnext]
    by_cases hnew : getPackage f.currentAttr ≠ getPackage (getAttribute attrs (f.current + 1))
    · rw [if_pos hnew]
      refine (packageStart_markCurrentPackageId _ packageId _).trans ?_
      simp only [ne_eq, hnext, not_false_eq_true, hnew, true_and]
      rfl
    · rw [if_neg hnew, if_neg fun h => hnew h.2.1]
      rfl
  · rw [if_neg hnext, if_neg fun h => hnext h.1]
    rfl

/-- **The step to the next attribute keeps the invariant.** -/
theorem located_advance (hg : Grouped attrs) {f : AttributeFinder} (hf : Located attrs f)
    (hlt : f.current < attrs.length) : Located attrs (advance attrs f) := by
  have hlargest : (advance attrs f).largest = max f.largest (f.current + 1) := rfl
  have hle := hf.current_le
  refine ⟨?_, ?_, ?_, fun packageId => ?_⟩
  · rw [current_advance, hlargest]
    exact Nat.le_max_right _ _
  · rw [hlargest]
    exact Nat.max_le.mpr ⟨hf.largest_le, hlt⟩
  · rw [current_advance]
    intro hnext
    simp only [advance, if_pos hnext.ne]
    split_ifs <;> simp
  · rw [packageStart_advance, hf.packageStart_eq, hlargest, hf.currentAttr_eq hlt]
    split_ifs with hmark hseen hmax hmax
    · -- the package that begins at the next attribute
      obtain ⟨hnext, hnew, rfl⟩ := hmark
      have hnext' : f.current + 1 < attrs.length := by omega
      have hfirst := firstOf_le hnext'
      refine (Nat.le_antisymm hfirst (Nat.le_of_not_lt fun hbefore => ?_)).symm
      exact hnew (hg.together _ _ _ (Nat.le_of_lt_succ hbefore) (Nat.le_succ _) hnext'
        (getPackage_firstOf (hbefore.trans hnext')))
    · obtain ⟨hnext, -, rfl⟩ := hmark
      have hnext' : f.current + 1 < attrs.length := by omega
      have hfirst := firstOf_le hnext'
      omega
    · rfl
    · omega
    · -- a package that is seen now for the first time begins at the next attribute
      have hfirst : firstOf attrs packageId = f.current + 1 := by omega
      by_cases hnext : f.current + 1 = attrs.length
      · rw [hfirst, hnext]
      · have hlt' : firstOf attrs packageId < attrs.length := by omega
        have hhere := getPackage_firstOf hlt'
        rw [hfirst] at hhere
        refine absurd ⟨hnext, fun hsame => ?_, hhere.symm⟩ hmark
        have hle' := firstOf_le hlt
        rw [hsame, hhere] at hle'
        omega
    · rfl

/-- **The jump keeps the invariant**, and passes no attribute of the package that it goes to. -/
theorem located_jumpToClosestAttribute (packageId : UInt32) {f : AttributeFinder}
    (hf : Located attrs f) :
    Located attrs (jumpToClosestAttribute attrs packageId f)
      ∧ ∀ i < (jumpToClosestAttribute attrs packageId f).current,
        getPackage (getAttribute attrs i) ≠ packageId := by
  have hstart := hf.packageStart_eq packageId
  have hfirst : firstOf attrs packageId ≤ attrs.length := firstOf_le_length packageId
  have hlargest := hf.largest_le
  have hcurrent : (jumpToClosestAttribute attrs packageId f).current
      = min f.largest (firstOf attrs packageId) := by
    simp only [jumpToClosestAttribute, hstart]
    split_ifs <;> omega
  refine ⟨⟨?_, hf.largest_le, ?_, hf.packageStart_eq⟩, fun i hi hpackage => ?_⟩
  · rw [hcurrent]
    exact Nat.min_le_left _ _
  · intro hlt
    exact if_pos hlt.ne
  · rw [hcurrent] at hi
    have hlt : i < attrs.length := by omega
    have hle := firstOf_le hlt
    rw [hpackage] at hle
    omega

/-! ## Lookups -/

variable (attrs) in
/-- The finder has passed only smaller attributes of the package of a request. -/
def Fresh (attr : UInt32) (f : AttributeFinder) : Prop :=
  ∀ i < f.current, getPackage (getAttribute attrs i) = getPackage attr →
    getAttribute attrs i < attr

variable (attrs) in
/-- What a lookup leaves: the invariant, and only attributes of its package that are not greater. -/
structure After (attr : UInt32) (f : AttributeFinder) : Prop where
  firstTime : f.firstTime = false
  located : Located attrs f
  lastPackageId : f.lastPackageId = getPackage attr
  passed : ∀ i < f.current, getPackage (getAttribute attrs i) = getPackage attr →
    getAttribute attrs i ≤ attr

/-- **The walk finds the attribute**, if the finder has passed only smaller ones of its package. -/
theorem walk_spec (hg : Grouped attrs) {attr : UInt32} {f : AttributeFinder} (hf : Located attrs f)
    (hfirst : f.firstTime = false) (hlast : f.lastPackageId = getPackage attr)
    (hfresh : Fresh attrs attr f) :
    (walk attrs attr f).1 = attrs.idxOf attr ∧ After attrs attr (walk attrs attr f).2 := by
  induction hn : attrs.length - f.current generalizing f with
  | zero =>
      -- the end: all attributes of the package are smaller
      have hend : f.current = attrs.length :=
        Nat.le_antisymm (hf.current_le.trans hf.largest_le) (Nat.le_of_sub_eq_zero hn)
      rw [walk, dif_neg (by omega)]
      refine ⟨(idxOf_eq_length fun i hi heq => ?_).symm, hfirst, hf, hlast, fun i hi hpackage =>
        UInt32.le_of_lt (hfresh i hi hpackage)⟩
      exact UInt32.ne_of_lt (hfresh i (hend ▸ hi) (heq ▸ rfl)) heq
  | succ n ih =>
      have hlt : f.current < attrs.length := by omega
      have hattr := hf.currentAttr_eq hlt
      rw [walk, dif_pos hlt]
      by_cases hbreak : getPackage attr = getPackage f.currentAttr ∧ attr < f.currentAttr
      · -- the attribute would stand in front of this one
        rw [if_pos hbreak]
        rw [hattr] at hbreak
        refine ⟨(idxOf_eq_length fun i hi heq => ?_).symm, hfirst, hf, hlast, fun i hi hpackage =>
          UInt32.le_of_lt (hfresh i hi hpackage)⟩
        rcases Nat.lt_trichotomy i f.current with hi' | rfl | hi'
        · exact UInt32.ne_of_lt (hfresh i hi' (heq ▸ rfl)) heq
        · exact UInt32.ne_of_lt hbreak.2 heq.symm
        · have hle := hg.increasing f.current i hi' hi (by rw [heq, hbreak.1])
          rw [heq] at hle
          exact UInt32.lt_irrefl _ (UInt32.lt_of_lt_of_le hbreak.2 hle)
      · rw [if_neg hbreak]
        have hnext := located_advance hg hf hlt
        obtain ⟨hrequest, hfirst'⟩ := advance_request attrs f
        by_cases heq : attr = f.currentAttr
        · dsimp only
          rw [if_pos heq, current_advance, Nat.add_sub_cancel]
          refine ⟨(idxOf_eq hlt (hattr.symm.trans heq.symm) fun j hj hj' => ?_).symm,
            hfirst'.trans hfirst, hnext, hrequest.trans hlast, fun i hi hpackage => ?_⟩
          · exact UInt32.ne_of_lt (hfresh j hj (hj' ▸ rfl)) hj'
          · rw [current_advance] at hi
            rcases Nat.lt_succ_iff_lt_or_eq.mp hi with hi | rfl
            · exact UInt32.le_of_lt (hfresh i hi hpackage)
            · rw [heq, hattr]
              exact UInt32.le_refl _
        · dsimp only
          rw [if_neg heq]
          refine ih hnext (hfirst'.trans hfirst) (hrequest.trans hlast) (fun i hi hpackage => ?_)
            (by rw [current_advance]; omega)
          rw [current_advance] at hi
          rcases Nat.lt_succ_iff_lt_or_eq.mp hi with hi | rfl
          · exact hfresh i hi hpackage
          · rw [hattr] at hbreak heq
            refine UInt32.lt_of_le_of_ne (UInt32.not_lt.mp fun hlt' => ?_) (Ne.symm heq)
            exact hbreak ⟨hpackage.symm, hlt'⟩

/-- A new finder, after its initialisation. -/
theorem located_initOnce (h : attrs.length ≠ 0) :
    Located attrs (initOnce attrs (create attrs))
      ∧ (initOnce attrs (create attrs)).firstTime = false
      ∧ (initOnce attrs (create attrs)).current = 0 := by
  have hpos : 0 < attrs.length := Nat.pos_of_ne_zero h
  simp only [initOnce, create, if_true, firstTime_markCurrentPackageId,
    current_markCurrentPackageId, and_self, and_true]
  refine ⟨?_, ?_, fun _ => ?_, fun packageId => ?_⟩
  · simp
  · simp
  · simp
  · rw [packageStart_markCurrentPackageId]
    dsimp only
    have hfirst := firstOf_le hpos
    split_ifs with hhere hzero hzero
    · rw [hhere]
      omega
    · rw [hhere] at hzero
      simp only [largest_markCurrentPackageId] at hzero
      exact absurd hfirst hzero
    · -- another package does not begin at the first attribute
      simp only [largest_markCurrentPackageId, Nat.le_zero] at hzero
      have hlt : firstOf attrs packageId < attrs.length := by omega
      have hpackage := getPackage_firstOf hlt
      rw [hzero] at hpackage
      exact absurd hpackage.symm hhere
    · simp [packageStart]

variable (attrs) in
/-- A finder between two lookups: a new one, or one that a lookup has left. -/
def Between (last : Option UInt32) (f : AttributeFinder) : Prop :=
  (last = none ∧ f = create attrs) ∨ ∃ attr, last = some attr ∧ After attrs attr f

/-- **A lookup finds the attribute**, if it is greater than that of the last lookup or of another
package. -/
theorem find_spec (hg : Grouped attrs) (hne : attrs.length ≠ 0) {attr : UInt32}
    {last : Option UInt32} {f : AttributeFinder} (hf : Between attrs last f)
    (hlast : ∀ a ∈ last, getPackage a = getPackage attr → a < attr) :
    (find attrs attr f).1 = attrs.idxOf attr ∧ Between attrs (some attr) (find attrs attr f).2 := by
  have hready : Located attrs (initOnce attrs f) ∧ (initOnce attrs f).firstTime = false
      ∧ ((initOnce attrs f).lastPackageId = getPackage attr →
        Fresh attrs attr (initOnce attrs f)) := by
    rcases hf with ⟨rfl, rfl⟩ | ⟨a, rfl, ha⟩
    · obtain ⟨hlocated, hfirst, hzero⟩ := located_initOnce hne
      refine ⟨hlocated, hfirst, fun _ i hi => ?_⟩
      rw [hzero] at hi
      exact absurd hi (Nat.not_lt_zero i)
    · rw [initOnce, if_neg (by rw [ha.firstTime]; exact Bool.false_ne_true)]
      refine ⟨ha.located, ha.firstTime, fun hpackage i hi hi' => ?_⟩
      rw [ha.lastPackageId] at hpackage
      exact UInt32.lt_of_le_of_lt (ha.passed i hi (hi'.trans hpackage.symm))
        (hlast a rfl hpackage)
  obtain ⟨hlocated, hfirst, hfresh⟩ := hready
  rw [find, if_neg hne]
  dsimp only
  by_cases hjump : (initOnce attrs f).lastPackageId ≠ getPackage attr
  · rw [if_pos hjump]
    obtain ⟨hlocated', hnone⟩ := located_jumpToClosestAttribute (getPackage attr) hlocated
    have hjumped : Located attrs
        { jumpToClosestAttribute attrs (getPackage attr) (initOnce attrs f) with
          lastPackageId := getPackage attr } :=
      ⟨hlocated'.current_le, hlocated'.largest_le, hlocated'.currentAttr_eq,
        hlocated'.packageStart_eq⟩
    obtain ⟨hplace, hafter⟩ := walk_spec hg hjumped hfirst rfl fun i hi hpackage =>
      absurd hpackage (hnone i hi)
    exact ⟨hplace, .inr ⟨attr, rfl, hafter⟩⟩
  · rw [if_neg hjump]
    have hsame := Classical.not_not.mp hjump
    obtain ⟨hplace, hafter⟩ := walk_spec hg hlocated hfirst hsame (hfresh hsame)
    exact ⟨hplace, .inr ⟨attr, rfl, hafter⟩⟩

/-- **The order of the requests that the finder assumes**: a request is greater than the last one,
or of another package. -/
def Ascending (needles : List UInt32) : Prop :=
  needles.IsChain fun a b => getPackage a = getPackage b → a < b

/-- Lookups that go on after others. -/
theorem run_eq_of_between (hg : Grouped attrs) (hne : attrs.length ≠ 0) {needles : List UInt32}
    {last : Option UInt32} {f : AttributeFinder} (hf : Between attrs last f)
    (hasc : Ascending (last.toList ++ needles)) :
    run attrs f needles = needles.map fun attr => attrs.idxOf attr := by
  induction needles generalizing last f with
  | nil => rfl
  | cons attr needles ih =>
      have hlast : ∀ a ∈ last, getPackage a = getPackage attr → a < attr := by
        rintro a rfl
        exact (List.isChain_cons_cons.mp hasc).1
      obtain ⟨hplace, hnext⟩ := find_spec hg hne hf hlast
      rw [run, List.map_cons, hplace]
      refine congrArg _ (ih hnext ?_)
      cases last with
      | none => exact hasc
      | some a => exact (List.isChain_cons_cons.mp hasc).2

/-- **The finder agrees with a search from the beginning** over every run of lookups in which each
request is greater than the last one or of another package. -/
theorem run_eq_map_idxOf (hg : Grouped attrs) (needles : List UInt32) (hasc : Ascending needles) :
    run attrs (create attrs) needles = needles.map fun attr => attrs.idxOf attr := by
  by_cases hempty : attrs.length = 0
  · -- without attributes every lookup gives the end at once
    clear hasc
    rw [List.length_eq_zero_iff] at hempty
    subst hempty
    induction needles with
    | nil => rfl
    | cons attr needles ih =>
        rw [run, find, if_pos List.length_nil, ih]
        rfl
  · exact run_eq_of_between hg hempty (.inl ⟨rfl, rfl⟩) hasc

/-- Attributes of two packages that are not in the order of their identifiers. -/
def twoPackages : List UInt32 := [0x02010000, 0x02010001, 0x010100f4, 0x010100f5]

/-- A run with a change of the package and a way back. -/
theorem run_eq_map_idxOf_twoPackages :
    run twoPackages (create twoPackages) [0x010100f5, 0x02010001, 0x010100f4] = [3, 1, 2] := by
  have htogether : ∀ k < 4, ∀ j ≤ k, ∀ i ≤ j,
      getPackage (getAttribute twoPackages i) = getPackage (getAttribute twoPackages k) →
      getPackage (getAttribute twoPackages j) = getPackage (getAttribute twoPackages k) := by
    decide
  have hincreasing : ∀ j < 4, ∀ i < j,
      getPackage (getAttribute twoPackages i) = getPackage (getAttribute twoPackages j) →
      getAttribute twoPackages i ≤ getAttribute twoPackages j := by
    decide
  have hgrouped : Grouped twoPackages :=
    ⟨fun i j k hij hjk hk => htogether k hk j hjk i hij, fun i j hij hj => hincreasing j hj i hij⟩
  exact (run_eq_map_idxOf hgrouped _
    (.cons_cons (by decide) (.cons_cons (by decide) (.singleton _)))).trans (by decide)

end AttributeFinder

end AndroidSdk.Androidfw
