import AndroidSdk.Aidl.ConstGraphEvaluate

/-! # One answer per constant value

Whether the evaluation of a constant value is asked for early or late, directly or by another value,
it has one answer.

* **`ConstGraph.OneAnswer`** — the recorded answers of each node agree, a failed node yields no
  text, and a reference succeeds iff its constant does.
* **`ConstGraph.oneAnswer_of_arraysEvaluate`** — this holds if the arrays that are asked for have
  values. -/

namespace AndroidSdk.Aidl

open Lib

namespace ConstGraph

variable {g : ConstGraph} {i : ℕ} {m m' : Memory} {b : Bool}

/-! ## Memories between calls -/

/-- **What holds between calls**: all nodes and all that is recorded agree with the values. -/
structure Sound (g : ConstGraph) (m : Memory) : Prop where
  agrees : ∀ i, g.NodeAgrees i (m.value i)
  reports : ∀ r ∈ m.reports, r.2 = g.outcomeOf r.1
  yields : ∀ y ∈ m.yields, g.outcomeOf y.1 = none → y.2 = []

/-- It holds before the first call. -/
theorem sound_fresh (g : ConstGraph) : g.Sound g.fresh where
  agrees _ :=
    { result := fun h => nomatch h
      start := fun _ => ⟨rfl, rfl⟩
      type := fun _ _ => rfl
      array := fun _ _ _ _ => rfl }
  reports _ h := nomatch h
  yields _ h := nomatch h

namespace Sound

/-- What a call for a node keeps. -/
theorem of_extends (h : g.Sound m) (hkept : g.Extends (i + 1) m m')
    (hframe : ∀ j, i < j → m'.value j = m.value j) : g.Sound m' where
  agrees j := by
    by_cases hj : j < i + 1
    · exact hkept.agrees (fun k _ => h.agrees k) j hj
    · rw [hframe j (by omega)]
      exact h.agrees j
  reports := hkept.reports h.reports
  yields := by
    rw [hkept.yields]
    exact h.yields

/-- `CheckValid`. -/
theorem checkValid (h : g.Sound m) (hg : g.ArraysEvaluate i) :
    g.CheckSpec i m (g.checkValid i m) ∧ g.Sound (g.checkValid i m).2 := by
  have hspec := checkValid_spec hg m fun j _ => h.agrees j
  exact ⟨hspec, h.of_extends hspec.kept hspec.frame⟩

/-- `evaluate`, after `CheckValid`. -/
theorem evaluate (h : g.Sound m) (hg : g.ArraysEvaluate i) (hchecked : g.Checked m i)
    (hcall : g.evaluate i m = .ok (b, m')) : g.EvaluateSpec i m b m' ∧ g.Sound m' := by
  have hspec := evaluate_spec hg (fun j _ => h.agrees j) hchecked hcall
  exact ⟨hspec, h.of_extends hspec.kept hspec.frame⟩

/-- **`Evaluate`.** -/
theorem evaluateIfValid (h : g.Sound m) (hg : g.ArraysEvaluate i)
    (hcall : g.evaluateIfValid i m = .ok (b, m')) : g.Sound m' := by
  obtain ⟨hspec, hsound⟩ := h.checkValid hg
  unfold ConstGraph.evaluateIfValid at hcall
  generalize g.checkValid i m = c at hcall hspec hsound
  obtain ⟨passed, m₁⟩ := c
  cases passed with
  | true => exact (hsound.evaluate hg hspec.checked hcall).2
  | false =>
      cases hcall
      refine ⟨hsound.agrees, List.forall_mem_cons.mpr ⟨?_, hsound.reports⟩, hsound.yields⟩
      by_contra hne
      exact nomatch hspec.passes fun hnone => hne hnone.symm

/-- The evaluation in `ValueString`. -/
theorem ensureEvaluated (h : g.Sound m) (hg : g.ArraysEvaluate i)
    (hcall : g.ensureEvaluated i m = .ok (b, m')) :
    g.Sound m' ∧ (m'.value i).isEvaluated = true := by
  unfold ConstGraph.ensureEvaluated at hcall
  split at hcall
  next he =>
    cases hcall
    exact ⟨h, he⟩
  next he =>
    obtain ⟨hspec, hsound⟩ := h.checkValid hg
    obtain ⟨⟨b₁, m₁⟩, hcall, heq⟩ := bind_eq_ok_iff.mp hcall
    cases heq
    obtain ⟨hspec', hsound'⟩ := hsound.evaluate hg hspec.checked hcall
    exact ⟨hsound', hspec'.evaluated⟩

/-- `EvaluatedValue`. -/
theorem evaluatedValue (h : g.Sound m) (hg : g.ArraysEvaluate i) {v : ℤ}
    (hcall : g.evaluatedValue i m = .ok (v, m')) : g.Sound m' := by
  unfold ConstGraph.evaluatedValue at hcall
  obtain ⟨⟨b, m₁⟩, hcall₁, hcall⟩ := bind_eq_ok_iff.mp hcall
  have hsound : g.Sound m₁ := by
    split at hcall₁
    · cases hcall₁
      exact h
    · exact h.evaluateIfValid hg hcall₁
  dsimp only at hcall
  split at hcall
  · cases hcall
    exact hsound
  · cases hcall

/-- The dimensions in `Signature`. -/
theorem evaluateDimensions {dims : List ℕ} (h : g.Sound m) (hg : ∀ d ∈ dims, g.ArraysEvaluate d)
    (hcall : g.evaluateDimensions dims m = .ok m') : g.Sound m' := by
  induction dims generalizing m with
  | nil =>
      cases hcall
      exact h
  | cons d dims ih =>
      obtain ⟨hd, hrest⟩ := List.forall_mem_cons.mp hg
      unfold ConstGraph.evaluateDimensions at hcall
      obtain ⟨⟨v, m₁⟩, hcall₁, hcall⟩ := bind_eq_ok_iff.mp hcall
      exact ih (h.evaluatedValue hd hcall₁) hrest hcall

/-- `Signature`. -/
theorem signature {type : TypeSpecifier} {sig : Option TypeName} (h : g.Sound m)
    (hg : ∀ d ∈ type.dimensions, g.ArraysEvaluate d)
    (hcall : g.signature type m = .ok (sig, m')) : g.Sound m' := by
  unfold ConstGraph.signature at hcall
  unfold TypeSpecifier.dimensions at hg
  split at hcall
  · cases hcall
    exact h
  · cases hcall
    exact h
  next front dims harray =>
    rw [harray] at hg
    obtain ⟨m₁, hdims, heq⟩ := bind_eq_ok_iff.mp hcall
    cases heq
    exact h.evaluateDimensions hg hdims

end Sound

/-! ## Texts -/

section ValueString

variable {parse : FloatParser} {decorator : Decorator}

/-- The loop asks for the elements. -/
theorem elementTexts_congr {f f' : ℕ → TypeSpecifier → Memory → Except Abort (Text × Memory)}
    {values : List ℕ} (h : ∀ v ∈ values, f v = f' v) (base : TypeSpecifier) (m : Memory) :
    elementTexts f base values m = elementTexts f' base values m := by
  induction values generalizing m with
  | nil => rfl
  | cons v values ih =>
      obtain ⟨hv, hrest⟩ := List.forall_mem_cons.mp h
      simp only [elementTexts, hv, ih hrest]

/-- The elements of an array are among the values that it needs. -/
theorem mem_children_of_mem_values {kind : NodeKind} {v : ℕ} (h : v ∈ kind.values) :
    v ∈ kind.children := by
  cases kind with
  | array values => exact h
  | _ => exact nomatch h

/-- `ValueString` asks for the elements of an array. -/
theorem descends_valueStringBody (g : ConstGraph) (parse : FloatParser) (decorator : Decorator) :
    Descends (g.valueStringBody parse decorator) := by
  intro i f f' h
  have hvalues : ∀ v ∈ (g.node i).kind.values, f v = f' v := fun v hv =>
    h v (lt_of_mem_children (mem_children_of_mem_values hv))
  funext type m
  simp only [valueStringBody, valueStringOnce, validText, arrayText, elementTexts_congr hvalues]

/-- The equation of `ValueString`. -/
theorem valueString_eq (g : ConstGraph) (parse : FloatParser) (decorator : Decorator) (i : ℕ)
    (type : TypeSpecifier) (m : Memory) :
    g.valueString parse decorator i type m
      = g.valueStringBody parse decorator (g.valueString parse decorator) i type m :=
  congrFun (congrFun (recurse_eq (g.descends_valueStringBody parse decorator) i) type) m

/-- The dimensions of the base of an array type are some of its dimensions. -/
theorem TypeSpecifier.dimensions_arrayBase {type : TypeSpecifier} {d : ℕ}
    (h : d ∈ type.arrayBase.dimensions) : d ∈ type.dimensions := by
  unfold arrayBase at h
  split at h
  next front dim dims harray =>
    rw [dimensions, harray]
    exact List.mem_cons_of_mem front h
  · exact nomatch h

/-- The calls of `ValueString` for the elements of an array. -/
def YieldsParts (g : ConstGraph) (parse : FloatParser) (decorator : Decorator) (i : ℕ) : Prop :=
  ∀ v ∈ (g.node i).kind.values, ∀ type m text m', (∀ d ∈ type.dimensions, g.ArraysEvaluate d) →
    g.Sound m → g.valueString parse decorator v type m = .ok (text, m') → g.Sound m'

/-- The loop over the elements of an array. -/
theorem Sound.elementTexts {values : List ℕ} {base : TypeSpecifier} {texts : Option (List Text)}
    (h : g.Sound m) (hbase : ∀ d ∈ base.dimensions, g.ArraysEvaluate d)
    (hvalues : ∀ v ∈ values, v ∈ (g.node i).kind.values) (ih : g.YieldsParts parse decorator i)
    (hcall : elementTexts (g.valueString parse decorator) base values m = .ok (texts, m')) :
    g.Sound m' := by
  induction values generalizing m texts with
  | nil =>
      cases hcall
      exact h
  | cons v values ihv =>
      obtain ⟨hv, hrest⟩ := List.forall_mem_cons.mp hvalues
      unfold ConstGraph.elementTexts at hcall
      obtain ⟨⟨text, m₁⟩, hcall₁, hcall⟩ := bind_eq_ok_iff.mp hcall
      have h₁ : g.Sound m₁ := ih v hv base m text m₁ hbase h hcall₁
      dsimp only at hcall
      split at hcall
      · cases hcall
        exact h₁
      · obtain ⟨⟨texts', m₂⟩, hcall₂, heq⟩ := bind_eq_ok_iff.mp hcall
        cases heq
        exact ihv h₁ hrest hcall₂

/-- `ValueString` of an array. -/
theorem Sound.arrayText {type : TypeSpecifier} {text : Text} (h : g.Sound m)
    (hg : ∀ d ∈ type.dimensions, g.ArraysEvaluate d) (ih : g.YieldsParts parse decorator i)
    (hcall : g.arrayText decorator (g.valueString parse decorator) i type m = .ok (text, m')) :
    g.Sound m' := by
  unfold ConstGraph.arrayText at hcall
  obtain ⟨⟨texts, m₁⟩, hcall₁, hcall⟩ := bind_eq_ok_iff.mp hcall
  have h₁ : g.Sound m₁ := h.elementTexts (fun d hd => hg d (type.dimensions_arrayBase hd))
    (fun _ => id) ih hcall₁
  dsimp only at hcall
  split at hcall
  · cases hcall
    exact h₁
  next front dims harray =>
    obtain ⟨⟨size, m₂⟩, hcall₂, hcall⟩ := bind_eq_ok_iff.mp hcall
    have hfront : front ∈ type.dimensions := by
      rw [TypeSpecifier.dimensions, harray]
      exact List.mem_cons_self
    have h₂ : g.Sound m₂ := h₁.evaluatedValue (hg front hfront) hcall₂
    dsimp only at hcall
    split at hcall
    · cases hcall
      exact h₂
    · cases hcall
      exact h₂
  · cases hcall
    exact h₁

/-- `ValueString` of a node that is evaluated and valid. -/
theorem Sound.validText {type : TypeSpecifier} {text : Text} (h : g.Sound m)
    (hg : ∀ d ∈ type.dimensions, g.ArraysEvaluate d) (ih : g.YieldsParts parse decorator i)
    (hcall : g.validText parse decorator (g.valueString parse decorator) i type m
      = .ok (text, m')) : g.Sound m' := by
  unfold ConstGraph.validText at hcall
  dsimp only at hcall
  split at hcall
  · cases hcall
    exact h
  · split at hcall <;> cases hcall <;> exact h
  · obtain ⟨⟨sig, m₁⟩, hsig, hcall⟩ := bind_eq_ok_iff.mp hcall
    have h₁ : g.Sound m₁ := h.signature hg hsig
    dsimp only at hcall
    split at hcall
    · exact h₁.arrayText hg ih hcall
    · split at hcall
      · cases hcall
      · split at hcall <;> cases hcall <;> exact h₁

/-- **`ValueString`**: a node without a value yields no text. -/
theorem Sound.valueString {type : TypeSpecifier} {text : Text} (h : g.Sound m)
    (hg : g.ArraysEvaluate i) (hdims : ∀ d ∈ type.dimensions, g.ArraysEvaluate d)
    (hcall : g.valueString parse decorator i type m = .ok (text, m')) : g.Sound m' := by
  induction i using Nat.strong_induction_on generalizing type m text m' with
  | h i ih =>
  have hparts : g.YieldsParts parse decorator i := fun v hv type m text m' hdims h hcall =>
    have hchild := mem_children_of_mem_values hv
    ih v (lt_of_mem_children hchild) h (hg.child hchild) hdims hcall
  rw [valueString_eq] at hcall
  obtain ⟨⟨text', m₁⟩, honce, heq⟩ := bind_eq_ok_iff.mp hcall
  cases heq
  obtain ⟨h₁, hempty⟩ : g.Sound m₁ ∧ (g.outcomeOf i = none → text = []) := by
    unfold valueStringOnce at honce
    split at honce
    · cases honce
      exact ⟨h, fun _ => rfl⟩
    · obtain ⟨⟨success, m₂⟩, hensure, honce⟩ := bind_eq_ok_iff.mp honce
      obtain ⟨h₂, he⟩ := h.ensureEvaluated hg hensure
      dsimp only at honce
      split at honce
      · cases honce
        exact ⟨h₂, fun _ => rfl⟩
      next hvalid =>
        refine ⟨h₂.validText hdims hparts honce, fun hnone => absurd ?_ hvalid⟩
        -- a node without a value is remembered as invalid
        have hresult := (h₂.agrees i).result he
        rw [ValueState.result_eq_none_iff.mp (hresult.trans hnone)]
        exact Bool.or_true _
  exact ⟨h₁.agrees, h₁.reports, List.forall_mem_cons.mpr ⟨hempty, h₁.yields⟩⟩

/-- **The calls from outside.** -/
theorem Sound.run {c : Call} (h : g.Sound m) (hg : ∀ i ∈ c.nodes, g.ArraysEvaluate i)
    (hrun : c.run g parse m = .ok m') : g.Sound m' := by
  cases c with
  | evaluate i =>
      obtain ⟨⟨b, m₁⟩, hcall, heq⟩ := bind_eq_ok_iff.mp hrun
      cases heq
      exact h.evaluateIfValid (hg i List.mem_cons_self) hcall
  | valueString i type decorator =>
      obtain ⟨⟨text, m₁⟩, hcall, heq⟩ := bind_eq_ok_iff.mp hrun
      cases heq
      obtain ⟨hi, hdims⟩ := List.forall_mem_cons.mp hg
      exact h.valueString hi hdims hcall

end ValueString

/-! ## Runs -/

/-- **One answer for each node**: what evaluations of a node returned agrees, with its type and
value after a success; a node of which an evaluation failed has not yielded a text; and a reference
succeeded iff its constant did. -/
structure OneAnswer (g : ConstGraph) (m : Memory) : Prop where
  once : ∀ i a a', (i, a) ∈ m.reports → (i, a') ∈ m.reports → a = a'
  empty : ∀ i text, (i, none) ∈ m.reports → (i, text) ∈ m.yields → text = []
  reference : ∀ i resolved a a', (g.node i).kind = .ref resolved → (i, a) ∈ m.reports →
    (resolved, a') ∈ m.reports → (a.isSome ↔ a'.isSome)

/-- A reference has a value iff its constant does. -/
theorem isSome_outcomeOf_ref {resolved : ℕ} (hk : (g.node i).kind = .ref resolved) :
    (g.outcomeOf i).isSome = (g.outcomeOf resolved).isSome := by
  rw [outcomeOf_ref hk]
  cases g.outcomeOf resolved <;> rfl

/-- What agrees with the values agrees with itself. -/
theorem Sound.oneAnswer (h : g.Sound m) : g.OneAnswer m where
  once i a a' ha ha' := (h.reports _ ha).trans (h.reports _ ha').symm
  empty i text hnone htext := h.yields _ htext (h.reports _ hnone).symm
  reference i resolved a a' hk ha ha' := by
    obtain rfl : a = g.outcomeOf i := h.reports _ ha
    obtain rfl : a' = g.outcomeOf resolved := h.reports _ ha'
    rw [isSome_outcomeOf_ref hk]

/-- **Evaluation gives one answer for each node** in every run of calls for nodes whose arrays have
values. -/
theorem oneAnswer_of_arraysEvaluate (g : ConstGraph) (parse : FloatParser) {m : Memory}
    (h : g.Reachable parse (fun c => ∀ i ∈ c.nodes, g.ArraysEvaluate i) m) : g.OneAnswer m := by
  refine Sound.oneAnswer ?_
  induction h with
  | fresh => exact g.sound_fresh
  | call _ hc hrun ih => exact ih.run hc hrun

/-- The array `{1, -1}`, whose second element shares the first, and a reference to it. -/
def sharedArray : ConstGraph where
  node
    | 0 => { kind := .literal (.int8 1) }
    | 1 => { kind := .unary .minus 0 }
    | 2 => { kind := .array [0, 1] }
    | 3 => { kind := .ref 2 }
    | _ => { kind := .error }
  children_lt
    | 0, _, h => nomatch h
    | 1, _, h => by obtain rfl := List.mem_singleton.mp h; decide
    | 2, _, h => by rcases List.mem_pair.mp h with rfl | rfl <;> decide
    | 3, _, h => by obtain rfl := List.mem_singleton.mp h; decide
    | _ + 4, _, h => nomatch h

/-- Its array has a value. -/
theorem arraysEvaluate_sharedArray (i : ℕ) : sharedArray.ArraysEvaluate i := by
  intro j _ values hk _
  match j with
  | 0 => cases hk
  | 1 => cases hk
  | 2 => decide
  | 3 => cases hk
  | j + 4 => cases hk

theorem oneAnswer_sharedArray : ∃ m : Memory,
    (3, some ⟨.array, 0, []⟩) ∈ m.reports ∧ (2, some ⟨.array, 0, []⟩) ∈ m.reports
      ∧ sharedArray.OneAnswer m :=
  have hall : ∀ c : Call, ∀ i ∈ c.nodes, sharedArray.ArraysEvaluate i := fun _ i _ =>
    arraysEvaluate_sharedArray i
  ⟨_, .head _, .tail _ (.tail _ (.head _)),
    oneAnswer_of_arraysEvaluate sharedArray ⟨fun _ => none, fun _ => none⟩
      (.call (.call .fresh (hall (.evaluate 2)) rfl) (hall (.evaluate 3)) rfl)⟩

/-- The array `{true, "a"}`. -/
def mixedArray : ConstGraph where
  node
    | 0 => { kind := .literal (.boolean true) }
    | 1 => { kind := .string, value := ['"', 'a', '"'] }
    | 2 => { kind := .array [0, 1] }
    | _ => { kind := .error }
  children_lt
    | 0, _, h => nomatch h
    | 1, _, h => nomatch h
    | 2, _, h => by rcases List.mem_pair.mp h with rfl | rfl <;> decide
    | _ + 3, _, h => nomatch h

/-- `Evaluate` fails for the array, and then succeeds. -/
theorem not_oneAnswer_mixedArray : ∃ m : Memory,
    mixedArray.Reachable ⟨fun _ => none, fun _ => none⟩ (fun _ => True) m
      ∧ ¬ mixedArray.OneAnswer m := by
  refine ⟨_, .call (.call .fresh trivial (c := .evaluate 2) rfl) trivial (c := .evaluate 2) rfl,
    fun h => ?_⟩
  exact nomatch h.once 2 none (some ⟨.array, 0, []⟩) (.tail _ (.head _)) (.head _)

end ConstGraph

end AndroidSdk.Aidl
