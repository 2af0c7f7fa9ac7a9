import AndroidSdk.Aidl.ConstGraphCheck

/-! # Evaluating constant values

What `evaluate` does to a memory that agrees with the values of the nodes.

* **`ConstGraph.EvaluateSpec`** — the node is evaluated, and the answer is whether it has a value.
* **`ConstGraph.evaluate_spec`** — this holds of every call that returns, if the arrays have
  values. -/

namespace AndroidSdk.Aidl

open Lib

namespace ConstGraph

variable {g : ConstGraph} {i : ℕ} {m m' : Memory} {b : Bool}

/-! ## What a call does -/

/-- **What `evaluate` does**: the node is evaluated, and the answer is whether it has a value. -/
structure EvaluateSpec (g : ConstGraph) (i : ℕ) (m : Memory) (b : Bool) (m' : Memory) : Prop where
  kept : g.Extends (i + 1) m m'
  frame : ∀ j, i < j → m'.value j = m.value j
  evaluated : (m'.value i).isEvaluated = true
  answer : b = (g.outcomeOf i).isSome

/-- For a node that comes later. -/
theorem EvaluateSpec.below {c : ℕ} (h : g.EvaluateSpec c m b m') (hc : c < i) : g.Extends i m m' :=
  h.kept.mono hc fun j hj => h.frame j hj

/-- What a node remembers after the call. -/
theorem EvaluateSpec.result {c : ℕ} (h : g.EvaluateSpec c m b m') (hm : g.AgreesBelow (c + 1) m) :
    (m'.value c).result = g.outcomeOf c :=
  (h.kept.agrees hm c (Nat.lt_succ_self c)).result h.evaluated

/-- **The record of a call.** -/
theorem EvaluateSpec.report (h : g.EvaluateSpec i m b m') (hm : g.AgreesBelow (i + 1) m) :
    g.EvaluateSpec i m b (m'.report i b) where
  kept :=
    { agrees := h.kept.agrees
      evaluated := h.kept.evaluated
      valid := h.kept.valid
      reports := fun hall => by
        refine List.forall_mem_cons.mpr ⟨?_, h.kept.reports hall⟩
        have hresult := h.result hm
        have hanswer := h.answer
        show (if b = true then some (m'.value i).outcome else none) = g.outcomeOf i
        rw [← hresult, ValueState.isSome_result] at hanswer
        rw [← hresult, hanswer]
        rfl
      yields := h.kept.yields }
  frame := h.frame
  evaluated := h.evaluated
  answer := h.answer

/-- A node of which the evaluation begins: it counts as evaluated, and `CheckValid` has been called
for it. -/
structure Begun (g : ConstGraph) (i : ℕ) (m : Memory) : Prop where
  below : g.AgreesBelow i m
  evaluated : (m.value i).isEvaluated = true
  start : SameStart (m.value i) (g.begun i)
  valid : g.outcomeOf i ≠ none → (m.value i).isValid = true
  operands : ∀ c ∈ (g.node i).kind.operands, g.Checked m c
  array : ∀ values, (g.node i).kind = .array values → g.outcomeOf i = none →
    (m.value i).isValid = false

/-- What is done between the beginning of an evaluation and its end. -/
structure Ended (g : ConstGraph) (i : ℕ) (m : Memory) (b : Bool) (m' : Memory) : Prop where
  kept : g.Extends i m m'
  frame : ∀ j, i < j → m'.value j = m.value j
  evaluated : (m'.value i).isEvaluated = true
  result : (m'.value i).result = g.outcomeOf i
  answer : b = (g.outcomeOf i).isSome

/-- The answer is the flag that is remembered. -/
theorem Ended.of_modify {f : ValueState → ValueState} {m₁ : Memory} (hkept : g.Extends i m m₁)
    (hframe : ∀ j, i ≤ j → m₁.value j = m.value j)
    (hevaluated : (f (m₁.value i)).isEvaluated = true)
    (hresult : (f (m₁.value i)).result = g.outcomeOf i)
    (hb : b = (g.outcomeOf i).isSome) : g.Ended i m b (m₁.modify i f) where
  kept := hkept.trans (.modify m₁ le_rfl f)
  frame j hj := by rw [m₁.value_modify_of_ne (by omega), hframe j (by omega)]
  evaluated := by rw [m₁.value_modify_self, hevaluated]
  result := by rw [m₁.value_modify_self, hresult]
  answer := hb

/-! ## Arrays -/

/-- The calls of `evaluate` for the parts of a node. -/
def EvaluatesParts (g : ConstGraph) (i : ℕ) : Prop :=
  ∀ c ∈ (g.node i).kind.children, ∀ m b m', g.AgreesBelow (c + 1) m → g.Checked m c →
    g.evaluate c m = .ok (b, m') → g.EvaluateSpec c m b m'

/-- **The loop over the elements of an array.** -/
theorem evaluateElements_spec (hg : g.ArraysEvaluate i) {values : List ℕ}
    (hchild : ∀ v ∈ values, v ∈ (g.node i).kind.children) (ih : g.EvaluatesParts i) {t : ConstType}
    (hm : g.AgreesBelow i m)
    (h : g.evaluateElements g.evaluate values t m = .ok (b, m')) :
    g.Extends i m m' ∧ (∀ j, i ≤ j → m'.value j = m.value j)
      ∧ b = elementsAgree g.outcomeOf values t := by
  induction values generalizing t m with
  | nil =>
      cases h
      exact ⟨.refl _, fun _ _ => rfl, rfl⟩
  | cons v values ihv =>
      -- an element is checked, then evaluated, and then its type is compared
      obtain ⟨hmem, hrest⟩ := List.forall_mem_cons.mp hchild
      have hv : v < i := lt_of_mem_children hmem
      have hcheck := checkValid_spec (hg.child hmem) m fun j hj => hm j (by omega)
      have hkept₁ := (hcheck.within hv).kept
      rw [evaluateElements] at h
      generalize g.checkValid v m = c at h hcheck hkept₁
      obtain ⟨passed, m₁⟩ := c
      have hm₁ : g.AgreesBelow i m₁ := hkept₁.agrees hm
      have hframe₁ : ∀ j, i ≤ j → m₁.value j = m.value j := fun j hj =>
        hcheck.frame j (by omega)
      cases passed with
      | false =>
          -- an element that fails its check has no outcome
          cases h
          refine ⟨hkept₁, hframe₁, ?_⟩
          have hnone : g.outcomeOf v = none := by
            by_contra hne
            cases hcheck.passes hne
          rw [elementsAgree, hnone]
      | true =>
          obtain ⟨⟨success, m₂⟩, hcall, h⟩ := bind_eq_ok_iff.mp h
          have hspec := ih v hmem m₁ success m₂ (fun j hj => hm₁ j (by omega)) hcheck.checked hcall
          have hkept : g.Extends i m m₂ := hkept₁.trans (hspec.below hv)
          have hframe : ∀ j, i ≤ j → m₂.value j = m.value j := fun j hj =>
            (hspec.frame j (by omega)).trans (hframe₁ j hj)
          have hresult := hspec.result fun j hj => hm₁ j (by omega)
          have hanswer := hspec.answer
          rw [elementsAgree]
          cases hvalue : g.outcomeOf v with
          | none =>
              rw [hvalue] at hanswer
              obtain rfl : success = false := hanswer
              cases h
              exact ⟨hkept, hframe, rfl⟩
          | some o =>
              rw [hvalue] at hanswer hresult
              obtain rfl : success = true := hanswer
              have htype : (m₂.value v).finalType = o.finalType := by
                rw [ValueState.eq_state hspec.evaluated hresult]
                rfl
              dsimp only at h ⊢
              rw [Bool.not_true, if_neg Bool.false_ne_true, htype] at h
              -- the loop goes on with the other elements, whatever type is expected of them
              have hstep {t' : ConstType}
                  (h : g.evaluateElements g.evaluate values t' m₂ = .ok (b, m')) :
                  g.Extends i m m' ∧ (∀ j, i ≤ j → m'.value j = m.value j)
                    ∧ b = elementsAgree g.outcomeOf values t' := by
                obtain ⟨hk, hf, hb⟩ := ihv hrest (hkept.agrees hm) h
                exact ⟨hkept.trans hk, fun j hj => (hf j hj).trans (hframe j hj), hb⟩
              -- the first element decides on the type
              by_cases ht : t = .error
              · rw [if_pos ht] at h ⊢
                exact hstep h
              · rw [if_neg ht] at h ⊢
                by_cases hcompat : areCompatibleArrayTypes t o.finalType = true
                · rw [if_pos hcompat] at h
                  rw [hcompat, Bool.true_and]
                  exact hstep h
                · rw [if_neg hcompat] at h
                  rw [Bool.eq_false_iff.mpr hcompat, Bool.false_and]
                  split at h
                  · cases h
                  · cases h
                    exact ⟨hkept, hframe, rfl⟩

/-! ## Operators and references -/

variable {m₀ : Memory}

/-- What a node starts from is what its value is computed from. -/
theorem Begun.of_frame (hbegun : g.Begun i m₀) {m₁ : Memory}
    (hframe : ∀ j, i ≤ j → m₁.value j = m₀.value j) :
    (m₁.value i).isEvaluated = true ∧ SameStart (m₁.value i) (g.begun i) := by
  rw [hframe i le_rfl]
  exact ⟨hbegun.evaluated, hbegun.start⟩

/-- A call for an operand. -/
theorem EvaluatesParts.operand (ih : g.EvaluatesParts i) {c : ℕ}
    (hc : c ∈ (g.node i).kind.operands) {m₁ m₂ : Memory} (hm : g.AgreesBelow i m₁)
    (hchecked : g.Checked m₁ c) (h : g.evaluate c m₁ = .ok (b, m₂)) :
    g.EvaluateSpec c m₁ b m₂ :=
  have hlt : c < i := lt_of_mem_operands hc
  ih c (mem_children_of_mem_operands hc) m₁ b m₂ (fun j hj => hm j (by omega)) hchecked h

/-- The operands of a node are evaluated, and a failure says that the node has no value. -/
structure OperandsEvaluated (g : ConstGraph) (i : ℕ) (m : Memory) (success : Bool) (m₁ : Memory) :
    Prop where
  kept : g.Extends i m m₁
  frame : ∀ j, i ≤ j → m₁.value j = m.value j
  evaluated : ∀ c ∈ (g.node i).kind.operands, (m₁.value c).isEvaluated = true
  fails : success = false → g.outcomeOf i = none

/-- What an operand remembers. -/
theorem OperandsEvaluated.result {success : Bool} {m₁ : Memory}
    (h : g.OperandsEvaluated i m success m₁) (hm : g.AgreesBelow i m) {c : ℕ}
    (hc : c ∈ (g.node i).kind.operands) : (m₁.value c).result = g.outcomeOf c :=
  (h.kept.agrees hm c (lt_of_mem_operands hc)).result (h.evaluated c hc)

/-- The operand of a unary operator. -/
theorem evaluateOperand_spec (ih : g.EvaluatesParts i) {op : UnaryOp} {operand : ℕ}
    (hk : (g.node i).kind = .unary op operand) (hbegun : g.Begun i m₀) {m₁ : Memory}
    (h : evaluateOperand g.evaluate i operand m₀ = .ok (b, m₁)) :
    g.OperandsEvaluated i m₀ b m₁ := by
  have hmem : operand ∈ (g.node i).kind.operands := by rw [hk]; exact List.mem_cons_self
  have hsingle {p : ℕ → Prop} (hp : p operand) : ∀ c ∈ (g.node i).kind.operands, p c :=
    fun c hc => by
      rw [hk] at hc
      obtain rfl := List.mem_singleton.mp hc
      exact hp
  unfold evaluateOperand at h
  by_cases he : (m₀.value operand).isEvaluated = true
  · rw [if_pos he] at h
    cases h
    exact ⟨.refl _, fun _ _ => rfl, hsingle he, nofun⟩
  · rw [if_neg he] at h
    obtain ⟨⟨b₁, m₂⟩, hcall, heq⟩ := bind_eq_ok_iff.mp h
    cases heq
    have hlt : operand < i := lt_of_mem_operands hmem
    have hspec := ih.operand hmem hbegun.below (hbegun.operands operand hmem) hcall
    refine ⟨hspec.below hlt, fun j hj => hspec.frame j (by omega), hsingle hspec.evaluated,
      fun hfalse => ?_⟩
    by_contra hne
    rw [hbegun.valid hne, hspec.answer, Bool.true_and] at hfalse
    exact ne_none_of_operand hmem hne
      (Option.isNone_iff_eq_none.mp (Option.isSome_eq_false_iff.mp hfalse))

/-- **Unary operators.** -/
theorem evaluateUnary_spec (ih : g.EvaluatesParts i) {op : UnaryOp} {operand : ℕ}
    (hk : (g.node i).kind = .unary op operand) (hbegun : g.Begun i m₀)
    (h : evaluateUnary g.evaluate i op operand m₀ = .ok (b, m')) : g.Ended i m₀ b m' := by
  have hmem : operand ∈ (g.node i).kind.operands := by rw [hk]; exact List.mem_cons_self
  unfold evaluateUnary at h
  obtain ⟨⟨success, m₁⟩, hoperand, h⟩ := bind_eq_ok_iff.mp h
  have hspec := evaluateOperand_spec ih hk hbegun hoperand
  obtain ⟨hevaluated, hstart⟩ := hbegun.of_frame hspec.frame
  cases success with
  | false =>
      cases h
      have hnone := hspec.fails rfl
      exact .of_modify hspec.kept hspec.frame hevaluated (by rw [hnone]; rfl) (by rw [hnone]; rfl)
  | true =>
      dsimp only at h
      rw [Bool.not_true, if_neg Bool.false_ne_true] at h
      split at h
      · cases h
      cases h
      have hvalue : (applyUnary (m₁.value i) op (m₁.value operand)).result = g.outcomeOf i := by
        have hresult := hspec.result hbegun.below hmem
        rw [outcomeOf_unary hk]
        cases ho : g.outcomeOf operand with
        | none =>
            rw [ho] at hresult
            exact result_applyUnary_of_invalid (ValueState.result_eq_none_iff.mp hresult) op
        | some o =>
            rw [ho] at hresult
            rw [ValueState.eq_state (hspec.evaluated operand hmem) hresult]
            exact result_applyUnary hstart op o.state
      refine .of_modify hspec.kept hspec.frame ?_ hvalue ?_
      · rw [isEvaluated_applyUnary, hevaluated]
      · rw [m₁.value_modify_self, ← ValueState.isSome_result, hvalue]

/-- The operands of a binary operator. -/
theorem evaluateOperands_spec (ih : g.EvaluatesParts i) {left right : ℕ} {op : BinaryOp}
    (hk : (g.node i).kind = .binary left op right) (hbegun : g.Begun i m₀) {m₂ : Memory}
    (h : evaluateOperands g.evaluate i left right m₀ = .ok (b, m₂)) :
    g.OperandsEvaluated i m₀ b m₂ := by
  have hl : left ∈ (g.node i).kind.operands := by rw [hk]; exact List.mem_cons_self
  have hr : right ∈ (g.node i).kind.operands := by
    rw [hk]
    exact List.mem_cons_of_mem _ List.mem_cons_self
  have hpair {p : ℕ → Prop} (hpl : p left) (hpr : p right) :
      ∀ c ∈ (g.node i).kind.operands, p c := fun c hc => by
    rw [hk] at hc
    rcases List.mem_pair.mp hc with rfl | rfl
    · exact hpl
    · exact hpr
  unfold evaluateOperands at h
  by_cases he : ((m₀.value left).isEvaluated && (m₀.value right).isEvaluated) = true
  · rw [if_pos he] at h
    cases h
    obtain ⟨hel, her⟩ := Bool.and_eq_true_iff.mp he
    exact ⟨.refl _, fun _ _ => rfl, hpair hel her, nofun⟩
  · rw [if_neg he] at h
    obtain ⟨⟨b₁, m₁⟩, hcall₁, h⟩ := bind_eq_ok_iff.mp h
    obtain ⟨⟨b₂, m₂⟩, hcall₂, h⟩ := bind_eq_ok_iff.mp h
    cases h
    have hlt₁ : left < i := lt_of_mem_operands hl
    have hlt₂ : right < i := lt_of_mem_operands hr
    have hspec₁ := ih.operand hl hbegun.below (hbegun.operands left hl) hcall₁
    have hkept₁ := hspec₁.below hlt₁
    have hspec₂ := ih.operand hr (hkept₁.agrees hbegun.below)
      ((hbegun.operands right hr).mono hkept₁ hlt₂) hcall₂
    have hkept₂ := hspec₂.below hlt₂
    refine ⟨hkept₁.trans hkept₂,
      fun j hj => (hspec₂.frame j (by omega)).trans (hspec₁.frame j (by omega)),
      hpair ?_ hspec₂.evaluated, fun hfalse => ?_⟩
    · -- the left operand stays evaluated
      rw [hkept₂.evaluated left hlt₁ hspec₁.evaluated]
      exact hspec₁.evaluated
    · by_contra hne
      have hb₁ := hspec₁.answer.trans (Option.isSome_iff_ne_none.mpr (ne_none_of_operand hl hne))
      have hb₂ := hspec₂.answer.trans (Option.isSome_iff_ne_none.mpr (ne_none_of_operand hr hne))
      rw [hbegun.valid hne, hb₁, hb₂] at hfalse
      cases hfalse

/-- **Binary operators.** -/
theorem evaluateBinary_spec (ih : g.EvaluatesParts i) {left right : ℕ} {op : BinaryOp}
    (hk : (g.node i).kind = .binary left op right) (hbegun : g.Begun i m₀)
    (h : evaluateBinary g.evaluate i left op right m₀ = .ok (b, m')) : g.Ended i m₀ b m' := by
  have hl : left ∈ (g.node i).kind.operands := by rw [hk]; exact List.mem_cons_self
  have hr : right ∈ (g.node i).kind.operands := by
    rw [hk]
    exact List.mem_cons_of_mem _ List.mem_cons_self
  unfold evaluateBinary at h
  obtain ⟨⟨success, m₁⟩, hoperands, h⟩ := bind_eq_ok_iff.mp h
  have hspec := evaluateOperands_spec ih hk hbegun hoperands
  obtain ⟨hevaluated, hstart⟩ := hbegun.of_frame hspec.frame
  -- an operand that has no outcome leaves the node without one
  cases success with
  | false =>
      cases h
      have hnone := hspec.fails rfl
      exact .of_modify hspec.kept hspec.frame hevaluated (by rw [hnone]; rfl) (by rw [hnone]; rfl)
  | true =>
      dsimp only at h
      rw [Bool.not_true, if_neg Bool.false_ne_true] at h
      split at h
      · cases h
      cases h
      have hvalue : (applyBinary (m₁.value i) op (m₁.value left) (m₁.value right)).result
          = g.outcomeOf i := by
        -- both operands are evaluated, so that they have their outcomes
        have hresult₁ := hspec.result hbegun.below hl
        have hresult₂ := hspec.result hbegun.below hr
        rw [outcomeOf_binary hk]
        cases ho₁ : g.outcomeOf left with
        | none =>
            rw [ho₁] at hresult₁
            exact result_applyBinary_of_invalid
              (.inl (ValueState.result_eq_none_iff.mp hresult₁)) op
        | some o₁ =>
            cases ho₂ : g.outcomeOf right with
            | none =>
                rw [ho₂] at hresult₂
                exact result_applyBinary_of_invalid
                  (.inr (ValueState.result_eq_none_iff.mp hresult₂)) op
            | some o₂ =>
                rw [ho₁] at hresult₁
                rw [ho₂] at hresult₂
                rw [ValueState.eq_state (hspec.evaluated left hl) hresult₁,
                  ValueState.eq_state (hspec.evaluated right hr) hresult₂]
                exact result_applyBinary hstart op o₁.state o₂.state
      refine .of_modify hspec.kept hspec.frame ?_ hvalue ?_
      · rw [isEvaluated_applyBinary, hevaluated]
      · rw [m₁.value_modify_self, ← ValueState.isSome_result, hvalue]

/-- **References.** -/
theorem evaluateRef_spec (ih : g.EvaluatesParts i) {resolved : ℕ}
    (hk : (g.node i).kind = .ref resolved) (hbegun : g.Begun i m₀) {b₁ : Bool} {m₁ : Memory}
    (h : g.evaluate resolved m₀ = .ok (b₁, m₁)) :
    g.Ended i m₀ (applyRef (m₁.value i) (m₁.value resolved)).isValid
      (m₁.modify i fun s => applyRef s (m₁.value resolved)) := by
  have hmem : resolved ∈ (g.node i).kind.operands := by rw [hk]; exact List.mem_cons_self
  have hlt : resolved < i := lt_of_mem_operands hmem
  have hspec := ih.operand hmem hbegun.below (hbegun.operands resolved hmem) h
  have hframe : ∀ j, i ≤ j → m₁.value j = m₀.value j := fun j hj => hspec.frame j (by omega)
  obtain ⟨hevaluated, hstart⟩ := hbegun.of_frame hframe
  have hresult := hspec.result fun j hj => hbegun.below j (by omega)
  have hvalue : (applyRef (m₁.value i) (m₁.value resolved)).result = g.outcomeOf i := by
    rw [outcomeOf_ref hk]
    cases ho : g.outcomeOf resolved with
    | none =>
        rw [ho] at hresult
        exact result_applyRef_of_invalid (ValueState.result_eq_none_iff.mp hresult)
    | some o =>
        rw [ho] at hresult
        rw [ValueState.eq_state hspec.evaluated hresult]
        exact result_applyRef hstart o.state
  refine .of_modify (hspec.below hlt) hframe hevaluated hvalue ?_
  rw [← ValueState.isSome_result, hvalue]

/-! ## Nodes -/

/-- A literal is evaluated. -/
theorem Ended.of_literal {f : ValueState → ValueState} {o : Outcome} (hbegun : g.Begun i m₀)
    (hvalue : g.outcomeOf i = some o) (hvalid : (f (m₀.value i)).isValid = (m₀.value i).isValid)
    (hevaluated : (f (m₀.value i)).isEvaluated = (m₀.value i).isEvaluated)
    (houtcome : (f (m₀.value i)).outcome = o) : g.Ended i m₀ true (m₀.modify i f) := by
  refine .of_modify (.refl m₀) (fun _ _ => rfl) (hevaluated.trans hbegun.evaluated) ?_
    (by rw [hvalue]; rfl)
  have hv : (f (m₀.value i)).isValid = true :=
    hvalid.trans (hbegun.valid (by rw [hvalue]; exact Option.some_ne_none o))
  rw [hvalue, ValueState.result, if_pos hv, houtcome]

/-- **Nodes of all kinds.** -/
theorem evaluateNode_spec (hg : g.ArraysEvaluate i) (ih : g.EvaluatesParts i)
    (hbegun : g.Begun i m₀) (h : g.evaluateNode g.evaluate i m₀ = .ok (b, m')) :
    g.Ended i m₀ b m' := by
  obtain ⟨hvalue, hstring⟩ := hbegun.start
  unfold evaluateNode at h
  cases hk : (g.node i).kind with
  | error =>
      rw [hk] at h
      cases h
  | literal lit =>
      rw [hk] at h
      cases h
      refine .of_literal hbegun (by rw [outcomeOf_eq, outcomeBody, hk]) rfl rfl ?_
      simp only [ValueState.outcome, hvalue, hstring, begun, ConstNode.initial, hk]
      split <;> rfl
  | character =>
      rw [hk] at h
      cases h
      refine .of_literal hbegun (by rw [outcomeOf_eq, outcomeBody, hk]) rfl rfl ?_
      simp only [ValueState.outcome, hvalue, begun, ConstNode.initial, hk]
  | string =>
      rw [hk] at h
      cases h
      refine .of_literal hbegun (by rw [outcomeOf_eq, outcomeBody, hk]) rfl rfl ?_
      simp only [ValueState.outcome, hvalue, begun, ConstNode.initial, hk]
  | floating =>
      rw [hk] at h
      cases h
      refine .of_literal hbegun (by rw [outcomeOf_eq, outcomeBody, hk]) rfl rfl ?_
      simp only [ValueState.outcome, hvalue, hstring, begun, ConstNode.initial, hk]
  | array values =>
      rw [hk] at h
      obtain ⟨⟨success, m₁⟩, hloop, h⟩ := bind_eq_ok_iff.mp h
      have hchild : ∀ v ∈ values, v ∈ (g.node i).kind.children := fun v hv => by rwa [hk]
      obtain ⟨hkept, hframe, hsuccess⟩ := evaluateElements_spec hg hchild ih hbegun.below hloop
      have houtcome := outcomeOf_array hk
      rw [← hsuccess] at houtcome
      cases success with
      | true =>
          cases h
          have hsome := houtcome.trans (if_pos rfl)
          have hi := hframe i le_rfl
          refine .of_modify hkept hframe (by rw [hi]; exact hbegun.evaluated) ?_
            (by rw [hsome]; rfl)
          have hvalid := hbegun.valid (by rw [hsome]; exact Option.some_ne_none _)
          rw [hsome, hi]
          simp only [ValueState.result, ValueState.outcome, hvalid, hvalue, hstring, begun,
            ConstNode.initial, hk, if_true]
      | false =>
          -- the array was found invalid by `CheckValid`, since it has an ill-formed element
          cases h
          have hnone := houtcome.trans (if_neg Bool.false_ne_true)
          have hi := hframe i le_rfl
          exact {
            kept := hkept
            frame := fun j hj => hframe j (by omega)
            evaluated := by rw [hi]; exact hbegun.evaluated
            result := by
              rw [hi, hnone]
              exact ValueState.result_eq_none_iff.mpr (hbegun.array values hk hnone)
            answer := by rw [hnone]; rfl }
  | unary op operand =>
      rw [hk] at h
      exact evaluateUnary_spec ih hk hbegun h
  | binary left op right =>
      rw [hk] at h
      exact evaluateBinary_spec ih hk hbegun h
  | ref resolved =>
      rw [hk] at h
      obtain ⟨⟨b₁, m₁⟩, hcall, h⟩ := bind_eq_ok_iff.mp h
      have hspec := evaluateRef_spec ih hk hbegun hcall
      cases h
      rw [m₁.value_modify_self]
      exact hspec

/-- **The calls of `evaluate`** for nodes whose arrays have values. -/
theorem evaluate_spec {i : ℕ} (hg : g.ArraysEvaluate i) {m : Memory} (hm : g.AgreesBelow (i + 1) m)
    (hchecked : g.Checked m i) (h : g.evaluate i m = .ok (b, m')) : g.EvaluateSpec i m b m' := by
  induction i using Nat.strong_induction_on generalizing m b m' with
  | h i ih =>
  have hih : g.EvaluatesParts i := fun c hc m b m' hm hchecked h =>
    ih c (lt_of_mem_children hc) (hg.child hc) hm hchecked h
  have hagrees := hm i (Nat.lt_succ_self i)
  rw [evaluate_eq] at h
  obtain ⟨⟨success, m₁⟩, honce, h⟩ := bind_eq_ok_iff.mp h
  cases h
  refine EvaluateSpec.report ?_ hm
  unfold evaluateOnce at honce
  -- a node that was evaluated before answers from what it has
  by_cases he : (m.value i).isEvaluated = true
  · rw [if_pos he] at honce
    cases honce
    exact {
      kept := .refl _, frame := fun _ _ => rfl, evaluated := he
      answer := by rw [← hagrees.result he, ValueState.isSome_result] }
  · rw [if_neg he] at honce
    have hun := Bool.eq_false_iff.mpr he
    obtain ⟨hvalid, hoperands⟩ : (g.outcomeOf i ≠ none → (m.value i).isValid = true)
        ∧ ∀ c ∈ (g.node i).kind.operands, g.Checked m c := by
      cases hchecked with
      | evaluated h => exact absurd h he
      | checked hvalid hoperands => exact ⟨hvalid, hoperands⟩
    -- the mark is set first, so that the node is evaluated once only
    set m₀ := m.modify i fun s => { s with isEvaluated := true } with hm₀
    have hi : m₀.value i = { m.value i with isEvaluated := true } := m.value_modify_self
    have hkept₀ : g.Extends i m m₀ := .modify m le_rfl _
    have hbegun : g.Begun i m₀ :=
      { below := hkept₀.agrees fun j hj => hm j (by omega)
        evaluated := by rw [hi]
        start := by
          rw [hi]
          exact ⟨(hagrees.start hun).value, (hagrees.start hun).string⟩
        valid := fun hv => by rw [hi]; exact hvalid hv
        operands := fun c hc => (hoperands c hc).mono hkept₀ (lt_of_mem_operands hc)
        array := fun values hk hnone => by rw [hi]; exact hagrees.array hun values hk hnone }
    have hended := evaluateNode_spec hg hih hbegun honce
    -- the node is evaluated now, and what is said of other nodes is void
    have hagrees₁ : g.NodeAgrees i (m₁.value i) :=
      { result := fun _ => hended.result
        start := fun h => by rw [hended.evaluated] at h; cases h
        type := fun h => by rw [hended.evaluated] at h; cases h
        array := fun h => by rw [hended.evaluated] at h; cases h }
    exact {
      kept := (hkept₀.trans hended.kept).succ hagrees₁ (fun h => absurd h he) fun hv _ => by
        rw [← ValueState.isSome_result, hended.result]
        exact Option.isSome_iff_ne_none.mpr hv
      frame := fun j hj => (hended.frame j hj).trans (m.value_modify_of_ne (by omega))
      evaluated := hended.evaluated
      answer := hended.answer }

end ConstGraph

end AndroidSdk.Aidl
