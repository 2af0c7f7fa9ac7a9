import AndroidSdk.Aidl.ConstGraphValues

/-! # Checking constant values

What `CheckValid` does to a memory that agrees with the values of the nodes.

* **`ConstGraph.CheckSpec`** — it evaluates nothing, passes a node with a value and fails an
  ill-formed one.
* **`ConstGraph.checkValid_spec`** — this holds of every call, if the arrays have values. -/

namespace AndroidSdk.Aidl

namespace ConstGraph

variable {g : ConstGraph} {i : ℕ} {m m' m'' : Memory}

/-! ## What a call does -/

/-- **What `CheckValid` does**: it evaluates nothing, passes a node with a value and fails an
ill-formed one. -/
structure CheckSpec (g : ConstGraph) (i : ℕ) (m : Memory) (r : Bool × Memory) : Prop where
  kept : g.Extends (i + 1) m r.2
  frame : ∀ j, i < j → r.2.value j = m.value j
  flags : ∀ j, (r.2.value j).isEvaluated = (m.value j).isEvaluated
  checked : g.Checked r.2 i
  passes : g.outcomeOf i ≠ none → r.1 = true
  fails : g.Malformed i → r.1 = false

/-- **What is done inside a call of `CheckValid` for a node**: smaller nodes are checked, and its
own flag and type are changed. -/
structure Within (g : ConstGraph) (i : ℕ) (m m' : Memory) : Prop where
  kept : g.Extends i m m'
  frame : ∀ j, i < j → m'.value j = m.value j
  flags : ∀ j, (m'.value j).isEvaluated = (m.value j).isEvaluated
  start : SameStart (m'.value i) (m.value i)

namespace Within

/-- Nothing is done. -/
theorem refl (m : Memory) : g.Within i m m where
  kept := .refl m
  frame _ _ := rfl
  flags _ := rfl
  start := ⟨rfl, rfl⟩

/-- One step after another. -/
theorem trans (h : g.Within i m m') (h' : g.Within i m' m'') : g.Within i m m'' where
  kept := h.kept.trans h'.kept
  frame j hj := (h'.frame j hj).trans (h.frame j hj)
  flags j := (h'.flags j).trans (h.flags j)
  start := ⟨h'.start.value.trans h.start.value, h'.start.string.trans h.start.string⟩

/-- A change of the flag or the type of the node. -/
theorem modify (m : Memory) {f : ValueState → ValueState}
    (hf : ∀ s, (f s).isEvaluated = s.isEvaluated) (hstart : ∀ s, SameStart (f s) s) :
    g.Within i m (m.modify i f) where
  kept := .modify m le_rfl f
  frame j hj := m.value_modify_of_ne (by omega)
  flags j := by
    by_cases hj : j = i
    · rw [hj, m.value_modify_self, hf]
    · rw [m.value_modify_of_ne hj]
  start := by
    rw [m.value_modify_self]
    exact hstart _

end Within

/-- A call for a smaller node. -/
theorem CheckSpec.within {c : ℕ} {r : Bool × Memory} (h : g.CheckSpec c m r) (hc : c < i) :
    g.Within i m r.2 where
  kept := h.kept.mono hc fun j hj => h.frame j hj
  frame j hj := h.frame j (by omega)
  flags := h.flags
  start := by
    rw [h.frame i hc]
    exact ⟨rfl, rfl⟩

/-- What makes up a call for a node that is not evaluated. -/
theorem CheckSpec.of_node {b : Bool} (hm : g.AgreesBelow (i + 1) m)
    (hun : (m.value i).isEvaluated = false) (hw : g.Within i m m')
    (htype : g.outcomeOf i ≠ none → (m'.value i).finalType = (m.value i).finalType)
    (hvalid : g.outcomeOf i ≠ none → (m'.value i).isValid = true)
    (harray : ∀ values, (g.node i).kind = .array values → g.outcomeOf i = none →
      (m'.value i).isValid = false)
    (hoperands : ∀ c ∈ (g.node i).kind.operands, g.Checked m' c)
    (hpasses : g.outcomeOf i ≠ none → b = true) (hfails : g.Malformed i → b = false) :
    g.CheckSpec i m (b, m') := by
  have hagrees := hm i (Nat.lt_succ_self i)
  have hun' : (m'.value i).isEvaluated = false := by rw [hw.flags i, hun]
  have hagrees' : g.NodeAgrees i (m'.value i) :=
    { result := fun he => by rw [hun'] at he; cases he
      start := fun _ => ⟨hw.start.value.trans (hagrees.start hun).value,
        hw.start.string.trans (hagrees.start hun).string⟩
      type := fun _ hv => (htype hv).trans (hagrees.type hun hv)
      array := fun _ => harray }
  exact {
    kept := hw.kept.succ hagrees' (fun he => by rw [hun] at he; cases he) fun hv _ => hvalid hv
    frame := hw.frame
    flags := hw.flags
    checked := .checked hvalid hoperands
    passes := hpasses
    fails := hfails }

/-! ## Literals and arrays -/

/-- What the loop over the elements of an array does. -/
structure ElementsChecked (g : ConstGraph) (i : ℕ) (values : List ℕ) (m m' : Memory) : Prop where
  within : g.Within i m m'
  type : (m'.value i).finalType = (m.value i).finalType
  keeps : (m'.value i).isValid = true → (m.value i).isValid = true
  passes : (∀ v ∈ values, g.outcomeOf v ≠ none) → (m.value i).isValid = true →
    (m'.value i).isValid = true
  fails : (∃ v ∈ values, g.Malformed v) → (m'.value i).isValid = false

/-- The loop over the elements of an array. -/
theorem checkElements_spec {values : List ℕ} (hlt : ∀ v ∈ values, v < i)
    (hcheck : ∀ v ∈ values, ∀ m, g.AgreesBelow (v + 1) m → g.CheckSpec v m (g.checkValid v m))
    (hm : g.AgreesBelow i m) :
    g.ElementsChecked i values m (checkElements g.checkValid i values m) := by
  induction values generalizing m with
  | nil =>
      exact {
        within := .refl m, type := rfl, keeps := id, passes := fun _ => id
        fails := fun ⟨v, hv, _⟩ => absurd hv List.not_mem_nil }
  | cons v values ih =>
      obtain ⟨hv, hrest⟩ := List.forall_mem_cons.mp hlt
      have hspec := hcheck v List.mem_cons_self m fun j hj => hm j (by omega)
      rw [checkElements]
      generalize g.checkValid v m = r at hspec ⊢
      -- the flag of the array is changed between the calls for the elements
      set m₁ := r.2.modify i fun s => { s with isValid := s.isValid && r.1 } with hm₁
      have hw₁ : g.Within i m m₁ :=
        (hspec.within hv).trans (.modify r.2 (fun _ => rfl) fun _ => ⟨rfl, rfl⟩)
      have hi₁ : m₁.value i = { m.value i with isValid := (m.value i).isValid && r.1 } := by
        rw [hm₁, Memory.value_modify_self, hspec.frame i hv]
      have hih := ih hrest (fun w hw => hcheck w (List.mem_cons_of_mem v hw)) (hw₁.kept.agrees hm)
      have hkeeps (h : ((checkElements g.checkValid i values m₁).value i).isValid = true) :
          (m.value i).isValid = true ∧ r.1 = true := by
        have hvalid₁ := hih.keeps h
        rw [hi₁] at hvalid₁
        exact Bool.and_eq_true_iff.mp hvalid₁
      exact {
        within := hw₁.trans hih.within
        type := by rw [hih.type, hi₁]
        keeps := fun hvalid => (hkeeps hvalid).1
        passes := fun hvalues hvalid => by
          obtain ⟨hvalue, hvalues⟩ := List.forall_mem_cons.mp hvalues
          refine hih.passes hvalues ?_
          rw [hi₁]
          exact Bool.and_eq_true_iff.mpr ⟨hvalid, hspec.passes hvalue⟩
        fails := by
          rintro ⟨w, hw, hbad⟩
          rcases List.mem_cons.mp hw with rfl | hw
          · -- once false, the flag stays so
            refine Bool.eq_false_iff.mpr fun hvalid => ?_
            rw [hspec.fails hbad] at hkeeps
            cases (hkeeps hvalid).2
          · exact hih.fails ⟨w, hw, hbad⟩ }

/-- A literal that is not ill-formed. -/
theorem CheckSpec.of_literal (hm : g.AgreesBelow (i + 1) m) (hun : (m.value i).isEvaluated = false)
    (hsome : g.outcomeOf i ≠ none) (hnot_array : ∀ values, (g.node i).kind ≠ .array values)
    (hoperands : (g.node i).kind.operands = []) :
    g.CheckSpec i m (true, m.modify i fun s => { s with isValid := true }) := by
  refine .of_node hm hun (.modify m (fun _ => rfl) fun _ => ⟨rfl, rfl⟩) (fun _ => ?_)
    (fun _ => ?_) (fun values h => absurd h (hnot_array values))
    (fun c hc => by rw [hoperands] at hc; exact nomatch hc) (fun _ => rfl)
    fun hbad => absurd hbad.outcomeOf_eq_none hsome
  · rw [m.value_modify_self]
  · rw [m.value_modify_self]

/-- **Arrays.** -/
theorem CheckSpec.of_array {values : List ℕ} (hg : g.ArraysEvaluate i)
    (hk : (g.node i).kind = .array values) (hm : g.AgreesBelow (i + 1) m)
    (hun : (m.value i).isEvaluated = false)
    (hcheck : ∀ v ∈ values, ∀ m, g.AgreesBelow (v + 1) m → g.CheckSpec v m (g.checkValid v m)) :
    g.CheckSpec i m (true, checkElements g.checkValid i values
      (m.modify i fun s => { s with isValid := true })) := by
  set m₀ := m.modify i fun s => { s with isValid := true } with hm₀
  have hw₀ : g.Within i m m₀ := .modify m (fun _ => rfl) fun _ => ⟨rfl, rfl⟩
  have hlt : ∀ v ∈ values, v < i := fun v hv => g.children_lt i v (by rw [hk]; exact hv)
  have hloop := checkElements_spec hlt hcheck (hw₀.kept.agrees fun j hj => hm j (by omega))
  refine .of_node hm hun (hw₀.trans hloop.within) (fun _ => ?_) (fun hv => ?_)
    (fun values' hk' hnone => ?_) (fun c hc => by rw [hk] at hc; exact nomatch hc)
    (fun _ => rfl) fun hbad => ?_
  · rw [hloop.type, hm₀, m.value_modify_self]
  · refine hloop.passes (ne_none_of_mem_array hk hv) ?_
    rw [hm₀, m.value_modify_self]
  · -- an array without a value has an ill-formed element
    refine hloop.fails ?_
    by_contra hall
    have hsome := hg i .refl values hk fun v hv hbad => hall ⟨v, hv, hbad⟩
    rw [hnone] at hsome
    cases hsome
  · obtain ⟨c, hc, -⟩ := hbad.exists_operand (by rw [hk]; exact NodeKind.noConfusion)
    rw [hk] at hc
    exact nomatch hc

/-! ## Operators and references -/

section Operand

variable {c : ℕ} {b : Bool} {m₁ : Memory}

/-- A node with one operand is not an array. -/
theorem ne_array_of_operands {values : List ℕ} (hoperands : (g.node i).kind.operands ≠ []) :
    (g.node i).kind ≠ .array values := by
  intro h
  rw [h] at hoperands
  exact hoperands rfl

/-- An ill-formed node with one operand has an ill-formed operand. -/
theorem Malformed.of_operands_eq (h : g.Malformed i) (hoperands : (g.node i).kind.operands = [c]) :
    g.Malformed c := by
  cases h with
  | error h =>
      rw [h] at hoperands
      cases hoperands
  | operand hc h =>
      rw [hoperands] at hc
      rwa [List.mem_singleton.mp hc] at h

/-- **A node with one operand**, of which the flag is set to the answer for the operand. -/
theorem CheckSpec.of_operand {f : ValueState → ValueState}
    (hoperands : (g.node i).kind.operands = [c]) (hm : g.AgreesBelow (i + 1) m)
    (hun : (m.value i).isEvaluated = false) (hcheck : g.CheckSpec c m (b, m₁))
    (hf : ∀ s, (f s).isEvaluated = s.isEvaluated) (hstart : ∀ s, SameStart (f s) s)
    (hvalid : ∀ s, (f s).isValid = b) (htype : b = true → ∀ s, (f s).finalType = s.finalType) :
    g.CheckSpec i m (b, m₁.modify i f) := by
  have hmem : c ∈ (g.node i).kind.operands := by rw [hoperands]; exact List.mem_cons_self
  have hc : c < i := lt_of_mem_operands hmem
  have hpasses : g.outcomeOf i ≠ none → b = true := fun hv =>
    hcheck.passes (ne_none_of_operand hmem hv)
  refine .of_node hm hun ((hcheck.within hc).trans (.modify m₁ hf hstart)) (fun hv => ?_)
    (fun hv => ?_) (fun values h => absurd h (ne_array_of_operands (by rw [hoperands]; simp)))
    (fun d hd => ?_) hpasses fun hbad => hcheck.fails (hbad.of_operands_eq hoperands)
  · rw [m₁.value_modify_self, htype (hpasses hv), hcheck.frame i hc]
  · rw [m₁.value_modify_self, hvalid]
    exact hpasses hv
  · rw [hoperands] at hd
    rw [List.mem_singleton.mp hd]
    exact hcheck.checked.mono (.modify m₁ le_rfl f) hc

end Operand

/-- An operand that is checked before a binary operator. -/
structure OperandChecked (g : ConstGraph) (i c : ℕ) (m m' : Memory) : Prop where
  within : g.Within i m m'
  checked : g.Checked m' c
  type : (m'.value i).finalType = (m.value i).finalType ∨ (m'.value i).finalType = .error
  passes : g.outcomeOf c ≠ none → (m'.value i).finalType = (m.value i).finalType
  fails : g.Malformed c → (m'.value i).finalType = .error

/-- `CheckValid` for an operand of a binary operator. -/
theorem checkOperand_spec {c : ℕ} (hc : c < i) (hspec : g.CheckSpec c m (g.checkValid c m)) :
    g.OperandChecked i c m (checkOperand g.checkValid i c m) := by
  unfold checkOperand
  generalize g.checkValid c m = r at hspec ⊢
  obtain ⟨b, m₁⟩ := r
  have hi : m₁.value i = m.value i := hspec.frame i hc
  cases b with
  | true =>
      exact {
        within := hspec.within hc
        checked := hspec.checked
        type := .inl (by rw [if_pos rfl, hi])
        passes := fun _ => by rw [if_pos rfl, hi]
        fails := fun h => nomatch hspec.fails h }
  | false =>
      have hw : g.Within i m₁ (m₁.modify i fun s => { s with finalType := .error }) :=
        .modify m₁ (fun _ => rfl) fun _ => ⟨rfl, rfl⟩
      exact {
        within := (hspec.within hc).trans hw
        checked := hspec.checked.mono hw.kept hc
        type := .inr (by rw [if_neg Bool.false_ne_true, m₁.value_modify_self])
        passes := fun h => nomatch hspec.passes h
        fails := fun _ => by rw [if_neg Bool.false_ne_true, m₁.value_modify_self] }

/-- **Binary operators.** -/
theorem CheckSpec.of_binary {left right : ℕ} {op : BinaryOp}
    (hk : (g.node i).kind = .binary left op right) (hm : g.AgreesBelow (i + 1) m)
    (hun : (m.value i).isEvaluated = false) {m₁ m₂ : Memory}
    (hl : g.OperandChecked i left m m₁) (hr : g.OperandChecked i right m₁ m₂) :
    g.CheckSpec i m (if (m₂.value i).finalType = .error then
      (false, m₂.modify i fun s => { s with isValid := false })
      else (true, m₂.modify i fun s => { s with isValid := true })) := by
  have hagrees := hm i (Nat.lt_succ_self i)
  have hleft : left ∈ (g.node i).kind.operands := by rw [hk]; exact List.mem_cons_self
  have hright : right ∈ (g.node i).kind.operands := by
    rw [hk]
    exact List.mem_cons_of_mem _ List.mem_cons_self
  have hw : g.Within i m m₂ := hl.within.trans hr.within
  -- the type of a node with a value has not become that of errors
  have htype (hv : g.outcomeOf i ≠ none) : (m₂.value i).finalType = (m.value i).finalType :=
    (hr.passes (ne_none_of_operand hright hv)).trans (hl.passes (ne_none_of_operand hleft hv))
  have hne (hv : g.outcomeOf i ≠ none) : (m₂.value i).finalType ≠ .error := by
    rw [htype hv, hagrees.type hun hv, hk]
    exact ConstType.noConfusion
  have hfails (hbad : g.Malformed i) : (m₂.value i).finalType = .error := by
    obtain ⟨c, hc, hbad⟩ := hbad.exists_operand (by rw [hk]; exact NodeKind.noConfusion)
    rw [hk] at hc
    rcases List.mem_pair.mp hc with rfl | rfl
    · exact hr.type.elim (fun h => h.trans (hl.fails hbad)) id
    · exact hr.fails hbad
  have hoperands {f : ValueState → ValueState} :
      ∀ c ∈ (g.node i).kind.operands, g.Checked (m₂.modify i f) c := fun c hmem => by
    have hm₂ : g.Extends i m₂ (m₂.modify i f) := .modify m₂ le_rfl f
    have hlt := lt_of_mem_operands hmem
    rw [hk] at hmem
    rcases List.mem_pair.mp hmem with rfl | rfl
    · exact hl.checked.mono (hr.within.kept.trans hm₂) hlt
    · exact hr.checked.mono hm₂ hlt
  have hnot_array : ∀ values, (g.node i).kind ≠ .array values := fun values =>
    ne_array_of_operands (by rw [hk]; exact List.cons_ne_nil _ _)
  by_cases herror : (m₂.value i).finalType = .error
  · rw [if_pos herror]
    exact .of_node hm hun (hw.trans (.modify m₂ (fun _ => rfl) fun _ => ⟨rfl, rfl⟩))
      (fun hv => absurd herror (hne hv)) (fun hv => absurd herror (hne hv))
      (fun values h => absurd h (hnot_array values)) hoperands
      (fun hv => absurd herror (hne hv)) fun _ => rfl
  · rw [if_neg herror]
    refine .of_node hm hun (hw.trans (.modify m₂ (fun _ => rfl) fun _ => ⟨rfl, rfl⟩))
      (fun hv => ?_) (fun _ => ?_) (fun values h => absurd h (hnot_array values)) hoperands
      (fun _ => rfl) fun hbad => absurd (hfails hbad) herror
    · rw [m₂.value_modify_self]
      exact htype hv
    · rw [m₂.value_modify_self]

/-! ## All nodes -/

/-- A node that was evaluated before. -/
theorem CheckSpec.of_evaluated (hm : g.AgreesBelow (i + 1) m)
    (he : (m.value i).isEvaluated = true) : g.CheckSpec i m ((m.value i).isValid, m) := by
  have hresult := (hm i (Nat.lt_succ_self i)).result he
  exact {
    kept := .refl m, frame := fun _ _ => rfl, flags := fun _ => rfl, checked := .evaluated he
    passes := fun hv => by
      rw [← ValueState.isSome_result, hresult]
      exact Option.isSome_iff_ne_none.mpr hv
    fails := fun hbad => ValueState.result_eq_none_iff.mp (hresult.trans hbad.outcomeOf_eq_none) }

/-- An ill-formed literal. -/
theorem CheckSpec.of_error (hk : (g.node i).kind = .error) (hm : g.AgreesBelow (i + 1) m)
    (hun : (m.value i).isEvaluated = false) : g.CheckSpec i m (false, m) := by
  have hbad : g.Malformed i := .error hk
  have hnone := hbad.outcomeOf_eq_none
  exact .of_node hm hun (.refl m) (fun _ => rfl)
    (fun hv => absurd hnone hv) (fun values h => by rw [hk] at h; cases h)
    (fun c hc => by rw [hk] at hc; exact nomatch hc) (fun hv => absurd hnone hv) fun _ => rfl

/-- **The calls of `CheckValid`** for nodes whose arrays have values. -/
theorem checkValid_spec {i : ℕ} (hg : g.ArraysEvaluate i) (m : Memory)
    (hm : g.AgreesBelow (i + 1) m) : g.CheckSpec i m (g.checkValid i m) := by
  induction i using Nat.strong_induction_on generalizing m with
  | h i ih =>
  -- children have smaller numbers, which is what the induction is on
  have hbelow : g.AgreesBelow i m := fun j hj => hm j (by omega)
  have hspec {c : ℕ} (hc : c ∈ (g.node i).kind.operands) {m' : Memory} (hm' : g.AgreesBelow i m') :
      g.CheckSpec c m' (g.checkValid c m') :=
    have hlt : c < i := lt_of_mem_operands hc
    ih c hlt (hg.child (mem_children_of_mem_operands hc)) m' fun j hj => hm' j (by omega)
  rw [checkValid_eq]
  unfold checkValidBody
  by_cases he : (m.value i).isEvaluated = true
  · rw [if_pos he]
    exact .of_evaluated hm he
  rw [if_neg he]
  have hun := Bool.eq_false_iff.mpr he
  cases hk : (g.node i).kind with
  | error => exact .of_error hk hm hun
  | literal | character | string | floating =>
      have hsome : g.outcomeOf i ≠ none := by
        rw [outcomeOf_eq, outcomeBody, hk]
        exact Option.some_ne_none _
      exact .of_literal hm hun hsome (fun values h => by rw [hk] at h; cases h) (by rw [hk]; rfl)
  | array values =>
      have hchild : ∀ v ∈ values, v ∈ (g.node i).kind.children := fun v hv => by rwa [hk]
      exact .of_array hg hk hm hun fun v hv m hm =>
        ih v (lt_of_mem_children (hchild v hv)) (hg.child (hchild v hv)) m hm
  -- the answer for an operand is passed on
  | unary op operand =>
      have hcheck := hspec (c := operand) (by rw [hk]; exact List.mem_cons_self) hbelow
      dsimp only
      generalize g.checkValid operand m = r at hcheck ⊢
      obtain ⟨b, m₁⟩ := r
      cases b with
      | true =>
          exact .of_operand (by rw [hk]; rfl) hm hun hcheck (fun _ => rfl) (fun _ => ⟨rfl, rfl⟩)
            (fun _ => rfl) fun _ _ => rfl
      | false =>
          exact .of_operand (by rw [hk]; rfl) hm hun hcheck (fun _ => rfl) (fun _ => ⟨rfl, rfl⟩)
            (fun _ => rfl) fun h => absurd h Bool.false_ne_true
  | binary left op right =>
      have hleft : left ∈ (g.node i).kind.operands := by rw [hk]; exact List.mem_cons_self
      have hright : right ∈ (g.node i).kind.operands := by
        rw [hk]
        exact List.mem_cons_of_mem _ List.mem_cons_self
      -- the right operand is checked in the memory that the left one leaves
      have hl := checkOperand_spec (lt_of_mem_operands hleft) (hspec hleft hbelow)
      have hr := checkOperand_spec (lt_of_mem_operands hright)
        (hspec hright (hl.within.kept.agrees hbelow))
      exact .of_binary hk hm hun hl hr
  | ref resolved =>
      have hcheck := hspec (c := resolved) (by rw [hk]; exact List.mem_cons_self) hbelow
      exact .of_operand (by rw [hk]; rfl) hm hun hcheck (fun _ => rfl) (fun _ => ⟨rfl, rfl⟩)
        (fun _ => rfl) fun _ _ => rfl

end ConstGraph

end AndroidSdk.Aidl
