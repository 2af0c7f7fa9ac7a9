import Mathlib.Logic.Relation
import AndroidSdk.Aidl.ConstGraph
import AndroidSdk.Lib.Run

/-! # The values of constant values

What the nodes of a graph of constant values are worth, without memory, and memories that agree with
these values.

* **`ConstGraph.checkValid_eq`**, **`evaluate_eq`** — the calls are their bodies.
* **`ConstGraph.outcomeOf`** — the type and value of a node, if it has one.
* **`ConstGraph.Malformed`** — a node comes down to an ill-formed literal.
* **`ConstGraph.ArraysEvaluate`** — the arrays that a node needs have values.
* **`ConstGraph.NodeAgrees`**, **`Extends`** — what a node remembers agrees with its value, and what
  calls keep. -/

namespace AndroidSdk.Aidl

open Lib

/-- What a node remembers that has been evaluated with this outcome. -/
def Outcome.state (o : Outcome) : ValueState where
  isValid := true
  isEvaluated := true
  finalType := o.finalType
  finalValue := o.finalValue
  finalString := o.finalString

@[simp]
theorem Outcome.result_state (o : Outcome) : o.state.result = some o := rfl

/-- A state with a result is that of the outcome. -/
theorem ValueState.eq_state {s : ValueState} {o : Outcome} (hevaluated : s.isEvaluated = true)
    (h : s.result = some o) : s = o.state := by
  obtain ⟨⟨valid, evaluated, type, value⟩, string⟩ := s
  cases valid with
  | false => cases h
  | true =>
      cases h
      exact congrArg (fun e => (⟨⟨true, e, type, value⟩, string⟩ : ValueState)) hevaluated

/-- A state without a result is invalid. -/
theorem ValueState.result_eq_none_iff {s : ValueState} : s.result = none ↔ s.isValid = false := by
  cases h : s.isValid <;> simp [ValueState.result, h]

/-- The flag of a state with a result. -/
theorem ValueState.isSome_result (s : ValueState) : s.result.isSome = s.isValid := by
  cases h : s.isValid <;> simp [ValueState.result, h]

namespace ConstGraph

variable {g : ConstGraph} {i n : ℕ} {m m' m'' : Memory}

/-! ## The equations of the calls -/

/-- The numbers in a node are smaller. -/
theorem lt_of_mem_children {c : ℕ} (h : c ∈ (g.node i).kind.children) : c < i :=
  g.children_lt i c h

/-- The operands are among the values that a value needs. -/
theorem mem_children_of_mem_operands {kind : NodeKind} {c : ℕ} (h : c ∈ kind.operands) :
    c ∈ kind.children := by
  cases kind with
  | array values => exact nomatch h
  | _ => exact h

/-- The numbers of operands are smaller. -/
theorem lt_of_mem_operands {c : ℕ} (h : c ∈ (g.node i).kind.operands) : c < i :=
  lt_of_mem_children (mem_children_of_mem_operands h)

/-- The loop asks for the elements. -/
theorem checkElements_congr {f f' : ℕ → Memory → Bool × Memory} {values : List ℕ}
    (h : ∀ v ∈ values, f v = f' v) (m : Memory) :
    checkElements f i values m = checkElements f' i values m := by
  induction values generalizing m with
  | nil => rfl
  | cons v values ih =>
      obtain ⟨hv, hrest⟩ := List.forall_mem_cons.mp h
      rw [checkElements, checkElements, hv, ih hrest]

/-- `CheckValid` asks for the parts of a node. -/
theorem descends_checkValidBody (g : ConstGraph) : Descends g.checkValidBody := by
  intro i f f' h
  have hc : ∀ c ∈ (g.node i).kind.children, f c = f' c := fun c hc => h c (lt_of_mem_children hc)
  funext m
  unfold checkValidBody
  cases hk : (g.node i).kind with
  | error => rfl
  | literal => rfl
  | character => rfl
  | string => rfl
  | floating => rfl
  | array values =>
      have hvalues : ∀ v ∈ values, f v = f' v := fun v hv => hc v (by rwa [hk])
      dsimp only
      rw [checkElements_congr hvalues]
  | unary op operand =>
      rw [hk] at hc
      dsimp only
      rw [hc operand List.mem_cons_self]
  | binary left op right =>
      rw [hk] at hc
      dsimp only [checkOperand]
      rw [hc left List.mem_cons_self, hc right (List.mem_cons_of_mem _ List.mem_cons_self)]
  | ref resolved =>
      rw [hk] at hc
      dsimp only
      rw [hc resolved List.mem_cons_self]

/-- The equation of `CheckValid`. -/
theorem checkValid_eq (g : ConstGraph) (i : ℕ) (m : Memory) :
    g.checkValid i m = g.checkValidBody g.checkValid i m :=
  congrFun (recurse_eq g.descends_checkValidBody i) m

/-- The loop asks for the elements. -/
theorem evaluateElements_congr {f f' : ℕ → Memory → Except Abort (Bool × Memory)} {values : List ℕ}
    (h : ∀ v ∈ values, f v = f' v) (t : ConstType) (m : Memory) :
    g.evaluateElements f values t m = g.evaluateElements f' values t m := by
  induction values generalizing t m with
  | nil => rfl
  | cons v values ih =>
      obtain ⟨hv, hrest⟩ := List.forall_mem_cons.mp h
      simp only [evaluateElements, hv, ih hrest]

/-- `evaluate` asks for the parts of a node. -/
theorem descends_evaluateBody (g : ConstGraph) : Descends g.evaluateBody := by
  intro i f f' h
  have hc : ∀ c ∈ (g.node i).kind.children, f c = f' c := fun c hc => h c (lt_of_mem_children hc)
  funext m
  unfold evaluateBody evaluateOnce evaluateNode
  cases hk : (g.node i).kind with
  | error => rfl
  | literal => rfl
  | character => rfl
  | string => rfl
  | floating => rfl
  | array values =>
      have hvalues : ∀ v ∈ values, f v = f' v := fun v hv => hc v (by rwa [hk])
      dsimp only
      rw [evaluateElements_congr hvalues]
  | unary op operand =>
      rw [hk] at hc
      dsimp only [evaluateUnary, evaluateOperand]
      rw [hc operand List.mem_cons_self]
  | binary left op right =>
      rw [hk] at hc
      dsimp only [evaluateBinary, evaluateOperands]
      rw [hc left List.mem_cons_self, hc right (List.mem_cons_of_mem _ List.mem_cons_self)]
  | ref resolved =>
      rw [hk] at hc
      dsimp only
      rw [hc resolved List.mem_cons_self]

/-- The equation of `evaluate`. -/
theorem evaluate_eq (g : ConstGraph) (i : ℕ) (m : Memory) :
    g.evaluate i m = g.evaluateBody g.evaluate i m :=
  congrFun (recurse_eq g.descends_evaluateBody i) m

/-! ## The operations behind the recursion -/

section Apply

variable {s t : ValueState}

/-- States that hold the same value, whatever their types and flags. -/
structure SameStart (s t : ValueState) : Prop where
  value : s.finalValue = t.finalValue
  string : s.finalString = t.finalString

/-- The result of a handler depends on what is kept of the state. -/
theorem result_setResult {a b : NodeState} {u v : Text} (htype : a.finalType = b.finalType)
    (hstring : u = v) (r : Option (Bool × ℤ)) :
    (⟨ConstExpr.setResult a r, u⟩ : ValueState).result
      = (⟨ConstExpr.setResult b r, v⟩ : ValueState).result := by
  subst hstring
  cases r with
  | none => rfl
  | some r =>
      obtain ⟨valid, value⟩ := r
      cases valid with
      | false => rfl
      | true => simp [ConstExpr.setResult, ValueState.result, ValueState.outcome, htype]

/-- The result of a unary operator depends on the value that the state holds before. -/
theorem result_applyUnary (h : SameStart s t) (op : UnaryOp) (o : ValueState) :
    (applyUnary s op o).result = (applyUnary t op o).result := by
  obtain ⟨hvalue, hstring⟩ := h
  unfold applyUnary ConstExpr.applyUnary
  split
  · rfl
  · split
    · rfl
    · split
      · simp [ValueState.result, ValueState.outcome, hvalue, hstring]
      · split
        · rfl
        · simp [ValueState.result, ValueState.outcome, hvalue, hstring]

/-- The result of a binary operator depends on the value that the state holds before. -/
theorem result_applyBinary (h : SameStart s t) (op : BinaryOp) (l r : ValueState) :
    (applyBinary s op l r).result = (applyBinary t op l r).result := by
  obtain ⟨hvalue, hstring⟩ := h
  unfold applyBinary
  split
  · rfl
  next hvalid =>
  split
  · rfl
  next htypes =>
  split
  · -- strings
    split
    · unfold concatenate
      split
      · simp [ValueState.result, ValueState.outcome, hvalue]
      · rfl
    · rfl
  split
  · rfl
  -- numbers: the three groups of operators
  unfold ConstExpr.applyBinary
  rw [if_neg hvalid, if_neg hvalid, if_neg htypes, if_neg htypes]
  dsimp only
  split
  · split
    · rfl
    · exact result_setResult (by rfl) hstring _
  · split
    · split
      · rfl
      · exact result_setResult (by rfl) hstring _
    · exact result_setResult (by rfl) hstring _

/-- What a reference copies depends on the value that the state holds before. -/
theorem result_applyRef (h : SameStart s t) (o : ValueState) :
    (applyRef s o).result = (applyRef t o).result := by
  obtain ⟨hvalue, hstring⟩ := h
  unfold applyRef ValueState.result ValueState.outcome
  dsimp only
  rw [hvalue, hstring]

/-- A unary operator leaves the node evaluated. -/
@[simp]
theorem isEvaluated_applyUnary (s : ValueState) (op : UnaryOp) (o : ValueState) :
    (applyUnary s op o).isEvaluated = s.isEvaluated := by
  unfold applyUnary ConstExpr.applyUnary
  repeat' split
  all_goals rfl

/-- A handler leaves the node evaluated. -/
@[simp]
theorem isEvaluated_setResult (a : NodeState) (r : Option (Bool × ℤ)) :
    (ConstExpr.setResult a r).isEvaluated = a.isEvaluated := by
  cases r <;> rfl

/-- An operator on numbers leaves the node evaluated. -/
theorem isEvaluated_applyBinary_numbers (a : NodeState) (op : BinaryOp) (l r : NodeState) :
    (ConstExpr.applyBinary a op l r).isEvaluated = a.isEvaluated := by
  unfold ConstExpr.applyBinary
  split
  · rfl
  split
  · rfl
  dsimp only
  split
  · split
    · rfl
    · rw [isEvaluated_setResult]
  · split
    · split
      · rfl
      · rw [isEvaluated_setResult]
    · rw [isEvaluated_setResult]

/-- A binary operator leaves the node evaluated. -/
@[simp]
theorem isEvaluated_applyBinary (s : ValueState) (op : BinaryOp) (l r : ValueState) :
    (applyBinary s op l r).isEvaluated = s.isEvaluated := by
  unfold applyBinary
  split
  · rfl
  split
  · rfl
  split
  · split
    · unfold concatenate
      split <;> rfl
    · rfl
  split
  · rfl
  · exact isEvaluated_applyBinary_numbers s.toNodeState op l.toNodeState r.toNodeState

/-- An operator has no result if its operand is invalid. -/
theorem result_applyUnary_of_invalid {o : ValueState} (h : o.isValid = false) (op : UnaryOp) :
    (applyUnary s op o).result = none := by
  unfold applyUnary ConstExpr.applyUnary
  rw [h]
  split <;> rfl

/-- An operator has no result if an operand is invalid. -/
theorem result_applyBinary_of_invalid {l r : ValueState} (h : l.isValid = false ∨ r.isValid = false)
    (op : BinaryOp) : (applyBinary s op l r).result = none := by
  unfold applyBinary
  rw [if_pos (by rcases h with h | h <;> simp [h])]
  rfl

/-- A reference has no result if the constant is invalid. -/
theorem result_applyRef_of_invalid {o : ValueState} (h : o.isValid = false) :
    (applyRef s o).result = none :=
  ValueState.result_eq_none_iff.mpr h

end Apply

/-! ## Values -/

/-- Whether the elements of an array have values, of types that go with that of the first one. -/
def elementsAgree (f : ℕ → Option Outcome) : List ℕ → ConstType → Bool
  | [], _ => true
  | v :: values, arrayType =>
      match f v with
      | none => false
      | some o =>
          if arrayType = .error then elementsAgree f values o.finalType
          else areCompatibleArrayTypes arrayType o.finalType && elementsAgree f values arrayType

/-- A node of which the evaluation begins. -/
def begun (g : ConstGraph) (i : ℕ) : ValueState := { (g.node i).initial with isEvaluated := true }

/-- The value of a node, for values of its parts. -/
def outcomeBody (g : ConstGraph) (f : ℕ → Option Outcome) (i : ℕ) : Option Outcome :=
  match (g.node i).kind with
  | .error => none
  | .literal lit => some ⟨lit.type, lit.value, []⟩
  | .character => some ⟨.character, (g.node i).uninitialised, (g.node i).value⟩
  | .string => some ⟨.string, (g.node i).uninitialised, (g.node i).value⟩
  | .floating => some ⟨.floating, (g.node i).uninitialised, []⟩
  | .array values =>
      if elementsAgree f values .error then some ⟨.array, (g.node i).uninitialised, []⟩ else none
  | .unary op operand => (f operand).bind fun o => (applyUnary (g.begun i) op o.state).result
  | .binary left op right =>
      (f left).bind fun l => (f right).bind fun r =>
        (applyBinary (g.begun i) op l.state r.state).result
  | .ref resolved => (f resolved).bind fun o => (applyRef (g.begun i) o.state).result

/-- **The type and value of a node**, if it has one. -/
def outcomeOf (g : ConstGraph) : ℕ → Option Outcome := recurse g.outcomeBody none

/-- The loop asks for the elements. -/
theorem elementsAgree_congr {f f' : ℕ → Option Outcome} {values : List ℕ}
    (h : ∀ v ∈ values, f v = f' v) (t : ConstType) :
    elementsAgree f values t = elementsAgree f' values t := by
  induction values generalizing t with
  | nil => rfl
  | cons v values ih =>
      obtain ⟨hv, hrest⟩ := List.forall_mem_cons.mp h
      simp only [elementsAgree, hv, ih hrest]

/-- The value of a node depends on those of its parts. -/
theorem descends_outcomeBody (g : ConstGraph) : Descends g.outcomeBody := by
  intro i f f' h
  have hc : ∀ c ∈ (g.node i).kind.children, f c = f' c := fun c hc => h c (lt_of_mem_children hc)
  unfold outcomeBody
  cases hk : (g.node i).kind with
  | error => rfl
  | literal => rfl
  | character => rfl
  | string => rfl
  | floating => rfl
  | array values =>
      have hvalues : ∀ v ∈ values, f v = f' v := fun v hv => hc v (by rwa [hk])
      dsimp only
      rw [elementsAgree_congr hvalues]
  | unary op operand =>
      rw [hk] at hc
      dsimp only
      rw [hc operand List.mem_cons_self]
  | binary left op right =>
      rw [hk] at hc
      dsimp only
      rw [hc left List.mem_cons_self, hc right (List.mem_cons_of_mem _ List.mem_cons_self)]
  | ref resolved =>
      rw [hk] at hc
      dsimp only
      rw [hc resolved List.mem_cons_self]

/-- The equation of values. -/
theorem outcomeOf_eq (g : ConstGraph) (i : ℕ) : g.outcomeOf i = g.outcomeBody g.outcomeOf i :=
  recurse_eq g.descends_outcomeBody i

/-- The value of an array. -/
theorem outcomeOf_array {values : List ℕ} (hk : (g.node i).kind = .array values) :
    g.outcomeOf i = if elementsAgree g.outcomeOf values .error then
      some ⟨.array, (g.node i).uninitialised, []⟩ else none := by
  rw [outcomeOf_eq, outcomeBody, hk]

/-- The value of a unary operator. -/
theorem outcomeOf_unary {op : UnaryOp} {operand : ℕ} (hk : (g.node i).kind = .unary op operand) :
    g.outcomeOf i
      = (g.outcomeOf operand).bind fun o => (applyUnary (g.begun i) op o.state).result := by
  rw [outcomeOf_eq, outcomeBody, hk]

/-- The value of a binary operator. -/
theorem outcomeOf_binary {left right : ℕ} {op : BinaryOp}
    (hk : (g.node i).kind = .binary left op right) :
    g.outcomeOf i = (g.outcomeOf left).bind fun l => (g.outcomeOf right).bind fun r =>
      (applyBinary (g.begun i) op l.state r.state).result := by
  rw [outcomeOf_eq, outcomeBody, hk]

/-- The value of a reference. -/
theorem outcomeOf_ref {resolved : ℕ} (hk : (g.node i).kind = .ref resolved) :
    g.outcomeOf i = (g.outcomeOf resolved).bind fun o => (applyRef (g.begun i) o.state).result := by
  rw [outcomeOf_eq, outcomeBody, hk]

/-- A node comes down to an ill-formed literal, through operators and references. -/
inductive Malformed (g : ConstGraph) : ℕ → Prop
  | error {i : ℕ} (h : (g.node i).kind = .error) : Malformed g i
  | operand {i c : ℕ} (hc : c ∈ (g.node i).kind.operands) (h : Malformed g c) : Malformed g i

/-- A node has no value if one of its operands has none. -/
theorem outcomeOf_eq_none_of_operand {c : ℕ} (hc : c ∈ (g.node i).kind.operands)
    (h : g.outcomeOf c = none) : g.outcomeOf i = none := by
  rw [outcomeOf_eq]
  unfold outcomeBody
  cases hk : (g.node i).kind with
  | unary op operand =>
      rw [hk] at hc
      obtain rfl := List.mem_singleton.mp hc
      dsimp only
      rw [h]
      rfl
  | binary left op right =>
      rw [hk] at hc
      dsimp only
      rcases List.mem_pair.mp hc with rfl | rfl
      · rw [h]
        rfl
      · rw [h]
        cases g.outcomeOf left <;> rfl
  | ref resolved =>
      rw [hk] at hc
      obtain rfl := List.mem_singleton.mp hc
      dsimp only
      rw [h]
      rfl
  | error => rfl
  | _ =>
      rw [hk] at hc
      exact nomatch hc

/-- An ill-formed node has no value. -/
theorem Malformed.outcomeOf_eq_none (h : g.Malformed i) : g.outcomeOf i = none := by
  induction h with
  | error h =>
      rw [outcomeOf_eq]
      unfold outcomeBody
      rw [h]
  | operand hc _ ih => exact outcomeOf_eq_none_of_operand hc ih

/-- The elements of an array that agree have values. -/
theorem ne_none_of_elementsAgree {f : ℕ → Option Outcome} {values : List ℕ} {t : ConstType}
    (h : elementsAgree f values t = true) : ∀ v ∈ values, f v ≠ none := by
  induction values generalizing t with
  | nil => exact fun v hv => absurd hv List.not_mem_nil
  | cons v values ih =>
      rw [elementsAgree] at h
      rw [List.forall_mem_cons]
      cases hv : f v with
      | none =>
          rw [hv] at h
          cases h
      | some o =>
          rw [hv] at h
          dsimp only at h
          refine ⟨Option.some_ne_none o, ?_⟩
          split at h
          · exact ih h
          · exact ih (Bool.and_eq_true_iff.mp h).2

/-- The elements of an array with a value have values. -/
theorem ne_none_of_mem_array {values : List ℕ} (hk : (g.node i).kind = .array values)
    (h : g.outcomeOf i ≠ none) : ∀ v ∈ values, g.outcomeOf v ≠ none := by
  rw [outcomeOf_array hk] at h
  by_cases hagree : elementsAgree g.outcomeOf values .error = true
  · exact ne_none_of_elementsAgree hagree
  · rw [if_neg hagree] at h
    exact absurd rfl h

/-- An ill-formed node that is no literal has an ill-formed operand. -/
theorem Malformed.exists_operand (h : g.Malformed i) (hk : (g.node i).kind ≠ .error) :
    ∃ c ∈ (g.node i).kind.operands, g.Malformed c := by
  cases h with
  | error h => exact absurd h hk
  | operand hc h => exact ⟨_, hc, h⟩

/-- The operands of a node with a value have values. -/
theorem ne_none_of_operand {c : ℕ} (hc : c ∈ (g.node i).kind.operands) (h : g.outcomeOf i ≠ none) :
    g.outcomeOf c ≠ none :=
  fun hnone => h (outcomeOf_eq_none_of_operand hc hnone)

/-- **Every array that a node needs has a value**, unless one of its elements is ill-formed: its
elements have values, of types that go with each other. -/
def ArraysEvaluate (g : ConstGraph) (i : ℕ) : Prop :=
  ∀ j, Relation.ReflTransGen (fun i c => c ∈ (g.node i).kind.children) i j → ∀ values,
    (g.node j).kind = .array values → (∀ v ∈ values, ¬ g.Malformed v)
      → (g.outcomeOf j).isSome = true

/-- So has every array that a part of the node needs. -/
theorem ArraysEvaluate.child (h : g.ArraysEvaluate i) {c : ℕ}
    (hc : c ∈ (g.node i).kind.children) : g.ArraysEvaluate c :=
  fun j hj => h j (.head hc hj)

/-! ## Memories that agree with the values -/

/-- **What a node remembers agrees with its value.** A node that is not evaluated holds what it was
made with; its type may have become that of errors. -/
structure NodeAgrees (g : ConstGraph) (i : ℕ) (s : ValueState) : Prop where
  result : s.isEvaluated = true → s.result = g.outcomeOf i
  start : s.isEvaluated = false → SameStart s (g.begun i)
  type : s.isEvaluated = false → g.outcomeOf i ≠ none → s.finalType = (g.node i).kind.type
  array : s.isEvaluated = false → ∀ values, (g.node i).kind = .array values →
    g.outcomeOf i = none → s.isValid = false

/-- The nodes of smaller numbers agree with their values. -/
def AgreesBelow (g : ConstGraph) (n : ℕ) (m : Memory) : Prop := ∀ j < n, g.NodeAgrees j (m.value j)

/-- **What a call keeps**, on the nodes of smaller numbers and in the record: the agreement with the
values, the nodes that are evaluated, and the validity of nodes with a value. -/
structure Extends (g : ConstGraph) (n : ℕ) (m m' : Memory) : Prop where
  agrees : g.AgreesBelow n m → g.AgreesBelow n m'
  evaluated : ∀ j < n, (m.value j).isEvaluated = true → m'.value j = m.value j
  valid : ∀ j < n, g.outcomeOf j ≠ none → (m.value j).isValid = true →
    (m'.value j).isValid = true
  reports : (∀ r ∈ m.reports, r.2 = g.outcomeOf r.1) → ∀ r ∈ m'.reports, r.2 = g.outcomeOf r.1
  yields : m'.yields = m.yields

namespace Extends

/-- No call keeps everything. -/
theorem refl (m : Memory) : g.Extends n m m where
  agrees := id
  evaluated _ _ _ := rfl
  valid _ _ _ := id
  reports := id
  yields := rfl

/-- One call after another. -/
theorem trans (h : g.Extends n m m') (h' : g.Extends n m' m'') : g.Extends n m m'' where
  agrees := h'.agrees ∘ h.agrees
  evaluated j hj he := by
    have heq := h.evaluated j hj he
    rw [h'.evaluated j hj (by rw [heq]; exact he), heq]
  valid j hj hv := h'.valid j hj hv ∘ h.valid j hj hv
  reports := h'.reports ∘ h.reports
  yields := h'.yields.trans h.yields

/-- A change of a node that is not among them. -/
theorem modify (m : Memory) (hi : n ≤ i) (f : ValueState → ValueState) :
    g.Extends n m (m.modify i f) := by
  have heq : ∀ j < n, (m.modify i f).value j = m.value j := fun j hj =>
    m.value_modify_of_ne (by omega)
  exact {
    agrees := fun h j hj => by rw [heq j hj]; exact h j hj
    evaluated := fun j hj _ => heq j hj
    valid := fun j hj _ hv => by rw [heq j hj]; exact hv
    reports := id
    yields := rfl }

/-- More nodes, which are left alone. -/
theorem mono {k : ℕ} (h : g.Extends k m m') (hkn : k ≤ n)
    (hframe : ∀ j, k ≤ j → m'.value j = m.value j) : g.Extends n m m' where
  agrees ha j hj := by
    by_cases hjk : j < k
    · exact h.agrees (fun l hl => ha l (by omega)) j hjk
    · rw [hframe j (by omega)]
      exact ha j hj
  evaluated j hj he := by
    by_cases hjk : j < k
    · exact h.evaluated j hjk he
    · exact hframe j (by omega)
  valid j hj hv hvalid := by
    by_cases hjk : j < k
    · exact h.valid j hjk hv hvalid
    · rw [hframe j (by omega)]
      exact hvalid
  reports := h.reports
  yields := h.yields

/-- One more node. -/
theorem succ (h : g.Extends i m m') (hagrees : g.NodeAgrees i (m'.value i))
    (hevaluated : (m.value i).isEvaluated = true → m'.value i = m.value i)
    (hvalid : g.outcomeOf i ≠ none → (m.value i).isValid = true → (m'.value i).isValid = true) :
    g.Extends (i + 1) m m' where
  agrees ha j hj := by
    rcases Nat.lt_succ_iff_lt_or_eq.mp hj with hj | rfl
    · exact h.agrees (fun l hl => ha l (by omega)) j hj
    · exact hagrees
  evaluated j hj := by
    rcases Nat.lt_succ_iff_lt_or_eq.mp hj with hj | rfl
    · exact h.evaluated j hj
    · exact hevaluated
  valid j hj := by
    rcases Nat.lt_succ_iff_lt_or_eq.mp hj with hj | rfl
    · exact h.valid j hj
    · exact hvalid
  reports := h.reports
  yields := h.yields

end Extends

/-- **`CheckValid` has been called** for a node, and with it for its operands, since otherwise its
validity says nothing. -/
inductive Checked (g : ConstGraph) (m : Memory) : ℕ → Prop
  | evaluated {i : ℕ} (h : (m.value i).isEvaluated = true) : Checked g m i
  | checked {i : ℕ} (hvalid : g.outcomeOf i ≠ none → (m.value i).isValid = true)
      (hoperands : ∀ c ∈ (g.node i).kind.operands, Checked g m c) : Checked g m i

/-- This is kept. -/
theorem Checked.mono (h : g.Checked m i) (hext : g.Extends n m m') (hi : i < n) :
    g.Checked m' i := by
  induction h with
  | evaluated h => exact .evaluated (by rw [hext.evaluated _ hi h]; exact h)
  | checked hvalid _ ih =>
      exact .checked (fun hv => hext.valid _ hi hv (hvalid hv)) fun c hc =>
        ih c hc ((lt_of_mem_operands hc).trans hi)

end ConstGraph

end AndroidSdk.Aidl
