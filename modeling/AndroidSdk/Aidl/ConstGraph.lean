import Mathlib.Logic.Function.Basic
import AndroidSdk.Aidl.ConstExpressions
import AndroidSdk.Lib.Descent

/-! # Constant values that refer to each other

The evaluation of constant values of every kind (`aidl_const_expressions.cpp`): literals, arrays,
operators and references. A constant can have several users, so the values are the nodes of a graph
without cycles, numbered so that each node comes behind those it needs. Each node remembers whether
it is valid and evaluated, and its type and value.

* **`ConstGraph`** — the nodes; **`Memory`** — what they remember, and what calls have returned.
* **`checkValid`**, **`evaluate`**, **`evaluateIfValid`**, **`valueString`** — the calls.
* **`Reachable`** — the memories after any calls.

What `evaluate` and `ValueString` returned is recorded, with what the node holds after a success.
The texts of messages are left out. Floating point literals are parsed by given functions. -/

namespace AndroidSdk.Aidl

/-! ## The graph -/

/-- A string of the source. -/
abbrev Text := List Char

/-- The class of a constant value and its parts, other values by their numbers. `error` is a literal
that the parser found ill-formed. -/
inductive NodeKind where
  | error
  | literal (lit : Literal)
  | character
  | string
  | floating
  | array (values : List ℕ)
  | unary (op : UnaryOp) (operand : ℕ)
  | binary (left : ℕ) (op : BinaryOp) (right : ℕ)
  | ref (resolved : ℕ)
  deriving DecidableEq

namespace NodeKind

/-- `type_`. -/
def type : NodeKind → ConstType
  | error => .error
  | literal lit => lit.type
  | character => .character
  | string => .string
  | floating => .floating
  | array _ => .array
  | unary .. => .unary
  | binary .. => .binary
  | ref _ => .ref

/-- The values that operators and references evaluate. -/
def operands : NodeKind → List ℕ
  | unary _ operand => [operand]
  | binary left _ right => [left, right]
  | ref resolved => [resolved]
  | _ => []

/-- `values_`. -/
def values : NodeKind → List ℕ
  | array values => values
  | _ => []

/-- The values that a value needs. -/
def children : NodeKind → List ℕ
  | array values => values
  | kind => kind.operands

/-- Whether a value is a reference. -/
def isRef : NodeKind → Bool
  | ref _ => true
  | _ => false

end NodeKind

/-- A constant value as it is made, with what its `final_value_` holds before it is initialised. -/
structure ConstNode where
  kind : NodeKind
  value : Text := []
  uninitialised : ℤ := 0

/-- **A graph of constant values.** Each needs values of smaller numbers only. -/
structure ConstGraph where
  node : ℕ → ConstNode
  children_lt : ∀ i, ∀ c ∈ (node i).kind.children, c < i

/-! ## What is remembered -/

/-- What a node remembers, with its string value. -/
structure ValueState extends NodeState where
  finalString : Text
  deriving DecidableEq

/-- What a node holds after a successful evaluation: its type and its value. -/
structure Outcome where
  finalType : ConstType
  finalValue : ℤ
  finalString : Text
  deriving DecidableEq

namespace ValueState

/-- What a node holds. -/
def outcome (s : ValueState) : Outcome := ⟨s.finalType, s.finalValue, s.finalString⟩

/-- What a valid node holds. -/
def result (s : ValueState) : Option Outcome := if s.isValid then some s.outcome else none

end ValueState

/-- What the constructors leave in a node. Only integer literals have a value then. -/
def ConstNode.initial (node : ConstNode) : ValueState where
  isValid := false
  isEvaluated := false
  finalType := node.kind.type
  finalValue :=
    match node.kind with
    | .literal lit => if lit.type = .boolean then node.uninitialised else lit.value
    | _ => node.uninitialised
  finalString := []

/-- What all nodes remember, and what `evaluate` and `ValueString` returned for them so far. -/
structure Memory where
  value : ℕ → ValueState
  reports : List (ℕ × Option Outcome)
  yields : List (ℕ × Text)

namespace Memory

variable (m : Memory) (i : ℕ)

/-- Change what one node remembers. -/
def modify (f : ValueState → ValueState) : Memory :=
  { m with value := Function.update m.value i (f (m.value i)) }

/-- Record the result of an evaluation. -/
def report (success : Bool) : Memory :=
  { m with reports := (i, if success then some (m.value i).outcome else none) :: m.reports }

/-- Record the result of `ValueString`. -/
def yield (text : Text) : Memory := { m with yields := (i, text) :: m.yields }

variable {i} {j : ℕ} {f : ValueState → ValueState} {success : Bool} {text : Text}

@[simp]
theorem value_modify_self : (m.modify i f).value i = f (m.value i) := Function.update_self ..

@[simp]
theorem value_modify_of_ne (h : j ≠ i) : (m.modify i f).value j = m.value j :=
  Function.update_of_ne h ..

@[simp]
theorem reports_modify : (m.modify i f).reports = m.reports := rfl

@[simp]
theorem yields_modify : (m.modify i f).yields = m.yields := rfl

@[simp]
theorem value_report : (m.report i success).value = m.value := rfl

@[simp]
theorem yields_report : (m.report i success).yields = m.yields := rfl

@[simp]
theorem value_yield : (m.yield i text).value = m.value := rfl

@[simp]
theorem reports_yield : (m.yield i text).reports = m.reports := rfl

end Memory

/-- What ends the program: a literal that the parser found ill-formed is evaluated, the name of the
type of errors is asked for, or the value of an invalid node. -/
inductive Abort where
  | unrecognizedType | errorType | notValid
  deriving DecidableEq

namespace ConstGraph

/-! ## Validity -/

section CheckValid

variable (g : ConstGraph) (check : ℕ → Memory → Bool × Memory) (i : ℕ)

/-- The loop of `CheckValid` over the elements of an array. -/
def checkElements : List ℕ → Memory → Memory
  | [], m => m
  | v :: values, m =>
      let r := check v m
      checkElements values (r.2.modify i fun s => { s with isValid := s.isValid && r.1 })

/-- `CheckValid` for an operand of a binary operator: an invalid one gives the operator the type of
errors. -/
def checkOperand (operand : ℕ) (m : Memory) : Memory :=
  let r := check operand m
  if r.1 then r.2 else r.2.modify i fun s => { s with finalType := .error }

/-- `CheckValid` of `AidlConstantValue`, `AidlConstantReference`, `AidlUnaryConstExpression` and
`AidlBinaryConstExpression`. -/
def checkValidBody (m : Memory) : Bool × Memory :=
  if (m.value i).isEvaluated then ((m.value i).isValid, m)
  else
    match (g.node i).kind with
    | .error => (false, m)
    | .literal _ | .character | .string | .floating =>
        (true, m.modify i fun s => { s with isValid := true })
    | .array values =>
        -- an invalid element is remembered but not returned
        (true, checkElements check i values (m.modify i fun s => { s with isValid := true }))
    | .unary _ operand =>
        let r := check operand m
        if r.1 then (true, r.2.modify i fun s => { s with isValid := true })
        else (false, r.2.modify i fun s => { s with isValid := false, finalType := .error })
    | .binary left _ right =>
        let m := checkOperand check i right (checkOperand check i left m)
        if (m.value i).finalType = .error then
          (false, m.modify i fun s => { s with isValid := false })
        else (true, m.modify i fun s => { s with isValid := true })
    | .ref resolved =>
        let r := check resolved m
        (r.1, r.2.modify i fun s => { s with isValid := r.1 })

end CheckValid

/-- **`CheckValid`.** -/
def checkValid (g : ConstGraph) : ℕ → Memory → Bool × Memory :=
  Lib.recurse g.checkValidBody fun m => (false, m)

/-! ## Evaluation -/

/-- `AreCompatibleArrayTypes`: floating point numbers make arrays, but are no operands. -/
def areCompatibleArrayTypes (t₁ t₂ : ConstType) : Bool :=
  t₁ = .floating && t₂ = .floating || areCompatibleOperandTypes t₁ t₂

/-- The part of `AidlUnaryConstExpression::evaluate` behind the recursion. -/
def applyUnary (s : ValueState) (op : UnaryOp) (operand : ValueState) : ValueState :=
  { s with toNodeState := ConstExpr.applyUnary s.toNodeState op operand.toNodeState }

/-- Two strings are joined: the quotes between them are removed. -/
def concatenate (s : ValueState) (lhs rhs : Text) : ValueState :=
  if lhs.getLast? = some '"' ∧ rhs.head? = some '"' then
    { s with finalString := lhs.dropLast ++ rhs.tail, finalType := .string, isValid := true }
  else { s with finalType := .error, isValid := false }

/-- The part of `AidlBinaryConstExpression::evaluate` behind the recursion. Numbers come to
`ConstExpr.applyBinary`. -/
def applyBinary (s : ValueState) (op : BinaryOp) (left right : ValueState) : ValueState :=
  if !left.isValid || !right.isValid then { s with isValid := false }
  else if !areCompatibleOperandTypes left.finalType right.finalType then { s with isValid := false }
  else if left.finalType = .string then
    if op = .add then concatenate s left.finalString right.finalString
    else { s with finalType := .error, isValid := false }
  else if left.finalType = .array then { s with finalType := .error, isValid := false }
  else
    { s with
      toNodeState := ConstExpr.applyBinary s.toNodeState op left.toNodeState right.toNodeState }

/-- What a reference copies of the constant. -/
def applyRef (s resolved : ValueState) : ValueState :=
  { s with
    isValid := resolved.isValid
    finalType := resolved.finalType
    finalString :=
      if resolved.isValid ∧ resolved.finalType = .string then resolved.finalString
      else s.finalString
    finalValue :=
      if resolved.isValid ∧ resolved.finalType ≠ .string then resolved.finalValue
      else s.finalValue }

section Evaluate

variable (g : ConstGraph) (evaluate : ℕ → Memory → Except Abort (Bool × Memory)) (i : ℕ)

/-- The loop of `evaluate` over the elements of an array: whether all are valid and of types that go
with that of the first one. -/
def evaluateElements : List ℕ → ConstType → Memory → Except Abort (Bool × Memory)
  | [], _, m => .ok (true, m)
  | v :: values, arrayType, m =>
      let c := g.checkValid v m
      if c.1 then do
        let (success, m) ← evaluate v c.2
        let finalType := (m.value v).finalType
        if !success then .ok (false, m)
        else if arrayType = .error then evaluateElements values finalType m
        else if areCompatibleArrayTypes arrayType finalType then
          evaluateElements values arrayType m
        else if finalType = .error then .error .errorType
        else .ok (false, m)
      else .ok (false, c.2)

/-- The recursion of `AidlUnaryConstExpression::evaluate`. The node counts as evaluated, so that the
call of `CheckValid` in it returns what is remembered. -/
def evaluateOperand (operand : ℕ) (m : Memory) : Except Abort (Bool × Memory) :=
  if (m.value operand).isEvaluated then .ok (true, m)
  else do
    let valid := (m.value i).isValid
    let (success, m) ← evaluate operand m
    .ok (valid && success, m)

/-- `AidlUnaryConstExpression::evaluate` of a node that now counts as evaluated. -/
def evaluateUnary (op : UnaryOp) (operand : ℕ) (m : Memory) : Except Abort (Bool × Memory) := do
  let (success, m) ← evaluateOperand evaluate i operand m
  let o := m.value operand
  if !success then .ok (false, m.modify i fun s => { s with isValid := false })
  else if !isCompatibleType o.finalType op && o.finalType = .error then .error .errorType
  else
    let m := m.modify i fun s => applyUnary s op o
    .ok ((m.value i).isValid, m)

/-- The recursion of `AidlBinaryConstExpression::evaluate`. Both operands are evaluated, whether or
not the first one is valid. -/
def evaluateOperands (left right : ℕ) (m : Memory) : Except Abort (Bool × Memory) :=
  if (m.value left).isEvaluated && (m.value right).isEvaluated then .ok (true, m)
  else do
    let valid := (m.value i).isValid
    let (success₁, m) ← evaluate left m
    let (success₂, m) ← evaluate right m
    .ok (valid && success₁ && success₂, m)

/-- `AidlBinaryConstExpression::evaluate` of a node that now counts as evaluated. -/
def evaluateBinary (left : ℕ) (op : BinaryOp) (right : ℕ) (m : Memory) :
    Except Abort (Bool × Memory) := do
  let (success, m) ← evaluateOperands evaluate i left right m
  let l := m.value left
  let r := m.value right
  if !success then .ok (false, m.modify i fun s => { s with isValid := false })
  else if l.isValid && r.isValid && !areCompatibleOperandTypes l.finalType r.finalType
      && (l.finalType = .error || r.finalType = .error) then
    .error .errorType
  else
    let m := m.modify i fun s => applyBinary s op l r
    .ok ((m.value i).isValid, m)

/-- `evaluate` of a node that now counts as evaluated. -/
def evaluateNode (m : Memory) : Except Abort (Bool × Memory) :=
  match (g.node i).kind with
  | .error => .error .unrecognizedType
  | .literal lit =>
      .ok (true, m.modify i fun s => { s with
        finalType := lit.type
        finalValue := if lit.type = .boolean then lit.value else s.finalValue })
  | .character => .ok (true, m.modify i fun s => { s with
      finalString := (g.node i).value, finalType := .character })
  | .string => .ok (true, m.modify i fun s => { s with
      finalString := (g.node i).value, finalType := .string })
  | .floating => .ok (true, m.modify i fun s => { s with finalType := .floating })
  | .array values => do
      let (success, m) ← g.evaluateElements evaluate values .error m
      -- a failure is returned, but the array stays as valid as `CheckValid` found it
      if success then .ok (true, m.modify i fun s => { s with finalType := .array })
      else .ok (false, m)
  | .unary op operand => evaluateUnary evaluate i op operand m
  | .binary left op right => evaluateBinary evaluate i left op right m
  | .ref resolved => do
      let (_, m) ← evaluate resolved m
      let m := m.modify i fun s => applyRef s (m.value resolved)
      .ok ((m.value i).isValid, m)

/-- `evaluate`, before its result is recorded. -/
def evaluateOnce (m : Memory) : Except Abort (Bool × Memory) :=
  if (m.value i).isEvaluated then .ok ((m.value i).isValid, m)
  else g.evaluateNode evaluate i (m.modify i fun s => { s with isEvaluated := true })

/-- `evaluate`, with the record of what it returns. -/
def evaluateBody (m : Memory) : Except Abort (Bool × Memory) := do
  let (success, m) ← g.evaluateOnce evaluate i m
  .ok (success, m.report i success)

end Evaluate

/-- **`evaluate`.** -/
def evaluate (g : ConstGraph) : ℕ → Memory → Except Abort (Bool × Memory) :=
  Lib.recurse g.evaluateBody fun _ => .error .unrecognizedType

/-- **`Evaluate`**: `CheckValid`, and then `evaluate`. -/
def evaluateIfValid (g : ConstGraph) (i : ℕ) (m : Memory) : Except Abort (Bool × Memory) :=
  let c := g.checkValid i m
  if c.1 then g.evaluate i c.2 else .ok (false, c.2.report i false)

/-! ## Values as text -/

/-- The names of the built-in types of constants, and any other name. -/
inductive TypeName where
  | boolean | byte | char | int | long | float | double | string | other
  deriving DecidableEq

/-- `ArrayType`: a dynamic array, or one of fixed dimensions, which are constant values. -/
inductive ArrayType where
  | dynamic
  | fixedSize (front : ℕ) (dimensions : List ℕ)
  deriving DecidableEq

/-- The kinds of defined types. -/
inductive DefinedType where
  | enum | other
  deriving DecidableEq

/-- `AidlTypeSpecifier`, as far as `ValueString` reads it. -/
structure TypeSpecifier where
  isGeneric : Bool := false
  definedType : Option DefinedType := none
  name : TypeName
  array : Option ArrayType := none
  deriving DecidableEq

/-- `ViewAsArrayBase`: the type with one dimension less. -/
def TypeSpecifier.arrayBase (type : TypeSpecifier) : TypeSpecifier :=
  match type.array with
  | some (.fixedSize _ (dim :: dims)) => { type with array := some (.fixedSize dim dims) }
  | _ => { type with array := none }

/-- The raw value that a decorator gets. -/
inductive RawValue where
  | scalar (text : Text)
  | array (texts : List Text)

/-- `ConstantValueDecorator`. -/
abbrev Decorator := TypeSpecifier → RawValue → Text

/-- `ParseFloating` to both types, followed by `std::to_string`. -/
structure FloatParser where
  double : Text → Option Text
  float : Text → Option Text

/-- `std::to_string`. -/
def toText (v : ℤ) : Text := (toString v).toList

/-- The evaluation in `ValueString`, which is done even if `CheckValid` fails: whether the node was
evaluated before, or both calls succeed. -/
def ensureEvaluated (g : ConstGraph) (i : ℕ) (m : Memory) : Except Abort (Bool × Memory) :=
  if (m.value i).isEvaluated then .ok (true, m)
  else do
    let c := g.checkValid i m
    let (success, m) ← g.evaluate i c.2
    .ok (c.1 && success, m)

/-- `EvaluatedValue<int32_t>`. -/
def evaluatedValue (g : ConstGraph) (i : ℕ) (m : Memory) : Except Abort (ℤ × Memory) := do
  let (_, m) ← (if (m.value i).isEvaluated then .ok (true, m) else g.evaluateIfValid i m)
  if (m.value i).isValid then .ok (MachineType.int32.cast (m.value i).finalValue, m)
  else .error .notValid

/-- The dimensions in `Signature`, which are evaluated. -/
def evaluateDimensions (g : ConstGraph) : List ℕ → Memory → Except Abort Memory
  | [], m => .ok m
  | dim :: dims, m => do
      let (_, m) ← g.evaluatedValue dim m
      g.evaluateDimensions dims m

/-- `Signature` of a type that is not generic: its name if it is no array, otherwise a text with
brackets, which is no name. -/
def signature (g : ConstGraph) (type : TypeSpecifier) (m : Memory) :
    Except Abort (Option TypeName × Memory) :=
  match type.array with
  | none => .ok (some type.name, m)
  | some .dynamic => .ok (none, m)
  | some (.fixedSize front dims) => do
      let m ← g.evaluateDimensions (front :: dims) m
      .ok (none, m)

/-- The raw text of an integral or boolean value, if it fits the type. -/
def integralText (v : ℤ) : Option TypeName → Option Text
  | some .byte => if 127 < v ∨ v < -128 then none else some (toText (MachineType.int8.cast v))
  | some .int =>
      if 2147483647 < v ∨ v < -2147483648 then none else some (toText (MachineType.int32.cast v))
  | some .long => some (toText v)
  | some .boolean => some (if v ≠ 0 then "true".toList else "false".toList)
  | _ => none

/-- The raw text of a value that is no array, for the signature of a type. -/
def scalarText (parse : FloatParser) (value : Text) (s : ValueState) (sig : Option TypeName) :
    Option Text :=
  match s.finalType with
  | .character => if sig = some .char then some s.finalString else none
  | .string => if sig = some .string then some s.finalString else none
  | .boolean | .int8 | .int32 | .int64 => integralText s.finalValue sig
  | .floating =>
      if sig = some .double then parse.double value
      else if sig = some .float then (parse.float value).map (· ++ ['f'])
      else none
  | _ => none

section ValueString

variable (g : ConstGraph) (parse : FloatParser) (decorator : Decorator)
variable (valueString : ℕ → TypeSpecifier → Memory → Except Abort (Text × Memory)) (i : ℕ)

/-- The loop of `ValueString` over the elements of an array: their texts, if none is empty. -/
def elementTexts (base : TypeSpecifier) :
    List ℕ → Memory → Except Abort (Option (List Text) × Memory)
  | [], m => .ok (some [], m)
  | v :: values, m => do
      let (text, m) ← valueString v base m
      if text = [] then .ok (none, m)
      else do
        let (texts, m) ← elementTexts base values m
        .ok (texts.map (text :: ·), m)

/-- `ValueString` of an array for an array type. -/
def arrayText (type : TypeSpecifier) (m : Memory) : Except Abort (Text × Memory) := do
  let values := (g.node i).kind.values
  let (texts, m) ← elementTexts valueString type.arrayBase values m
  match texts, type.array with
  | none, _ => .ok ([], m)
  | some texts, some (.fixedSize front _) => do
      let (size, m) ← g.evaluatedValue front m
      -- the size is compared as an unsigned number of 64 bits
      if (values.length : ℤ) = size % 2 ^ 64 then .ok (decorator type (.array texts), m)
      else .ok ([], m)
  | some texts, _ => .ok (decorator type (.array texts), m)

/-- `ValueString` of a node that is evaluated and valid. -/
def validText (type : TypeSpecifier) (m : Memory) : Except Abort (Text × Memory) := do
  let s := m.value i
  match type.definedType, decide (s.finalType = .array) with
  | some .other, false => .ok ([], m)
  | some .enum, false =>
      if (g.node i).kind.isRef then .ok (decorator type (.scalar (g.node i).value), m)
      else .ok ([], m)
  | _, _ => do
      let (sig, m) ← g.signature type m
      if s.finalType = .array ∧ type.array.isSome then
        g.arrayText decorator valueString i type m
      else if s.finalType = .error then .error .errorType
      else
        match scalarText parse (g.node i).value s sig with
        | some text => .ok (decorator type (.scalar text), m)
        | none => .ok ([], m)

/-- `ValueString`, before its result is recorded. -/
def valueStringOnce (type : TypeSpecifier) (m : Memory) : Except Abort (Text × Memory) :=
  if type.isGeneric then .ok ([], m)
  else do
    let (success, m) ← g.ensureEvaluated i m
    if !success || !(m.value i).isValid then .ok ([], m)
    else g.validText parse decorator valueString i type m

/-- `ValueString`, with the record of what it returns. -/
def valueStringBody (type : TypeSpecifier) (m : Memory) : Except Abort (Text × Memory) := do
  let (text, m) ← g.valueStringOnce parse decorator valueString i type m
  .ok (text, m.yield i text)

end ValueString

/-- **`ValueString`.** -/
def valueString (g : ConstGraph) (parse : FloatParser) (decorator : Decorator) :
    ℕ → TypeSpecifier → Memory → Except Abort (Text × Memory) :=
  Lib.recurse (g.valueStringBody parse decorator) fun _ _ => .error .unrecognizedType

/-! ## Runs -/

/-- What the nodes remember before the first call. -/
def fresh (g : ConstGraph) : Memory where
  value i := (g.node i).initial
  reports := []
  yields := []

/-- The dimensions of a type. -/
def TypeSpecifier.dimensions (type : TypeSpecifier) : List ℕ :=
  match type.array with
  | some (.fixedSize front dims) => front :: dims
  | _ => []

/-- A call from outside. -/
inductive Call where
  | evaluate (i : ℕ)
  | valueString (i : ℕ) (type : TypeSpecifier) (decorator : Decorator)

/-- The nodes that a call is given: its own one and the dimensions of its type. -/
def Call.nodes : Call → List ℕ
  | evaluate i => [i]
  | valueString i type _ => i :: type.dimensions

/-- The memory after a call, if it returns. -/
def Call.run (g : ConstGraph) (parse : FloatParser) : Call → Memory → Except Abort Memory
  | evaluate i, m => do
      let (_, m) ← g.evaluateIfValid i m
      .ok m
  | valueString i type decorator, m => do
      let (_, m) ← g.valueString parse decorator i type m
      .ok m

/-- **The memories after any number of calls** that return, of which each has a property. -/
inductive Reachable (g : ConstGraph) (parse : FloatParser) (p : Call → Prop) : Memory → Prop
  | fresh : Reachable g parse p g.fresh
  | call {m m' : Memory} {c : Call} (h : Reachable g parse p m) (hc : p c)
      (hrun : c.run g parse m = .ok m') : Reachable g parse p m'

end ConstGraph

end AndroidSdk.Aidl
