import Mathlib.Algebra.Group.Int.Defs
import Mathlib.Algebra.Group.Nat.Defs
import Mathlib.Data.Int.Order.Basic
import Mathlib.Data.Nat.Size
import AndroidSdk.Lib.Run

/-! # Constant expressions of interface definitions

The evaluation of constant expressions (`aidl_const_expressions.cpp`): trees of boolean and integer
literals, unary and binary operators. Every node remembers whether it was checked and evaluated, and
its type and value. Strings, arrays, floating point numbers, characters and references do not occur
in these trees, so their branches are left out. Negating the least 64-bit shift count wraps around.

* **`OverflowGuard`** — the operators on one machine type, each with whether it overflowed.
* **`ConstExpr.checkValid`**, **`ConstExpr.evaluate`** — the operations on a tree.
* **`ConstExpr.Reachable`** — the trees after any calls of the two on any nodes. -/

namespace AndroidSdk.Aidl

/-! ## Types -/

/-- `AidlConstantValue::Type`. The order is used to determine type promotion. -/
inductive ConstType where
  | boolean | int8 | int32 | int64 | array | character | string | ref | floating | unary | binary
  | error
  deriving DecidableEq

/-- The number of an enumerator. -/
def ConstType.toNat : ConstType → ℕ
  | .boolean => 0
  | .int8 => 1
  | .int32 => 2
  | .int64 => 3
  | .array => 4
  | .character => 5
  | .string => 6
  | .ref => 7
  | .floating => 8
  | .unary => 9
  | .binary => 10
  | .error => 11

/-- The types that values are computed in. -/
inductive MachineType where
  | bool | int8 | int32 | int64
  deriving DecidableEq

namespace MachineType

/-- The number of bits, `sizeof(T) * 8`. -/
def width : MachineType → ℕ
  | .bool => 8
  | .int8 => 8
  | .int32 => 32
  | .int64 => 64

/-- `static_cast` to the type. -/
def cast (T : MachineType) (v : ℤ) : ℤ :=
  match T with
  | .bool => if v = 0 then 0 else 1
  | _ => v.bmod (2 ^ T.width)

/-- `std::numeric_limits<T>::min()`. -/
def min : MachineType → ℤ
  | .bool => 0
  | T => -2 ^ (T.width - 1)

/-- The type of constants that are computed in a machine type. -/
def constType : MachineType → ConstType
  | .bool => .boolean
  | .int8 => .int8
  | .int32 => .int32
  | .int64 => .int64

end MachineType

/-- `SWITCH_KIND`. -/
def ConstType.switchKind : ConstType → Option MachineType
  | .boolean => some .bool
  | .int8 => some .int8
  | .int32 => some .int32
  | .int64 => some .int64
  | _ => none

/-! ## Operators -/

/-- The unary operators. -/
inductive UnaryOp where
  | plus | minus | not | compl
  deriving DecidableEq

/-- The binary operators. -/
inductive BinaryOp where
  | add | sub | mul | div | mod | or | xor | and | eq | ne | lt | gt | le | ge | shr | shl | lor | land
  deriving DecidableEq

/-- A truth value as a number. -/
def ofBool (b : Bool) : ℤ := if b then 1 else 0

/-- `CLZ`: the number of leading zeros of a value that is not negative. Smaller types are counted in
32 bits. -/
def clz (T : MachineType) (v : ℤ) : ℕ :=
  if v = 0 then T.width
  else if T.width = 64 then 64 - v.toNat.size else 32 - v.toNat.size

/-- What an operator of `OverflowGuard` returns, and whether it overflowed. -/
abbrev Guarded := ℤ × Bool

namespace OverflowGuard

variable (T : MachineType) (v o : ℤ)

/-- A value of the type. -/
def exactly (r : ℤ) : Guarded := (T.cast r, false)

/-- `operator+()`. -/
def pos : Guarded := exactly T v

/-- `operator-()`. -/
def neg : Guarded := if v = T.min then (0, true) else exactly T (-v)

/-- `operator!`. -/
def not : Guarded := exactly T (ofBool (v = 0))

/-- `operator~`. -/
def compl : Guarded := exactly T (-v - 1)

/-- The built-in operations that report overflow. -/
def builtin (r : ℤ) : Guarded := (T.cast r, decide (T.cast r ≠ r))

/-- `operator+(T)`, which is another function for booleans. -/
def add : Guarded :=
  match T with
  | .bool => if v ≠ 0 ∧ o ≠ 0 then (0, true) else (ofBool (v ≠ 0 || o ≠ 0), false)
  | T => builtin T (v + o)

/-- `operator-(T)`, which is another function for booleans. -/
def sub : Guarded :=
  match T with
  | .bool => if v = 0 ∧ o ≠ 0 then (1, true) else (ofBool (v ≠ 0 && o = 0), false)
  | T => builtin T (v - o)

/-- `operator*`, which is another function for booleans. -/
def mul : Guarded :=
  match T with
  | .bool => (ofBool (v ≠ 0 && o ≠ 0), false)
  | T => builtin T (v * o)

/-- `operator/`. -/
def div : Guarded :=
  if o = 0 ∨ (v = T.min ∧ o = -1) then (0, true) else exactly T (v.tdiv o)

/-- `operator%`. -/
def mod : Guarded :=
  if o = 0 ∨ (v = T.min ∧ o = -1) then (0, true) else exactly T (v.tmod o)

/-- `operator|`. -/
def or : Guarded := exactly T (BitVec.ofInt T.width v ||| BitVec.ofInt T.width o).toInt

/-- `operator^`. -/
def xor : Guarded := exactly T (BitVec.ofInt T.width v ^^^ BitVec.ofInt T.width o).toInt

/-- `operator&`. -/
def and : Guarded := exactly T (BitVec.ofInt T.width v &&& BitVec.ofInt T.width o).toInt

/-- The comparisons: 0 or 1 by nature. -/
def comparison (b : Bool) : Guarded := exactly T (ofBool b)

/-- `operator>>`. -/
def shr : Guarded :=
  if o < 0 ∨ T.cast T.width ≤ o ∨ v < 0 then (0, true) else exactly T (v / 2 ^ o.toNat)

/-- `operator<<`. -/
def shl : Guarded :=
  if o < 0 ∨ v < 0 ∨ (clz T v : ℤ) < o ∨ T.cast T.width ≤ o then (0, true)
  else exactly T (v * 2 ^ o.toNat)

end OverflowGuard

/-- `processGuard`, after the value was stored: the new value of `*out` and whether it is valid. -/
def processGuard (g : Guarded) : Bool × ℤ := (!g.2, g.1)

/-- `handleUnary`; the last argument is the value that `*out` has before. -/
def handleUnary (T : MachineType) (op : UnaryOp) (val out : ℤ) : Bool × ℤ :=
  match op with
  | .plus => processGuard (OverflowGuard.pos T val)
  | .minus => processGuard (OverflowGuard.neg T val)
  | .not => processGuard (OverflowGuard.not T val)
  | .compl =>
      match T with
      -- bitwise negation of a boolean expression is always true
      | .bool => (false, out)
      | T => processGuard (OverflowGuard.compl T val)

/-- `handleBinaryCommon`; other operators are fatal. -/
def handleBinaryCommon (T : MachineType) (lval : ℤ) (op : BinaryOp) (rval : ℤ) : Option (Bool × ℤ) :=
  match op with
  | .add => some (processGuard (OverflowGuard.add T lval rval))
  | .sub => some (processGuard (OverflowGuard.sub T lval rval))
  | .mul => some (processGuard (OverflowGuard.mul T lval rval))
  | .div => some (processGuard (OverflowGuard.div T lval rval))
  | .mod => some (processGuard (OverflowGuard.mod T lval rval))
  | .or => some (processGuard (OverflowGuard.or T lval rval))
  | .xor => some (processGuard (OverflowGuard.xor T lval rval))
  | .and => some (processGuard (OverflowGuard.and T lval rval))
  | .eq => some (processGuard (OverflowGuard.comparison T (lval = rval)))
  | .ne => some (processGuard (OverflowGuard.comparison T (lval ≠ rval)))
  | .lt => some (processGuard (OverflowGuard.comparison T (lval < rval)))
  | .gt => some (processGuard (OverflowGuard.comparison T (rval < lval)))
  | .le => some (processGuard (OverflowGuard.comparison T (lval ≤ rval)))
  | .ge => some (processGuard (OverflowGuard.comparison T (rval ≤ lval)))
  | .shr | .shl | .lor | .land => none

/-- `handleShift`; other operators are fatal. -/
def handleShift (T : MachineType) (lval : ℤ) (op : BinaryOp) (rval : ℤ) : Option (Bool × ℤ) :=
  match op with
  | .shr => some (processGuard (OverflowGuard.shr T lval rval))
  | .shl => some (processGuard (OverflowGuard.shl T lval rval))
  | _ => none

/-- `handleLogical`; other operators are fatal. -/
def handleLogical (lval : ℤ) (op : BinaryOp) (rval : ℤ) : Option (Bool × ℤ) :=
  match op with
  | .lor => some (processGuard (OverflowGuard.comparison .bool (lval ≠ 0 || rval ≠ 0)))
  | .land => some (processGuard (OverflowGuard.comparison .bool (lval ≠ 0 && rval ≠ 0)))
  | _ => none

/-! ## Promotion -/

/-- `IsCompatibleType`. -/
def isCompatibleType (type : ConstType) (op : UnaryOp) : Bool :=
  match type with
  | .boolean | .int8 | .int32 | .int64 => true
  | .floating => op = .plus || op = .minus
  | _ => false

/-- `AreCompatibleOperandTypes`. -/
def areCompatibleOperandTypes (t₁ t₂ : ConstType) : Bool :=
  match t₁ with
  | .array => t₂ = .array
  | .string => t₂ = .string
  | .floating => false
  | .boolean | .int8 | .int32 | .int64 =>
      match t₂ with
      | .boolean | .int8 | .int32 | .int64 => true
      | _ => false
  | _ => false

/-- `UsualArithmeticConversion`. -/
def usualArithmeticConversion (left right : ConstType) : ConstType :=
  if left = right then left
  else if left = .boolean then right
  else if right = .boolean then left
  else if left.toNat < right.toNat then right else left

/-- `IntegralPromotion`: 32 bits are the smallest type. -/
def integralPromotion (type : ConstType) : ConstType :=
  if ConstType.int32.toNat < type.toNat then type else .int32

namespace BinaryOp

/-- `OP_IS_BIN_ARITHMETIC`. -/
def isArithmetic (op : BinaryOp) : Bool := op ∈ [add, sub, mul, div, mod]

/-- `OP_IS_BIN_BITFLIP`. -/
def isBitflip (op : BinaryOp) : Bool := op ∈ [or, xor, and]

/-- `OP_IS_BIN_COMP`. -/
def isComp (op : BinaryOp) : Bool := op ∈ [lt, gt, le, ge, eq, ne]

/-- `OP_IS_BIN_SHIFT`. -/
def isShift (op : BinaryOp) : Bool := op ∈ [shr, shl]

/-- `OP_IS_BIN_LOGICAL`. -/
def isLogical (op : BinaryOp) : Bool := op ∈ [lor, land]

end BinaryOp

/-! ## Trees -/

/-- An integer literal after `ParseIntegral`, or a boolean one: the type it has, and a value of
it. -/
inductive Literal where
  | boolean (value : Bool)
  | int8 (value : BitVec 8)
  | int32 (value : BitVec 32)
  | int64 (value : BitVec 64)
  deriving DecidableEq

/-- The type of a literal. -/
def Literal.type : Literal → ConstType
  | .boolean _ => .boolean
  | .int8 _ => .int8
  | .int32 _ => .int32
  | .int64 _ => .int64

/-- The value of a literal. -/
def Literal.value : Literal → ℤ
  | .boolean value => ofBool value
  | .int8 value => value.toInt
  | .int32 value => value.toInt
  | .int64 value => value.toInt

/-- What a node remembers. -/
structure NodeState where
  isValid : Bool
  isEvaluated : Bool
  finalType : ConstType
  finalValue : ℤ
  deriving DecidableEq

/-- `AidlConstantValue` with a literal, `AidlUnaryConstExpression` and
`AidlBinaryConstExpression`. -/
inductive ConstExpr where
  | literal (s : NodeState) (lit : Literal)
  | unary (s : NodeState) (op : UnaryOp) (operand : ConstExpr)
  | binary (s : NodeState) (left : ConstExpr) (op : BinaryOp) (right : ConstExpr)
  deriving DecidableEq

namespace ConstExpr

/-- What the root remembers. -/
def state : ConstExpr → NodeState
  | literal s _ => s
  | unary s _ _ => s
  | binary s _ _ _ => s

/-- A tree as the constructors make it. The value of a node that is no integer literal is not
initialised. -/
def Fresh : ConstExpr → Prop
  | literal s lit =>
      s.isValid = false ∧ s.isEvaluated = false ∧ s.finalType = lit.type
        ∧ (lit.type ≠ .boolean → s.finalValue = lit.value)
  | unary s _ operand =>
      s.isValid = false ∧ s.isEvaluated = false ∧ s.finalType = .unary ∧ operand.Fresh
  | binary s left _ right =>
      s.isValid = false ∧ s.isEvaluated = false ∧ s.finalType = .binary ∧ left.Fresh ∧ right.Fresh

/-- `CheckValid`. -/
def checkValid : ConstExpr → Bool × ConstExpr
  | literal s lit =>
      if s.isEvaluated then (s.isValid, literal s lit)
      else (true, literal { s with isValid := true } lit)
  | unary s op operand =>
      if s.isEvaluated then (s.isValid, unary s op operand)
      else
        let r := operand.checkValid
        if r.1 then (true, unary { s with isValid := true } op r.2)
        else (false, unary { s with isValid := false, finalType := .error } op r.2)
  | binary s left op right =>
      if s.isEvaluated then (s.isValid, binary s left op right)
      else
        let l := left.checkValid
        let r := right.checkValid
        let finalType := if l.1 && r.1 then s.finalType else .error
        if finalType = .error then
          (false, binary { s with finalType, isValid := false } l.2 op r.2)
        else (true, binary { s with finalType, isValid := true } l.2 op r.2)

/-- The part of `AidlUnaryConstExpression::evaluate` behind the recursion. -/
def applyUnary (s : NodeState) (op : UnaryOp) (operand : NodeState) : NodeState :=
  if !isCompatibleType operand.finalType op then { s with isValid := false }
  else if !operand.isValid then { s with isValid := false }
  else if operand.finalType = .floating then
    { s with finalType := operand.finalType, isValid := true }
  else
    match operand.finalType.switchKind with
    | none => { s with finalType := .error, isValid := false }
    | some T =>
        let r := handleUnary T op (T.cast operand.finalValue) s.finalValue
        { s with finalType := operand.finalType, isValid := r.1, finalValue := r.2 }

/-- The result of a handler, when it is not fatal. -/
def setResult (s : NodeState) : Option (Bool × ℤ) → NodeState
  | none => { s with isValid := false }
  | some r => { s with isValid := r.1, finalValue := r.2 }

/-- The part of `AidlBinaryConstExpression::evaluate` behind the recursion. -/
def applyBinary (s : NodeState) (op : BinaryOp) (left right : NodeState) : NodeState :=
  if !left.isValid || !right.isValid then { s with isValid := false }
  else if !areCompatibleOperandTypes left.finalType right.finalType then { s with isValid := false }
  else
    let promoted := usualArithmeticConversion (integralPromotion left.finalType)
      (integralPromotion right.finalType)
    if op.isArithmetic || op.isBitflip || op.isComp then
      let s := { s with
        finalType := if op.isArithmetic || op.isBitflip then promoted else .boolean }
      match promoted.switchKind with
      | none => { s with finalType := .error, isValid := false }
      | some T =>
          setResult s (handleBinaryCommon T (T.cast left.finalValue) op (T.cast right.finalValue))
    else if op.isShift then
      let s := { s with finalType := promoted }
      -- a negative number of bits is a shift into the other direction
      let newOp := if right.finalValue < 0 then (if op = .shl then .shr else .shl) else op
      let numBits := if right.finalValue < 0 then MachineType.int64.cast (-right.finalValue)
        else right.finalValue
      match promoted.switchKind with
      | none => { s with finalType := .error, isValid := false }
      | some T => setResult s (handleShift T (T.cast left.finalValue) newOp (T.cast numBits))
    else
      setResult { s with finalType := .boolean, isValid := true }
        (handleLogical left.finalValue op right.finalValue)

/-- `evaluate`. The node counts as evaluated before its operands are, so the call of `CheckValid` in
it returns what is remembered. -/
def evaluate : ConstExpr → Bool × ConstExpr
  | literal s lit =>
      if s.isEvaluated then (s.isValid, literal s lit)
      else
        let finalValue := if lit.type = .boolean then lit.value else s.finalValue
        (true, literal { s with isEvaluated := true, finalType := lit.type, finalValue } lit)
  | unary s op operand =>
      if s.isEvaluated then (s.isValid, unary s op operand)
      else
        let s := { s with isEvaluated := true }
        let r := if operand.state.isEvaluated then (true, operand) else operand.evaluate
        if !operand.state.isEvaluated && !(s.isValid && r.1) then
          (false, unary { s with isValid := false } op r.2)
        else
          let s := applyUnary s op r.2.state
          (s.isValid, unary s op r.2)
  | binary s left op right =>
      if s.isEvaluated then (s.isValid, binary s left op right)
      else
        let s := { s with isEvaluated := true }
        let evaluated := left.state.isEvaluated && right.state.isEvaluated
        let l := if evaluated then (true, left) else left.evaluate
        let r := if evaluated then (true, right) else right.evaluate
        if !evaluated && !(s.isValid && l.1 && r.1) then
          (false, binary { s with isValid := false } l.2 op r.2)
        else
          let s := applyBinary s op l.2.state r.2.state
          (s.isValid, binary s l.2 op r.2)

/-- A call of `CheckValid` or `evaluate` on some node of a tree. -/
inductive Call : ConstExpr → ConstExpr → Prop
  | checkValid (t : ConstExpr) : Call t t.checkValid.2
  | evaluate (t : ConstExpr) : Call t t.evaluate.2
  | operand {s : NodeState} {op : UnaryOp} {t t' : ConstExpr} (h : Call t t') :
      Call (unary s op t) (unary s op t')
  | left {s : NodeState} {op : BinaryOp} {t t' u : ConstExpr} (h : Call t t') :
      Call (binary s t op u) (binary s t' op u)
  | right {s : NodeState} {op : BinaryOp} {t u u' : ConstExpr} (h : Call u u') :
      Call (binary s t op u) (binary s t op u')

/-- The trees after any number of calls. -/
inductive Reachable : ConstExpr → Prop
  | fresh {t : ConstExpr} (h : t.Fresh) : Reachable t
  | call {t t' : ConstExpr} (h : Reachable t) (hcall : Call t t') : Reachable t'

end ConstExpr

end AndroidSdk.Aidl
