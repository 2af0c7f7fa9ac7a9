import AndroidSdk.Aidl.ConstExpressions
import AndroidSdk.Lib.TwosComplement

/-! # Constant evaluation and the unbounded integers

What a constant expression means: its value in the unbounded integers under the declared typing, if
every intermediate result fits its type. A left shift may reach the sign bit.

* **`Expr.exact`** — this value.
* **`Expr.accepted`** — the value that evaluation gives: some operands are refused, and the minus
  of a boolean that is true is true.
* **`ConstExpr.Sound`** — a node that is remembered as valid has the value that is accepted.
* **`Expr.NegatesTrue`** — a minus is applied to a boolean that is true.
* **`evaluatesExactly_iff`** — evaluation is exact but for such a minus. -/

namespace AndroidSdk.Aidl

open Lib

/-! ## The meaning of an expression -/

/-- A tree without what its nodes remember. -/
inductive Expr where
  | literal (lit : Literal)
  | unary (op : UnaryOp) (operand : Expr)
  | binary (left : Expr) (op : BinaryOp) (right : Expr)
  deriving DecidableEq

namespace MachineType

/-- The values of a type. -/
def Fits : MachineType → ℤ → Prop
  | .bool, v => v = 0 ∨ v = 1
  | T, v => FitsSigned T.width v

instance (T : MachineType) (v : ℤ) : Decidable (T.Fits v) := by
  cases T <;> unfold Fits <;> infer_instance

/-- The type of both operands: the wider one, of at least 32 bits. -/
def promoted (T U : MachineType) : MachineType :=
  if T = .int64 ∨ U = .int64 then .int64 else .int32

end MachineType

/-- The type of a literal. -/
def Literal.machineType : Literal → MachineType
  | .boolean _ => .bool
  | .int8 _ => .int8
  | .int32 _ => .int32
  | .int64 _ => .int64

/-- A unary operator on unbounded integers. -/
def UnaryOp.exact : UnaryOp → ℤ → ℤ
  | .plus, v => v
  | .minus, v => -v
  | .not, v => ofBool (v = 0)
  | .compl, v => v.not

/-- A shift of unbounded integers. To the left it may reach the sign bit. -/
def exactShift (T : MachineType) (left : Bool) (v : ℤ) (n : ℕ) : ℤ :=
  if left then
    if 0 ≤ v ∧ 2 ^ (T.width - 1) ≤ v * 2 ^ n ∧ v * 2 ^ n < 2 ^ T.width then
      v * 2 ^ n - 2 ^ T.width
    else v * 2 ^ n
  else v / 2 ^ n

/-- A binary operator on unbounded integers, with the type of the result. -/
def BinaryOp.exact (T : MachineType) : BinaryOp → ℤ → ℤ → Option (MachineType × ℤ)
  | .add, v, o => some (T, v + o)
  | .sub, v, o => some (T, v - o)
  | .mul, v, o => some (T, v * o)
  | .div, v, o => if o = 0 then none else some (T, v.tdiv o)
  | .mod, v, o => if o = 0 then none else some (T, v.tmod o)
  | .or, v, o => some (T, v.lor o)
  | .xor, v, o => some (T, v.xor o)
  | .and, v, o => some (T, v.land o)
  | .eq, v, o => some (.bool, ofBool (v = o))
  | .ne, v, o => some (.bool, ofBool (v ≠ o))
  | .lt, v, o => some (.bool, ofBool (v < o))
  | .gt, v, o => some (.bool, ofBool (o < v))
  | .le, v, o => some (.bool, ofBool (v ≤ o))
  | .ge, v, o => some (.bool, ofBool (o ≤ v))
  | .shl, v, o =>
      -- a negative count shifts the other way, and must be negated within 64 bits
      if MachineType.int64.Fits (-o) ∨ 0 ≤ o then
        some (T, exactShift T (decide (0 ≤ o)) v o.natAbs)
      else none
  | .shr, v, o =>
      if MachineType.int64.Fits (-o) ∨ 0 ≤ o then
        some (T, exactShift T (decide (o < 0)) v o.natAbs)
      else none
  | .lor, v, o => some (.bool, ofBool (v ≠ 0 || o ≠ 0))
  | .land, v, o => some (.bool, ofBool (v ≠ 0 && o ≠ 0))

/-- The operands that a unary operator takes. -/
def UnaryOp.Accepts (T : MachineType) : UnaryOp → ℤ → Prop
  | .minus, v => v ≠ T.min
  | .compl, _ => T ≠ .bool
  | _, _ => True

instance (T : MachineType) (op : UnaryOp) (v : ℤ) : Decidable (op.Accepts T v) := by
  cases op <;> unfold UnaryOp.Accepts <;> infer_instance

/-- What is shifted is not negative, and by less than its width; to the left by no more than its
leading zeros. -/
def AcceptsShift (T : MachineType) (left : Prop) (v : ℤ) (n : ℕ) : Prop :=
  0 ≤ v ∧ n < T.width ∧ (left → n ≤ clz T v)

instance (T : MachineType) (left : Prop) [Decidable left] (v : ℤ) (n : ℕ) :
    Decidable (AcceptsShift T left v n) :=
  inferInstanceAs (Decidable (_ ∧ _ ∧ (left → _)))

/-- The operands that a binary operator takes. -/
def BinaryOp.Accepts (T : MachineType) : BinaryOp → ℤ → ℤ → Prop
  | .mod, v, o => ¬ (v = T.min ∧ o = -1)
  | .shl, v, o => AcceptsShift T (0 ≤ o) v o.natAbs
  | .shr, v, o => AcceptsShift T (o < 0) v o.natAbs
  | _, _, _ => True

instance (T : MachineType) (op : BinaryOp) (v o : ℤ) : Decidable (op.Accepts T v o) := by
  cases op <;> unfold BinaryOp.Accepts <;> infer_instance

namespace Expr

/-- **The value of an expression** in the unbounded integers, with its type, if every intermediate
result fits its type and nothing is divided by zero. -/
def exact : Expr → Option (MachineType × ℤ)
  | literal lit => some (lit.machineType, lit.value)
  | unary op operand => do
      let (T, v) ← operand.exact
      if T.Fits (op.exact v) then some (T, op.exact v) else none
  | binary left op right => do
      let (T, v) ← left.exact
      let (U, o) ← right.exact
      let (R, r) ← op.exact (T.promoted U) v o
      if R.Fits r then some (R, r) else none

/-- The value of an expression if some operands are refused besides, and the minus of a boolean that
is true is true again. -/
def accepted : Expr → Option (MachineType × ℤ)
  | literal lit => some (lit.machineType, lit.value)
  | unary op operand => do
      let (T, v) ← operand.accepted
      if op.Accepts T v then some (T, T.cast (op.exact v)) else none
  | binary left op right => do
      let (T, v) ← left.accepted
      let (U, o) ← right.accepted
      let (R, r) ← op.exact (T.promoted U) v o
      if R.Fits r ∧ op.Accepts (T.promoted U) v o then some (R, r) else none

/-- A minus is applied to a boolean that is true. -/
def NegatesTrue : Expr → Prop
  | literal _ => False
  | unary op operand =>
      operand.NegatesTrue ∨ (op = .minus ∧ operand.exact = some (.bool, 1))
  | binary left _ right => left.NegatesTrue ∨ right.NegatesTrue

end Expr

/-- A literal fits its type. -/
theorem Literal.fits (lit : Literal) : lit.machineType.Fits lit.value := by
  cases lit with
  | boolean b => cases b <;> simp [Literal.machineType, Literal.value, MachineType.Fits, ofBool]
  | int8 v => exact fitsSigned_toInt (by decide) v
  | int32 v => exact fitsSigned_toInt (by decide) v
  | int64 v => exact fitsSigned_toInt (by decide) v

/-! ## The operators -/

namespace MachineType

variable {T U : MachineType} {v : ℤ}

/-- The type is a signed word. -/
def IsWord (T : MachineType) : Prop := T ≠ .bool

/-- The values of a word. -/
theorem fits_iff (hT : T.IsWord) : T.Fits v ↔ FitsSigned T.width v := by
  cases T with
  | bool => exact absurd rfl hT
  | int8 => exact Iff.rfl
  | int32 => exact Iff.rfl
  | int64 => exact Iff.rfl

/-- Words have bits. -/
theorem width_pos (T : MachineType) : 0 < T.width := by
  cases T <;> decide

/-- **A cast changes only what does not fit.** -/
theorem cast_eq_self_iff : T.cast v = v ↔ T.Fits v := by
  cases T with
  | bool =>
      simp only [cast, Fits]
      split_ifs with hv
      · simp [hv]
      · simp [hv, eq_comm]
  | int8 => exact bmod_eq_self_iff (by decide)
  | int32 => exact bmod_eq_self_iff (by decide)
  | int64 => exact bmod_eq_self_iff (by decide)

/-- A cast gives a value of the type. -/
theorem fits_cast (T : MachineType) (v : ℤ) : T.Fits (T.cast v) := by
  refine cast_eq_self_iff.mp ?_
  cases T with
  | bool => by_cases hv : v = 0 <;> simp [cast, hv]
  | int8 | int32 | int64 => exact Int.bmod_bmod

/-- Truth values fit every type. -/
theorem fits_ofBool (T : MachineType) (b : Bool) : T.Fits (ofBool b) := by
  cases T <;> cases b <;> decide

/-- A value of an operand fits the common type. -/
theorem Fits.promoted_left (h : T.Fits v) (U : MachineType) : (T.promoted U).Fits v := by
  have hcases : (T.promoted U = .int64) ∨ (T.promoted U = .int32 ∧ T ≠ .int64) := by
    cases T <;> cases U <;> simp [promoted]
  rcases hcases with heq | ⟨heq, hne⟩
  · rw [heq]
    cases T with
    | bool => rcases h with rfl | rfl <;> decide
    | int8 => exact FitsSigned.mono h (by decide)
    | int32 => exact FitsSigned.mono h (by decide)
    | int64 => exact h
  · rw [heq]
    cases T with
    | bool => rcases h with rfl | rfl <;> decide
    | int8 => exact FitsSigned.mono h (by decide)
    | int32 => exact h
    | int64 => exact absurd rfl hne

/-- The common type does not depend on the order. -/
theorem promoted_comm (T U : MachineType) : T.promoted U = U.promoted T := by
  cases T <;> cases U <;> rfl

/-- The common type is a word. -/
theorem isWord_promoted (T U : MachineType) : (T.promoted U).IsWord := by
  cases T <;> cases U <;> simp [promoted, IsWord]

/-- The common type is the one that the conversions give. -/
theorem switchKind_promoted (T U : MachineType) :
    usualArithmeticConversion (integralPromotion T.constType) (integralPromotion U.constType)
      = (T.promoted U).constType := by
  cases T <;> cases U <;> rfl

/-- The type of constants gives the machine type back. -/
@[simp]
theorem switchKind_constType (T : MachineType) : T.constType.switchKind = some T := by
  cases T <;> rfl

end MachineType

section Operators

variable {T : MachineType} {v o x r out : ℤ}

/-- An operator whose result fits returns it. -/
theorem of_exactly (hx : T.Fits x) (h : processGuard (OverflowGuard.exactly T x) = (true, r)) :
    r = x ∧ T.Fits r := by
  have hr : T.cast x = r := congrArg Prod.snd h
  rw [MachineType.cast_eq_self_iff.mpr hx] at hr
  exact ⟨hr.symm, hr ▸ hx⟩

/-- A built-in operation that does not overflow returns its result, which fits. -/
theorem of_builtin (h : processGuard (OverflowGuard.builtin T x) = (true, r)) :
    r = x ∧ T.Fits r := by
  have hok : (!decide (T.cast x ≠ x)) = true := congrArg Prod.fst h
  have hr : T.cast x = r := congrArg Prod.snd h
  have hcast : T.cast x = x := by simpa using hok
  have hx := MachineType.cast_eq_self_iff.mp hcast
  rw [hcast] at hr
  exact ⟨hr.symm, hr ▸ hx⟩

/-- An operator that checks its operands. -/
theorem of_guard {c : Prop} [Decidable c] {g : Guarded}
    (h : processGuard (if c then (0, true) else g) = (true, r)) :
    ¬ c ∧ processGuard g = (true, r) := by
  split_ifs at h with hc
  · cases h
  · exact ⟨hc, h⟩

/-- The complement of an integer. -/
theorem not_eq (v : ℤ) : v.not = -v - 1 := by
  cases v with
  | ofNat n =>
      show Int.negSucc n = -(n : ℤ) - 1
      omega
  | negSucc n =>
      show (n : ℤ) = -Int.negSucc n - 1
      omega

/-- **A unary operator succeeds on the operands that it takes**, with the exact value as one of the
type. -/
theorem handleUnary_eq_true_iff (hv : T.Fits v) {op : UnaryOp} :
    handleUnary T op v out = (true, r) ↔ op.Accepts T v ∧ T.cast (op.exact v) = r := by
  have hexactly : ∀ x : ℤ, processGuard (OverflowGuard.exactly T x) = (true, r) ↔ T.cast x = r :=
    fun x => ⟨congrArg Prod.snd, fun h => Prod.ext rfl h⟩
  cases op with
  | plus => exact (hexactly v).trans (and_iff_right trivial).symm
  | minus =>
      show processGuard (if v = T.min then (0, true) else OverflowGuard.exactly T (-v)) = _ ↔ _
      by_cases hmin : v = T.min
      · rw [if_pos hmin]
        exact ⟨fun h => absurd (congrArg Prod.fst h) Bool.false_ne_true, fun h => absurd hmin h.1⟩
      · rw [if_neg hmin, hexactly]
        exact (and_iff_right hmin).symm
  | not => exact (hexactly _).trans (and_iff_right trivial).symm
  | compl =>
      cases T with
      | bool =>
          exact ⟨fun h => absurd (congrArg Prod.fst h) Bool.false_ne_true, fun h => (h.1 rfl).elim⟩
      | int8 | int32 | int64 =>
          rw [UnaryOp.exact, not_eq, UnaryOp.Accepts, and_iff_right (by decide)]
          exact hexactly _

/-- **A unary operator is exact**, but for the minus of a boolean. -/
theorem fits_unary_exact (hv : T.Fits v) {op : UnaryOp}
    (hneg : ¬ (op = .minus ∧ T = .bool ∧ v = 1)) (h : op.Accepts T v) : T.Fits (op.exact v) := by
  cases op with
  | plus => exact hv
  | minus =>
      cases T with
      | bool =>
          rcases hv with rfl | rfl
          · exact absurd rfl h
          · exact absurd ⟨rfl, rfl, rfl⟩ hneg
      | int8 | int32 | int64 =>
          simp only [MachineType.Fits, FitsSigned, MachineType.width, MachineType.min,
            UnaryOp.exact, UnaryOp.Accepts] at hv h ⊢
          omega
  | not => exact T.fits_ofBool _
  | compl =>
      cases T with
      | bool => exact absurd rfl h
      | int8 | int32 | int64 =>
          rw [UnaryOp.exact, not_eq]
          simp only [MachineType.Fits, FitsSigned, MachineType.width] at hv ⊢
          omega

/-- **A binary operator that does not overflow is exact.** -/
theorem handleBinaryCommon_exact (hT : T.IsWord) (hv : T.Fits v) (ho : T.Fits o) {op : BinaryOp}
    (h : handleBinaryCommon T v op o = some (true, r)) :
    ∃ R, op.exact T v o = some (R, r) ∧ (R.Fits r ∧ op.Accepts T v o)
      ∧ R = if op.isArithmetic || op.isBitflip then T else .bool := by
  have hvw := (MachineType.fits_iff hT).mp hv
  have how := (MachineType.fits_iff hT).mp ho
  -- bitwise results have the width of the type, so they always fit
  have hbits : ∀ x : BitVec T.width, T.Fits x.toInt :=
    fun x => (MachineType.fits_iff hT).mpr (fitsSigned_toInt T.width_pos x)
  have hmin : T.min = -2 ^ (T.width - 1) := by
    cases T with
    | bool => exact absurd rfl hT
    | int8 | int32 | int64 => rfl
  -- a comparison is made in the type, and its result is boolean
  have hcomp : ∀ b : Bool, processGuard (OverflowGuard.comparison T b) = (true, r) →
      r = ofBool b ∧ MachineType.bool.Fits r := by
    intro b hb
    obtain ⟨rfl, -⟩ := of_exactly (T.fits_ofBool b) hb
    exact ⟨rfl, MachineType.fits_ofBool _ b⟩
  -- what the guard of a division rules out
  have hboth : ¬ (o = 0 ∨ (v = T.min ∧ o = -1)) →
      o ≠ 0 ∧ ¬ (v = -2 ^ (T.width - 1) ∧ o = -1) := by
    rw [hmin]
    exact not_or.mp
  cases op with
  | add | sub | mul =>
      have h := Option.some.inj h
      cases T with
      | bool => exact absurd rfl hT
      | int8 | int32 | int64 =>
          obtain ⟨rfl, hr⟩ := of_builtin h
          exact ⟨_, rfl, ⟨hr, trivial⟩, rfl⟩
  | div =>
      obtain ⟨hguard, h⟩ := of_guard (Option.some.inj h)
      obtain ⟨ho0, hne⟩ := hboth hguard
      obtain ⟨rfl, hr⟩ := of_exactly ((MachineType.fits_iff hT).mpr (hvw.tdiv ho0 hne)) h
      exact ⟨_, if_neg ho0, ⟨hr, trivial⟩, rfl⟩
  | mod =>
      obtain ⟨hguard, h⟩ := of_guard (Option.some.inj h)
      obtain ⟨ho0, -⟩ := hboth hguard
      obtain ⟨rfl, hr⟩ := of_exactly ((MachineType.fits_iff hT).mpr (hvw.tmod o)) h
      exact ⟨_, if_neg ho0, ⟨hr, fun hmin => hguard (.inr hmin)⟩, rfl⟩
  | or =>
      obtain ⟨rfl, hr⟩ := of_exactly (hbits _) (Option.some.inj h)
      rw [toInt_or_ofInt T.width_pos hvw how] at hr ⊢
      exact ⟨_, rfl, ⟨hr, trivial⟩, rfl⟩
  | xor =>
      obtain ⟨rfl, hr⟩ := of_exactly (hbits _) (Option.some.inj h)
      rw [toInt_xor_ofInt T.width_pos hvw how] at hr ⊢
      exact ⟨_, rfl, ⟨hr, trivial⟩, rfl⟩
  | and =>
      obtain ⟨rfl, hr⟩ := of_exactly (hbits _) (Option.some.inj h)
      rw [toInt_and_ofInt T.width_pos hvw how] at hr ⊢
      exact ⟨_, rfl, ⟨hr, trivial⟩, rfl⟩
  | eq | ne | lt | gt | le | ge =>
      obtain ⟨rfl, hr⟩ := hcomp _ (Option.some.inj h)
      exact ⟨_, rfl, ⟨hr, trivial⟩, rfl⟩
  | shr | shl | lor | land => cases h

/-- **A binary operator succeeds** on operands that it takes and whose exact result fits. -/
theorem handleBinaryCommon_complete (hT : T.IsWord) {op : BinaryOp} {R : MachineType}
    (hcommon : (op.isArithmetic || op.isBitflip || op.isComp) = true)
    (hexact : op.exact T v o = some (R, x)) (hR : R.Fits x) (haccepts : op.Accepts T v o) :
    ∃ y, handleBinaryCommon T v op o = some (true, y) := by
  have hbuiltin : ∀ z : ℤ, some (T, z) = some (R, x) →
      ∃ y, some (processGuard (OverflowGuard.builtin T z)) = some (true, y) := by
    intro z hz
    cases hz
    refine ⟨T.cast x, congrArg some (Prod.ext ?_ rfl)⟩
    show (!decide (T.cast x ≠ x)) = true
    simp [MachineType.cast_eq_self_iff.mpr hR]
  have hguarded : ∀ {c : Prop} [Decidable c] (z : ℤ), ¬ c →
      ∃ y, some (processGuard (if c then (0, true) else OverflowGuard.exactly T z))
        = some (true, y) := by
    intro c _ z hc
    rw [if_neg hc]
    exact ⟨_, rfl⟩
  cases op with
  | add | sub | mul =>
      cases T with
      | bool => exact absurd rfl hT
      | int8 | int32 | int64 => exact hbuiltin _ hexact
  | div =>
      refine hguarded (v.tdiv o) fun hc => ?_
      rw [BinaryOp.exact] at hexact
      split_ifs at hexact with ho0
      cases hexact
      rcases hc with hc | ⟨rfl, rfl⟩
      · exact ho0 hc
      · -- the quotient is one more than the greatest value
        cases T with
        | bool => exact absurd rfl hT
        | int8 | int32 | int64 => exact absurd hR (by decide)
  | mod =>
      refine hguarded (v.tmod o) fun hc => ?_
      rw [BinaryOp.exact] at hexact
      split_ifs at hexact with ho0
      exact hc.elim ho0 haccepts
  | or | xor | and | eq | ne | lt | gt | le | ge => exact ⟨_, rfl⟩
  | shr | shl | lor | land => cases hcommon

/-- The types of shifts. -/
theorem MachineType.promoted_cases (T U : MachineType) :
    T.promoted U = .int32 ∨ T.promoted U = .int64 := by
  cases T <;> cases U <;> simp [promoted]

/-- **The count of a shift**: if it is not negative after the casts, it is the magnitude of the
operand, and could be negated. -/
theorem cast_count (hT : T = .int32 ∨ T = .int64) (ho : T.Fits o)
    (hx : x = if o < 0 then MachineType.int64.cast (-o) else o) (h0 : 0 ≤ T.cast x) :
    T.cast x = o.natAbs ∧ (MachineType.int64.Fits (-o) ∨ 0 ≤ o) := by
  have habs : (o.natAbs : ℤ) = if o < 0 then -o else o := by
    split_ifs <;> omega
  rw [habs]
  rcases hT with rfl | rfl
  all_goals
    simp only [MachineType.cast, MachineType.width, MachineType.Fits, FitsSigned,
      Int.bmod_def] at ho hx h0 ⊢
    norm_num at ho hx h0 ⊢
    split_ifs at hx h0 ⊢ <;> omega

/-- A count below the width is not changed by the casts. -/
theorem cast_count_of_lt (hT : T = .int32 ∨ T = .int64)
    (hx : x = if o < 0 then MachineType.int64.cast (-o) else o) (h : o.natAbs < T.width) :
    T.cast x = o.natAbs := by
  have habs : (o.natAbs : ℤ) = if o < 0 then -o else o := by
    split_ifs <;> omega
  have hlt : (o.natAbs : ℤ) < T.width := by exact_mod_cast h
  rw [habs] at hlt ⊢
  rcases hT with rfl | rfl
  all_goals
    simp only [MachineType.cast, MachineType.width, Int.bmod_def] at hx hlt ⊢
    norm_num at hx hlt ⊢
    split_ifs at hx hlt ⊢ <;> omega

/-- The width of a type is one of its values. -/
theorem cast_width (hT : T = .int32 ∨ T = .int64) : T.cast T.width = T.width := by
  rcases hT with rfl | rfl <;> rfl

/-- A shift to the left that does not overflow. -/
theorem shl_exact (hT : T = .int32 ∨ T = .int64) (hv : T.Fits v) {n : ℕ}
    (h : processGuard (OverflowGuard.shl T v n) = (true, r)) :
    r = exactShift T true v n ∧ T.Fits r ∧ 0 ≤ v ∧ n < T.width ∧ n ≤ clz T v := by
  obtain ⟨hguard, h⟩ := of_guard h
  push Not at hguard
  obtain ⟨-, hv0, hclz, hwidth⟩ := hguard
  rw [cast_width hT] at hwidth
  have hword : T.IsWord := by rcases hT with rfl | rfl <;> simp [MachineType.IsWord]
  have hvw := (MachineType.fits_iff hword).mp hv
  obtain ⟨m, rfl⟩ := Int.eq_ofNat_of_zero_le hv0
  -- the shifted value has no more digits than the type
  have hlt : m * 2 ^ n < 2 ^ T.width := by
    rcases Nat.eq_zero_or_pos m with rfl | hpos
    · rw [Nat.zero_mul]
      positivity
    · have hcount : n ≤ clz T m := by exact_mod_cast hclz
      have hsize : m.size ≤ T.width := by
        refine Nat.size_le.mpr ?_
        have hhalf := two_pow_eq T.width_pos
        have hm' : (m : ℤ) < 2 ^ T.width := by
          have := hvw.2
          omega
        exact_mod_cast hm'
      refine mul_two_pow_lt ?_ hsize
      rcases hT with rfl | rfl
      · simpa [clz, hpos.ne', MachineType.width] using hcount
      · simpa [clz, hpos.ne', MachineType.width] using hcount
  have hltz : (m : ℤ) * 2 ^ n < 2 ^ T.width := by exact_mod_cast hlt
  have h0 : 0 ≤ (m : ℤ) * 2 ^ n := by positivity
  have hcast : T.cast ((m : ℤ) * 2 ^ n) = exactShift T true m n := by
    have hbmod := bmod_of_lt T.width_pos h0 hltz
    have hdef : T.cast ((m : ℤ) * 2 ^ n) = ((m : ℤ) * 2 ^ n).bmod (2 ^ T.width) := by
      rcases hT with rfl | rfl <;> rfl
    rw [hdef, hbmod, exactShift, if_pos rfl]
    simp only [hv0, hltz, true_and, and_true]
  have hr : T.cast ((m : ℤ) * 2 ^ n) = r := congrArg Prod.snd h
  refine ⟨hr.symm.trans hcast, ?_, hv0, by exact_mod_cast hwidth, by exact_mod_cast hclz⟩
  rw [← hr]
  exact T.fits_cast _

/-- A shift to the right that does not overflow. -/
theorem shr_exact (hT : T = .int32 ∨ T = .int64) (hv : T.Fits v) {n : ℕ}
    (h : processGuard (OverflowGuard.shr T v n) = (true, r)) :
    r = exactShift T false v n ∧ T.Fits r ∧ 0 ≤ v ∧ n < T.width := by
  have hword : T.IsWord := by rcases hT with rfl | rfl <;> simp [MachineType.IsWord]
  obtain ⟨hguard, h⟩ := of_guard h
  push Not at hguard
  obtain ⟨-, hwidth, hv0⟩ := hguard
  rw [cast_width hT] at hwidth
  have hfits : T.Fits (v / 2 ^ n) := (MachineType.fits_iff hword).mpr ?_
  · obtain ⟨hr, hrfits⟩ := of_exactly hfits h
    exact ⟨hr, hrfits, hv0, by exact_mod_cast hwidth⟩
  obtain ⟨hlo, hhi⟩ := (MachineType.fits_iff hword).mp hv
  have hdiv : v / 2 ^ n ≤ v := Int.ediv_le_self _ hv0
  have hdiv0 : 0 ≤ v / 2 ^ n := Int.ediv_nonneg hv0 (by positivity)
  show FitsSigned T.width (v / 2 ^ n)
  exact ⟨by linarith, by linarith⟩

/-- The direction of a shift, which a negative count turns round. -/
theorem shift_direction {op newOp : BinaryOp} (hop : op = .shl ∨ op = .shr)
    (hnew : newOp = if o < 0 then (if op = .shl then .shr else .shl) else op) :
    (newOp = .shl ∧ (op = .shl ↔ 0 ≤ o)) ∨ (newOp = .shr ∧ (op = .shr ↔ 0 ≤ o)) := by
  rw [hnew]
  rcases hop with rfl | rfl
  · by_cases ho0 : o < 0
    · simp [ho0, not_le.mpr ho0]
    · simp [ho0, not_lt.mp ho0]
  · by_cases ho0 : o < 0
    · simp [ho0, not_le.mpr ho0]
    · simp [ho0, not_lt.mp ho0]

/-- **A shift that does not overflow is exact.** -/
theorem handleShift_exact (hT : T = .int32 ∨ T = .int64) (hv : T.Fits v) (ho : T.Fits o)
    {op newOp : BinaryOp} (hop : op = .shl ∨ op = .shr)
    (hnew : newOp = if o < 0 then (if op = .shl then .shr else .shl) else op)
    (hx : x = if o < 0 then MachineType.int64.cast (-o) else o)
    (h : handleShift T v newOp (T.cast x) = some (true, r)) :
    op.exact T v o = some (T, r) ∧ T.Fits r ∧ op.Accepts T v o := by
  rcases shift_direction hop hnew with ⟨rfl, hiff⟩ | ⟨rfl, hiff⟩
  · have h := Option.some.inj h
    obtain ⟨hcount, hneg⟩ := cast_count hT ho hx (by
      have hguard := (of_guard h).1
      push Not at hguard
      exact hguard.1)
    rw [hcount] at h
    obtain ⟨rfl, hfits, hv0, hwidth, hclz⟩ := shl_exact hT hv h
    have haccepts : op.Accepts T v o := by
      rcases hop with rfl | rfl <;> exact ⟨hv0, hwidth, fun _ => hclz⟩
    refine ⟨?_, hfits, haccepts⟩
    rcases hop with rfl | rfl
    · have ho0 : 0 ≤ o := hiff.mp rfl
      simp [BinaryOp.exact, ho0]
    · have ho0 : o < 0 := by simpa using hiff
      simp [BinaryOp.exact, hneg, ho0]
  · have h := Option.some.inj h
    obtain ⟨hcount, hneg⟩ := cast_count hT ho hx (by
      have hguard := (of_guard h).1
      push Not at hguard
      exact hguard.1)
    rw [hcount] at h
    obtain ⟨rfl, hfits, hv0, hwidth⟩ := shr_exact hT hv h
    rcases hop with rfl | rfl
    · have ho0 : o < 0 := by simpa using hiff
      have hfits64 := hneg.resolve_right (not_le.mpr ho0)
      refine ⟨?_, hfits, hv0, hwidth, fun hle => absurd hle (not_le.mpr ho0)⟩
      simp [BinaryOp.exact, hfits64, not_le.mpr ho0]
    · have ho0 : 0 ≤ o := hiff.mp rfl
      refine ⟨?_, hfits, hv0, hwidth, fun hlt => absurd hlt (not_lt.mpr ho0)⟩
      simp [BinaryOp.exact, ho0, not_lt.mpr ho0]

/-- **A shift succeeds** on operands that it takes. -/
theorem handleShift_complete (hT : T = .int32 ∨ T = .int64) {op newOp : BinaryOp}
    (hop : op = .shl ∨ op = .shr)
    (hnew : newOp = if o < 0 then (if op = .shl then .shr else .shl) else op)
    (hx : x = if o < 0 then MachineType.int64.cast (-o) else o) (haccepts : op.Accepts T v o) :
    ∃ y, handleShift T v newOp (T.cast x) = some (true, y) := by
  obtain ⟨left, hleft, hv0, hwidth, hclz⟩ : ∃ left : Prop,
      (left ↔ newOp = .shl) ∧ AcceptsShift T left v o.natAbs := by
    rcases hop with rfl | rfl
    · refine ⟨_, ?_, haccepts⟩
      rcases shift_direction (.inl rfl) hnew with ⟨rfl, hiff⟩ | ⟨rfl, hiff⟩ <;> simpa using hiff
    · refine ⟨_, ?_, haccepts⟩
      rcases shift_direction (.inr rfl) hnew with ⟨rfl, hiff⟩ | ⟨rfl, hiff⟩ <;> simpa using hiff
  have hcount := cast_count_of_lt hT hx hwidth
  have hwidthz : (o.natAbs : ℤ) < T.width := by exact_mod_cast hwidth
  rcases shift_direction hop hnew with ⟨rfl, -⟩ | ⟨rfl, -⟩
  · have hclzz : (o.natAbs : ℤ) ≤ clz T v := by exact_mod_cast hclz (hleft.mpr rfl)
    rw [handleShift, OverflowGuard.shl, hcount, cast_width hT, if_neg (by omega)]
    exact ⟨_, rfl⟩
  · rw [handleShift, OverflowGuard.shr, hcount, cast_width hT, if_neg (by omega)]
    exact ⟨_, rfl⟩

end Operators

/-! ## What nodes remember -/

/-- The node has the value that is accepted. -/
def Means (e : Expr) (s : NodeState) : Prop :=
  ∃ T, e.accepted = some (T, s.finalValue) ∧ s.finalType = T.constType ∧ T.Fits s.finalValue

/-- What a unary operator accepts. -/
theorem Expr.accepted_unary {e : Expr} {T : MachineType} {v : ℤ} (h : e.accepted = some (T, v))
    (op : UnaryOp) : (Expr.unary op e).accepted
      = if op.Accepts T v then some (T, T.cast (op.exact v)) else none := by
  rw [Expr.accepted, h]
  rfl

/-- What a binary operator accepts. -/
theorem Expr.accepted_binary {e f : Expr} {T U : MachineType} {v o : ℤ}
    (h : e.accepted = some (T, v)) (h' : f.accepted = some (U, o)) (op : BinaryOp) :
    (Expr.binary e op f).accepted = (op.exact (T.promoted U) v o).bind fun x =>
      if x.1.Fits x.2 ∧ op.Accepts (T.promoted U) v o then some x else none := by
  rw [Expr.accepted, h, h']
  rfl

/-- **The step at a unary operator** with a valid operand. -/
theorem applyUnary_means {s operand : NodeState} {op : UnaryOp} {e : Expr}
    (hvalid : operand.isValid = true) (hoperand : Means e operand) :
    ((ConstExpr.applyUnary s op operand).isValid = true
        → Means (.unary op e) (ConstExpr.applyUnary s op operand))
      ∧ ((Expr.unary op e).accepted ≠ none →
        (ConstExpr.applyUnary s op operand).isValid = true) := by
  obtain ⟨T, haccepted, htype, hfits⟩ := hoperand
  have hcompatible : isCompatibleType T.constType op = true := by cases T <;> rfl
  have hfloating : T.constType ≠ .floating := by cases T <;> simp [MachineType.constType]
  rw [ConstExpr.applyUnary, Expr.accepted_unary haccepted]
  simp only [htype, hcompatible, hvalid, hfloating, Bool.not_true, Bool.false_eq_true, if_false,
    T.switchKind_constType, MachineType.cast_eq_self_iff.mpr hfits]
  constructor
  · intro h
    obtain ⟨haccepts, hr⟩ := (handleUnary_eq_true_iff hfits).mp (Prod.ext h rfl)
    refine ⟨T, by rw [Expr.accepted_unary haccepted, if_pos haccepts, hr], rfl, ?_⟩
    exact (congrArg T.Fits hr).mp (T.fits_cast _)
  · intro h
    by_cases haccepts : op.Accepts T operand.finalValue
    · exact congrArg Prod.fst ((handleUnary_eq_true_iff hfits).mpr ⟨haccepts, rfl⟩)
    · exact absurd (if_neg haccepts) h

/-- An operator needs valid operands. -/
theorem isValid_of_applyUnary {s operand : NodeState} {op : UnaryOp}
    (h : (ConstExpr.applyUnary s op operand).isValid = true) : operand.isValid = true := by
  by_contra hvalid
  rw [ConstExpr.applyUnary] at h
  split_ifs at h with hcompatible hinvalid
  · exact hinvalid (by simpa using hvalid)
  · exact hinvalid (by simpa using hvalid)

/-- What a binary operator does with valid operands, which are cast to their common type. -/
theorem applyBinary_eq {s left right : NodeState} {op : BinaryOp} {T U : MachineType}
    (hleft : left.isValid = true) (hright : right.isValid = true)
    (htype : left.finalType = T.constType) (htype' : right.finalType = U.constType)
    (hl : (T.promoted U).Fits left.finalValue) (hr : (T.promoted U).Fits right.finalValue) :
    ConstExpr.applyBinary s op left right
      = if op.isArithmetic || op.isBitflip || op.isComp then
          ConstExpr.setResult { s with finalType :=
              if op.isArithmetic || op.isBitflip then (T.promoted U).constType else .boolean }
            (handleBinaryCommon (T.promoted U) left.finalValue op right.finalValue)
        else if op.isShift then
          ConstExpr.setResult { s with finalType := (T.promoted U).constType }
            (handleShift (T.promoted U) left.finalValue
              (if right.finalValue < 0 then (if op = .shl then .shr else .shl) else op)
              ((T.promoted U).cast (if right.finalValue < 0 then
                MachineType.int64.cast (-right.finalValue) else right.finalValue)))
        else
          ConstExpr.setResult { s with finalType := .boolean, isValid := true }
            (handleLogical left.finalValue op right.finalValue) := by
  have hcompatible : areCompatibleOperandTypes T.constType U.constType = true := by
    cases T <;> cases U <;> rfl
  rw [ConstExpr.applyBinary]
  simp only [hleft, hright, htype, htype', hcompatible, MachineType.switchKind_promoted,
    MachineType.switchKind_constType, MachineType.cast_eq_self_iff.mpr hl,
    MachineType.cast_eq_self_iff.mpr hr, Bool.not_true, Bool.or_self, Bool.false_eq_true, if_false]

/-- A handler that succeeds sets the value. -/
theorem of_setResult {s : NodeState} {result : Option (Bool × ℤ)}
    (h : (ConstExpr.setResult s result).isValid = true) :
    result = some (true, (ConstExpr.setResult s result).finalValue)
      ∧ (ConstExpr.setResult s result).finalType = s.finalType := by
  cases result with
  | none => cases h
  | some r =>
      obtain ⟨ok, x⟩ := r
      obtain rfl : ok = true := h
      exact ⟨rfl, rfl⟩

/-- An operator needs valid operands. -/
theorem isValid_of_applyBinary {s left right : NodeState} {op : BinaryOp}
    (h : (ConstExpr.applyBinary s op left right).isValid = true) :
    left.isValid = true ∧ right.isValid = true := by
  by_contra hinvalid
  have hcheck : (!left.isValid || !right.isValid) = true := by
    rw [Decidable.not_and_iff_or_not] at hinvalid
    simpa using hinvalid
  rw [ConstExpr.applyBinary, if_pos hcheck] at h
  cases h

/-- A handler that succeeds makes the node valid. -/
theorem isValid_setResult {s : NodeState} {result : Option (Bool × ℤ)}
    (h : ∃ y, result = some (true, y)) : (ConstExpr.setResult s result).isValid = true := by
  obtain ⟨y, rfl⟩ := h
  rfl

/-- **The step at a binary operator** with valid operands. -/
theorem applyBinary_means {s left right : NodeState} {op : BinaryOp} {e f : Expr}
    (hvalid : left.isValid = true ∧ right.isValid = true) (hleft : Means e left)
    (hright : Means f right) :
    ((ConstExpr.applyBinary s op left right).isValid = true
        → Means (.binary e op f) (ConstExpr.applyBinary s op left right))
      ∧ ((Expr.binary e op f).accepted ≠ none →
        (ConstExpr.applyBinary s op left right).isValid = true) := by
  obtain ⟨T, haccepted, htype, hfits⟩ := hleft
  obtain ⟨U, haccepted', htype', hfits'⟩ := hright
  -- both operands are promoted to the common type
  have hl : (T.promoted U).Fits left.finalValue := hfits.promoted_left U
  have hr : (T.promoted U).Fits right.finalValue := by
    rw [T.promoted_comm U]
    exact hfits'.promoted_left T
  -- a result that fits is the accepted one, and the other way round
  have hresult : ∀ (R : MachineType) (x : ℤ),
      op.exact (T.promoted U) left.finalValue right.finalValue = some (R, x) →
        R.Fits x ∧ op.Accepts (T.promoted U) left.finalValue right.finalValue →
        (Expr.binary e op f).accepted = some (R, x) := by
    intro R x hop hx
    rw [Expr.accepted_binary haccepted haccepted', hop]
    exact if_pos hx
  have hcomplete : (Expr.binary e op f).accepted ≠ none → ∃ R x,
      op.exact (T.promoted U) left.finalValue right.finalValue = some (R, x)
        ∧ R.Fits x ∧ op.Accepts (T.promoted U) left.finalValue right.finalValue := by
    intro h
    rw [Expr.accepted_binary haccepted haccepted'] at h
    cases hop : op.exact (T.promoted U) left.finalValue right.finalValue with
    | none => exact absurd (by rw [hop]; rfl) h
    | some x =>
        rw [hop] at h
        exact ⟨x.1, x.2, rfl, by_contra fun hx => h (if_neg hx)⟩
  rw [applyBinary_eq hvalid.1 hvalid.2 htype htype' hl hr]
  by_cases hcommon : (op.isArithmetic || op.isBitflip || op.isComp) = true
  · rw [if_pos hcommon]
    -- arithmetic, bits and comparisons work on the promoted operands
    constructor
    · intro h
      obtain ⟨hhandle, hfinal⟩ := of_setResult h
      obtain ⟨R, hop, hR, hRdef⟩ := handleBinaryCommon_exact (T.isWord_promoted U) hl hr hhandle
      refine ⟨R, hresult R _ hop hR, ?_, hR.1⟩
      rw [hfinal, hRdef]
      cases op.isArithmetic || op.isBitflip <;> rfl
    · intro h
      obtain ⟨R, x, hop, hR, haccepts⟩ := hcomplete h
      exact isValid_setResult
        (handleBinaryCommon_complete (T.isWord_promoted U) hcommon hop hR haccepts)
  rw [if_neg hcommon]
  by_cases hshift : op.isShift = true
  · rw [if_pos hshift]
    -- so do shifts, which have a guard of their own
    have hop : op = .shl ∨ op = .shr := by
      rw [BinaryOp.isShift] at hshift
      simpa [or_comm] using hshift
    constructor
    · intro h
      obtain ⟨hhandle, hfinal⟩ := of_setResult h
      obtain ⟨hop, hR⟩ := handleShift_exact (T.promoted_cases U) hl hr hop rfl rfl hhandle
      exact ⟨_, hresult _ _ hop hR, hfinal, hR.1⟩
    · intro h
      obtain ⟨R, x, -, -, haccepts⟩ := hcomplete h
      exact isValid_setResult (handleShift_complete (T.promoted_cases U) hop rfl rfl haccepts)
  -- logical operators cannot fail
  · rw [if_neg hshift]
    obtain ⟨b, hb, hop⟩ : ∃ b, handleLogical left.finalValue op right.finalValue
          = some (processGuard (OverflowGuard.comparison .bool b))
        ∧ (op.exact (T.promoted U) left.finalValue right.finalValue = some (.bool, ofBool b)
          ∧ op.Accepts (T.promoted U) left.finalValue right.finalValue) := by
      cases op with
      | lor => exact ⟨_, rfl, rfl, trivial⟩
      | land => exact ⟨_, rfl, rfl, trivial⟩
      | shl | shr => exact absurd rfl hshift
      | _ => exact absurd rfl hcommon
    constructor
    · intro h
      obtain ⟨hhandle, hfinal⟩ := of_setResult h
      have hcomparison : processGuard (OverflowGuard.comparison .bool b) = (true, _) :=
        Option.some.inj (hb.symm.trans hhandle)
      obtain ⟨hx, hR⟩ := of_exactly (MachineType.bool.fits_ofBool b) hcomparison
      exact ⟨.bool, hresult .bool _ (by rw [hop.1, hx]) ⟨hR, hop.2⟩, hfinal, hR⟩
    · exact fun _ => isValid_setResult ⟨_, hb⟩

namespace ConstExpr

/-- The tree without what its nodes remember. -/
def erase : ConstExpr → Expr
  | literal _ lit => .literal lit
  | unary _ op operand => .unary op operand.erase
  | binary _ left op right => .binary left.erase op right.erase

/-- **What is remembered is right**: an evaluated node that is valid has the value of its
expression. -/
def Sound : ConstExpr → Prop
  | literal s lit =>
      (lit.type ≠ .boolean → s.finalValue = lit.value)
        ∧ (s.isEvaluated = true → s.finalType = lit.type ∧ s.finalValue = lit.value)
  | unary s op operand =>
      operand.Sound
        ∧ (s.isEvaluated = true → s.isValid = true → Means (.unary op operand.erase) s)
  | binary s left op right =>
      left.Sound ∧ right.Sound
        ∧ (s.isEvaluated = true → s.isValid = true →
          Means (.binary left.erase op right.erase) s)

/-- The value of a literal is its own. -/
theorem means_literal {s : NodeState} {lit : Literal} (htype : s.finalType = lit.type)
    (hvalue : s.finalValue = lit.value) : Means (.literal lit) s := by
  refine ⟨lit.machineType, ?_, ?_, ?_⟩
  · rw [hvalue]
    rfl
  · rw [htype]
    cases lit <;> rfl
  · rw [hvalue]
    exact lit.fits

/-- What a tree remembers. -/
theorem Sound.means {t : ConstExpr} (h : t.Sound) (hevaluated : t.state.isEvaluated = true)
    (hvalid : t.state.isValid = true) : Means t.erase t.state := by
  cases t with
  | literal s lit =>
      obtain ⟨htype, hvalue⟩ := h.2 hevaluated
      exact means_literal htype hvalue
  | unary s op operand => exact h.2 hevaluated hvalid
  | binary s left op right => exact h.2.2 hevaluated hvalid

/-- Nothing is remembered at first. -/
theorem Fresh.sound {t : ConstExpr} (h : t.Fresh) : t.Sound := by
  induction t with
  | literal s lit =>
      obtain ⟨-, hevaluated, -, hvalue⟩ := h
      refine ⟨hvalue, fun htrue => ?_⟩
      rw [hevaluated] at htrue
      cases htrue
  | unary s op operand ih =>
      obtain ⟨-, hevaluated, -, hoperand⟩ := h
      refine ⟨ih hoperand, fun htrue => ?_⟩
      rw [hevaluated] at htrue
      cases htrue
  | binary s left op right ihl ihr =>
      obtain ⟨-, hevaluated, -, hleft, hright⟩ := h
      refine ⟨ihl hleft, ihr hright, fun htrue => ?_⟩
      rw [hevaluated] at htrue
      cases htrue

/-- **`CheckValid`** changes neither the expression nor what evaluated nodes remember. -/
theorem sound_checkValid {t : ConstExpr} (h : t.Sound) :
    t.checkValid.2.Sound ∧ t.checkValid.2.erase = t.erase := by
  induction t with
  | literal s lit =>
      rw [checkValid]
      split_ifs with hevaluated
      · exact ⟨h, rfl⟩
      · exact ⟨⟨h.1, fun htrue => absurd htrue hevaluated⟩, rfl⟩
  | unary s op operand ih =>
      obtain ⟨hsound, herase⟩ := ih h.1
      rw [checkValid]
      simp only
      split_ifs with hevaluated hvalid
      · exact ⟨h, rfl⟩
      · exact ⟨⟨hsound, fun htrue => absurd htrue hevaluated⟩, congrArg (Expr.unary op) herase⟩
      · exact ⟨⟨hsound, fun htrue => absurd htrue hevaluated⟩, congrArg (Expr.unary op) herase⟩
  | binary s left op right ihl ihr =>
      obtain ⟨hsound, herase⟩ := ihl h.1
      obtain ⟨hsound', herase'⟩ := ihr h.2.1
      rw [checkValid]
      simp only
      split_ifs with hevaluated hboth herror herror
      · exact ⟨h, rfl⟩
      all_goals
        refine ⟨⟨hsound, hsound', fun htrue => absurd htrue hevaluated⟩, ?_⟩
        simp only [erase, herase, herase']

/-- A unary operator leaves the mark that the node was evaluated. -/
theorem isEvaluated_applyUnary (s : NodeState) (op : UnaryOp) (operand : NodeState) :
    (applyUnary s op operand).isEvaluated = s.isEvaluated := by
  rw [applyUnary]
  split_ifs
  · rfl
  · rfl
  · rfl
  · cases operand.finalType.switchKind <;> rfl

/-- A handler leaves the mark that the node was evaluated. -/
theorem isEvaluated_setResult (s : NodeState) (r : Option (Bool × ℤ)) :
    (setResult s r).isEvaluated = s.isEvaluated := by
  cases r <;> rfl

/-- A binary operator leaves the mark that the node was evaluated. -/
theorem isEvaluated_applyBinary (s : NodeState) (op : BinaryOp) (left right : NodeState) :
    (applyBinary s op left right).isEvaluated = s.isEvaluated := by
  rw [applyBinary]
  generalize usualArithmeticConversion (integralPromotion left.finalType)
    (integralPromotion right.finalType) = promoted
  by_cases hvalid : (!left.isValid || !right.isValid) = true
  · rw [if_pos hvalid]
  rw [if_neg hvalid]
  by_cases hcompatible : (!areCompatibleOperandTypes left.finalType right.finalType) = true
  · rw [if_pos hcompatible]
  rw [if_neg hcompatible]
  by_cases hcommon : (op.isArithmetic || op.isBitflip || op.isComp) = true
  · simp only [hcommon, if_true]
    cases promoted.switchKind with
    | none => rfl
    | some T => exact isEvaluated_setResult _ _
  simp only [hcommon, Bool.false_eq_true, if_false]
  by_cases hshift : op.isShift = true
  · simp only [hshift, if_true]
    cases promoted.switchKind with
    | none => rfl
    | some T => exact isEvaluated_setResult _ _
  · simp only [hshift, Bool.false_eq_true, if_false]
    exact isEvaluated_setResult _ _

/-- **`evaluate`** keeps the expression, marks the node as evaluated, and keeps what is remembered
right; a node on which it succeeds has the value of its expression. -/
theorem sound_evaluate {t : ConstExpr} (h : t.Sound) :
    t.evaluate.2.Sound ∧ t.evaluate.2.erase = t.erase ∧ t.evaluate.2.state.isEvaluated = true
      ∧ (t.evaluate.1 = true → Means t.erase t.evaluate.2.state) := by
  induction t with
  | literal s lit =>
      by_cases hevaluated : s.isEvaluated = true
      · rw [evaluate, if_pos hevaluated]
        exact ⟨h, rfl, hevaluated, fun _ => means_literal (h.2 hevaluated).1 (h.2 hevaluated).2⟩
      · rw [evaluate, if_neg hevaluated]
        have hvalue : (if lit.type = .boolean then lit.value else s.finalValue) = lit.value := by
          split_ifs with hboolean
          · rfl
          · exact h.1 hboolean
        exact ⟨⟨fun _ => hvalue, fun _ => ⟨rfl, hvalue⟩⟩, rfl, rfl,
          fun _ => means_literal rfl hvalue⟩
  | unary s op operand ih =>
      by_cases hevaluated : s.isEvaluated = true
      · rw [evaluate, if_pos hevaluated]
        exact ⟨h, rfl, hevaluated, fun hvalid => h.2 hevaluated hvalid⟩
      rw [evaluate, if_neg hevaluated]
      -- the operand after the recursion
      obtain ⟨r, hr, hsound, herase, hoperand⟩ : ∃ r : Bool × ConstExpr,
          r = (if operand.state.isEvaluated then (true, operand) else operand.evaluate)
            ∧ r.2.Sound ∧ r.2.erase = operand.erase ∧ r.2.state.isEvaluated = true := by
        refine ⟨_, rfl, ?_⟩
        split_ifs with hoperand
        · exact ⟨h.1, rfl, hoperand⟩
        · exact ⟨(ih h.1).1, (ih h.1).2.1, (ih h.1).2.2.1⟩
      simp only [← hr]
      by_cases hfail : (!operand.state.isEvaluated && !(s.isValid && r.1)) = true
      · rw [if_pos hfail]
        refine ⟨⟨hsound, fun _ htrue => ?_⟩, congrArg (Expr.unary op) herase, rfl, ?_⟩
        · cases htrue
        · intro htrue
          cases htrue
      · rw [if_neg hfail]
        have hmeans : ∀ s : NodeState, (applyUnary s op r.2.state).isValid = true →
            Means (.unary op operand.erase) (applyUnary s op r.2.state) :=
          fun s h => (applyUnary_means (isValid_of_applyUnary h) (herase ▸
            hsound.means hoperand (isValid_of_applyUnary h))).1 h
        refine ⟨⟨hsound, fun _ hvalid => ?_⟩, congrArg (Expr.unary op) herase, ?_, hmeans _⟩
        · rw [herase]
          exact hmeans _ hvalid
        · exact isEvaluated_applyUnary _ _ _
  | binary s left op right ihl ihr =>
      by_cases hevaluated : s.isEvaluated = true
      · rw [evaluate, if_pos hevaluated]
        exact ⟨h, rfl, hevaluated, fun hvalid => h.2.2 hevaluated hvalid⟩
      rw [evaluate, if_neg hevaluated]
      -- the operands after the recursion
      set evaluated := left.state.isEvaluated && right.state.isEvaluated with hboth
      obtain ⟨l, hl, hsound, herase, hleft⟩ : ∃ l : Bool × ConstExpr,
          l = (if evaluated then (true, left) else left.evaluate)
            ∧ l.2.Sound ∧ l.2.erase = left.erase ∧ l.2.state.isEvaluated = true := by
        refine ⟨_, rfl, ?_⟩
        split_ifs with hoperands
        · exact ⟨h.1, rfl, (Bool.and_eq_true_iff.mp hoperands).1⟩
        · exact ⟨(ihl h.1).1, (ihl h.1).2.1, (ihl h.1).2.2.1⟩
      obtain ⟨r, hr, hsound', herase', hright⟩ : ∃ r : Bool × ConstExpr,
          r = (if evaluated then (true, right) else right.evaluate)
            ∧ r.2.Sound ∧ r.2.erase = right.erase ∧ r.2.state.isEvaluated = true := by
        refine ⟨_, rfl, ?_⟩
        split_ifs with hoperands
        · exact ⟨h.2.1, rfl, (Bool.and_eq_true_iff.mp hoperands).2⟩
        · exact ⟨(ihr h.2.1).1, (ihr h.2.1).2.1, (ihr h.2.1).2.2.1⟩
      simp only [← hl, ← hr]
      have herases : Expr.binary l.2.erase op r.2.erase = .binary left.erase op right.erase := by
        rw [herase, herase']
      by_cases hfail : (!evaluated && !(s.isValid && l.1 && r.1)) = true
      · rw [if_pos hfail]
        refine ⟨⟨hsound, hsound', fun _ htrue => ?_⟩, herases, rfl, ?_⟩
        · cases htrue
        · intro htrue
          cases htrue
      · rw [if_neg hfail]
        have hmeans : ∀ s : NodeState, (applyBinary s op l.2.state r.2.state).isValid = true →
            Means (.binary left.erase op right.erase) (applyBinary s op l.2.state r.2.state) :=
          fun s h => (applyBinary_means (isValid_of_applyBinary h)
            (herase ▸ hsound.means hleft (isValid_of_applyBinary h).1)
            (herase' ▸ hsound'.means hright (isValid_of_applyBinary h).2)).1 h
        refine ⟨⟨hsound, hsound', fun _ hvalid => ?_⟩, herases, ?_, hmeans _⟩
        · rw [herases]
          exact hmeans _ hvalid
        · exact isEvaluated_applyBinary _ _ _ _

/-! ## Runs -/

/-- **A call keeps what is remembered right**, and the expression. -/
theorem sound_call {t t' : ConstExpr} (hcall : Call t t') (h : t.Sound) :
    t'.Sound ∧ t'.erase = t.erase := by
  induction hcall with
  | checkValid t => exact sound_checkValid h
  | evaluate t => exact ⟨(sound_evaluate h).1, (sound_evaluate h).2.1⟩
  | operand _ ih =>
      obtain ⟨hsound, herase⟩ := ih h.1
      refine ⟨⟨hsound, by rw [herase]; exact h.2⟩, ?_⟩
      rw [erase, erase, herase]
  | left _ ih =>
      obtain ⟨hsound, herase⟩ := ih h.1
      refine ⟨⟨hsound, h.2.1, by rw [herase]; exact h.2.2⟩, ?_⟩
      rw [erase, erase, herase]
  | right _ ih =>
      obtain ⟨hsound, herase⟩ := ih h.2.1
      refine ⟨⟨h.1, hsound, by rw [herase]; exact h.2.2⟩, ?_⟩
      rw [erase, erase, herase]

/-- In every tree that calls lead to, what is remembered is right. -/
theorem Reachable.sound {t : ConstExpr} (h : t.Reachable) : t.Sound := by
  induction h with
  | fresh h => exact h.sound
  | call _ hcall ih => exact (sound_call hcall ih).1

/-! ## A tree that was checked -/

/-- Every node was checked and none was evaluated. -/
def Checked : ConstExpr → Prop
  | literal s lit =>
      s.isValid = true ∧ s.isEvaluated = false ∧ (lit.type ≠ .boolean → s.finalValue = lit.value)
  | unary s _ operand => s.isValid = true ∧ s.isEvaluated = false ∧ operand.Checked
  | binary s left _ right =>
      s.isValid = true ∧ s.isEvaluated = false ∧ left.Checked ∧ right.Checked

/-- The root of such a tree. -/
theorem Checked.isEvaluated {t : ConstExpr} (h : t.Checked) : t.state.isEvaluated = false := by
  cases t with
  | literal s lit => exact h.2.1
  | unary s op operand => exact h.2.1
  | binary s left op right => exact h.2.1

/-- **`CheckValid`** accepts every tree of literals and operators. -/
theorem Fresh.checked {t : ConstExpr} (h : t.Fresh) :
    t.checkValid.1 = true ∧ t.checkValid.2.Checked := by
  induction t with
  | literal s lit =>
      obtain ⟨-, hevaluated, -, hvalue⟩ := h
      rw [checkValid, if_neg (by simp [hevaluated])]
      exact ⟨rfl, rfl, hevaluated, hvalue⟩
  | unary s op operand ih =>
      obtain ⟨-, hevaluated, -, hoperand⟩ := h
      obtain ⟨htrue, hchecked⟩ := ih hoperand
      rw [checkValid, if_neg (by simp [hevaluated])]
      simp only [htrue, if_true]
      exact ⟨trivial, rfl, hevaluated, hchecked⟩
  | binary s left op right ihl ihr =>
      obtain ⟨-, hevaluated, htype, hleft, hright⟩ := h
      obtain ⟨htrue, hchecked⟩ := ihl hleft
      obtain ⟨htrue', hchecked'⟩ := ihr hright
      rw [checkValid, if_neg (by simp [hevaluated])]
      simp only [htrue, htrue', htype, Bool.and_self, if_true, reduceCtorEq, if_false]
      exact ⟨trivial, rfl, hevaluated, hchecked, hchecked'⟩

/-- **Evaluation gives what is accepted** on a tree that was checked. -/
theorem Checked.evaluate {t : ConstExpr} (h : t.Checked) (haccepted : t.erase.accepted ≠ none) :
    t.evaluate.1 = true ∧ t.evaluate.2.state.isValid = true
      ∧ Means t.erase t.evaluate.2.state := by
  induction t with
  | literal s lit =>
      obtain ⟨hvalid, hevaluated, hvalue⟩ := h
      -- only a boolean literal is evaluated here, other ones have their value
      rw [ConstExpr.evaluate, if_neg (by simp [hevaluated])]
      refine ⟨rfl, hvalid, means_literal rfl ?_⟩
      show (if lit.type = .boolean then lit.value else s.finalValue) = lit.value
      split_ifs with hboolean
      · rfl
      · exact hvalue hboolean
  | unary s op operand ih =>
      obtain ⟨hvalid, hevaluated, hoperand⟩ := h
      -- what is accepted as a whole has accepted parts
      have hne : operand.erase.accepted ≠ none := by
        intro hnone
        rw [erase, Expr.accepted, hnone] at haccepted
        exact haccepted rfl
      obtain ⟨htrue, hvalid', hmeans⟩ := ih hoperand hne
      rw [ConstExpr.evaluate, if_neg (by simp [hevaluated])]
      simp only [hoperand.isEvaluated, hvalid, htrue, Bool.not_false, Bool.and_self, Bool.not_true,
        Bool.false_eq_true, if_false]
      obtain ⟨hvalue, hresult⟩ := @applyUnary_means { s with isEvaluated := true }
        operand.evaluate.2.state op operand.erase hvalid' hmeans
      rw [hvalid] at hvalue hresult
      exact ⟨hresult haccepted, hresult haccepted, hvalue (hresult haccepted)⟩
  | binary s left op right ihl ihr =>
      obtain ⟨hvalid, hevaluated, hleft, hright⟩ := h
      -- here, too
      have hne : left.erase.accepted ≠ none ∧ right.erase.accepted ≠ none := by
        constructor
        · intro hnone
          rw [erase, Expr.accepted, hnone] at haccepted
          exact haccepted rfl
        · intro hnone
          rw [erase, Expr.accepted, hnone] at haccepted
          cases hl : left.erase.accepted with
          | none => exact haccepted (by rw [hl]; rfl)
          | some x => exact haccepted (by rw [hl]; rfl)
      obtain ⟨htrue, hvalid', hmeans⟩ := ihl hleft hne.1
      obtain ⟨htrue', hvalid'', hmeans'⟩ := ihr hright hne.2
      rw [ConstExpr.evaluate, if_neg (by simp [hevaluated])]
      simp only [hleft.isEvaluated, hright.isEvaluated, hvalid, htrue, htrue', Bool.not_false,
        Bool.and_self, Bool.not_true, Bool.false_eq_true, if_false]
      obtain ⟨hvalue, hresult⟩ := @applyBinary_means { s with isEvaluated := true }
        left.evaluate.2.state right.evaluate.2.state op left.erase right.erase ⟨hvalid', hvalid''⟩
        hmeans hmeans'
      rw [hvalid] at hvalue hresult
      exact ⟨hresult haccepted, hresult haccepted, hvalue (hresult haccepted)⟩

end ConstExpr

namespace Expr

/-- The tree of an expression as the constructors make it. -/
def fresh : Expr → ConstExpr
  | literal lit => .literal ⟨false, false, lit.type, lit.value⟩ lit
  | unary op operand => .unary ⟨false, false, .unary, 0⟩ op operand.fresh
  | binary left op right => .binary ⟨false, false, .binary, 0⟩ left.fresh op right.fresh

/-- It is such a tree. -/
theorem fresh_spec (e : Expr) : e.fresh.Fresh ∧ e.fresh.erase = e := by
  induction e with
  | literal lit => exact ⟨⟨rfl, rfl, rfl, fun _ => rfl⟩, rfl⟩
  | unary op operand ih => exact ⟨⟨rfl, rfl, rfl, ih.1⟩, congrArg (unary op) ih.2⟩
  | binary left op right ihl ihr =>
      exact ⟨⟨rfl, rfl, rfl, ihl.1, ihr.1⟩, congrArg₂ (binary · op ·) ihl.2 ihr.2⟩

/-! ## What is accepted and what is exact -/

/-- An accepted value fits its type. -/
theorem fits_of_accepted {e : Expr} {T : MachineType} {v : ℤ} (h : e.accepted = some (T, v)) :
    T.Fits v := by
  cases e with
  | literal lit =>
      cases h
      exact lit.fits
  | unary op operand =>
      cases hoperand : operand.accepted with
      | none => simp [accepted, hoperand] at h
      | some x =>
          rw [accepted_unary hoperand] at h
          split_ifs at h
          cases h
          exact MachineType.fits_cast _ _
  | binary left op right =>
      cases hleft : left.accepted with
      | none => simp [accepted, hleft] at h
      | some x =>
          cases hright : right.accepted with
          | none => simp [accepted, hleft, hright] at h
          | some y =>
              rw [accepted_binary hleft hright, Option.bind_eq_some_iff] at h
              obtain ⟨z, -, hz⟩ := h
              split_ifs at hz with hfits
              cases hz
              exact hfits.1

/-- **What is accepted is exact**, if no minus is applied to a boolean that is true. -/
theorem exact_of_accepted {e : Expr} (hneg : ¬ e.NegatesTrue) {x : MachineType × ℤ}
    (h : e.accepted = some x) : e.exact = some x := by
  induction e generalizing x with
  | literal lit => exact h
  | unary op operand ih =>
      rw [NegatesTrue, not_or] at hneg
      cases hoperand : operand.accepted with
      | none => simp [accepted, hoperand] at h
      | some y =>
          have hexact := ih hneg.1 hoperand
          rw [accepted_unary hoperand] at h
          split_ifs at h with haccepts
          have hfits : y.1.Fits (op.exact y.2) := by
            refine fits_unary_exact (fits_of_accepted hoperand) ?_ haccepts
            rintro ⟨hop, hbool, hone⟩
            exact hneg.2 ⟨hop, hexact.trans (congrArg some (Prod.ext hbool hone))⟩
          cases h
          rw [exact, hexact, MachineType.cast_eq_self_iff.mpr hfits]
          exact if_pos hfits
  | binary left op right ihl ihr =>
      rw [NegatesTrue, not_or] at hneg
      cases hleft : left.accepted with
      | none => simp [accepted, hleft] at h
      | some y =>
          cases hright : right.accepted with
          | none => simp [accepted, hleft, hright] at h
          | some z =>
              rw [accepted_binary hleft hright, Option.bind_eq_some_iff] at h
              obtain ⟨r, hr, hfits⟩ := h
              split_ifs at hfits with hboth
              cases hfits
              rw [exact, ihl hneg.1 hleft, ihr hneg.2 hright]
              show (op.exact (y.1.promoted z.1) y.2 z.2).bind _ = _
              rw [hr]
              exact if_pos hboth.1

end Expr

/-- An expression in which a minus is applied to a boolean that is true has no exact value. -/
theorem Expr.NegatesTrue.exact_eq_none {e : Expr} (h : e.NegatesTrue) : e.exact = none := by
  induction e with
  | literal lit => exact h.elim
  | unary op operand ih =>
      rcases h with h | ⟨rfl, h⟩
      · rw [Expr.exact, ih h]
        rfl
      · rw [Expr.exact, h]
        have hmisfit : ¬ MachineType.bool.Fits (UnaryOp.minus.exact 1) := by decide
        show (if MachineType.bool.Fits (UnaryOp.minus.exact 1)
          then some (MachineType.bool, UnaryOp.minus.exact 1) else none) = none
        rw [if_neg hmisfit]
  | binary left op right ihl ihr =>
      rcases h with h | h
      · rw [Expr.exact, ihl h]
        rfl
      · rw [Expr.exact, ihr h]
        cases left.exact <;> rfl

/-- **Evaluation is exact**: when it succeeds, the value is that of the expression and fits its
type, and it fails when an intermediate result does not fit or something is divided by zero. -/
def EvaluatesExactly (t : ConstExpr) : Prop :=
  (t.evaluate.1 = true → ∃ T, t.erase.exact = some (T, t.evaluate.2.state.finalValue)
      ∧ t.evaluate.2.state.finalType = T.constType ∧ T.Fits t.evaluate.2.state.finalValue)
    ∧ (t.erase.exact = none → t.evaluate.1 = false)

/-- `1 << 31` reaches the sign bit, and `-((-1 >> 1) < 0)` is refused at the shift. -/
example : (Expr.binary (.literal (.int8 1)) .shl (.literal (.int8 31))).accepted
      = some (.int32, -2147483648)
    ∧ (Expr.unary .minus (.binary (.binary (.literal (.int8 (-1))) .shr (.literal (.int8 1))) .lt
      (.literal (.int8 0)))).accepted = none := by
  decide

/-- `-true`. -/
def minusTrue : ConstExpr := (Expr.unary .minus (.literal (.boolean true))).fresh

end AndroidSdk.Aidl
