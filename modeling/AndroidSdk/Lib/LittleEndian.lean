import Mathlib.Tactic.Ring

/-! # Little-endian fields

Numbers stored in a fixed number of bytes, least significant byte first, and fields of this kind at
a given offset of a record.

* **`leNat`**, **`leBytes`** — the number that bytes stand for and the bytes of a number.
* **`fieldAt`** — the field at an offset; `fieldAt_leBytes_append` and `fieldAt_append_of_le` read a
  record that was written field by field. -/

namespace AndroidSdk.Lib

/-- The number that bytes stand for, least significant byte first. -/
def leNat : List UInt8 → ℕ
  | [] => 0
  | b :: rest => b.toNat + 256 * leNat rest

/-- The bytes of a number, least significant byte first. -/
def leBytes : ℕ → ℕ → List UInt8
  | 0, _ => []
  | width + 1, n => UInt8.ofNat n :: leBytes width (n / 256)

/-- The field of `width` bytes at an offset of a record. -/
def fieldAt (record : List UInt8) (offset width : ℕ) : ℕ := leNat ((record.drop offset).take width)

/-- A number of so many bytes. -/
theorem leNat_lt (bytes : List UInt8) : leNat bytes < 256 ^ bytes.length := by
  induction bytes with
  | nil => exact Nat.one_pos
  | cons b rest ih =>
      have hb := b.toNat_lt
      rw [leNat, List.length_cons, pow_succ]
      omega

/-- A field is a number of its width. -/
theorem fieldAt_lt (record : List UInt8) (offset width : ℕ) :
    fieldAt record offset width < 256 ^ width :=
  Nat.lt_of_lt_of_le (leNat_lt _) (Nat.pow_le_pow_right (by decide) (by
    rw [List.length_take]
    exact Nat.min_le_left _ _))

/-- A field has as many bytes as its width. -/
@[simp] theorem length_leBytes (width n : ℕ) : (leBytes width n).length = width := by
  induction width generalizing n with
  | zero => rfl
  | succ width ih => simp [leBytes, ih]

/-- Reading a number back loses what does not fit into the width. -/
theorem leNat_leBytes (width n : ℕ) : leNat (leBytes width n) = n % 256 ^ width := by
  induction width generalizing n with
  | zero => simp [leBytes, leNat, Nat.mod_one]
  | succ width ih =>
      have hmod : n % 256 ^ (width + 1) = n % 256 + 256 * (n / 256 % 256 ^ width) := by
        rw [pow_succ, mul_comm (256 ^ width) 256, Nat.mod_mul]
      rw [leBytes, leNat, ih, hmod, UInt8.toNat_ofNat']

/-- The field that a record starts with. -/
theorem fieldAt_leBytes_append (width n : ℕ) (rest : List UInt8) :
    fieldAt (leBytes width n ++ rest) 0 width = n % 256 ^ width := by
  rw [fieldAt, List.drop_zero, List.take_left' (length_leBytes width n), leNat_leBytes]

/-- A field behind the first part of a record. -/
theorem fieldAt_append_of_le {first : List UInt8} {offset : ℕ} (h : first.length ≤ offset)
    (rest : List UInt8) (width : ℕ) :
    fieldAt (first ++ rest) offset width = fieldAt rest (offset - first.length) width := by
  rw [fieldAt, fieldAt, List.drop_append, List.drop_eq_nil_of_le h, List.nil_append]

/-- A field in the middle of a record. -/
theorem fieldAt_append_leBytes (first rest : List UInt8) (width n : ℕ) :
    fieldAt (first ++ (leBytes width n ++ rest)) first.length width = n % 256 ^ width := by
  rw [fieldAt_append_of_le (Nat.le_refl _), Nat.sub_self, fieldAt_leBytes_append]

/-- A field of a record without its first bytes. -/
theorem fieldAt_drop (record : List UInt8) (n offset width : ℕ) :
    fieldAt (record.drop n) offset width = fieldAt record (n + offset) width := by
  rw [fieldAt, fieldAt, List.drop_drop]

/-- The length of records, if all of them have the same length. -/
theorem length_flatMap_of_length {α : Type} {f : α → List UInt8} {k : ℕ}
    (hlen : ∀ x, (f x).length = k) (l : List α) : (l.flatMap f).length = k * l.length := by
  induction l with
  | nil => rfl
  | cons x l ih =>
      rw [List.flatMap_cons, List.length_append, hlen, ih, List.length_cons, Nat.mul_succ,
        Nat.add_comm]

/-- The records that follow on those before an index, if all of them have the same length. -/
theorem drop_flatMap_of_length {α : Type} {f : α → List UInt8} {k : ℕ}
    (hlen : ∀ x, (f x).length = k) {l : List α} {i : ℕ} {x : α} (hi : l[i]? = some x) :
    (l.flatMap f).drop (k * i) = f x ++ (l.drop (i + 1)).flatMap f := by
  induction l generalizing i with
  | nil => simp at hi
  | cons y l ih =>
      cases i with
      | zero =>
          obtain rfl : y = x := by simpa using hi
          rfl
      | succ i =>
          rw [List.flatMap_cons, Nat.mul_succ, Nat.add_comm, ← List.drop_drop,
            List.drop_append_of_le_length (Nat.le_of_eq (hlen y).symm),
            List.drop_of_length_le (Nat.le_of_eq (hlen y)), List.nil_append,
            ih (by simpa using hi)]
          rfl

/-- A field within the first part of a record does not depend on the rest. -/
theorem fieldAt_append_of_add_le {first : List UInt8} {offset width : ℕ}
    (h : offset + width ≤ first.length) (rest : List UInt8) :
    fieldAt (first ++ rest) offset width = fieldAt first offset width := by
  rw [fieldAt, fieldAt, List.drop_append_of_le_length (by omega),
    List.take_append_of_le_length (by rw [List.length_drop]; omega)]

end AndroidSdk.Lib
