import Mathlib.Data.List.Basic
import Mathlib.Order.Nat
import Mathlib.Tactic.SplitIfs

/-! # Records one after the other

A list is cut into records from the left: what is left says how long its first record is. Cutting
ends at a record that is the last one, or at the end of the list.

* **`records`** — the records of a list, unless one of them is bad.
* **`Passes`** — a run of records that any list may follow.
* **`Passes.append`**, **`passes_record`** — such runs are made of records that are not the last.
* **`records_of_last`** — what follows on the last record does not matter. -/

namespace AndroidSdk.Lib

variable {β : Type}

/-- The records of a list, if each has a length and fits. -/
def records (size : List β → Option ℕ) (last : List β → Bool) : List β → Option (List (List β))
  | [] => some []
  | b :: l =>
      match size (b :: l) with
      | none => none
      | some n =>
          if _h : 0 < n ∧ n ≤ (b :: l).length then
            if last ((b :: l).take n) then some [(b :: l).take n]
            else (records size last ((b :: l).drop n)).map ((b :: l).take n :: ·)
          else none
termination_by l => l.length
decreasing_by
  rw [List.length_drop]
  omega

variable {size : List β → Option ℕ} {last : List β → Bool}

/-- Nothing has no records. -/
theorem records_nil : records size last [] = some [] := by
  rw [records]

/-- A bad record. -/
theorem records_of_bad {l : List β} (hl : l ≠ []) (h : size l = none) :
    records size last l = none := by
  cases l with
  | nil => exact absurd rfl hl
  | cons b l => rw [records, h]

/-- The first record. -/
theorem records_of_size {l : List β} {n : ℕ} (h : size l = some n) (hn : 0 < n)
    (hle : n ≤ l.length) :
    records size last l = if last (l.take n) then some [l.take n]
      else (records size last (l.drop n)).map (l.take n :: ·) := by
  cases l with
  | nil =>
      rw [List.length_nil] at hle
      omega
  | cons b l =>
      rw [records, h]
      exact dif_pos ⟨hn, hle⟩

/-- A run of items that are the given records, whatever follows. -/
def Passes (size : List β → Option ℕ) (last : List β → Bool) (run : List β)
    (rs : List (List β)) : Prop :=
  ∀ rest, records size last (run ++ rest) = (records size last rest).map (rs ++ ·)

/-- No items. -/
theorem Passes.nil : Passes size last [] [] := fun rest => by
  rw [List.nil_append]
  exact Option.map_id'.symm

/-- Two runs one after the other. -/
theorem Passes.append {run run' : List β} {rs rs' : List (List β)} (h : Passes size last run rs)
    (h' : Passes size last run' rs') : Passes size last (run ++ run') (rs ++ rs') := fun rest => by
  rw [List.append_assoc, h, h', Option.map_map]
  exact congrArg (Option.map · _) (funext fun l => (List.append_assoc rs rs' l).symm)

section Record

variable {r : List β} (hr : r ≠ []) (hsize : ∀ rest, size (r ++ rest) = some r.length)
include hr hsize

/-- A record before others. -/
theorem records_append (rest : List β) :
    records size last (r ++ rest) = if last r then some [r]
      else (records size last rest).map (r :: ·) := by
  rw [records_of_size (hsize rest) (List.length_pos_iff.mpr hr) (by simp), List.take_left,
    List.drop_left]

/-- **A record that is not the last** is passed. -/
theorem passes_record (hlast : last r = false) : Passes size last r [r] := fun rest => by
  rw [records_append hr hsize, if_neg (by rw [hlast]; exact Bool.false_ne_true)]
  rfl

/-- **The last record** ends the list. -/
theorem records_of_last (hlast : last r = true) (rest : List β) :
    records size last (r ++ rest) = some [r] := by
  rw [records_append hr hsize, if_pos hlast]

end Record

end AndroidSdk.Lib
