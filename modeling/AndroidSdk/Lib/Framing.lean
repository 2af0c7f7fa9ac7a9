import Mathlib.Data.Nat.Digits.Defs
import Mathlib.Data.Nat.Digits.Lemmas

/-! # Self-delimiting codes

A code is **self-delimiting** when a code word and what follows it can be told apart from any other
code word and what follows that: `code a ++ x = code b ++ y` forces `a = b` and `x = y`. Streams
that concatenate such code words are uniquely decodable.

* **`SelfDelimiting`** — the notion, with its closure under pairs and under a separator that the
  code words avoid.
* **`SelfDelimiting.flatMap_injective`** — a stream of nonempty code words determines the list of
  encoded values.
* **`decimal`**, **`netstring`**, **`sized`** — ASCII decimal numbers, fields that carry their own
  length, and raw contents after a field with their length. -/

namespace AndroidSdk.Lib

universe u v

variable {α : Type u} {β : Type v}

/-- A code whose words can be cut off the front of any stream in at most one way. -/
def SelfDelimiting (code : α → List β) : Prop :=
  ∀ ⦃a b : α⦄ ⦃x y : List β⦄, code a ++ x = code b ++ y → a = b ∧ x = y

/-- Two self-delimiting codes written one after the other form a self-delimiting code of pairs. -/
theorem SelfDelimiting.pair {γ : Type*} {f : α → List β} {g : γ → List β} (hf : SelfDelimiting f)
    (hg : SelfDelimiting g) : SelfDelimiting fun p : α × γ => f p.1 ++ g p.2 := by
  rintro ⟨a, c⟩ ⟨b, d⟩ x y h
  simp only [List.append_assoc] at h
  obtain ⟨rfl, h'⟩ := hf h
  obtain ⟨rfl, rfl⟩ := hg h'
  exact ⟨rfl, rfl⟩

/-- Words that avoid the separator are determined by the word and the separator together. -/
theorem append_sep_inj {sep : β} {a b x y : List β} (ha : sep ∉ a) (hb : sep ∉ b)
    (h : a ++ sep :: x = b ++ sep :: y) : a = b ∧ x = y := by
  induction a generalizing b with
  | nil =>
      cases b with
      | nil => exact ⟨rfl, by simpa using h⟩
      | cons c b =>
          have hc : sep = c := by simpa using (List.cons.inj h).1
          exact absurd (by simp [hc]) hb
  | cons c a ih =>
      cases b with
      | nil =>
          have hc : c = sep := by simpa using (List.cons.inj h).1
          exact absurd (by simp [hc]) ha
      | cons d b =>
          rw [List.cons_append, List.cons_append, List.cons.injEq] at h
          obtain ⟨rfl, rfl⟩ := ih (fun hm => ha (by simp [hm])) (fun hm => hb (by simp [hm])) h.2
          exact ⟨by rw [h.1], rfl⟩

/-- **Streams of self-delimiting code words are uniquely decodable.** -/
theorem SelfDelimiting.flatMap_injective {code : α → List β} (h : SelfDelimiting code)
    (hne : ∀ a, code a ≠ []) : Function.Injective fun l : List α => l.flatMap code := by
  intro l
  induction l with
  | nil =>
      intro l' hl
      cases l' with
      | nil => rfl
      | cons b l' =>
          have : code b ++ l'.flatMap code = [] := by simpa using hl.symm
          exact absurd (List.append_eq_nil_iff.mp this).1 (hne b)
  | cons a l ih =>
      intro l' hl
      cases l' with
      | nil =>
          have : code a ++ l.flatMap code = [] := by simpa using hl
          exact absurd (List.append_eq_nil_iff.mp this).1 (hne a)
      | cons b l' =>
          simp only [List.flatMap_cons] at hl
          obtain ⟨rfl, hl'⟩ := h hl
          rw [ih hl']

/-! ## Decimal numbers -/

/-- The ASCII decimal digits of a number, most significant first. -/
def decimal (n : ℕ) : List UInt8 :=
  (if n = 0 then [0] else Nat.digits 10 n).reverse.map fun d => UInt8.ofNat (48 + d)

/-- The number a list of ASCII digits denotes. -/
def ofDecimal (l : List UInt8) : ℕ := Nat.ofDigits 10 (l.reverse.map fun b => b.toNat - 48)

/-- The digits `decimal` writes are decimal digits. -/
theorem lt_ten_of_mem_digits {n d : ℕ} (h : d ∈ (if n = 0 then [0] else Nat.digits 10 n)) :
    d < 10 := by
  by_cases hn : n = 0
  · rw [if_pos hn, List.mem_singleton] at h
    omega
  · rw [if_neg hn] at h
    exact Nat.digits_lt_base (by omega) h

/-- The ASCII code of a decimal digit. -/
theorem toNat_digit {d : ℕ} (h : d < 10) : (UInt8.ofNat (48 + d)).toNat = 48 + d := by
  rw [UInt8.toNat_ofNat']
  omega

/-- Reading back the decimal digits of a number gives the number. -/
theorem ofDecimal_decimal (n : ℕ) : ofDecimal (decimal n) = n := by
  have hmap : ((decimal n).reverse.map fun b => b.toNat - 48)
      = if n = 0 then [0] else Nat.digits 10 n := by
    rw [decimal, ← List.map_reverse, List.reverse_reverse, List.map_map]
    have hdigit : ∀ d ∈ (if n = 0 then [0] else Nat.digits 10 n),
        ((fun b : UInt8 => b.toNat - 48) ∘ fun d => UInt8.ofNat (48 + d)) d = d := by
      intro d hd
      have h := toNat_digit (lt_ten_of_mem_digits hd)
      rw [Function.comp_apply, h]
      omega
    rw [List.map_congr_left hdigit, List.map_id']
  rw [ofDecimal, hmap]
  by_cases hn : n = 0
  · rw [if_pos hn, hn]
    rfl
  · rw [if_neg hn, Nat.ofDigits_digits]

/-- Different numbers have different decimal digits. -/
theorem decimal_injective : Function.Injective decimal := fun m n h => by
  rw [← ofDecimal_decimal m, h, ofDecimal_decimal]

/-- A colon is not a decimal digit. -/
theorem colon_notMem_decimal (n : ℕ) : (58 : UInt8) ∉ decimal n := by
  intro h
  obtain ⟨d, hd, hc⟩ := List.mem_map.mp h
  have hten := lt_ten_of_mem_digits (List.mem_reverse.mp hd)
  have hval := toNat_digit hten
  rw [hc] at hval
  have : (58 : UInt8).toNat = 58 := rfl
  omega

/-! ## Fields that carry their length -/

/-- A field preceded by its length in decimal digits and a colon. -/
def netstring (value : List UInt8) : List UInt8 := decimal value.length ++ 58 :: value

/-- A field with its length in front can be cut off any stream in at most one way. -/
theorem netstring_selfDelimiting : SelfDelimiting netstring := by
  intro a b x y h
  simp only [netstring, List.append_assoc, List.cons_append] at h
  obtain ⟨hlen, hrest⟩ := append_sep_inj (colon_notMem_decimal _) (colon_notMem_decimal _) h
  exact List.append_inj hrest (decimal_injective hlen)

/-- Raw contents preceded by a field that holds their length. -/
def sized (content : List UInt8) : List UInt8 := netstring (decimal content.length) ++ content

/-- Contents after a field with their length can be cut off any stream in at most one way, whatever
bytes they hold. -/
theorem sized_selfDelimiting : SelfDelimiting sized := by
  intro a b x y h
  simp only [sized, List.append_assoc] at h
  obtain ⟨hlen, hrest⟩ := netstring_selfDelimiting h
  exact List.append_inj hrest (decimal_injective hlen)

end AndroidSdk.Lib
