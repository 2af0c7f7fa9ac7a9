import AndroidSdk.Lib.Dict
import AndroidSdk.Lib.LinkedChain
import Mathlib.Data.List.Lemmas

/-! # The cache that forgets what was not used for longest

`LruCache` of `libutils`: entries in a hash set, found by their keys, that are also linked to a
chain from the oldest to the youngest. Entries are nodes on a heap, so that a pointer to a deleted
entry points to nothing, and each operation is a computation that fails where it follows such a
pointer.
The listener for removed entries is left out.

* **`get`**, **`put`**, **`remove`**, **`removeOldest`**, **`clear`** — the operations.
* **`Recency`** — what the cache is for: the pairs in the order of their last use.
* **`Represents`** — the chain, the set and the heap say the same.
* **`runOps_create`** — over any run of operations, the cache answers as the list of pairs does and
  never follows a pointer to a deleted entry. -/

namespace AndroidSdk.Utils

open Lib

/-- `LruCache`, with `mNullValue`, what is returned for a missing key, and the address that the next
entry gets. The entries of the set are found by their keys. -/
structure LruCache (κ ν : Type) [DecidableEq κ] where
  heap : NodeHeap (κ × ν)
  set : Dict κ ℕ
  oldest : Option ℕ
  youngest : Option ℕ
  maxCapacity : ℕ
  nullValue : ν
  newAddress : ℕ

namespace LruCache

variable {κ ν : Type} [DecidableEq κ]

/-! ## The operations -/

/-- The constructor. -/
def create (maxCapacity : ℕ) (nullValue : ν) : LruCache κ ν where
  heap := fun _ => none
  set := ∅
  oldest := none
  youngest := none
  maxCapacity
  nullValue
  newAddress := 0

/-- `size`. -/
def size (c : LruCache κ ν) : ℕ := c.set.keys.length

/-- `attachToCache`. -/
def attachToCache (entry : ℕ) (c : LruCache κ ν) : Option (LruCache κ ν) :=
  match c.youngest with
  | none => some { c with youngest := some entry, oldest := some entry }
  | some youngest => do
      let heap ← modify c.heap entry fun e => { e with parent := some youngest }
      let heap ← modify heap youngest fun e => { e with child := some entry }
      return { c with heap, youngest := some entry }

/-- `detachFromCache`. -/
def detachFromCache (entry : ℕ) (c : LruCache κ ν) : Option (LruCache κ ν) := do
  let e ← c.heap entry
  let heap ← modifyAt c.heap e.parent fun p => { p with child := e.child }
  let oldest := if e.parent = none then e.child else c.oldest
  let heap ← modifyAt heap e.child fun n => { n with parent := e.parent }
  let youngest := if e.child = none then e.parent else c.youngest
  let heap ← modify heap entry fun n => { n with parent := none, child := none }
  return { c with heap, oldest, youngest }

/-- `get`: a key that is found becomes the youngest one. -/
def get (key : κ) (c : LruCache κ ν) : Option (ν × LruCache κ ν) :=
  match c.set.lookup key with
  | none => some (c.nullValue, c)
  | some entry => do
      let c ← detachFromCache entry c
      let c ← attachToCache entry c
      let e ← c.heap entry
      return (e.payload.2, c)

/-- `remove`. -/
def remove (key : κ) (c : LruCache κ ν) : Option (Bool × LruCache κ ν) :=
  match c.set.lookup key with
  | none => some (false, c)
  | some entry => do
      let e ← c.heap entry
      let c ← detachFromCache entry { c with set := c.set.erase e.payload.1 }
      return (true, { c with heap := Function.update c.heap entry none })

/-- `removeOldest`. -/
def removeOldest (c : LruCache κ ν) : Option (Bool × LruCache κ ν) :=
  match c.oldest with
  | none => some (false, c)
  | some oldest => do
      let e ← c.heap oldest
      remove e.payload.1 c

/-- The beginning of `put`: a full cache forgets its oldest entry, whether the key is new or not. -/
def makeRoom (c : LruCache κ ν) : Option (LruCache κ ν) :=
  if c.maxCapacity ≠ 0 ∧ c.maxCapacity ≤ c.size then (removeOldest c).map Prod.snd else some c

/-- `put`. -/
def put (key : κ) (value : ν) (c : LruCache κ ν) : Option (Bool × LruCache κ ν) := do
  let c ← makeRoom c
  if (c.set.lookup key).isSome then return (false, c)
  else
    let entry := c.newAddress
    let c ← attachToCache entry
      { c with
        heap := Function.update c.heap entry (some ⟨(key, value), none, none⟩)
        set := c.set.insert key entry
        newAddress := entry + 1 }
    return (true, c)

/-- `clear`: every entry of the set is deleted. -/
def clear (c : LruCache κ ν) : LruCache κ ν :=
  { c with
    heap := fun a => if ∃ e ∈ c.set.entries, e.2 = a then none else c.heap a
    set := ∅
    oldest := none
    youngest := none }

end LruCache

/-! ## What the cache is for -/

/-- The pairs of a cache, from the one that was not used for longest to the one used last. -/
abbrev Recency (κ ν : Type) := List (κ × ν)

namespace Recency

variable {κ ν : Type} [DecidableEq κ]

/-- The pairs with other keys. -/
def without (key : κ) (l : Recency κ ν) : Recency κ ν := l.filter fun e => e.1 ≠ key

/-- Look a key up, and put it last. -/
def get (nullValue : ν) (key : κ) (l : Recency κ ν) : ν × Recency κ ν :=
  match l.find? fun e => e.1 = key with
  | none => (nullValue, l)
  | some e => (e.2, without key l ++ [e])

/-- Remove a key. -/
def remove (key : κ) (l : Recency κ ν) : Bool × Recency κ ν :=
  (l.any fun e => e.1 = key, without key l)

/-- Remove the pair that was not used for longest. -/
def removeOldest (l : Recency κ ν) : Bool × Recency κ ν := (!l.isEmpty, l.tail)

/-- Add a pair with a new key; where there are too many pairs, the first one is removed before. -/
def put (maxCapacity : ℕ) (key : κ) (value : ν) (l : Recency κ ν) : Bool × Recency κ ν :=
  let l := if maxCapacity ≠ 0 ∧ maxCapacity ≤ l.length then l.tail else l
  if l.any fun e => e.1 = key then (false, l) else (true, l ++ [(key, value)])

end Recency

namespace LruCache

variable {κ ν : Type} [DecidableEq κ]

/-! ## Linking entries -/

/-- **An entry that is linked to nothing becomes the youngest one.** -/
theorem attachToCache_spec {c : LruCache κ ν} {l : List (ℕ × κ × ν)} {entry : ℕ} {x : κ × ν}
    (hsegment : Segment c.heap none l none) (hnodup : (l.map Prod.fst).Nodup)
    (holdest : c.oldest = firstAddress l) (hyoungest : c.youngest = lastAddress l)
    (hentry : c.heap entry = some ⟨x, none, none⟩) (hnot : entry ∉ l.map Prod.fst) :
    ∃ heap, attachToCache entry c
        = some { c with
            heap, oldest := firstAddress (l ++ [(entry, x)]), youngest := some entry }
      ∧ Segment heap none (l ++ [(entry, x)]) none ∧ ∀ a, (heap a).isSome = (c.heap a).isSome := by
  obtain ⟨h₁, h₂, hmodify₁, hmodify₂, hsegment'⟩ := hsegment.snoc hnodup hentry hnot
  rw [attachToCache, hyoungest]
  rcases List.eq_nil_or_concat l with rfl | ⟨l, p, rfl⟩
  · -- the first entry
    refine ⟨c.heap, rfl, ⟨hentry, trivial⟩, fun _ => rfl⟩
  · rw [List.concat_eq_append] at hmodify₁ hmodify₂ hsegment' holdest ⊢
    rw [lastAddress_append_singleton] at hmodify₁ hmodify₂ ⊢
    refine ⟨h₂, ?_, hsegment', fun a => ?_⟩
    · have hfirst : firstAddress (l ++ [p] ++ [(entry, x)]) = firstAddress (l ++ [p]) := by
        cases l <;> rfl
      simp only [hmodify₁, Option.bind_eq_bind, Option.bind_some, hfirst, holdest]
      rw [show modify h₁ p.1 (fun e => { e with child := some entry }) = some h₂ from hmodify₂]
      rfl
    · rw [isSome_of_modifyAt hmodify₂, isSome_of_modify hmodify₁]

/-- **An entry is taken out of the chain**, and is linked to nothing then. -/
theorem detachFromCache_spec {c : LruCache κ ν} {l m : List (ℕ × κ × ν)} {p : ℕ × κ × ν}
    (hsegment : Segment c.heap none (l ++ p :: m) none)
    (hnodup : ((l ++ p :: m).map Prod.fst).Nodup)
    (holdest : c.oldest = firstAddress (l ++ p :: m))
    (hyoungest : c.youngest = lastAddress (l ++ p :: m)) :
    ∃ heap, detachFromCache p.1 c
        = some { c with
            heap, oldest := firstAddress (l ++ m), youngest := lastAddress (l ++ m) }
      ∧ Segment heap none (l ++ m) none ∧ heap p.1 = some ⟨p.2, none, none⟩
      ∧ ∀ a, (heap a).isSome = (c.heap a).isSome := by
  obtain ⟨h₁, h₂, h₃, hmodify₁, hmodify₂, hmodify₃, hsegment', hp'⟩ := hsegment.unlink hnodup
  have hp : c.heap p.1 = some ⟨p.2, lastAddress l, firstAddress m⟩ := by
    have hp := (segment_append.mp hsegment).2.1
    simpa only [Option.or_none] using hp
  refine ⟨h₃, ?_, hsegment', hp', fun a => ?_⟩
  · have hfirst : (if lastAddress l = none then firstAddress m else c.oldest)
        = firstAddress (l ++ m) := by
      rcases List.eq_nil_or_concat l with rfl | ⟨l, q, rfl⟩
      · rfl
      · rw [List.concat_eq_append] at holdest ⊢
        rw [lastAddress_append_singleton, if_neg (by simp), holdest]
        cases l <;> rfl
    have hlast : (if firstAddress m = none then lastAddress l else c.youngest)
        = lastAddress (l ++ m) := by
      cases m with
      | nil => rw [List.append_nil]; rfl
      | cons q m =>
          rw [firstAddress_cons, if_neg (by simp), hyoungest]
          rw [lastAddress, lastAddress, List.getLast?_append_cons, List.getLast?_append_cons,
            List.getLast?_cons_cons]
    simp only [detachFromCache, hp, Option.bind_eq_bind, Option.bind_some, hmodify₁, hmodify₂,
      hmodify₃, hfirst, hlast]
    rfl
  · rw [isSome_of_modify hmodify₃, isSome_of_modifyAt hmodify₂, isSome_of_modifyAt hmodify₁]

/-! ## The invariant -/

/-- **The chain, the set and the heap say the same**: the set finds the entries of the chain by
their keys, and no other entry is alive. -/
structure Represents (c : LruCache κ ν) (l : List (ℕ × κ × ν)) : Prop where
  segment : Segment c.heap none l none
  nodup : (l.map Prod.fst).Nodup
  oldest : c.oldest = firstAddress l
  youngest : c.youngest = lastAddress l
  keys : (l.map fun p => p.2.1).Nodup
  lookup : ∀ key a, c.set.lookup key = some a ↔ ∃ v, (a, key, v) ∈ l
  size : c.size = l.length
  live : ∀ a, (c.heap a).isSome ↔ a ∈ l.map Prod.fst
  newAddress : ∀ a ∈ l.map Prod.fst, a < c.newAddress

/-- What the cache holds, in the order of the last use. -/
def Holds (c : LruCache κ ν) (r : Recency κ ν) : Prop := ∃ l, Represents c l ∧ l.map Prod.snd = r

/-- A new cache holds nothing. -/
theorem holds_create (maxCapacity : ℕ) (nullValue : ν) :
    Holds (create maxCapacity nullValue : LruCache κ ν) [] :=
  ⟨[], ⟨trivial, .nil, rfl, rfl, .nil, by simp [create], rfl, by simp [create], by simp⟩, rfl⟩

/-- An entry that the set finds, in the chain. -/
theorem Represents.exists_split {c : LruCache κ ν} {l : List (ℕ × κ × ν)} (h : Represents c l)
    {key : κ} {entry : ℕ} (hlookup : c.set.lookup key = some entry) :
    ∃ l₁ v l₂, l = l₁ ++ (entry, key, v) :: l₂ := by
  obtain ⟨v, hmem⟩ := (h.lookup key entry).mp hlookup
  obtain ⟨l₁, l₂, hl⟩ := List.append_of_mem hmem
  exact ⟨l₁, v, l₂, hl⟩

/-- A key that the set does not find. -/
theorem Represents.forall_ne {c : LruCache κ ν} {l : List (ℕ × κ × ν)} (h : Represents c l)
    {key : κ} (hlookup : c.set.lookup key = none) : ∀ p ∈ l, p.2.1 ≠ key := by
  rintro ⟨a, k, v⟩ hp rfl
  rw [(h.lookup k a).mpr ⟨v, hp⟩] at hlookup
  cases hlookup

end LruCache

namespace Recency

variable {κ ν : Type} [DecidableEq κ] {key : κ}

/-- Nothing is removed where the key does not occur. -/
theorem without_eq_self {r : Recency κ ν} (h : ∀ e ∈ r, e.1 ≠ key) : without key r = r :=
  List.filter_eq_self.mpr fun e he => by simpa using h e he

/-- What is removed where the key occurs once. -/
theorem without_split {r₁ r₂ : Recency κ ν} {v : ν}
    (hkeys : ((r₁ ++ (key, v) :: r₂).map Prod.fst).Nodup) :
    without key (r₁ ++ (key, v) :: r₂) = r₁ ++ r₂ := by
  rw [List.map_append, List.map_cons, List.nodup_append, List.nodup_cons] at hkeys
  obtain ⟨-, ⟨h₂, -⟩, h₁⟩ := hkeys
  have hr₁ : without key r₁ = r₁ := without_eq_self fun e he hkey =>
    h₁ _ (List.mem_map_of_mem he) _ List.mem_cons_self hkey
  have hr₂ : without key r₂ = r₂ := without_eq_self fun e he hkey =>
    h₂ (List.mem_map.mpr ⟨e, he, hkey⟩)
  rw [without] at hr₁ hr₂ ⊢
  rw [List.filter_append, hr₁, List.filter_cons_of_neg (by simp), hr₂]

/-- What is found where the key occurs once. -/
theorem find?_split {r₁ r₂ : Recency κ ν} {v : ν}
    (hkeys : ((r₁ ++ (key, v) :: r₂).map Prod.fst).Nodup) :
    (r₁ ++ (key, v) :: r₂).find? (fun e => e.1 = key) = some (key, v) := by
  rw [List.map_append, List.nodup_append] at hkeys
  have hr₁ : r₁.find? (fun e => e.1 = key) = none := by
    refine List.find?_eq_none.mpr fun e he hkey => ?_
    exact hkeys.2.2 _ (List.mem_map_of_mem he) key (by simp) (of_decide_eq_true hkey)
  rw [List.find?_append, hr₁, Option.none_or, List.find?_cons_of_pos (by simp)]

/-- What is looked up is missing, or the value of a pair. -/
theorem get_eq_or_mem (nullValue : ν) (key : κ) (r : Recency κ ν) :
    (get nullValue key r).1 = nullValue ∨ (key, (get nullValue key r).1) ∈ r := by
  rw [get]
  cases hfind : r.find? fun e => e.1 = key with
  | none => exact .inl rfl
  | some e =>
      have hkey : e.1 = key := by simpa using List.find?_some hfind
      exact .inr (hkey ▸ List.mem_of_find?_eq_some hfind)

/-- Looking up adds no pair. -/
theorem mem_of_mem_get {nullValue : ν} {r : Recency κ ν} {e : κ × ν}
    (h : e ∈ (get nullValue key r).2) : e ∈ r := by
  rw [get] at h
  cases hfind : r.find? fun e => e.1 = key with
  | none =>
      rw [hfind] at h
      exact h
  | some e' =>
      rw [hfind] at h
      rcases List.mem_append.mp h with h | h
      · exact List.mem_of_mem_filter h
      · rw [List.mem_singleton.mp h]
        exact List.mem_of_find?_eq_some hfind

/-- Putting adds the pair at most. -/
theorem mem_of_mem_put {maxCapacity : ℕ} {value : ν} {r : Recency κ ν} {e : κ × ν}
    (h : e ∈ (put maxCapacity key value r).2) : e ∈ r ∨ e = (key, value) := by
  simp only [put] at h
  generalize hl : (if maxCapacity ≠ 0 ∧ maxCapacity ≤ r.length then r.tail else r) = l at h
  have hsub : ∀ e ∈ l, e ∈ r := by
    intro e he
    rw [← hl] at he
    split_ifs at he
    · exact List.mem_of_mem_tail he
    · exact he
  split_ifs at h
  · exact .inl (hsub e h)
  · rcases List.mem_append.mp h with h | h
    · exact .inl (hsub e h)
    · exact .inr (List.mem_singleton.mp h)

end Recency

namespace LruCache

variable {κ ν : Type} [DecidableEq κ] {c : LruCache κ ν} {r : Recency κ ν}

/-- The keys of the pairs. -/
theorem Represents.nodup_keys {l : List (ℕ × κ × ν)} (h : Represents c l) :
    ((l.map Prod.snd).map Prod.fst).Nodup := by
  rw [List.map_map]
  exact h.keys

/-- No pair has a key that the set does not find. -/
theorem Represents.any_eq_false {l : List (ℕ × κ × ν)} (h : Represents c l) {key : κ}
    (hlookup : c.set.lookup key = none) : ((l.map Prod.snd).any fun e => e.1 = key) = false :=
  List.any_eq_false.mpr (List.forall_mem_map.mpr fun p hp => by
    simpa using h.forall_ne hlookup p hp)

/-- **`get` answers as the list of pairs does.** -/
theorem get_spec (h : Holds c r) (key : κ) :
    ∃ c', get key c = some ((Recency.get c.nullValue key r).1, c')
      ∧ Holds c' (Recency.get c.nullValue key r).2
      ∧ c'.maxCapacity = c.maxCapacity ∧ c'.nullValue = c.nullValue := by
  obtain ⟨l, hl, rfl⟩ := h
  rw [get]
  cases hlookup : c.set.lookup key with
  | none =>
      have hnone : (l.map Prod.snd).find? (fun e => e.1 = key) = none :=
        List.find?_eq_none.mpr (List.any_eq_false.mp (hl.any_eq_false hlookup))
      rw [Recency.get, hnone]
      exact ⟨c, rfl, ⟨l, hl, rfl⟩, rfl, rfl⟩
  | some entry =>
      obtain ⟨l₁, v, l₂, rfl⟩ := hl.exists_split hlookup
      -- the node is taken out of the chain and put behind the youngest one
      have hkeys := hl.nodup_keys
      rw [List.map_append, List.map_cons] at hkeys
      obtain ⟨h₁, hdetach, hsegment₁, hentry, hsome₁⟩ :=
        detachFromCache_spec hl.segment hl.nodup hl.oldest hl.youngest
      -- the same nodes are in the chain, in another order
      have hperm : (l₁ ++ l₂ ++ [(entry, key, v)]).Perm (l₁ ++ (entry, key, v) :: l₂) := by
        rw [List.append_assoc]
        exact (List.perm_append_singleton _ _).append_left l₁
      have hnodup' := ((hperm.map Prod.fst).nodup_iff).mpr hl.nodup
      rw [List.map_append, List.nodup_append] at hnodup'
      have hnot : entry ∉ (l₁ ++ l₂).map Prod.fst := fun hmem =>
        hnodup'.2.2 _ hmem entry (by simp) rfl
      obtain ⟨h₂, hattach, hsegment₂, hsome₂⟩ := attachToCache_spec
        (c := { c with
          heap := h₁, oldest := firstAddress (l₁ ++ l₂), youngest := lastAddress (l₁ ++ l₂) })
        hsegment₁ hnodup'.1 rfl rfl hentry hnot
      obtain ⟨n, hn, hpayload⟩ := hsegment₂.exists_of_mem
        (p := (entry, key, v)) (by simp)
      refine ⟨{ c with
          heap := h₂
          oldest := firstAddress (l₁ ++ l₂ ++ [(entry, key, v)])
          youngest := some entry },
        ?_, ⟨l₁ ++ l₂ ++ [(entry, key, v)], ⟨hsegment₂, ?_, rfl, ?_, ?_, ?_, ?_, ?_, ?_⟩, ?_⟩,
        rfl, rfl⟩
      · simp only [hdetach, hattach, hn, hpayload, Option.bind_eq_bind, Option.bind_some,
          Recency.get, List.map_append, List.map_cons, Recency.find?_split hkeys]
        rfl
      · exact ((hperm.map Prod.fst).nodup_iff).mpr hl.nodup
      · rw [lastAddress_append_singleton]
      · exact ((hperm.map fun p => p.2.1).nodup_iff).mpr hl.keys
      · exact fun k a => (hl.lookup k a).trans (exists_congr fun v => hperm.mem_iff.symm)
      · exact hl.size.trans hperm.length_eq.symm
      · intro a
        rw [hsome₂, hsome₁, hl.live, (hperm.map Prod.fst).mem_iff]
      · exact fun a ha => hl.newAddress a ((hperm.map Prod.fst).mem_iff.mp ha)
      · simp only [Recency.get, List.map_append, List.map_cons, Recency.find?_split hkeys,
          Recency.without_split hkeys]
        rfl

/-- Where an entry is taken out of the chain and of the set, it can be deleted. -/
theorem Represents.erase {l₁ l₂ : List (ℕ × κ × ν)} {entry : ℕ} {key : κ} {v : ν}
    (hl : Represents c (l₁ ++ (entry, key, v) :: l₂)) {heap : NodeHeap (κ × ν)}
    (hsegment : Segment heap none (l₁ ++ l₂) none)
    (hlive : ∀ a, (heap a).isSome = (c.heap a).isSome) :
    Represents { c with
      heap := Function.update heap entry none
      set := c.set.erase key
      oldest := firstAddress (l₁ ++ l₂)
      youngest := lastAddress (l₁ ++ l₂) } (l₁ ++ l₂) := by
  have hperm : (l₁ ++ (entry, key, v) :: l₂).Perm ((entry, key, v) :: (l₁ ++ l₂)) :=
    List.perm_middle
  have haddresses := ((hperm.map Prod.fst).nodup_iff).mp hl.nodup
  rw [List.map_cons, List.nodup_cons] at haddresses
  have hkeys := ((hperm.map fun p => p.2.1).nodup_iff).mp hl.keys
  rw [List.map_cons, List.nodup_cons] at hkeys
  refine ⟨hsegment.update haddresses.1 _, haddresses.2, rfl, rfl, hkeys.2, ?_, ?_, ?_, ?_⟩
  · intro k a
    by_cases hk : k = key
    · subst hk
      rw [AList.lookup_erase]
      refine iff_of_false (Option.some_ne_none a).symm ?_
      rintro ⟨w, hw⟩
      exact hkeys.1 (List.mem_map.mpr ⟨_, hw, rfl⟩)
    · rw [AList.lookup_erase_ne hk, hl.lookup]
      refine exists_congr fun w => ?_
      rw [hperm.mem_iff, List.mem_cons]
      exact or_iff_right fun heq => hk (by injection heq with _ heq; injection heq)
  · have hlookup := (hl.lookup key entry).mpr ⟨v, by simp⟩
    have hmem : key ∈ c.set.keys := AList.lookup_isSome.mp (by rw [hlookup]; rfl)
    have hsize := hl.size
    simp only [LruCache.size, List.length_append, List.length_cons] at hsize ⊢
    rw [AList.keys_erase, List.length_erase_of_mem hmem, hsize]
    omega
  · intro a
    show (Function.update heap entry none a).isSome ↔ _
    by_cases ha : a = entry
    · rw [ha, Function.update_self]
      exact iff_of_false Bool.false_ne_true haddresses.1
    · rw [Function.update_of_ne ha, hlive, hl.live, (hperm.map Prod.fst).mem_iff, List.map_cons,
        List.mem_cons]
      exact or_iff_right ha
  · exact fun a ha => hl.newAddress a
      ((hperm.map Prod.fst).mem_iff.mpr (List.mem_cons_of_mem _ ha))

/-- **`remove` removes the pair with the key**, and deletes its entry. -/
theorem remove_spec (h : Holds c r) (key : κ) :
    ∃ c', remove key c = some ((Recency.remove key r).1, c')
      ∧ Holds c' (Recency.remove key r).2
      ∧ c'.maxCapacity = c.maxCapacity ∧ c'.nullValue = c.nullValue := by
  obtain ⟨l, hl, rfl⟩ := h
  rw [remove, Recency.remove]
  cases hlookup : c.set.lookup key with
  | none =>
      have hne := hl.forall_ne hlookup
      rw [hl.any_eq_false hlookup, Recency.without_eq_self (List.forall_mem_map.mpr hne)]
      exact ⟨c, rfl, ⟨l, hl, rfl⟩, rfl, rfl⟩
  | some entry =>
      obtain ⟨l₁, v, l₂, rfl⟩ := hl.exists_split hlookup
      have hkeys := hl.nodup_keys
      rw [List.map_append, List.map_cons] at hkeys
      obtain ⟨h₁, hdetach, hsegment₁, -, hsome₁⟩ := detachFromCache_spec
        (c := { c with set := c.set.erase key }) hl.segment hl.nodup hl.oldest hl.youngest
      obtain ⟨n, hn, hpayload⟩ := hl.segment.exists_of_mem (p := (entry, key, v)) (by simp)
      refine ⟨_, ?_, ⟨l₁ ++ l₂, hl.erase hsegment₁ hsome₁, ?_⟩, rfl, rfl⟩
      · have hany : (((l₁ ++ (entry, key, v) :: l₂).map Prod.snd).any fun e => e.1 = key)
            = true := by
          simp
        simp only [hn, hpayload, hdetach, Option.bind_eq_bind, Option.bind_some, hany]
        rfl
      · simp only [List.map_append, List.map_cons, Recency.without_split hkeys]

/-- **`removeOldest` removes the pair that was not used for longest.** -/
theorem removeOldest_spec (h : Holds c r) :
    ∃ c', removeOldest c = some ((Recency.removeOldest r).1, c')
      ∧ Holds c' (Recency.removeOldest r).2
      ∧ c'.maxCapacity = c.maxCapacity ∧ c'.nullValue = c.nullValue := by
  obtain ⟨l, hl, rfl⟩ := h
  rw [removeOldest, hl.oldest]
  cases l with
  | nil => exact ⟨c, rfl, ⟨[], hl, rfl⟩, rfl, rfl⟩
  | cons p l =>
      obtain ⟨n, hn, hpayload⟩ := hl.segment.exists_of_mem List.mem_cons_self
      obtain ⟨c', hremove, hholds, hcap, hnull⟩ := remove_spec ⟨_, hl, rfl⟩ p.2.1
      have hkeys := hl.nodup_keys
      have hany : (((p :: l).map Prod.snd).any fun e => e.1 = p.2.1) = true := by simp
      rw [Recency.remove, hany] at hremove
      refine ⟨c', ?_, ?_, hcap, hnull⟩
      · simp only [firstAddress_cons, hn, hpayload, Option.bind_eq_bind, Option.bind_some, hremove]
        rfl
      · rw [Recency.remove] at hholds
        have hkeys' : (([] ++ (p.2.1, p.2.2) :: l.map Prod.snd).map Prod.fst).Nodup := hkeys
        have hsame : Recency.without p.2.1 ((p :: l).map Prod.snd) = l.map Prod.snd :=
          Recency.without_split hkeys'
        rw [hsame] at hholds
        exact hholds

/-- A full cache forgets its oldest entry. -/
theorem makeRoom_spec (h : Holds c r) : ∃ c₁, makeRoom c = some c₁
    ∧ Holds c₁ (if c.maxCapacity ≠ 0 ∧ c.maxCapacity ≤ r.length then r.tail else r)
    ∧ c₁.maxCapacity = c.maxCapacity ∧ c₁.nullValue = c.nullValue := by
  have hsize : c.size = r.length := by
    obtain ⟨l, hl, rfl⟩ := h
    rw [hl.size, List.length_map]
  rw [makeRoom, hsize]
  split_ifs
  · obtain ⟨c₁, hremove, hholds, hsame⟩ := removeOldest_spec h
    exact ⟨c₁, by rw [hremove]; rfl, hholds, hsame⟩
  · exact ⟨c, rfl, h, rfl, rfl⟩

/-- A new entry with a new key can be the youngest one. -/
theorem Represents.insert {l : List (ℕ × κ × ν)} (hl : Represents c l) {key : κ} {value : ν}
    (hlookup : c.set.lookup key = none) {heap : NodeHeap (κ × ν)}
    (hsegment : Segment heap none (l ++ [(c.newAddress, key, value)]) none)
    (hlive : ∀ a, (heap a).isSome = (Function.update c.heap c.newAddress
      (some ⟨(key, value), none, none⟩) a).isSome) :
    Represents { c with
      heap
      set := c.set.insert key c.newAddress
      oldest := firstAddress (l ++ [(c.newAddress, key, value)])
      youngest := some c.newAddress
      newAddress := c.newAddress + 1 } (l ++ [(c.newAddress, key, value)]) := by
  have hne := hl.forall_ne hlookup
  refine ⟨hsegment, ?_, rfl, ?_, ?_, ?_, ?_, ?_, ?_⟩
  -- no other node has the new address
  · rw [List.map_append, List.nodup_append]
    refine ⟨hl.nodup, by simp, fun a ha b hb hab => Nat.lt_irrefl c.newAddress ?_⟩
    have hb' : b = c.newAddress := List.mem_singleton.mp hb
    exact hl.newAddress _ (hb' ▸ hab ▸ ha)
  · rw [lastAddress_append_singleton]
  -- no other node has the key
  · rw [List.map_append, List.nodup_append]
    refine ⟨hl.keys, by simp, fun k hk k' hk' heq => ?_⟩
    obtain ⟨p, hp, hpk⟩ := List.mem_map.mp hk
    exact hne p hp (hpk.trans (heq.trans (List.mem_singleton.mp hk')))
  · intro k a
    show (c.set.insert key c.newAddress).lookup k = some a ↔ _
    rw [Dict.lookup_insert]
    simp only [List.mem_append, List.mem_singleton]
    split_ifs with hk
    -- the key leads to the new node only
    · subst hk
      constructor
      · rintro ⟨⟩
        exact ⟨value, .inr rfl⟩
      · rintro ⟨w, hw | hw⟩
        · exact absurd rfl (hne _ hw)
        · injection hw with ha
          rw [ha]
    · rw [hl.lookup]
      refine exists_congr fun w => (or_iff_left fun hw => hk ?_).symm
      injection hw with _ hw
      injection hw
  · have hsize := hl.size
    simp only [LruCache.size, AList.keys_insert, List.length_cons, List.length_append,
      List.erase_of_not_mem (AList.lookup_eq_none.mp hlookup), List.length_nil] at hsize ⊢
    omega
  · intro a
    rw [hlive, List.map_append, List.mem_append, ← hl.live]
    -- the new node is the one that was allocated
    by_cases ha : a = c.newAddress
    · rw [ha, Function.update_self]
      simp
    · rw [Function.update_of_ne ha]
      simp [ha]
  · intro a ha
    rw [List.map_append, List.mem_append] at ha
    rcases ha with ha | ha
    · exact Nat.lt_succ_of_lt (hl.newAddress a ha)
    · rw [List.mem_singleton.mp ha]
      exact Nat.lt_succ_self _

/-- **`put` adds a pair**, after the oldest one is removed from a full cache. -/
theorem put_spec (h : Holds c r) (key : κ) (value : ν) :
    ∃ c', put key value c = some ((Recency.put c.maxCapacity key value r).1, c')
      ∧ Holds c' (Recency.put c.maxCapacity key value r).2
      ∧ c'.maxCapacity = c.maxCapacity ∧ c'.nullValue = c.nullValue := by
  obtain ⟨c₁, hc₁, ⟨l, hl, hr⟩, hcap, hnull⟩ := makeRoom_spec h
  rw [put, hc₁, Recency.put]
  dsimp only [Option.bind_eq_bind, Option.bind_some]
  rw [← hr]
  cases hlookup : c₁.set.lookup key with
  | some entry =>
      obtain ⟨l₁, v, l₂, rfl⟩ := hl.exists_split hlookup
      have hany : (((l₁ ++ (entry, key, v) :: l₂).map Prod.snd).any fun e => e.1 = key)
          = true := by
        simp
      rw [if_pos hany, if_pos Option.isSome_some]
      exact ⟨c₁, rfl, ⟨_, hl, rfl⟩, hcap, hnull⟩
  | none =>
      have hnew : c₁.newAddress ∉ l.map Prod.fst := fun hmem =>
        Nat.lt_irrefl _ (hl.newAddress _ hmem)
      obtain ⟨h₂, hattach, hsegment, hsome⟩ := attachToCache_spec
        (c := { c₁ with
          heap := Function.update c₁.heap c₁.newAddress (some ⟨(key, value), none, none⟩)
          set := c₁.set.insert key c₁.newAddress
          newAddress := c₁.newAddress + 1 })
        (hl.segment.update hnew _) hl.nodup hl.oldest hl.youngest (Function.update_self _ _ _) hnew
      rw [hl.any_eq_false hlookup, if_neg (by simp), if_neg Bool.false_ne_true, hattach]
      exact ⟨_, rfl, ⟨_, hl.insert hlookup hsegment hsome, List.map_append⟩, hcap, hnull⟩

/-- **`clear` deletes every entry.** -/
theorem clear_spec (h : Holds c r) :
    Holds (clear c) [] ∧ (clear c).maxCapacity = c.maxCapacity
      ∧ (clear c).nullValue = c.nullValue := by
  obtain ⟨l, hl, rfl⟩ := h
  refine ⟨⟨[], ⟨trivial, .nil, rfl, rfl, .nil, by simp [clear], rfl, fun a => ?_, by simp⟩, rfl⟩,
    rfl, rfl⟩
  refine iff_of_false (fun hsome => ?_) List.not_mem_nil
  simp only [clear] at hsome
  split_ifs at hsome with hin
  · cases hsome
  · obtain ⟨⟨a', k, v⟩, hp, rfl⟩ := List.mem_map.mp ((hl.live a).mp hsome)
    have hlookup := (hl.lookup k a').mpr ⟨v, hp⟩
    exact hin ⟨⟨k, a'⟩, AList.mem_lookup_iff.mp hlookup, rfl⟩

end LruCache

/-! ## Runs -/

/-- An operation with its arguments. -/
inductive CacheOp (κ ν : Type) where
  | get (key : κ)
  | put (key : κ) (value : ν)
  | remove (key : κ)
  | removeOldest
  | clear

/-- What an operation returns. -/
inductive CacheAnswer (ν : Type) where
  | value (value : ν)
  | done (done : Bool)
  deriving DecidableEq

section

variable {κ ν : Type} [DecidableEq κ]

/-- An operation on a cache. -/
def LruCache.runOp (c : LruCache κ ν) : CacheOp κ ν → Option (CacheAnswer ν × LruCache κ ν)
  | .get key => (c.get key).map fun r => (.value r.1, r.2)
  | .put key value => (c.put key value).map fun r => (.done r.1, r.2)
  | .remove key => (c.remove key).map fun r => (.done r.1, r.2)
  | .removeOldest => c.removeOldest.map fun r => (.done r.1, r.2)
  | .clear => some (.done true, c.clear)

/-- A run of operations on a cache. -/
def LruCache.runOps (c : LruCache κ ν) :
    List (CacheOp κ ν) → Option (List (CacheAnswer ν) × LruCache κ ν)
  | [] => some ([], c)
  | op :: ops => do
      let (answer, c) ← c.runOp op
      let (answers, c) ← c.runOps ops
      return (answer :: answers, c)

/-- The same operation on the list of pairs. -/
def Recency.runOp (maxCapacity : ℕ) (nullValue : ν) (r : Recency κ ν) :
    CacheOp κ ν → CacheAnswer ν × Recency κ ν
  | .get key => (.value (Recency.get nullValue key r).1, (Recency.get nullValue key r).2)
  | .put key value =>
      (.done (Recency.put maxCapacity key value r).1, (Recency.put maxCapacity key value r).2)
  | .remove key => (.done (Recency.remove key r).1, (Recency.remove key r).2)
  | .removeOldest => (.done (Recency.removeOldest r).1, (Recency.removeOldest r).2)
  | .clear => (.done true, [])

/-- The same run on the list of pairs. -/
def Recency.runOps (maxCapacity : ℕ) (nullValue : ν) (r : Recency κ ν) :
    List (CacheOp κ ν) → List (CacheAnswer ν) × Recency κ ν
  | [] => ([], r)
  | op :: ops =>
      let s := Recency.runOp maxCapacity nullValue r op
      let t := Recency.runOps maxCapacity nullValue s.2 ops
      (s.1 :: t.1, t.2)

/-- **Each operation answers as the list of pairs does.** -/
theorem LruCache.runOp_spec {c : LruCache κ ν} {r : Recency κ ν} (h : c.Holds r)
    (op : CacheOp κ ν) :
    ∃ c', c.runOp op = some ((Recency.runOp c.maxCapacity c.nullValue r op).1, c')
      ∧ c'.Holds (Recency.runOp c.maxCapacity c.nullValue r op).2
      ∧ c'.maxCapacity = c.maxCapacity ∧ c'.nullValue = c.nullValue := by
  cases op with
  | get key =>
      obtain ⟨c', hget, hrest⟩ := LruCache.get_spec h key
      exact ⟨c', by rw [LruCache.runOp, hget]; rfl, hrest⟩
  | put key value =>
      obtain ⟨c', hput, hrest⟩ := LruCache.put_spec h key value
      exact ⟨c', by rw [LruCache.runOp, hput]; rfl, hrest⟩
  | remove key =>
      obtain ⟨c', hremove, hrest⟩ := LruCache.remove_spec h key
      exact ⟨c', by rw [LruCache.runOp, hremove]; rfl, hrest⟩
  | removeOldest =>
      obtain ⟨c', hremove, hrest⟩ := LruCache.removeOldest_spec h
      exact ⟨c', by rw [LruCache.runOp, hremove]; rfl, hrest⟩
  | clear => exact ⟨c.clear, rfl, LruCache.clear_spec h⟩

/-- **Every run answers as the list of pairs does.** -/
theorem LruCache.runOps_spec {c : LruCache κ ν} {r : Recency κ ν} (h : c.Holds r)
    (ops : List (CacheOp κ ν)) :
    ∃ c', c.runOps ops = some ((Recency.runOps c.maxCapacity c.nullValue r ops).1, c')
      ∧ c'.Holds (Recency.runOps c.maxCapacity c.nullValue r ops).2 := by
  induction ops generalizing c r with
  | nil => exact ⟨c, rfl, h⟩
  | cons op ops ih =>
      obtain ⟨c₁, hop, hholds, hcap, hnull⟩ := LruCache.runOp_spec h op
      obtain ⟨c', hops, hholds'⟩ := ih hholds
      rw [hcap, hnull] at hops hholds'
      refine ⟨c', ?_, hholds'⟩
      rw [LruCache.runOps, hop]
      dsimp only [Option.bind_eq_bind, Option.bind_some]
      rw [hops]
      rfl

/-- The list of pairs keeps to the capacity. -/
theorem Recency.length_runOp_le {maxCapacity : ℕ} (hcap : maxCapacity ≠ 0) (nullValue : ν)
    {r : Recency κ ν} (h : r.length ≤ maxCapacity) (op : CacheOp κ ν) :
    (Recency.runOp maxCapacity nullValue r op).2.length ≤ maxCapacity := by
  have hwithout : ∀ key : κ, (Recency.without key r).length ≤ r.length := fun key =>
    List.length_filter_le _ _
  cases op with
  | get key =>
      simp only [Recency.runOp, Recency.get]
      cases hfind : r.find? fun e => e.1 = key with
      | none => exact h
      | some e =>
          -- the pair that is found is taken away before it is put last
          have hlt : (Recency.without key r).length < r.length := by
            refine List.length_filter_lt_length_iff_exists.mpr
              ⟨e, List.mem_of_find?_eq_some hfind, ?_⟩
            have hkey := List.find?_some hfind
            simpa using hkey
          simp only [List.length_append, List.length_singleton]
          omega
  | put key value =>
      simp only [Recency.runOp, Recency.put]
      have htail := List.length_tail (l := r)
      split_ifs <;> simp only [List.length_append, List.length_singleton] <;> omega
  | remove key => exact (hwithout key).trans h
  | removeOldest =>
      simp only [Recency.runOp, Recency.removeOldest, List.length_tail]
      omega
  | clear => exact Nat.zero_le _

/-- So it does over a run. -/
theorem Recency.length_runOps_le {maxCapacity : ℕ} (hcap : maxCapacity ≠ 0) (nullValue : ν)
    {r : Recency κ ν} (h : r.length ≤ maxCapacity) (ops : List (CacheOp κ ν)) :
    (Recency.runOps maxCapacity nullValue r ops).2.length ≤ maxCapacity := by
  induction ops generalizing r with
  | nil => exact h
  | cons op ops ih => exact ih (Recency.length_runOp_le hcap nullValue h op)

end

end AndroidSdk.Utils
