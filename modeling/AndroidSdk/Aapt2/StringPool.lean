import AndroidSdk.Aapt2.ResourceModel
import AndroidSdk.Lib.Sorting

/-! # String pools

A `StringPool` owns entries, and references to its strings are pointers to the entries
(`libs/androidfw/StringPool.cpp`). Here the entries of all pools lie on a heap, and a pool is the
vector of the addresses of its entries. Styled strings are left out.

* **`makeRef`** — `MakeRef`, which reuses an entry with the same string and priority.
* **`reAssignIndices`**, **`merge`**, **`sortStrings`** — the operations after which references have
  other indices.
* **`PoolHeap.entryAt`** — what a reference leads to. -/

namespace AndroidSdk.Aapt2.StringPool

open Lib

/-! ## Pools -/

/-- `StringPool::Entry`, with the priority of its context. -/
structure PoolEntry where
  value : Bytes
  priority : BitVec 32
  index : ℕ
  deriving DecidableEq

/-- The entries of all pools, by their addresses. -/
abbrev PoolHeap := List PoolEntry

/-- What a reference leads to. -/
def PoolHeap.entryAt (heap : PoolHeap) (a : ℕ) : PoolEntry := heap[a]?.getD ⟨[], 0, 0⟩

/-- The string and the priority of an entry, which do not change. -/
def PoolEntry.content (e : PoolEntry) : Bytes × BitVec 32 := (e.value, e.priority)

/-- The strings and priorities on the heap. -/
def PoolHeap.contents (heap : PoolHeap) : List (Bytes × BitVec 32) := heap.map PoolEntry.content

/-- `Context::kLowPriority`. -/
def kLowPriority : BitVec 32 := 0xffffffff

/-- `MakeRefImpl` for a unique string: a reference, the pool and the heap. -/
def makeRef (str : Bytes) (priority : BitVec 32) (pool : List ℕ) (heap : PoolHeap) :
    ℕ × List ℕ × PoolHeap :=
  match pool.find? fun a => heap[a]?.any fun e => e.value = str ∧ e.priority = priority with
  | some a => (a, pool, heap)
  | none => (heap.length, pool ++ [heap.length], heap ++ [⟨str, priority, pool.length⟩])

/-- `ReAssignIndices`. -/
def reAssignIndices (strings : List ℕ) (heap : PoolHeap) : PoolHeap :=
  strings.zipIdx.foldl (fun heap p => heap.modify p.1 fun e => { e with index := p.2 }) heap

/-- `Merge`. -/
def merge (strings other : List ℕ) (heap : PoolHeap) : List ℕ × PoolHeap :=
  (strings ++ other, reAssignIndices (strings ++ other) heap)

/-- The comparison of `SortEntries`: by the priority, and then by the string. -/
def compareEntries : PoolEntry → PoolEntry → Ordering :=
  compareLex (compareOn fun e => e.priority.toNat) (compareOn PoolEntry.value)

instance : Std.TransCmp compareEntries := by
  unfold compareEntries
  infer_instance

/-- `Sort`, with the comparison of the priorities. -/
def sortStrings (std : StdSort) (strings : List ℕ) (heap : PoolHeap) : List ℕ × PoolHeap :=
  let strings := std.sort
    (fun a b => compareEntries (heap.entryAt a) (heap.entryAt b) = .lt) strings
  (strings, reAssignIndices strings heap)

end AndroidSdk.Aapt2.StringPool
