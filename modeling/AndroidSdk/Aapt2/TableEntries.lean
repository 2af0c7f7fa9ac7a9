import AndroidSdk.Aapt2.ResourceTable

/-! # What adding does to the entries of a type

`AddResource` with an identifier and `CREATE_ENTRY` works on the one entry with the name and the
identifier, which is created when it is missing. All other entries stay.

* **`setEntryId_of_found`**, **`setEntryId_of_not_found`** — the entry that is chosen.
* **`ResourceTableType.SplitAt`** — the entries around the place of a name and an identifier.
* **`ResourceTableType.add_eq_map_add`** — `AddResource` on a type whose entries all have
  identifiers. -/

namespace AndroidSdk.Aapt2

open Lib SplitSelect

variable {ι : Type} {validation : Validation} {res : NewResource ι} {id : ResourceId}

/-! ## The entry that is chosen -/

/-- The entry that `AddResource` creates for an identifier. -/
def newEntry (name : Bytes) (id : ResourceId) : ResourceEntry ι :=
  { ResourceEntry.new name with id := some id }

/-- The loop over several entries finds the one with the identifier. -/
theorem findEntryWithId_of_found {e : ResourceEntry ι} (he : e.id = some id) :
    ∀ (l : List (ResourceEntry ι)) (i j : ℕ), l[j]? = some e →
      (l.Pairwise fun a b => a.id ≠ b.id) → (∀ e ∈ l, e.id.isSome) →
      findEntryWithId id l i = some (some (i + j)) := by
  intro l
  induction l with
  | nil => exact fun i j hj => by simp at hj
  | cons x l ih =>
      intro i j hj hnodup hids
      obtain ⟨hx, hl⟩ := List.pairwise_cons.mp hnodup
      obtain ⟨xid, hxid⟩ := Option.isSome_iff_exists.mp (hids x List.mem_cons_self)
      rw [findEntryWithId, hxid]
      cases j with
      | zero =>
          obtain rfl : x = e := by simpa using hj
          rw [he] at hxid
          simp [Option.some.inj hxid]
      | succ j =>
          have hne : xid ≠ id := by
            rintro rfl
            exact hx e (List.mem_of_getElem? hj) (hxid.trans he.symm)
          simp only [hne, if_false]
          rw [ih (i + 1) j hj hl fun e he => hids e (List.mem_cons_of_mem _ he)]
          congr 2
          omega

/-- The loop over several entries finds nothing if no entry has the identifier. -/
theorem findEntryWithId_of_not_found :
    ∀ (l : List (ResourceEntry ι)) (i : ℕ), (∀ e ∈ l, e.id.isSome) →
      (∀ e ∈ l, e.id ≠ some id) → findEntryWithId id l i = some none := by
  intro l
  induction l with
  | nil => exact fun i _ _ => rfl
  | cons x l ih =>
      intro i hids hnot
      obtain ⟨xid, hxid⟩ := Option.isSome_iff_exists.mp (hids x List.mem_cons_self)
      have hne : xid ≠ id := fun heq => hnot x List.mem_cons_self (heq ▸ hxid)
      rw [findEntryWithId, hxid]
      simp only [hne, if_false]
      exact ih (i + 1) (fun e he => hids e (List.mem_cons_of_mem _ he))
        fun e he => hnot e (List.mem_cons_of_mem _ he)

/-- The entry with the identifier is chosen, if there is one with the name. -/
theorem setEntryId_of_found {type : ResourceTableType ι} {pre range post : List (ResourceEntry ι)}
    {k : ℕ} {e : ResourceEntry ι} (hsplit : type.entries = pre ++ (range ++ post))
    (hnamed : type.entriesNamed res.name.entry = (range, pre.length))
    (hnodup : range.Pairwise fun a b => a.id ≠ b.id) (hids : ∀ e ∈ range, e.id.isSome)
    (hres : res.id = some (id, .createEntry)) (hk : range[k]? = some e) (he : e.id = some id) :
    ∃ chosen, chooseEntry res type = some chosen
      ∧ setEntryId res chosen.1 chosen.2 = (none, type.entries, pre.length + k) := by
  have hlt : k < range.length := (List.getElem?_eq_some_iff.mp hk).1
  have hat : type.entries[pre.length + k]? = some e := by
    rw [hsplit, List.getElem?_append_right (by omega), Nat.add_sub_cancel_left,
      List.getElem?_append_left hlt, hk]
  have hset : setEntryId res type.entries (pre.length + k)
      = (none, type.entries, pre.length + k) := by
    rw [setEntryId, hres]
    simp only [hat, Option.bind_some, he, if_true]
    rw [modify_id_eq_self hat he]
  refine ⟨(type.entries, pre.length + k), ?_, hset⟩
  rw [chooseEntry, hnamed]
  rcases range with _ | ⟨e₁, _ | ⟨e₂, rest⟩⟩
  · exact absurd hlt (Nat.not_lt_zero k)
  · obtain rfl : k = 0 := by simpa using hlt
    rfl
  · dsimp only
    rw [hres]
    dsimp only
    rw [findEntryWithId_of_found he _ pre.length k hk hnodup hids]
    rfl

/-- An entry is created, if there is none with the name and the identifier. -/
theorem setEntryId_of_not_found {type : ResourceTableType ι}
    {pre range post : List (ResourceEntry ι)} (hsplit : type.entries = pre ++ (range ++ post))
    (hnamed : type.entriesNamed res.name.entry = (range, pre.length))
    (hcreate : createEntry res.name.entry type.entries
      = (pre ++ .new res.name.entry :: (range ++ post), pre.length))
    (hids : ∀ e ∈ range, e.id.isSome) (hres : res.id = some (id, .createEntry))
    (hnot : ∀ e ∈ range, e.id ≠ some id) :
    ∃ chosen, chooseEntry res type = some chosen
      ∧ setEntryId res chosen.1 chosen.2
        = (none, pre ++ newEntry res.name.entry id :: (range ++ post), pre.length) := by
  have hnew : (pre ++ ResourceEntry.new res.name.entry :: (range ++ post)).modify pre.length
      (fun entry => { entry with id := some id })
        = pre ++ newEntry res.name.entry id :: (range ++ post) := modify_append_length _ _ _ _
  -- the first entry of the name has another identifier
  have hother : ∀ e rest, range = e :: rest →
      setEntryId res type.entries pre.length
        = (none, pre ++ newEntry res.name.entry id :: (range ++ post), pre.length) := by
    intro e rest hrange
    have hat : type.entries[pre.length]? = some e := by rw [hsplit, hrange]; simp
    have hmem : e ∈ range := hrange ▸ List.mem_cons_self
    obtain ⟨j, hj⟩ := Option.isSome_iff_exists.mp (hids e hmem)
    have hne : j ≠ id := fun heq => hnot e hmem (heq ▸ hj)
    rw [setEntryId, hres]
    simp only [hat, Option.bind_some, hj, hne, if_false, ne_eq, not_true_eq_false, hcreate, hnew]
  rcases range with _ | ⟨e₁, _ | ⟨e₂, rest⟩⟩
  · refine ⟨_, by rw [chooseEntry, hnamed], ?_⟩
    rw [hcreate, setEntryId, hres]
    have hat : (pre ++ ResourceEntry.new res.name.entry :: ([] ++ post))[pre.length]?.bind
        ResourceEntry.id = none := by simp [ResourceEntry.new]
    simp only [hat, hnew]
  · exact ⟨_, by rw [chooseEntry, hnamed], hother e₁ [] rfl⟩
  · refine ⟨(type.entries, pre.length), ?_, hother e₁ (e₂ :: rest) rfl⟩
    rw [chooseEntry, hnamed]
    dsimp only
    rw [hres]
    dsimp only
    rw [findEntryWithId_of_not_found _ _ hids hnot]
    rfl

/-! ## Adding to a type -/

/-- The entries of a type around the place of the entry with a name and an identifier. -/
structure ResourceTableType.SplitAt (type : ResourceTableType ι) (name : Bytes) (id : ResourceId)
    (pre : List (ResourceEntry ι)) (old : Option (ResourceEntry ι))
    (post : List (ResourceEntry ι)) : Prop where
  entries : type.entries = pre ++ (old.toList ++ post)
  found : ∀ e, old = some e → e.name = name ∧ e.id = some id
  missing : old = none → ∀ e ∈ type.entries, ¬ (e.name = name ∧ e.id = some id)
  sorted : ∀ e : ResourceEntry ι, e.name = name → e.id = some id →
    (pre ++ e :: post).Pairwise fun a b => EntryLt a.nameAndId b.nameAndId

/-- The level of the type after an addition. -/
abbrev ResourceTableType.levelAfter (type : ResourceTableType ι) (res : NewResource ι) :
    VisibilityLevel :=
  if res.visibility.map Visibility.level = some .kPublic then .kPublic else type.visibilityLevel

/-- Entries of one name have different identifiers. -/
theorem pairwise_id_ne {l : List (ResourceEntry ι)} {name : Bytes}
    (hl : l.Pairwise fun a b => EntryLt a.nameAndId b.nameAndId)
    (hname : ∀ e ∈ l, e.name = name) : l.Pairwise fun a b => a.id ≠ b.id := by
  refine hl.imp_of_mem ?_
  rintro a b ha hb (hlt | ⟨-, i, j, hi, hj, hne⟩)
  · have hlt : compare a.name b.name = .lt := hlt
    rw [hname a ha, hname b hb] at hlt
    have hself : compare name name = .eq := Std.ReflCmp.compare_self
    cases hself.symm.trans hlt
  · intro heq
    rw [show a.id = some i from hi, show b.id = some j from hj] at heq
    exact hne (Option.some.inj heq)

/-- An entry that is found is added to where it is. -/
theorem ResourceTableType.add_of_found {type : ResourceTableType ι} (htype : type.Wf)
    {pre range post : List (ResourceEntry ι)} {k : ℕ} {e : ResourceEntry ι}
    (hsplit : type.entries = pre ++ (range ++ post))
    (hnamed : type.entriesNamed res.name.entry = (range, pre.length))
    (hrange : ∀ e ∈ range, e.name = res.name.entry) (hids : ∀ e ∈ range, e.id.isSome)
    (hres : res.id = some (id, .createEntry)) (hk : range[k]? = some e) (hid : e.id = some id) :
    ∃ pre' post', type.SplitAt res.name.entry id pre' (some e) post'
      ∧ type.add validation res = (e.add validation res).map fun r =>
        (r.1, ⟨type.namedType, type.levelAfter res, pre' ++ r.2 :: post'⟩) := by
  have he : e ∈ range := List.mem_of_getElem? hk
  have hsub : range.Pairwise fun a b => EntryLt a.nameAndId b.nameAndId := by
    have hsorted := htype.sorted
    rw [hsplit] at hsorted
    exact (List.pairwise_append.mp (List.pairwise_append.mp hsorted).2.1).1
  obtain ⟨chosen, hchoose, hset⟩ :=
    setEntryId_of_found hsplit hnamed (pairwise_id_ne hsub hrange) hids hres hk hid
  have hat : type.entries[pre.length + k]? = some e := by
    rw [hsplit, List.getElem?_append_right (by omega), Nat.add_sub_cancel_left,
      List.getElem?_append_left (List.getElem?_eq_some_iff.mp hk).1, hk]
  have hreplace : ∀ e' : ResourceEntry ι, type.entries.set (pre.length + k) e'
      = type.entries.take (pre.length + k) ++ e' :: type.entries.drop (pre.length + k + 1) :=
    fun e' => List.set_eq_take_append_cons_drop.trans
      (if_pos (List.getElem?_eq_some_iff.mp hat).1)
  refine ⟨type.entries.take (pre.length + k), type.entries.drop (pre.length + k + 1),
    ⟨?_, ?_, ?_, ?_⟩, ?_⟩
  · obtain ⟨hlt, rfl⟩ := List.getElem?_eq_some_iff.mp hat
    rw [Option.toList_some, List.singleton_append, List.getElem_cons_drop, List.take_append_drop]
  · rintro _ ⟨rfl⟩
    exact ⟨hrange e he, hid⟩
  · exact fun h => by cases h
  · intro e' hname hid'
    rw [← hreplace]
    refine pairwise_entryLt_set htype.sorted hat ?_
    rw [ResourceEntry.nameAndId, ResourceEntry.nameAndId, hname, hid', hrange e he, hid]
  · rw [ResourceTableType.add, hchoose, Option.bind_some, hset]
    simp only [hat, Option.bind_some, hreplace]

/-- **What `AddResource` does with the entries of a type**, if all have identifiers: it adds to the
entry with the name and the identifier, or to a new one in its place. -/
theorem ResourceTableType.add_eq_map_add {type : ResourceTableType ι} (htype : type.Wf)
    (hids : ∀ e ∈ type.entries, e.id.isSome) (hres : res.id = some (id, .createEntry)) :
    ∃ pre old post, type.SplitAt res.name.entry id pre old post
      ∧ type.add validation res
        = ((old.getD (newEntry res.name.entry id)).add validation res).map fun r =>
          (r.1, ⟨type.namedType, type.levelAfter res, pre ++ r.2 :: post⟩) := by
  obtain ⟨pre, range, post, hsplit, hnamed, hcreate, hpre, hrange, hpost⟩ :=
    exists_split_entriesNamed htype res.name.entry
  have hrangeIds : ∀ e ∈ range, e.id.isSome := fun e he => hids e (by rw [hsplit]; simp [he])
  by_cases hfound : ∃ e ∈ range, e.id = some id
  · obtain ⟨e, he, hid⟩ := hfound
    obtain ⟨k, hk⟩ := List.mem_iff_getElem?.mp he
    obtain ⟨pre', post', hat, hadd⟩ :=
      add_of_found htype hsplit hnamed hrange hrangeIds hres hk hid
    exact ⟨pre', some e, post', hat, hadd⟩
  · have hnot : ∀ e ∈ range, e.id ≠ some id := fun e he hid => hfound ⟨e, he, hid⟩
    obtain ⟨chosen, hchoose, hset⟩ :=
      setEntryId_of_not_found hsplit hnamed hcreate hrangeIds hres hnot
    refine ⟨pre, none, range ++ post, ⟨by simpa using hsplit, ?_, ?_, ?_⟩, ?_⟩
    · exact fun e h => by cases h
    · rintro - e he ⟨hname, hid⟩
      have hin : e ∈ (type.entriesNamed res.name.entry).1 :=
        (ResourceTableType.mem_entriesNamed_iff htype).mpr ⟨he, hname⟩
      rw [hnamed] at hin
      exact hnot e hin hid
    · intro e hname hid
      refine pairwise_entryLt_insert (hsplit ▸ htype.sorted) hpre hpost hname ?_
      intro r hr
      obtain ⟨j, hj⟩ := Option.isSome_iff_exists.mp (hrangeIds r hr)
      refine .inr ⟨hname.trans (hrange r hr).symm, id, j, hid, hj, ?_⟩
      rintro rfl
      exact hnot r hr hj
    · rw [ResourceTableType.add, hchoose, Option.bind_some, hset]
      simp only [List.getElem?_append_right (Nat.le_refl _), Nat.sub_self, List.getElem?_cons_zero,
        Option.bind_some, Option.getD_none]
      congr 1
      funext r
      rw [set_append_length]

/-- A type with one string. -/
def oneString : ResourceTableType Unit :=
  ⟨⟨[115], .kString⟩, .kUndefined, [newEntry [97] ⟨0x7f010000⟩]⟩

/-- Another string of the same name, with the next identifier. -/
def anotherString : NewResource Unit :=
  ⟨⟨[112], ⟨[115], .kString⟩, [97]⟩, none, .defaultConfig, [], some (⟨0x7f010001⟩, .createEntry),
    none, none, none, none, false, false⟩

/-- The string is added to the type. -/
theorem add_eq_map_add_oneString : ∃ pre old post,
    oneString.SplitAt [97] ⟨0x7f010001⟩ pre old post
      ∧ oneString.add .kEnabled anotherString
        = ((old.getD (newEntry [97] ⟨0x7f010001⟩)).add .kEnabled anotherString).map fun r =>
          (r.1, ⟨⟨[115], .kString⟩, .kUndefined, pre ++ r.2 :: post⟩) := by
  have htype : oneString.Wf := by
    refine ⟨List.pairwise_singleton _ _, fun e he => ?_⟩
    rw [List.mem_singleton.mp he]
    exact ⟨.nil, .nil, fun v hv => by cases hv⟩
  have hids : ∀ e ∈ oneString.entries, e.id.isSome := fun e he => by
    rw [List.mem_singleton.mp he]
    rfl
  have hres : anotherString.id = some (⟨0x7f010001⟩, .createEntry) := rfl
  exact ResourceTableType.add_eq_map_add htype hids hres

end AndroidSdk.Aapt2
