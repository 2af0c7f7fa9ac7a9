import Mathlib.Data.List.Count
import Mathlib.Data.List.Perm.Basic
import Mathlib.Data.List.Pairwise
import Mathlib.Data.List.TakeWhile

/-! # Trees that are ordered by domination

A new node takes over the children that it dominates, and goes below the first remaining child that
dominates it, or else becomes the last child.

* **`Rose`** — trees with any number of children.
* **`Rose.addChild`** — the insertion; `Rose.addChild_cases` is what one step of it does.
* **`Rose.Dominated`**, **`Rose.Apart`** — nodes are dominated by their parents, siblings do not
  dominate each other.
* **`Rose.values_addLeaves`**, **`Rose.dominated_addLeaves`**, **`Rose.apart_addLeaves`** — what
  holds after any run of insertions; only the last needs domination to be transitive. -/

namespace AndroidSdk.Lib

/-- A tree with a value at each node. -/
inductive Rose (α : Type) where
  | node (value : α) (children : List (Rose α))

namespace Rose

variable {α : Type}

/-- The value at the root. -/
def value : Rose α → α
  | .node value _ => value

/-- The trees below the root. -/
def children : Rose α → List (Rose α)
  | .node _ children => children

@[simp] theorem value_node (v : α) (cs : List (Rose α)) : (node v cs).value = v := rfl

@[simp] theorem children_node (v : α) (cs : List (Rose α)) : (node v cs).children = cs := rfl

/-- Induction over trees, with the statement for all children. -/
theorem ind {motive : Rose α → Prop}
    (node : ∀ v cs, (∀ c ∈ cs, motive c) → motive (.node v cs)) (t : Rose α) : motive t := by
  match t with
  | .node v cs => exact node v cs fun c hc => ind node c
termination_by sizeOf t
decreasing_by
  have hlt := List.sizeOf_lt_of_mem hc
  simp only [Rose.node.sizeOf_spec]
  omega

/-- The values of a tree, each before those below it. -/
def values : Rose α → List α
  | .node value children => value :: children.flatMap values

/-- The values of a node and of its children. -/
@[simp] theorem values_node (v : α) (cs : List (Rose α)) :
    values (.node v cs) = v :: cs.flatMap values := by
  rw [values]

/-- The values below the root. -/
def descendants (t : Rose α) : List α := t.children.flatMap values

/-- The root value is one of the values. -/
theorem value_mem_values (t : Rose α) : t.value ∈ t.values := by
  cases t
  rw [values_node]
  exact List.mem_cons_self

/-- The values of a child are values of the tree. -/
theorem mem_values_of_mem {v w : α} {cs : List (Rose α)} {c : Rose α} (hc : c ∈ cs)
    (hw : w ∈ c.values) : w ∈ values (.node v cs) := by
  rw [values_node]
  exact List.mem_cons_of_mem v (List.mem_flatMap.mpr ⟨c, hc, hw⟩)

section

variable (dom : α → α → Bool)

/-- The children that a new value takes over. -/
def demoted (x : α) (cs : List (Rose α)) : List (Rose α) := cs.filter fun c => dom x c.value

/-- The children that stay. -/
def kept (x : α) (cs : List (Rose α)) : List (Rose α) := cs.filter fun c => !dom x c.value

/-- Add a node below the root: it takes over the children that it dominates, and is handed to the
first remaining child that dominates it. -/
def addChild (t new : Rose α) : Rose α :=
  let kept := kept dom new.value t.children
  let new' := .node new.value (new.children ++ demoted dom new.value t.children)
  match _hrest : kept.dropWhile fun c => !dom c.value new.value with
  | [] => .node t.value (kept ++ [new'])
  | c :: after =>
      .node t.value ((kept.takeWhile fun c => !dom c.value new.value) ++ addChild c new' :: after)
termination_by sizeOf t
decreasing_by
  have hmem : c ∈ t.children := by
    have hdrop : c ∈ kept.dropWhile fun c => !dom c.value new.value := by simp [_hrest]
    exact (List.mem_filter.mp ((List.dropWhile_suffix _).subset hdrop)).1
  have hlt := List.sizeOf_lt_of_mem hmem
  cases t
  simp only [children] at hlt
  simp only [Rose.node.sizeOf_spec]
  omega

end

section

variable {dom : α → α → Bool}

/-- **What adding a node does**: no remaining child dominates the node and it becomes the last
child, or it is added to the first that does. -/
theorem addChild_cases (v x : α) (cs ks : List (Rose α)) :
    ((∀ c ∈ kept dom x cs, dom c.value x = false)
        ∧ addChild dom (.node v cs) (.node x ks)
          = .node v (kept dom x cs ++ [.node x (ks ++ demoted dom x cs)]))
      ∨ ∃ before c after, kept dom x cs = before ++ c :: after ∧ dom c.value x = true
        ∧ addChild dom (.node v cs) (.node x ks)
          = .node v (before ++ addChild dom c (.node x (ks ++ demoted dom x cs)) :: after) := by
  rw [addChild]
  simp only [children_node, value_node]
  split
  · rename_i hrest
    refine Or.inl ⟨fun c hc => ?_, rfl⟩
    simpa using List.dropWhile_eq_nil_iff.mp hrest c hc
  · rename_i c after hrest
    refine Or.inr ⟨_, c, after, ?_, ?_, rfl⟩
    · rw [← hrest, List.takeWhile_append_dropWhile]
    · have hhead := List.head?_dropWhile_not (fun c : Rose α => !dom c.value x) (kept dom x cs)
      rw [hrest] at hhead
      simpa using hhead

/-- The children are taken over or stay. -/
theorem kept_append_demoted (x : α) (cs : List (Rose α)) :
    (kept dom x cs ++ demoted dom x cs).Perm cs :=
  List.perm_append_comm.trans (List.filter_append_perm (fun c : Rose α => dom x c.value) cs)

/-- A child that stays is a child. -/
theorem mem_of_mem_kept {x : α} {cs : List (Rose α)} {c : Rose α} (h : c ∈ kept dom x cs) :
    c ∈ cs := (List.mem_filter.mp h).1

/-- A child among those that stay is a child. -/
theorem mem_of_kept_eq {x : α} {cs before after : List (Rose α)} {c : Rose α}
    (h : kept dom x cs = before ++ c :: after) : c ∈ cs :=
  mem_of_mem_kept (h ▸ List.mem_append_right before List.mem_cons_self)

/-- The root stays. -/
theorem value_addChild (t new : Rose α) : (addChild dom t new).value = t.value := by
  obtain ⟨v, cs⟩ := t
  obtain ⟨x, ks⟩ := new
  rcases addChild_cases v x cs ks with ⟨-, h⟩ | ⟨before, c, after, -, -, h⟩
  all_goals
    rw [h]
    rfl

/-! ## No value is lost or repeated -/

/-- **Adding a node adds its values.** -/
theorem values_addChild (t new : Rose α) :
    (addChild dom t new).values.Perm (t.values ++ new.values) := by
  classical
  induction t using ind generalizing new with
  | node v cs ih =>
      obtain ⟨x, ks⟩ := new
      have hparts : (kept dom x cs ++ demoted dom x cs).Perm cs := kept_append_demoted x cs
      have hperm := hparts.flatMap_right values
      rw [List.flatMap_append] at hperm
      rw [List.perm_iff_count] at hperm ⊢
      intro w
      have hw := hperm w
      rcases addChild_cases v x cs ks with ⟨-, h⟩ | ⟨before, c, after, hkept, -, h⟩
      · rw [h]
        simp only [values_node, List.flatMap_append, List.flatMap_singleton, List.count_append,
          List.count_cons] at hw ⊢
        omega
      · have hmem := mem_of_kept_eq hkept
        have hc := List.perm_iff_count.mp (ih c hmem (.node x (ks ++ demoted dom x cs))) w
        rw [hkept] at hw
        rw [h]
        simp only [values_node, List.flatMap_append, List.flatMap_cons, List.count_append,
          List.count_cons] at hw hc ⊢
        omega

/-! ## Domination by the parent -/

/-- Every node but the root is dominated by its parent. -/
inductive Dominated (dom : α → α → Bool) : Rose α → Prop
  | mk {v : α} {cs : List (Rose α)} (parent : ∀ c ∈ cs, dom v c.value = true)
      (below : ∀ c ∈ cs, Dominated dom c) : Dominated dom (.node v cs)

/-- **Adding a node that the root dominates** keeps nodes dominated by their parents. -/
theorem dominated_addChild {t new : Rose α} (ht : Dominated dom t) (hnew : Dominated dom new)
    (hroot : dom t.value new.value = true) : Dominated dom (addChild dom t new) := by
  induction ht generalizing new with
  | @mk v cs parent below ih =>
      obtain ⟨x, ks⟩ := new
      obtain ⟨hparent, hbelow⟩ := hnew
      -- the new tree takes over the children that it dominates
      have hadopting : Dominated dom (.node x (ks ++ demoted dom x cs)) := by
        refine ⟨fun c hc => ?_, fun c hc => ?_⟩
        · rcases List.mem_append.mp hc with hc | hc
          · exact hparent c hc
          · exact (List.mem_filter.mp hc).2
        · rcases List.mem_append.mp hc with hc | hc
          · exact hbelow c hc
          · exact below c (List.mem_filter.mp hc).1
      -- it becomes a child, or it goes below a child that dominates it
      rcases addChild_cases v x cs ks with ⟨-, h⟩ | ⟨before, c, after, hkept, hc, h⟩
      · rw [h]
        refine ⟨fun d hd => ?_, fun d hd => ?_⟩
        · rcases List.mem_append.mp hd with hd | hd
          · exact parent d (List.mem_filter.mp hd).1
          · rw [List.mem_singleton.mp hd]
            exact hroot
        · rcases List.mem_append.mp hd with hd | hd
          · exact below d (List.mem_filter.mp hd).1
          · rw [List.mem_singleton.mp hd]
            exact hadopting
      · have hsub : ∀ d ∈ before ++ c :: after, d ∈ cs := fun d hd =>
          mem_of_mem_kept (hkept ▸ hd)
        have hmem := mem_of_kept_eq hkept
        rw [h]
        refine ⟨fun d hd => ?_, fun d hd => ?_⟩
        · rcases List.mem_append.mp hd with hd | hd
          · exact parent d (hsub d (List.mem_append_left _ hd))
          · rcases List.mem_cons.mp hd with rfl | hd
            · rw [value_addChild]
              exact parent c hmem
            · exact parent d (hsub d (List.mem_append_right _ (List.mem_cons_of_mem _ hd)))
        · rcases List.mem_append.mp hd with hd | hd
          · exact below d (hsub d (List.mem_append_left _ hd))
          · rcases List.mem_cons.mp hd with rfl | hd
            · exact ih c hmem hadopting hc
            · exact below d (hsub d (List.mem_append_right _ (List.mem_cons_of_mem _ hd)))

/-! ## Siblings -/

/-- No two children of a node dominate each other. -/
inductive Apart (dom : α → α → Bool) : Rose α → Prop
  | mk {v : α} {cs : List (Rose α)}
      (siblings : cs.Pairwise fun c d => dom c.value d.value = false ∧ dom d.value c.value = false)
      (below : ∀ c ∈ cs, Apart dom c) : Apart dom (.node v cs)

/-- Domination is transitive on the values that satisfy a predicate. -/
def TransitiveOn (dom : α → α → Bool) (S : α → Prop) : Prop :=
  ∀ a b c, S a → S b → S c → dom a b = true → dom b c = true → dom a c = true

/-- **Adding a leaf keeps siblings apart**, if domination is transitive: a child that dominates the
new value would dominate the siblings that the new value takes over. -/
theorem apart_addChild {S : α → Prop} (htrans : TransitiveOn dom S) {t : Rose α} {x : α}
    (ht : Apart dom t) (hS : ∀ v ∈ t.values, S v) (hx : S x) :
    Apart dom (addChild dom t (.node x [])) := by
  induction ht with
  | @mk v cs siblings below ih =>
      have hSc : ∀ c ∈ cs, ∀ w ∈ c.values, S w := fun c hc w hw => hS w (mem_values_of_mem hc hw)
      have hadopting : Apart dom (.node x (demoted dom x cs)) :=
        ⟨siblings.filter _, fun c hc => below c (List.mem_filter.mp hc).1⟩
      have hkeptApart := siblings.filter fun c => !dom x c.value
      rcases addChild_cases v x cs [] with ⟨hnone, h⟩ | ⟨before, c, after, hkept, hc, h⟩
      · rw [h, List.nil_append]
        refine ⟨List.pairwise_append.mpr ⟨hkeptApart, List.pairwise_singleton _ _, ?_⟩, ?_⟩
        · intro d hd e he
          rw [List.mem_singleton.mp he]
          exact ⟨hnone d hd, by simpa using (List.mem_filter.mp hd).2⟩
        · intro d hd
          rcases List.mem_append.mp hd with hd | hd
          · exact below d (mem_of_mem_kept hd)
          · rw [List.mem_singleton.mp hd]
            exact hadopting
      · have hsub : ∀ d ∈ before ++ c :: after, d ∈ cs := fun d hd => mem_of_mem_kept (hkept ▸ hd)
        have hmem := mem_of_kept_eq hkept
        have hnone : demoted dom x cs = [] := by
          rw [List.eq_nil_iff_forall_not_mem]
          intro d hd
          obtain ⟨hd, hxd⟩ := List.mem_filter.mp hd
          have hcd := htrans c.value x d.value (hSc c hmem _ c.value_mem_values) hx
            (hSc d hd _ d.value_mem_values) hc hxd
          -- the child that dominates the new value stays, the other one does not
          have hne : c ≠ d := by
            rintro rfl
            have hkeeps : c ∈ kept dom x cs := hkept ▸ List.mem_append_right _ List.mem_cons_self
            have hnot := (List.mem_filter.mp hkeeps).2
            rw [hxd] at hnot
            cases hnot
          have hsymm : Std.Symm fun c d : Rose α =>
              dom c.value d.value = false ∧ dom d.value c.value = false := ⟨fun _ _ h => h.symm⟩
          have hapart := siblings.forall hmem hd hne
          rw [hcd] at hapart
          cases hapart.1
        rw [h, hnone, List.append_nil]
        have hvalue : (addChild dom c (.node x [])).value = c.value := value_addChild c _
        refine ⟨?_, fun d hd => ?_⟩
        · change (kept dom x cs).Pairwise _ at hkeptApart
          rw [hkept, List.pairwise_append, List.pairwise_cons] at hkeptApart
          rw [List.pairwise_append, List.pairwise_cons]
          simpa only [List.forall_mem_cons, hvalue] using hkeptApart
        · rcases List.mem_append.mp hd with hd | hd
          · exact below d (hsub d (List.mem_append_left _ hd))
          · rcases List.mem_cons.mp hd with rfl | hd
            · exact ih c hmem (hSc c hmem)
            · exact below d (hsub d (List.mem_append_right _ (List.mem_cons_of_mem _ hd)))

/-! ## Runs of insertions -/

/-- A tree after adding leaves for a list of values. -/
def addLeaves (dom : α → α → Bool) (t : Rose α) (xs : List α) : Rose α :=
  xs.foldl (fun t x => addChild dom t (.node x [])) t

/-- The root stays. -/
theorem value_addLeaves (t : Rose α) (xs : List α) : (addLeaves dom t xs).value = t.value := by
  induction xs generalizing t with
  | nil => rfl
  | cons x xs ih => exact (ih _).trans (value_addChild t _)

/-- **Every value is added once.** -/
theorem values_addLeaves (t : Rose α) (xs : List α) :
    (addLeaves dom t xs).values.Perm (t.values ++ xs) := by
  induction xs generalizing t with
  | nil => rw [List.append_nil]; rfl
  | cons x xs ih =>
      refine (ih _).trans ?_
      have hadd : (addChild dom t (.node x [])).values.Perm _ := values_addChild t _
      have hstep := hadd.append_right xs
      rwa [values_node, List.flatMap_nil, List.append_assoc, List.singleton_append] at hstep

/-- **Nodes are dominated by their parents** after any run of insertions below a root that dominates
the values. -/
theorem dominated_addLeaves {t : Rose α} {xs : List α} (ht : Dominated dom t)
    (hroot : ∀ x ∈ xs, dom t.value x = true) : Dominated dom (addLeaves dom t xs) := by
  induction xs generalizing t with
  | nil => exact ht
  | cons x xs ih =>
      obtain ⟨hx, hrest⟩ := List.forall_mem_cons.mp hroot
      have hleaf : Dominated dom (.node x []) :=
        ⟨fun c hc => (nomatch hc), fun c hc => (nomatch hc)⟩
      refine ih (dominated_addChild ht hleaf hx) fun y hy => ?_
      rw [value_addChild]
      exact hrest y hy

/-- **Siblings are apart** after any run of insertions, if domination is transitive. -/
theorem apart_addLeaves {S : α → Prop} (htrans : TransitiveOn dom S) {t : Rose α} {xs : List α}
    (ht : Apart dom t) (hS : ∀ v ∈ t.values, S v) (hxs : ∀ x ∈ xs, S x) :
    Apart dom (addLeaves dom t xs) := by
  induction xs generalizing t with
  | nil => exact ht
  | cons x xs ih =>
      obtain ⟨hx, hrest⟩ := List.forall_mem_cons.mp hxs
      refine ih (apart_addChild htrans ht hS hx) (fun v hv => ?_) hrest
      have hmem := (values_addChild t (.node x [])).mem_iff.mp hv
      rcases List.mem_append.mp hmem with hv | hv
      · exact hS v hv
      · rw [values_node, List.flatMap_nil, List.mem_singleton] at hv
        exact hv ▸ hx

end

end Rose

end AndroidSdk.Lib
