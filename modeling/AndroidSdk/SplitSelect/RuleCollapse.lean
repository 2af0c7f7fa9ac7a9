import Mathlib.Data.List.Pairwise
import AndroidSdk.SplitSelect.Rule

/-! # Exactly when simplification keeps the meaning of a rule tree

`Rule.simplify` decides whether to collapse a combinator by the number of its subrules *before*
flattening, so a single subrule that contributes several rules loses all but the last of them. This
file shows that the loss is always visible: a tree that is not `CollapseSafe` has an assignment of
truth values to its leaves under which its simplification has another value.

* **`Rule.shape`** — a tree with its leaf rules forgotten, so that an assignment to the leaves of a
  tree is a tree of the same shape with an assignment to leaf rules.
* **`Rule.tag`** — a tree of the same shape whose leaves are pairwise different.
* **`Rule.simplify_chain`** — what becomes of the bottom of a chain of single-subrule nodes. -/

namespace AndroidSdk.SplitSelect.Rule

/-! ## Shapes -/

mutual

/-- A rule tree with every leaf rule replaced by the default rule. -/
def shape : Rule → Rule
  | mk op key negate stringArgs longArgs subrules =>
    if op.isCombinator then mk op key negate stringArgs longArgs (shapeList subrules)
    else mk .alwaysTrue .none false [] [] []

/-- The shapes of a list of trees. -/
def shapeList : List Rule → List Rule
  | [] => []
  | r :: rs => shape r :: shapeList rs

end

/-- `shapeList` takes the shape of each tree. -/
theorem shapeList_eq (rs : List Rule) : shapeList rs = rs.map shape := by
  induction rs with
  | nil => rfl
  | cons r rs ih => rw [shapeList, ih, List.map_cons]

/-- The shape of a combinator. -/
theorem shape_node {op : Operator} (hop : op.isCombinator) (key : Key) (negate : Bool)
    (stringArgs : List String) (longArgs : List Int) (subrules : List Rule) :
    shape (mk op key negate stringArgs longArgs subrules)
      = mk op key negate stringArgs longArgs (subrules.map shape) := by
  rw [shape, if_pos hop, shapeList_eq]

/-- The shape of a leaf rule. -/
theorem shape_leaf {op : Operator} (h : ¬ op.isCombinator) (key : Key) (negate : Bool)
    (stringArgs : List String) (longArgs : List Int) (subrules : List Rule) :
    shape (mk op key negate stringArgs longArgs subrules)
      = mk .alwaysTrue .none false [] [] [] := by
  rw [shape, if_neg h]

/-- The shape of a rule keeps its operator when that is a combinator. -/
theorem shape_op_eq_iff {op : Operator} (hop : op.isCombinator) (r : Rule) :
    (shape r).op = op ↔ r.op = op := by
  obtain ⟨rop, key, negate, stringArgs, longArgs, subrules⟩ := r
  by_cases h : rop.isCombinator
  · rw [shape_node h]
    exact Iff.rfl
  · rw [shape_leaf h]
    constructor
    · rintro rfl
      exact absurd hop (by decide)
    · rintro rfl
      exact absurd hop h

/-- The bottom of a shape is the shape of the bottom. -/
theorem bottom_shape (r : Rule) : bottom (shape r) = shape (bottom r) := by
  induction r using treeInduction with
  | node op key negate stringArgs longArgs subrules ih =>
      by_cases h : op.isCombinator
      · rw [shape_node h]
        by_cases hlen : subrules.length = 1
        · obtain ⟨c, rfl⟩ := List.length_eq_one_iff.mp hlen
          rw [List.map_singleton, bottom_single h, bottom_single h, ih c (by simp)]
        · have hself : bottom (mk op key negate stringArgs longArgs subrules)
              = mk op key negate stringArgs longArgs subrules := bottom_self fun _ => hlen
          rw [hself, shape_node h]
          exact bottom_self fun _ => by simpa [Rule.subrules] using hlen
      · have hself : bottom (mk op key negate stringArgs longArgs subrules)
            = mk op key negate stringArgs longArgs subrules := bottom_self fun hop => absurd hop h
        rw [hself, shape_leaf h]
        rfl

/-- Collapse safety depends on the shape alone. -/
theorem collapseSafe_shape_iff (r : Rule) : CollapseSafe (shape r) ↔ CollapseSafe r := by
  induction r using treeInduction with
  | node op key negate stringArgs longArgs subrules ih =>
      by_cases h : op.isCombinator
      · rw [shape_node h, collapseSafe_node_iff h, collapseSafe_node_iff h, List.forall_mem_map]
        refine and_congr ?_ (forall₂_congr ih)
        have hbot (c : Rule) : (bottom (shape c)).op = op ↔ (bottom c).op = op := by
          rw [bottom_shape, shape_op_eq_iff h]
        constructor
        · rintro hone c rfl hc
          exact hone (shape c) rfl ((hbot c).mpr hc)
        · intro hone d hd hdop
          obtain ⟨c, rfl, rfl⟩ := List.map_eq_singleton_iff.mp hd
          exact hone c rfl ((hbot c).mp hdop)
      · rw [shape_leaf h]
        exact ⟨fun _ => .leaf h, fun _ => .leaf (by decide)⟩

/-- Being formed depends on the shape alone. -/
theorem formed_shape_iff (r : Rule) : Formed (shape r) ↔ Formed r := by
  induction r using treeInduction with
  | node op key negate stringArgs longArgs subrules ih =>
      by_cases h : op.isCombinator
      · rw [shape_node h]
        constructor
        · intro hf
          obtain ⟨rfl, hne, hs⟩ := hf.node_inv h
          refine .node h (by simpa using hne) fun r hr => (ih r hr).mp ?_
          exact hs _ (List.mem_map_of_mem hr)
        · intro hf
          obtain ⟨rfl, hne, hs⟩ := hf.node_inv h
          refine .node h (by simpa using hne) (List.forall_mem_map.mpr fun r hr => ?_)
          exact (ih r hr).mpr (hs r hr)
      · rw [shape_leaf h]
        exact ⟨fun _ => .leaf h, fun _ => .leaf (by decide)⟩

/-! ## A tree of the same shape with pairwise different leaves -/

mutual

/-- A tree of the same shape in which the arguments of each leaf spell the path to it, above
`path`. -/
def tag (path : List Int) : Rule → Rule
  | mk op key negate stringArgs longArgs subrules =>
    if op.isCombinator then mk op key negate stringArgs longArgs (tagList path 0 subrules)
    else mk op key negate stringArgs path subrules

/-- Tag the subrules of a node, numbering them from `index`. -/
def tagList (path : List Int) (index : Int) : List Rule → List Rule
  | [] => []
  | r :: rs => tag (index :: path) r :: tagList path (index + 1) rs

end

/-- Tagging a combinator tags its subrules. -/
theorem tag_node (path : List Int) {op : Operator} (hop : op.isCombinator) (key : Key)
    (negate : Bool) (stringArgs : List String) (longArgs : List Int) (subrules : List Rule) :
    tag path (mk op key negate stringArgs longArgs subrules)
      = mk op key negate stringArgs longArgs (tagList path 0 subrules) := by
  rw [tag, if_pos hop]

/-- Tagging a list keeps the shapes if tagging its trees does. -/
theorem map_shape_tagList (path : List Int) (index : Int) {rs : List Rule}
    (h : ∀ r ∈ rs, ∀ path, shape (tag path r) = shape r) :
    (tagList path index rs).map shape = rs.map shape := by
  induction rs generalizing index with
  | nil => rfl
  | cons r rs ih =>
      rw [tagList, List.map_cons, List.map_cons, h r (by simp),
        ih (index + 1) fun r' hr' => h r' (by simp [hr'])]

/-- Tagging keeps the shape. -/
theorem shape_tag (path : List Int) (r : Rule) : shape (tag path r) = shape r := by
  induction r using treeInduction generalizing path with
  | node op key negate stringArgs longArgs subrules ih =>
      by_cases h : op.isCombinator
      · rw [tag_node path h, shape_node h, shape_node h, map_shape_tagList path 0 ih]
      · rw [tag, if_neg h, shape_leaf h, shape_leaf h]

/-- A tree of a tagged list is a tagged tree with its own number on the path. -/
theorem mem_tagList {path : List Int} {index : Int} {rs : List Rule} {t : Rule}
    (h : t ∈ tagList path index rs) : ∃ r ∈ rs, ∃ i, index ≤ i ∧ t = tag (i :: path) r := by
  induction rs generalizing index with
  | nil => simp [tagList] at h
  | cons r rs ih =>
      rw [tagList, List.mem_cons] at h
      rcases h with rfl | h
      · exact ⟨r, by simp, index, Int.le_refl index, rfl⟩
      · obtain ⟨r', hr', i, hi, rfl⟩ := ih h
        exact ⟨r', by simp [hr'], i, by omega, rfl⟩

/-- Every leaf of a tagged tree spells a path above the tag. -/
theorem suffix_of_mem_leaves_tag {path : List Int} {r l : Rule} (h : l ∈ (tag path r).leaves) :
    path <:+ l.longArgs := by
  induction r using treeInduction generalizing path with
  | node op key negate stringArgs longArgs subrules ih =>
      by_cases hop : op.isCombinator
      · rw [tag_node path hop, leaves_node hop] at h
        obtain ⟨t, ht, hlt⟩ := List.mem_flatMap.mp h
        obtain ⟨r, hr, i, -, rfl⟩ := mem_tagList ht
        exact (List.suffix_cons i path).trans (ih r hr hlt)
      · rw [tag, if_neg hop, leaves_leaf (r := mk op key negate stringArgs path subrules) hop,
          List.mem_singleton] at h
        subst h
        exact List.suffix_refl path

/-- The leaves of a tagged list are pairwise different if those of its trees are. -/
theorem nodup_leaves_tagList (path : List Int) (index : Int) {rs : List Rule}
    (h : ∀ r ∈ rs, ∀ path, (tag path r).leaves.Nodup) :
    ((tagList path index rs).flatMap leaves).Nodup := by
  induction rs generalizing index with
  | nil => simp [tagList]
  | cons r rs ih =>
      rw [tagList, List.flatMap_cons]
      refine List.nodup_append'.mpr ⟨h r (by simp) _,
        ih (index + 1) fun r' hr' => h r' (by simp [hr']), ?_⟩
      intro l hl hl'
      obtain ⟨t, ht, hlt⟩ := List.mem_flatMap.mp hl'
      obtain ⟨r', -, i, hi, rfl⟩ := mem_tagList ht
      -- both tags end the same path, so they are equal although their numbers differ
      have hsuf := List.suffix_of_suffix_length_le (suffix_of_mem_leaves_tag hl)
        (suffix_of_mem_leaves_tag hlt) (by simp)
      have heq := List.IsSuffix.eq_of_length hsuf (by simp)
      have : index = i := (List.cons.inj heq).1
      omega

/-- The leaves of a tagged tree are pairwise different. -/
theorem nodup_leaves_tag (path : List Int) (r : Rule) : (tag path r).leaves.Nodup := by
  induction r using treeInduction generalizing path with
  | node op key negate stringArgs longArgs subrules ih =>
      by_cases hop : op.isCombinator
      · rw [tag_node path hop, leaves_node hop]
        exact nodup_leaves_tagList path 0 ih
      · rw [tag, if_neg hop, leaves_leaf (r := mk op key negate stringArgs path subrules) hop]
        exact List.nodup_singleton _

/-! ## Chains that lose subrules -/

/-- The subrules of a simplified node with several subrules end with a rule on the leaves of the
last subrule. -/
theorem getLast?_simplifySubrules {op : Operator} (hop : op.isCombinator) {rs : List Rule}
    (h : ∀ r ∈ rs, Formed r) {t : Rule} (ht : (simplifySubrules op rs).getLast? = some t) :
    ∃ r, rs.getLast? = some r ∧ ∀ l ∈ t.leaves, l ∈ r.leaves := by
  induction rs with
  | nil => simp [simplifySubrules] at ht
  | cons r rs ih =>
      obtain ⟨s, hs, hsf, hsl⟩ := simplify_formed (h r (by simp))
      rw [simplifySubrules_cons op rs hs] at ht
      by_cases hrs : rs = []
      · subst hrs
        rw [simplifySubrules, List.append_nil] at ht
        exact ⟨r, rfl, fun l hl =>
          hsl l (mem_leaves_of_mem_absorb hop (List.mem_of_getLast? ht) hl)⟩
      · have hrest : ∀ r ∈ rs, Formed r := fun r' hr' => h r' (by simp [hr'])
        have hlen := (simplifySubrules_formed hop fun r' hr' => simplify_formed (hrest r' hr')).1
        have hne : simplifySubrules op rs ≠ [] :=
          List.length_pos_iff.mp (Nat.lt_of_lt_of_le (List.length_pos_iff.mpr hrs) hlen)
        rw [List.getLast?_append_of_ne_nil _ hne] at ht
        obtain ⟨r', hr', hl⟩ := ih hrest ht
        refine ⟨r', ?_, hl⟩
        rw [List.getLast?_cons_of_ne_nil hrs, hr']

/-- The bottom of a chain is not itself a combinator with one subrule. -/
theorem length_subrules_bottom (r : Rule) (h : (bottom r).op.isCombinator) :
    (bottom r).subrules.length ≠ 1 := by
  induction r using treeInduction with
  | node op key negate stringArgs longArgs subrules ih =>
      by_cases hsingle : op.isCombinator ∧ subrules.length = 1
      · obtain ⟨c, rfl⟩ := List.length_eq_one_iff.mp hsingle.2
        rw [bottom_single hsingle.1] at h ⊢
        exact ih c (by simp) h
      · have hself : bottom (mk op key negate stringArgs longArgs subrules)
            = mk op key negate stringArgs longArgs subrules :=
          bottom_self fun hop hlen => hsingle ⟨hop, hlen⟩
        rw [hself] at h ⊢
        exact fun hlen => hsingle ⟨h, hlen⟩

/-- The bottom of a chain is no larger than its top. -/
theorem sizeOf_bottom_le (r : Rule) : sizeOf (bottom r) ≤ sizeOf r := by
  induction r using treeInduction with
  | node op key negate stringArgs longArgs subrules ih =>
      by_cases hsingle : op.isCombinator ∧ subrules.length = 1
      · obtain ⟨c, rfl⟩ := List.length_eq_one_iff.mp hsingle.2
        rw [bottom_single hsingle.1]
        refine Nat.le_trans (ih c (by simp)) ?_
        simp only [mk.sizeOf_spec, List.cons.sizeOf_spec]
        omega
      · have hself : bottom (mk op key negate stringArgs longArgs subrules)
            = mk op key negate stringArgs longArgs subrules :=
          bottom_self fun hop hlen => hsingle ⟨hop, hlen⟩
        rw [hself]

/-- The bottom of a formed tree is formed, has the tree's leaves and its truth values. -/
theorem Formed.bottom {r : Rule} (hr : Formed r) :
    Formed (Rule.bottom r) ∧ (Rule.bottom r).leaves = r.leaves
      ∧ ∀ v, eval v (Rule.bottom r) = eval v r := by
  induction hr with
  | @leaf r hleaf =>
      rw [bottom_self fun h => absurd h hleaf]
      exact ⟨.leaf hleaf, rfl, fun _ => rfl⟩
  | @node op key stringArgs longArgs subrules hop hne hs ih =>
      by_cases hlen : subrules.length = 1
      · obtain ⟨c, rfl⟩ := List.length_eq_one_iff.mp hlen
        obtain ⟨hform, hleaves, heval⟩ := ih c (by simp)
        rw [bottom_single hop, leaves_node hop, List.flatMap_singleton]
        refine ⟨hform, hleaves, fun v => ?_⟩
        have hiff := eval_node_eq_unit_iff v hop key stringArgs longArgs [c]
        rw [List.forall_mem_singleton] at hiff
        rw [heval v]
        exact Bool.eq_iff_iff.mpr (by revert hiff; cases op.unit <;> simp <;> tauto)
      · have hself : Rule.bottom (mk op key false stringArgs longArgs subrules)
            = mk op key false stringArgs longArgs subrules := bottom_self fun _ => hlen
        rw [hself]
        exact ⟨.node hop hne hs, rfl, fun _ => rfl⟩

/-- No node of the chain of single-subrule combinators from `r` has the operator of its bottom. -/
def ChainSafe : Rule → Prop
  | mk op _ _ _ _ [c] => op.isCombinator → (bottom c).op ≠ op ∧ ChainSafe c
  | _ => True

/-- The chain of a combinator with one subrule. -/
theorem chainSafe_single_iff {op : Operator} (hop : op.isCombinator) (key : Key) (negate : Bool)
    (stringArgs : List String) (longArgs : List Int) (c : Rule) :
    ChainSafe (mk op key negate stringArgs longArgs [c])
      ↔ (bottom c).op ≠ op ∧ ChainSafe c := by
  rw [ChainSafe]
  exact ⟨fun h => h hop, fun h _ => h⟩

/-- A rule that starts no chain is chain-safe. -/
theorem chainSafe_self {r : Rule} (h : r.op.isCombinator → r.subrules.length ≠ 1) :
    ChainSafe r := by
  obtain ⟨op, key, negate, stringArgs, longArgs, subrules⟩ := r
  match subrules, h with
  | [], _ => trivial
  | [c], h => exact fun hop => absurd rfl (h hop)
  | _ :: _ :: _, _ => trivial

/-- **What a chain of single-subrule nodes simplifies to.** Either the chain is safe and simplifies
to what its bottom simplifies to, or its bottom is a node with several subrules and only leaves of
the last of them are left. -/
theorem simplify_chain {r : Rule} (hr : Formed r) :
    (ChainSafe r ∧ simplify r = simplify (bottom r))
      ∨ ((bottom r).op.isCombinator ∧ ∃ s last, simplify r = some s
        ∧ (bottom r).subrules.getLast? = some last ∧ ∀ l ∈ s.leaves, l ∈ last.leaves) := by
  induction hr with
  | @leaf r hleaf =>
      exact .inl ⟨chainSafe_self fun h => absurd h hleaf,
        by rw [bottom_self fun h => absurd h hleaf]⟩
  | @node op key stringArgs longArgs subrules hop hne hs ih =>
      by_cases hlen : subrules.length = 1
      · obtain ⟨c, rfl⟩ := List.length_eq_one_iff.mp hlen
        have hc := hs c (by simp)
        obtain ⟨s, hcs, hsf, hsl⟩ := simplify_formed hc
        have hne' := (hsf.absorb hop).1
        rw [bottom_single hop, chainSafe_single_iff hop, simplify_single hop hcs hsf]
        rcases ih c (by simp) with ⟨hsafe, hbot⟩ | ⟨hnode, s', last, hcs', hlast, hl⟩
        · by_cases hbop : (bottom c).op = op
          · -- the collapse keeps only the last rule of the flattened bottom
            have hbnode : (bottom c).op.isCombinator := by rwa [hbop]
            have hblen := length_subrules_bottom c hbnode
            have hbform := hc.bottom.1
            rcases hb : bottom c with ⟨bop, bkey, bneg, bstr, blong, bsub⟩
            rw [hb] at hbop hblen hbform hbot hbnode
            obtain rfl : bop = op := hbop
            obtain ⟨rfl, hbne, hbs⟩ := hbform.node_inv hop
            rw [simplify_node hop hbne hbs hblen] at hbot
            obtain rfl := Option.some.inj (hcs.symm.trans hbot)
            have habs : absorb bop (mk bop bkey false bstr blong (simplifySubrules bop bsub))
                = simplifySubrules bop bsub := by simp [absorb, Rule.op, Rule.subrules]
            rw [habs] at hne' ⊢
            have hgl := List.getLast?_eq_some_getLast hne'
            obtain ⟨last, hlast, hl⟩ := getLast?_simplifySubrules hop hbs hgl
            exact .inr ⟨hop, _, last, hgl, hlast, hl⟩
          · refine .inl ⟨⟨hbop, hsafe⟩, ?_⟩
            have hsop : s.op ≠ op := by
              obtain ⟨hbform, -, -⟩ := hc.bottom
              intro hsop
              apply hbop
              rcases hb : bottom c with ⟨bop, bkey, bneg, bstr, blong, bsub⟩
              rw [hb] at hbot hbform
              by_cases hbnode : bop.isCombinator
              · have hblen := length_subrules_bottom c (by rw [hb]; exact hbnode)
                rw [hb] at hblen
                obtain ⟨rfl, hbne, hbs⟩ := hbform.node_inv hbnode
                rw [simplify_node hbnode hbne hbs hblen] at hbot
                obtain rfl := Option.some.inj (hcs.symm.trans hbot)
                exact hsop
              · rw [simplify_leaf (r := mk bop bkey bneg bstr blong bsub) hbnode] at hbot
                obtain rfl := Option.some.inj (hcs.symm.trans hbot)
                exact hsop
            rw [← hbot, hcs]
            simp [absorb, hsop]
        · obtain rfl : s = s' := Option.some.inj (hcs.symm.trans hcs')
          refine .inr ⟨hnode, _, last, List.getLast?_eq_some_getLast hne', hlast, fun l hmem => ?_⟩
          exact hl l (mem_leaves_of_mem_absorb hop (List.getLast_mem hne') hmem)
      · have hself : bottom (mk op key false stringArgs longArgs subrules)
            = mk op key false stringArgs longArgs subrules := bottom_self fun _ => hlen
        exact .inl ⟨chainSafe_self fun _ => hlen, by rw [hself]⟩

/-- A tree that is not collapse-safe has an unsafe chain or an unsafe tree below its bottom. -/
theorem exists_unsafe_of_chainSafe {r : Rule} (hchain : ChainSafe r) (hsafe : ¬ CollapseSafe r) :
    (bottom r).op.isCombinator ∧ ∃ d ∈ (bottom r).subrules, ¬ CollapseSafe d := by
  induction r using treeInduction with
  | node op key negate stringArgs longArgs subrules ih =>
      by_cases hop : op.isCombinator
      · by_cases hlen : subrules.length = 1
        · obtain ⟨c, rfl⟩ := List.length_eq_one_iff.mp hlen
          obtain ⟨hne, hc⟩ := (chainSafe_single_iff hop ..).mp hchain
          rw [bottom_single hop]
          refine ih c (by simp) hc fun hcsafe => hsafe ((collapseSafe_node_iff hop).mpr ⟨?_, ?_⟩)
          · rintro d hd
            obtain rfl : c = d := by simpa using hd
            exact hne
          · simpa using hcsafe
        · have hself : bottom (mk op key negate stringArgs longArgs subrules)
              = mk op key negate stringArgs longArgs subrules := bottom_self fun _ => hlen
          rw [hself]
          refine ⟨hop, ?_⟩
          by_contra hall
          push Not at hall
          refine hsafe ((collapseSafe_node_iff hop).mpr ⟨?_, hall⟩)
          rintro c rfl
          exact absurd rfl hlen
      · exact absurd (.leaf hop) hsafe

open Classical in
/-- **A chain that loses subrules changes the tree's meaning**: give the first subrule of the bottom
the value that decides the bottom and every other leaf the opposite one. -/
theorem exists_eval_ne_of_chain {r s last : Rule} (hr : Formed r) (hd : r.leaves.Nodup)
    (hop : (bottom r).op.isCombinator) (hs : simplify r = some s)
    (hlast : (bottom r).subrules.getLast? = some last) (hl : ∀ l ∈ s.leaves, l ∈ last.leaves) :
    ∃ v, eval v s ≠ eval v r := by
  obtain ⟨hbform, hleaves, heval⟩ := hr.bottom
  have hblen := length_subrules_bottom r hop
  rw [← hleaves] at hd
  rcases hb : bottom r with ⟨op, key, negate, stringArgs, longArgs, subrules⟩
  rw [hb] at hbform hblen hop hlast hd heval
  replace hop : op.isCombinator := hop
  obtain ⟨rfl, hne, hsub⟩ := hbform.node_inv hop
  obtain ⟨first, rest, rfl⟩ := List.exists_cons_of_ne_nil hne
  have hrest : last ∈ rest := by
    have hrne : rest ≠ [] := fun h => hblen (by rw [h]; rfl)
    rw [Rule.subrules, List.getLast?_cons_of_ne_nil hrne] at hlast
    exact List.mem_of_getLast? hlast
  rw [leaves_node hop, List.flatMap_cons, List.nodup_append'] at hd
  let v : Rule → Bool := fun l => if l ∈ first.leaves then !op.unit else op.unit
  refine ⟨v, ?_⟩
  have hfirst : eval v first = !op.unit :=
    eval_eq_of_leaves (hsub first (by simp)) fun l hmem => by simp [v, hmem]
  have hs' : eval v s = op.unit := by
    obtain ⟨s', hs', hsf, -⟩ := simplify_formed hr
    obtain rfl : s = s' := Option.some.inj (hs.symm.trans hs')
    refine eval_eq_of_leaves hsf fun l hmem => ?_
    have hnot : l ∉ first.leaves := fun hf =>
      hd.2.2 hf (List.mem_flatMap.mpr ⟨last, hrest, hl l hmem⟩)
    simp [v, hnot]
  rw [hs', ← heval v]
  intro hunit
  have := (eval_node_eq_unit_iff v hop ..).mp hunit.symm first (by simp)
  rw [hfirst] at this
  exact absurd this (by simp)

open Classical in
/-- A change of meaning below the bottom of a safe chain shows at the top: give every leaf outside
the changed subrule the value that leaves the decision to that subrule. -/
theorem exists_eval_ne_of_subrule {op : Operator} (hop : op.isCombinator) (key : Key)
    (stringArgs : List String) (longArgs : List Int) {subrules : List Rule} {d t : Rule}
    (hsub : ∀ r ∈ subrules, Formed r) (hnodup : (subrules.flatMap leaves).Nodup)
    (hmem : d ∈ subrules) (ht : simplify d = some t) {w : Rule → Bool} (hw : eval w t ≠ eval w d) :
    ∃ v, eval v (mk op key false stringArgs longArgs (simplifySubrules op subrules))
      ≠ eval v (mk op key false stringArgs longArgs subrules) := by
  let v : Rule → Bool := fun l => if l ∈ d.leaves then w l else op.unit
  refine ⟨v, fun heq => hw ?_⟩
  have hiff : (∀ s ∈ simplifySubrules op subrules, eval v s = op.unit)
      ↔ ∀ r ∈ subrules, eval v r = op.unit := by
    rw [← eval_node_eq_unit_iff v hop key stringArgs longArgs,
      ← eval_node_eq_unit_iff v hop key stringArgs longArgs, heq]
  rw [eval_simplifySubrules v hop hsub] at hiff
  obtain ⟨t', ht', htf, htl⟩ := simplify_formed (hsub d hmem)
  obtain rfl : t = t' := Option.some.inj (ht.symm.trans ht')
  have hvd : eval v d = eval w d :=
    eval_congr (hsub d hmem) fun l hl => by simp [v, hl]
  have hvt : eval v t = eval w t := eval_congr htf fun l hl => by simp [v, htl l hl]
  -- the other subrules take the unit, before and after simplification
  have hother : ∀ r ∈ subrules, r ≠ d → ∀ s, (∀ l ∈ s.leaves, l ∈ r.leaves) → Formed s →
      eval v s = op.unit := by
    intro r hr hrd s hl hsf
    refine eval_eq_of_leaves hsf fun l hls => ?_
    have : Std.Symm (Function.onFun List.Disjoint leaves) := 
      ⟨fun _ _ h _ ha hb => h hb ha⟩
    have hdisj := (List.nodup_flatMap.mp hnodup).2.forall hr hmem hrd
    have hnot : l ∉ d.leaves := fun hld => hdisj (hl l hls) hld
    simp [v, hnot]
  have hd : eval v d = op.unit ↔ ∀ r ∈ subrules, eval v r = op.unit := by
    refine ⟨fun h r hr => ?_, fun h => h d hmem⟩
    by_cases hrd : r = d
    · rw [hrd, h]
    · exact hother r hr hrd r (fun _ hl => hl) (hsub r hr)
  have ht'' : eval v t = op.unit
      ↔ ∀ r ∈ subrules, ∀ s, simplify r = some s → eval v s = op.unit := by
    refine ⟨fun h r hr s hs => ?_, fun h => h d hmem t ht⟩
    by_cases hrd : r = d
    · subst hrd
      rw [← Option.some.inj (ht.symm.trans hs), h]
    · obtain ⟨s', hs', hsf, hsl⟩ := simplify_formed (hsub r hr)
      obtain rfl : s = s' := Option.some.inj (hs.symm.trans hs')
      exact hother r hr hrd s hsl hsf
  have hfinal : eval v t = op.unit ↔ eval v d = op.unit := by rw [ht'', hd, hiff]
  rw [← hvt, ← hvd]
  exact Bool.eq_iff_iff.mpr (by revert hfinal; cases op.unit <;> simp)

/-- A formed tree with pairwise different leaves that is not collapse-safe changes its meaning under
some assignment. Induction on the tree's size: an unsafe chain is visible at once, otherwise an
unsafe subrule of the bottom is smaller than the tree. -/
theorem exists_eval_ne {r : Rule} (hr : Formed r) (hd : r.leaves.Nodup) (h : ¬ CollapseSafe r) :
    ∃ s v, simplify r = some s ∧ eval v s ≠ eval v r := by
  induction hn : sizeOf r using Nat.strong_induction_on generalizing r with
  | _ n ih =>
    rcases simplify_chain hr with ⟨hchain, hsimp⟩ | ⟨hop, s, last, hs, hlast, hl⟩
    · obtain ⟨hop, d, hmem, hunsafe⟩ := exists_unsafe_of_chainSafe hchain h
      obtain ⟨hbform, hleaves, heval⟩ := hr.bottom
      have hblen := length_subrules_bottom r hop
      have hsize := sizeOf_bottom_le r
      rw [← hleaves] at hd
      rcases hb : bottom r with ⟨op, key, negate, stringArgs, longArgs, subrules⟩
      rw [hb] at hbform hblen hop hmem hd heval hsimp hsize
      replace hop : op.isCombinator := hop
      replace hmem : d ∈ subrules := hmem
      obtain ⟨rfl, hne, hsub⟩ := hbform.node_inv hop
      rw [leaves_node hop] at hd
      have hlt : sizeOf d < n := by
        have := List.sizeOf_lt_of_mem hmem
        simp only [Rule.mk.sizeOf_spec] at hsize
        omega
      obtain ⟨t, w, ht, hw⟩ := ih (sizeOf d) hlt (hsub d hmem)
        ((List.nodup_flatMap.mp hd).1 d hmem) hunsafe rfl
      obtain ⟨v, hv⟩ := exists_eval_ne_of_subrule hop key stringArgs longArgs hsub hd hmem
        ht hw
      rw [simplify_node hop hne hsub hblen] at hsimp
      exact ⟨_, v, hsimp, by rw [← heval v]; exact hv⟩
    · obtain ⟨v, hv⟩ := exists_eval_ne_of_chain hr hd hop hs hlast hl
      exact ⟨s, v, hs, hv⟩

/-! ## The meaning is kept exactly by collapse-safe trees -/

/-- `simplify` keeps the meaning of a tree: for every tree of the same shape, and so for every
assignment of truth values to the leaves, the simplification is not null and has the same value. -/
def SimplifyKeepsMeaning (r : Rule) : Prop :=
  ∀ r' v, shape r' = shape r → ∃ s, simplify r' = some s ∧ eval v s = eval v r'

/-- **`simplify` keeps the meaning of a rule tree iff the tree is collapse-safe.** -/
theorem simplify_keeps_meaning_iff (r : Rule) (hr : Formed r) :
    SimplifyKeepsMeaning r ↔ CollapseSafe r := by
  constructor
  · intro hkeeps
    by_contra hunsafe
    have hshape := shape_tag [] r
    have hform : Formed (tag [] r) := by rwa [← formed_shape_iff, hshape, formed_shape_iff]
    have htag : ¬ CollapseSafe (tag [] r) := by
      rwa [← collapseSafe_shape_iff, hshape, collapseSafe_shape_iff]
    obtain ⟨s, v, hs, hne⟩ := exists_eval_ne hform (nodup_leaves_tag [] r) htag
    obtain ⟨s', hs', heval⟩ := hkeeps (tag [] r) v hshape
    obtain rfl : s = s' := Option.some.inj (hs.symm.trans hs')
    exact hne heval
  · intro hsafe r' v hshape
    have hform : Formed r' := by rwa [← formed_shape_iff, hshape, formed_shape_iff]
    have hsafe' : CollapseSafe r' := by
      rwa [← collapseSafe_shape_iff, hshape, collapseSafe_shape_iff]
    obtain ⟨s, hs, -, heval⟩ := simplify_eval_of_collapseSafe hform hsafe'
    exact ⟨s, hs, heval v⟩

/-- A leaf rule comparing the SDK version, for the small trees below. -/
def sdkAbove (n : Int) : Rule := mk .greaterThan .sdkVersion false [] [n] []

/-- The nested conjunction of two leaves below a conjunction with another leaf is simplified
faithfully. -/
theorem simplify_keeps_meaning_nested :
    Formed (conj [conj [sdkAbove 7, sdkAbove 9], sdkAbove 8])
      ∧ SimplifyKeepsMeaning (conj [conj [sdkAbove 7, sdkAbove 9], sdkAbove 8]) := by
  have hleaf (n : Int) : ¬ (sdkAbove n).op.isCombinator :=
    (by decide : ¬ Operator.greaterThan.isCombinator)
  have hform : Formed (conj [conj [sdkAbove 7, sdkAbove 9], sdkAbove 8]) := by
    refine .node (.inl rfl) (by simp) fun r hr => ?_
    simp only [List.mem_cons, List.not_mem_nil, or_false] at hr
    rcases hr with rfl | rfl
    · refine .node (.inl rfl) (by simp) fun r hr => .leaf ?_
      simp only [List.mem_cons, List.not_mem_nil, or_false] at hr
      rcases hr with rfl | rfl <;> exact hleaf _
    · exact .leaf (hleaf 8)
  refine ⟨hform, (simplify_keeps_meaning_iff _ hform).mpr (.node (.inl rfl) (by simp) ?_)⟩
  intro r hr
  simp only [List.mem_cons, List.not_mem_nil, or_false] at hr
  rcases hr with rfl | rfl
  · refine .node (.inl rfl) (by simp) fun r hr => .leaf ?_
    simp only [List.mem_cons, List.not_mem_nil, or_false] at hr
    rcases hr with rfl | rfl <;> exact hleaf _
  · exact .leaf (hleaf 8)

/-- A conjunction whose only subrule is a conjunction of two leaves loses the first leaf: with that
leaf false and the second true the tree is false and its simplification true. -/
theorem simplify_drops_conjunct :
    ∃ r v s, Formed r ∧ simplify r = some s ∧ eval v r = false ∧ eval v s = true := by
  refine ⟨conj [conj [sdkAbove 7, sdkAbove 9]], fun l => l.longArgs == [9], sdkAbove 9, ?_,
    rfl, rfl, rfl⟩
  refine .node (.inl rfl) (by simp) fun r hr => ?_
  rw [List.mem_singleton] at hr
  subst hr
  refine .node (.inl rfl) (by simp) fun r hr => .leaf ?_
  simp only [List.mem_cons, List.not_mem_nil, or_false] at hr
  rcases hr with rfl | rfl <;> exact (by decide : ¬ Operator.greaterThan.isCombinator)

end AndroidSdk.SplitSelect.Rule
