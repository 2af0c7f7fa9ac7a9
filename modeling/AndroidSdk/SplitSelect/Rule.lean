import Mathlib.Data.List.Basic
import Mathlib.Data.List.Infix
import Mathlib.Data.List.Nodup

/-! # Split rules and their simplification

The rule trees of `split-select` (`Rule.h`, `Rule.cpp`): a `Rule` carries an operator, a key, its
arguments and its subrules, and `Rule.simplify` flattens nested conjunctions and disjunctions before
the tree is printed.

* **`Rule.eval`** — the truth value of a rule tree under an assignment to its leaf rules.
* **`Rule.simplify`** — the recursion of the source, `none` standing for the null rule.
* **`Rule.CollapseSafe`** — no combinator with a single subrule stands above a chain of
  single-subrule nodes that ends in a node of its own operator. -/

namespace AndroidSdk.SplitSelect

/-- The operator of a rule. -/
inductive Operator where
  | lessThan | greaterThan | equals | containsAny | containsAll
  | isTrue | isFalse | andSubrules | orSubrules | alwaysTrue
  deriving DecidableEq, Repr

/-- The device property a leaf rule inspects. -/
inductive Key where
  | none | sdkVersion | screenDensity | language | nativePlatform
  | touchScreen | screenSize | screenLayout
  deriving DecidableEq, Repr

namespace Operator

/-- The two operators whose rules combine subrules. -/
def isCombinator (op : Operator) : Prop := op = .andSubrules ∨ op = .orSubrules

instance : DecidablePred isCombinator := fun op =>
  inferInstanceAs (Decidable (op = .andSubrules ∨ op = .orSubrules))

/-- The value all subrules of a combinator must take for the combinator to take it as well:
`true` for a conjunction, `false` for a disjunction. -/
def unit : Operator → Bool
  | .andSubrules => true
  | _ => false

end Operator

/-- A node of a rule tree, with the fields of `struct Rule` that its functions read. -/
inductive Rule where
  | mk (op : Operator) (key : Key) (negate : Bool) (stringArgs : List String)
      (longArgs : List Int) (subrules : List Rule)
  deriving Repr

namespace Rule

/-- The operator of a rule. -/
def op : Rule → Operator
  | mk op _ _ _ _ _ => op

/-- The arguments of a rule on a numeric property. -/
def longArgs : Rule → List Int
  | mk _ _ _ _ longArgs _ => longArgs

/-- The subrules of a rule. -/
def subrules : Rule → List Rule
  | mk _ _ _ _ _ subrules => subrules

/-- A conjunction of rules. -/
def conj (rs : List Rule) : Rule := mk .andSubrules .none false [] [] rs

/-- Induction over a rule tree with one hypothesis for all subrules. -/
theorem treeInduction {motive : Rule → Prop}
    (node : ∀ op key negate stringArgs longArgs subrules, (∀ r ∈ subrules, motive r) →
      motive (mk op key negate stringArgs longArgs subrules)) (r : Rule) : motive r := by
  refine @Rule.rec motive (fun rs => ∀ r ∈ rs, motive r) node ?_ ?_ r
  · simp
  · intro head tail hhead htail
    simpa using ⟨hhead, htail⟩

/-! ## Evaluation -/

mutual

/-- The truth value of a rule tree when each leaf rule `l` has truth value `v l`. -/
def eval (v : Rule → Bool) : Rule → Bool
  | mk .andSubrules _ negate _ _ subrules => evalAll v subrules ^^ negate
  | mk .orSubrules _ negate _ _ subrules => evalAny v subrules ^^ negate
  | r => v r

/-- Whether every rule of a list holds. -/
def evalAll (v : Rule → Bool) : List Rule → Bool
  | [] => true
  | r :: rs => eval v r && evalAll v rs

/-- Whether some rule of a list holds. -/
def evalAny (v : Rule → Bool) : List Rule → Bool
  | [] => false
  | r :: rs => eval v r || evalAny v rs

end

/-- `evalAll` holds iff every rule of the list does. -/
theorem evalAll_eq_true_iff (v : Rule → Bool) (rs : List Rule) :
    evalAll v rs = true ↔ ∀ r ∈ rs, eval v r = true := by
  induction rs with
  | nil => simp [evalAll]
  | cons r rs ih => simp [evalAll, ih]

/-- `evalAny` fails iff every rule of the list does. -/
theorem evalAny_eq_false_iff (v : Rule → Bool) (rs : List Rule) :
    evalAny v rs = false ↔ ∀ r ∈ rs, eval v r = false := by
  induction rs with
  | nil => simp [evalAny]
  | cons r rs ih => simp [evalAny, ih]

/-- A leaf rule evaluates to its assigned truth value. -/
theorem eval_leaf (v : Rule → Bool) {r : Rule} (h : ¬ r.op.isCombinator) : eval v r = v r := by
  obtain ⟨op, key, negate, stringArgs, longArgs, subrules⟩ := r
  cases op <;> first | rfl | exact absurd (by simp [Rule.op, Operator.isCombinator]) h

/-- **A combinator takes its unit iff all its subrules do** (`negate` unset): a conjunction is true
iff every subrule is, a disjunction is false iff every subrule is. -/
theorem eval_node_eq_unit_iff (v : Rule → Bool) {op : Operator} (hop : op.isCombinator) (key : Key)
    (stringArgs : List String) (longArgs : List Int) (subrules : List Rule) :
    eval v (mk op key false stringArgs longArgs subrules) = op.unit
      ↔ ∀ r ∈ subrules, eval v r = op.unit := by
  rcases hop with rfl | rfl
  · simpa [eval, Operator.unit] using evalAll_eq_true_iff v subrules
  · simpa [eval, Operator.unit] using evalAny_eq_false_iff v subrules

/-! ## Simplification -/

mutual

/-- `Rule::simplify`: flatten same-operator subrules and collapse single-subrule combinators; `none`
is the null rule of a combinator left without subrules. -/
def simplify : Rule → Option Rule
  | mk op key negate stringArgs longArgs subrules =>
    if ¬ op.isCombinator then
      some (mk op key negate stringArgs longArgs subrules)
    else
      let newSubrules := simplifySubrules op subrules
      if newSubrules.length = 0 then none
      -- the source tests the number of subrules before flattening
      else if subrules.length = 1 then newSubrules.getLast?
      else some (mk op key negate stringArgs longArgs newSubrules)

/-- The loop of `Rule::simplify` that builds `newSubrules`. -/
def simplifySubrules (op : Operator) : List Rule → List Rule
  | [] => []
  | r :: rs =>
    (match simplify r with
      | none => []
      | some simplifiedRule =>
        if simplifiedRule.op = op then simplifiedRule.subrules else [simplifiedRule])
      ++ simplifySubrules op rs

end

/-- The subrules a simplified rule contributes to a parent with operator `op`. -/
def absorb (op : Operator) (s : Rule) : List Rule := if s.op = op then s.subrules else [s]

/-- One turn of the loop of `simplify` on a subrule that does not vanish. -/
theorem simplifySubrules_cons (op : Operator) {r s : Rule} (rs : List Rule)
    (h : simplify r = some s) :
    simplifySubrules op (r :: rs) = absorb op s ++ simplifySubrules op rs := by
  rw [simplifySubrules, h]
  rfl

/-- A leaf rule is its own simplification. -/
theorem simplify_leaf {r : Rule} (h : ¬ r.op.isCombinator) : simplify r = some r := by
  obtain ⟨op, key, negate, stringArgs, longArgs, subrules⟩ := r
  exact if_pos h

/-- The rule trees of the source's builders: every combinator has a subrule and `negate` unset. -/
inductive Formed : Rule → Prop
  | leaf {r : Rule} (h : ¬ r.op.isCombinator) : Formed r
  | node {op : Operator} {key : Key} {stringArgs : List String} {longArgs : List Int}
      {subrules : List Rule} (hop : op.isCombinator) (hne : subrules ≠ [])
      (hs : ∀ r ∈ subrules, Formed r) : Formed (mk op key false stringArgs longArgs subrules)

/-- What is known of a formed combinator: `negate` is unset, it has subrules, they are formed. -/
theorem Formed.node_inv {op : Operator} {key : Key} {negate : Bool} {stringArgs : List String}
    {longArgs : List Int} {subrules : List Rule}
    (h : Formed (mk op key negate stringArgs longArgs subrules)) (hop : op.isCombinator) :
    negate = false ∧ subrules ≠ [] ∧ ∀ r ∈ subrules, Formed r := by
  cases h with
  | leaf hleaf => exact absurd hop hleaf
  | node _ hne hs => exact ⟨rfl, hne, hs⟩

/-- What a formed rule contributes to its parent is formed and not empty. -/
theorem Formed.absorb {op : Operator} (hop : op.isCombinator) {s : Rule} (hs : Formed s) :
    absorb op s ≠ [] ∧ ∀ r ∈ absorb op s, Formed r := by
  obtain ⟨sop, key, negate, stringArgs, longArgs, subrules⟩ := s
  by_cases h : sop = op
  · subst h
    obtain ⟨-, hne, hall⟩ := hs.node_inv hop
    simpa [Rule.absorb, Rule.op, Rule.subrules] using ⟨hne, hall⟩
  · simpa [Rule.absorb, Rule.op, h] using hs

/-- A formed rule and what it contributes to its parent agree on taking the parent's unit. -/
theorem eval_absorb (v : Rule → Bool) {op : Operator} (hop : op.isCombinator) {s : Rule}
    (hs : Formed s) : (∀ r ∈ absorb op s, eval v r = op.unit) ↔ eval v s = op.unit := by
  obtain ⟨sop, key, negate, stringArgs, longArgs, subrules⟩ := s
  by_cases h : sop = op
  · subst h
    obtain ⟨rfl, -, -⟩ := hs.node_inv hop
    rw [eval_node_eq_unit_iff v hop]
    simp [absorb, Rule.op, Rule.subrules]
  · simp [absorb, Rule.op, h]

/-! ## Leaves -/

mutual

/-- The leaf rules of a tree, from left to right. -/
def leaves : Rule → List Rule
  | mk op key negate stringArgs longArgs subrules =>
    if op.isCombinator then leavesList subrules
    else [mk op key negate stringArgs longArgs subrules]

/-- The leaf rules of a list of trees. -/
def leavesList : List Rule → List Rule
  | [] => []
  | r :: rs => leaves r ++ leavesList rs

end

/-- `leavesList` concatenates the leaves of its trees. -/
theorem leavesList_eq (rs : List Rule) : leavesList rs = rs.flatMap leaves := by
  induction rs with
  | nil => rfl
  | cons r rs ih => rw [leavesList, ih, List.flatMap_cons]

/-- The leaves of a combinator are those of its subrules. -/
theorem leaves_node {op : Operator} (hop : op.isCombinator) (key : Key) (negate : Bool)
    (stringArgs : List String) (longArgs : List Int) (subrules : List Rule) :
    leaves (mk op key negate stringArgs longArgs subrules) = subrules.flatMap leaves := by
  rw [leaves, if_pos hop, leavesList_eq]

/-- A leaf rule is its only leaf. -/
theorem leaves_leaf {r : Rule} (h : ¬ r.op.isCombinator) : leaves r = [r] := by
  obtain ⟨op, key, negate, stringArgs, longArgs, subrules⟩ := r
  exact if_neg h

/-- The contribution of a rule to its parent has the leaves of the rule. -/
theorem mem_leaves_of_mem_absorb {op : Operator} (hop : op.isCombinator) {s r l : Rule}
    (hr : r ∈ absorb op s) (hl : l ∈ r.leaves) : l ∈ s.leaves := by
  obtain ⟨sop, key, negate, stringArgs, longArgs, subrules⟩ := s
  by_cases h : sop = op
  · subst h
    rw [leaves_node hop]
    exact List.mem_flatMap.mpr ⟨r, by simpa [absorb, Rule.op, Rule.subrules] using hr, hl⟩
  · have hrs : r = mk sop key negate stringArgs longArgs subrules := by
      simpa [absorb, Rule.op, h] using hr
    rwa [← hrs]

/-- A tree depends only on the truth values of its leaves. -/
theorem eval_congr {v w : Rule → Bool} {r : Rule} (hr : Formed r)
    (h : ∀ l ∈ r.leaves, v l = w l) : eval v r = eval w r := by
  induction hr with
  | @leaf r hleaf =>
      rw [eval_leaf v hleaf, eval_leaf w hleaf]
      exact h r (by rw [leaves_leaf hleaf]; exact List.mem_singleton_self r)
  | @node op key stringArgs longArgs subrules hop hne hs ih =>
      rw [leaves_node hop] at h
      have hsub : ∀ r ∈ subrules, eval v r = eval w r := fun r hr =>
        ih r hr fun l hl => h l (List.mem_flatMap.mpr ⟨r, hr, hl⟩)
      have hiff : eval v (mk op key false stringArgs longArgs subrules) = op.unit
          ↔ eval w (mk op key false stringArgs longArgs subrules) = op.unit := by
        rw [eval_node_eq_unit_iff v hop, eval_node_eq_unit_iff w hop]
        exact forall₂_congr fun r hr => by rw [hsub r hr]
      exact Bool.eq_iff_iff.mpr (by revert hiff; cases op.unit <;> simp)

/-- A formed tree all of whose leaves have truth value `b` evaluates to `b`. -/
theorem eval_eq_of_leaves {v : Rule → Bool} {b : Bool} {r : Rule} (hr : Formed r)
    (h : ∀ l ∈ r.leaves, v l = b) : eval v r = b := by
  induction hr with
  | @leaf r hleaf =>
      rw [eval_leaf v hleaf]
      exact h r (by rw [leaves_leaf hleaf]; exact List.mem_singleton_self r)
  | @node op key stringArgs longArgs subrules hop hne hs ih =>
      rw [leaves_node hop] at h
      have hsub : ∀ r ∈ subrules, eval v r = b := fun r hr =>
        ih r hr fun l hl => h l (List.mem_flatMap.mpr ⟨r, hr, hl⟩)
      by_cases hb : b = op.unit
      · subst hb
        exact (eval_node_eq_unit_iff v hop ..).mpr hsub
      · obtain ⟨r, hr⟩ := List.exists_mem_of_ne_nil subrules hne
        have hne' : eval v (mk op key false stringArgs longArgs subrules) ≠ op.unit := fun hu =>
          hb ((hsub r hr).symm.trans ((eval_node_eq_unit_iff v hop ..).mp hu r hr))
        revert hne' hb
        cases op.unit <;> cases b <;> simp

/-! ## Conjunctions of leaves and of conjunctions of leaves -/

/-- A leaf rule, or a conjunction of leaf rules. -/
def Flat (r : Rule) : Prop :=
  ¬ r.op.isCombinator ∨ ∃ ls, r = conj ls ∧ ∀ l ∈ ls, ¬ l.op.isCombinator

/-- A leaf rule contributes itself to its parent. -/
theorem absorb_leaf {op : Operator} (hop : op.isCombinator) {r : Rule} (h : ¬ r.op.isCombinator) :
    absorb op r = [r] := by
  have hne : r.op ≠ op := fun heq => h (heq ▸ hop)
  rw [absorb, if_neg hne]

/-- Leaf rules are the leaves of their list. -/
theorem flatMap_leaves_of_leaf {ls : List Rule} (h : ∀ l ∈ ls, ¬ l.op.isCombinator) :
    ls.flatMap leaves = ls := by
  induction ls with
  | nil => rfl
  | cons l ls ih =>
      obtain ⟨hl, hls⟩ := List.forall_mem_cons.mp h
      rw [List.flatMap_cons, leaves_leaf hl, ih hls]
      rfl

/-- The loop of `simplify` keeps leaf rules. -/
theorem simplifySubrules_of_leaf {op : Operator} (hop : op.isCombinator) {ls : List Rule}
    (h : ∀ l ∈ ls, ¬ l.op.isCombinator) : simplifySubrules op ls = ls := by
  induction ls with
  | nil => rfl
  | cons l ls ih =>
      obtain ⟨hl, hls⟩ := List.forall_mem_cons.mp h
      rw [simplifySubrules_cons op ls (simplify_leaf hl), absorb_leaf hop hl, ih hls]
      rfl

/-- A flat rule contributes its leaves to a conjunction. -/
theorem simplifySubrules_cons_flat {r : Rule} (hr : Flat r) (rs : List Rule) :
    simplifySubrules .andSubrules (r :: rs) = leaves r ++ simplifySubrules .andSubrules rs := by
  have hop : Operator.andSubrules.isCombinator := .inl rfl
  obtain hleaf | ⟨ls, rfl, hls⟩ := hr
  · rw [simplifySubrules_cons _ rs (simplify_leaf hleaf), absorb_leaf hop hleaf, leaves_leaf hleaf]
  · rw [conj, leaves_node hop, flatMap_leaves_of_leaf hls, simplifySubrules]
    congr 1
    rw [simplify, if_neg (not_not.mpr hop), simplifySubrules_of_leaf hop hls]
    match ls, hls with
    | [], _ => rfl
    | [l], hls => exact absorb_leaf hop (hls l (by simp))
    | _ :: _ :: _, _ => rfl

/-- The loop of `simplify` flattens flat rules. -/
theorem simplifySubrules_flat {rs : List Rule} (h : ∀ r ∈ rs, Flat r) :
    simplifySubrules .andSubrules rs = rs.flatMap leaves := by
  induction rs with
  | nil => rfl
  | cons r rs ih =>
      obtain ⟨hr, hrs⟩ := List.forall_mem_cons.mp h
      rw [simplifySubrules_cons_flat hr, ih hrs, List.flatMap_cons]

/-- The leaves of a flat rule are leaf rules. -/
theorem Flat.leaf_of_mem {r l : Rule} (hr : Flat r) (hl : l ∈ leaves r) : ¬ l.op.isCombinator := by
  obtain hleaf | ⟨ls, rfl, hls⟩ := hr
  · rw [leaves_leaf hleaf, List.mem_singleton] at hl
    exact hl ▸ hleaf
  · rw [conj, leaves_node (.inl rfl), flatMap_leaves_of_leaf hls] at hl
    exact hls l hl

/-! ## What simplification keeps of every formed tree -/

/-- The subrules the loop of `simplify` builds from formed subrules with formed simplifications:
they are formed, at least as many as the subrules, and have no other leaves. -/
theorem simplifySubrules_formed {op : Operator} (hop : op.isCombinator) {rs : List Rule}
    (h : ∀ r ∈ rs, ∃ s, simplify r = some s ∧ Formed s ∧ ∀ l ∈ s.leaves, l ∈ r.leaves) :
    rs.length ≤ (simplifySubrules op rs).length
      ∧ ∀ s ∈ simplifySubrules op rs, Formed s ∧ ∃ r ∈ rs, ∀ l ∈ s.leaves, l ∈ r.leaves := by
  induction rs with
  | nil => exact ⟨Nat.le_refl 0, by simp [simplifySubrules]⟩
  | cons r rs ih =>
      obtain ⟨s, hs, hsf, hsl⟩ := h r (by simp)
      obtain ⟨hlen, hall⟩ := ih fun r' hr' => h r' (by simp [hr'])
      obtain ⟨hne, hform⟩ := hsf.absorb hop
      rw [simplifySubrules_cons op rs hs]
      refine ⟨?_, ?_⟩
      · have := List.length_pos_iff.mpr hne
        rw [List.length_append, List.length_cons]
        omega
      · intro t ht
        rcases List.mem_append.mp ht with ht | ht
        · exact ⟨hform t ht, r, by simp, fun l hl =>
            hsl l (mem_leaves_of_mem_absorb hop ht hl)⟩
        · obtain ⟨htf, r', hr', hl⟩ := hall t ht
          exact ⟨htf, r', by simp [hr'], hl⟩

/-- **Simplification of a formed tree is a formed tree on some of its leaves**; it is never null. -/
theorem simplify_formed {r : Rule} (hr : Formed r) :
    ∃ s, simplify r = some s ∧ Formed s ∧ ∀ l ∈ s.leaves, l ∈ r.leaves := by
  induction hr with
  | @leaf r hleaf => exact ⟨r, simplify_leaf hleaf, .leaf hleaf, fun _ hl => hl⟩
  | @node op key stringArgs longArgs subrules hop hne hs ih =>
      obtain ⟨hlen, hall⟩ := simplifySubrules_formed hop ih
      have hpos : 0 < (simplifySubrules op subrules).length :=
        Nat.lt_of_lt_of_le (List.length_pos_iff.mpr hne) hlen
      have hnil : simplifySubrules op subrules ≠ [] := List.length_pos_iff.mp hpos
      rw [simplify, if_neg (not_not.mpr hop), leaves_node hop]
      simp only [if_neg (Nat.pos_iff_ne_zero.mp hpos)]
      by_cases hone : subrules.length = 1
      · have hlast := List.getLast_mem hnil
        obtain ⟨hform, r', hr', hl⟩ := hall _ hlast
        refine ⟨_, by rw [if_pos hone, List.getLast?_eq_some_getLast hnil], hform, fun l hmem => ?_⟩
        exact List.mem_flatMap.mpr ⟨r', hr', hl l hmem⟩
      · refine ⟨_, by rw [if_neg hone], .node hop hnil fun s hs' => (hall s hs').1, fun l hl => ?_⟩
        rw [leaves_node hop] at hl
        obtain ⟨s, hs', hls⟩ := List.mem_flatMap.mp hl
        obtain ⟨-, r', hr', hsub⟩ := hall s hs'
        exact List.mem_flatMap.mpr ⟨r', hr', hsub l hls⟩

/-- The rebuilt subrules take the unit of their operator iff the simplified subrules do. -/
theorem eval_simplifySubrules (v : Rule → Bool) {op : Operator} (hop : op.isCombinator)
    {rs : List Rule} (h : ∀ r ∈ rs, Formed r) :
    (∀ s ∈ simplifySubrules op rs, eval v s = op.unit)
      ↔ ∀ r ∈ rs, ∀ s, simplify r = some s → eval v s = op.unit := by
  induction rs with
  | nil => simp [simplifySubrules]
  | cons r rs ih =>
      obtain ⟨s, hs, hsf, -⟩ := simplify_formed (h r (by simp))
      have ih' := ih fun r' hr' => h r' (by simp [hr'])
      rw [simplifySubrules_cons op rs hs, List.forall_mem_append, eval_absorb v hop hsf, ih',
        List.forall_mem_cons]
      simp [hs]

/-- Simplification of a formed combinator with several subrules rebuilds it. -/
theorem simplify_node {op : Operator} (hop : op.isCombinator) {key : Key} {stringArgs : List String}
    {longArgs : List Int} {subrules : List Rule} (hne : subrules ≠ [])
    (hs : ∀ r ∈ subrules, Formed r) (hlen : subrules.length ≠ 1) :
    simplify (mk op key false stringArgs longArgs subrules)
      = some (mk op key false stringArgs longArgs (simplifySubrules op subrules)) := by
  have hle := (simplifySubrules_formed hop fun r hr => simplify_formed (hs r hr)).1
  have hpos := List.length_pos_iff.mpr hne
  rw [simplify, if_neg (not_not.mpr hop)]
  simp only [if_neg hlen, if_neg (show (simplifySubrules op subrules).length ≠ 0 by omega)]

/-- Simplification of a formed combinator with one subrule returns the last rule that subrule
contributes. -/
theorem simplify_single {op : Operator} (hop : op.isCombinator) {key : Key}
    {stringArgs : List String} {longArgs : List Int} {c s : Rule} (hc : simplify c = some s)
    (hs : Formed s) :
    simplify (mk op key false stringArgs longArgs [c]) = (absorb op s).getLast? := by
  have hnil : simplifySubrules op [c] = absorb op s := by
    rw [simplifySubrules_cons op [] hc, simplifySubrules, List.append_nil]
  have hne := (hs.absorb hop).1
  rw [simplify, if_neg (not_not.mpr hop), hnil]
  simp [hne]

/-! ## Chains of single-subrule nodes -/

/-- The rule at the end of the chain of single-subrule combinators that starts at a rule. -/
def bottom : Rule → Rule
  | mk op key negate stringArgs longArgs [c] =>
    if op.isCombinator then bottom c else mk op key negate stringArgs longArgs [c]
  | r => r

/-- A combinator with one subrule has the bottom of that subrule. -/
theorem bottom_single {op : Operator} (hop : op.isCombinator) (key : Key) (negate : Bool)
    (stringArgs : List String) (longArgs : List Int) (c : Rule) :
    bottom (mk op key negate stringArgs longArgs [c]) = bottom c := by
  rw [bottom, if_pos hop]

/-- A rule that is not a combinator with one subrule is its own bottom. -/
theorem bottom_self {r : Rule} (h : r.op.isCombinator → r.subrules.length ≠ 1) : bottom r = r := by
  obtain ⟨op, key, negate, stringArgs, longArgs, subrules⟩ := r
  match subrules, h with
  | [], _ => rfl
  | [c], h => exact if_neg fun hop => h hop rfl
  | _ :: _ :: _, _ => rfl

/-- **The trees that `simplify` keeps the meaning of.** No combinator with a single subrule has, at
the end of the chain of single-subrule nodes below it, a node with its own operator. -/
inductive CollapseSafe : Rule → Prop
  | leaf {r : Rule} (h : ¬ r.op.isCombinator) : CollapseSafe r
  | node {op : Operator} {key : Key} {negate : Bool} {stringArgs : List String}
      {longArgs : List Int} {subrules : List Rule} (hop : op.isCombinator)
      (hone : ∀ c, subrules = [c] → (bottom c).op ≠ op) (hs : ∀ r ∈ subrules, CollapseSafe r) :
      CollapseSafe (mk op key negate stringArgs longArgs subrules)

/-- The two demands of `CollapseSafe` on a combinator. -/
theorem collapseSafe_node_iff {op : Operator} (hop : op.isCombinator) {key : Key} {negate : Bool}
    {stringArgs : List String} {longArgs : List Int} {subrules : List Rule} :
    CollapseSafe (mk op key negate stringArgs longArgs subrules)
      ↔ (∀ c, subrules = [c] → (bottom c).op ≠ op) ∧ ∀ r ∈ subrules, CollapseSafe r := by
  constructor
  · intro h
    cases h with
    | leaf hleaf => exact absurd hop hleaf
    | node _ hone hs => exact ⟨hone, hs⟩
  · exact fun h => .node hop h.1 h.2

/-- **Simplification of a collapse-safe tree** has the operator of the tree's bottom and the tree's
truth value under every assignment. -/
theorem simplify_eval_of_collapseSafe {r : Rule} (hr : Formed r) (hsafe : CollapseSafe r) :
    ∃ s, simplify r = some s ∧ s.op = (bottom r).op ∧ ∀ v, eval v s = eval v r := by
  induction hr with
  | @leaf r hleaf =>
      exact ⟨r, simplify_leaf hleaf, by rw [bottom_self fun h => absurd h hleaf], fun _ => rfl⟩
  | @node op key stringArgs longArgs subrules hop hne hs ih =>
      obtain ⟨hone, hsub⟩ := (collapseSafe_node_iff hop).mp hsafe
      by_cases hlen : subrules.length = 1
      · obtain ⟨c, rfl⟩ := List.length_eq_one_iff.mp hlen
        obtain ⟨s, hcs, hop', heval⟩ := ih c (by simp) (hsub c (by simp))
        obtain ⟨s', hcs', hsf, -⟩ := simplify_formed (hs c (by simp))
        obtain rfl : s = s' := Option.some.inj (hcs.symm.trans hcs')
        have hne' : s.op ≠ op := by rw [hop']; exact hone c rfl
        refine ⟨s, ?_, by rw [bottom_single hop]; exact hop', fun v => ?_⟩
        · rw [simplify_single hop hcs hsf]
          simp [absorb, hne']
        · have hiff := eval_node_eq_unit_iff v hop key stringArgs longArgs [c]
          rw [List.forall_mem_singleton, ← heval v] at hiff
          exact Bool.eq_iff_iff.mpr (by revert hiff; cases op.unit <;> simp <;> tauto)
      · have hself : bottom (mk op key false stringArgs longArgs subrules)
            = mk op key false stringArgs longArgs subrules := bottom_self fun _ => hlen
        refine ⟨_, simplify_node hop hne hs hlen, by rw [hself]; rfl, fun v => ?_⟩
        have hiff := (eval_node_eq_unit_iff v hop key stringArgs longArgs
          (simplifySubrules op subrules)).trans (eval_simplifySubrules v hop hs)
        have horig := eval_node_eq_unit_iff v hop key stringArgs longArgs subrules
        have hsame : (∀ r ∈ subrules, ∀ s, simplify r = some s → eval v s = op.unit)
            ↔ ∀ r ∈ subrules, eval v r = op.unit := by
          refine forall₂_congr fun r hr => ?_
          obtain ⟨s, hrs, -, heval⟩ := ih r hr (hsub r hr)
          simp [hrs, heval v]
        rw [hsame, ← horig] at hiff
        exact Bool.eq_iff_iff.mpr (by revert hiff; cases op.unit <;> simp)

end Rule

end AndroidSdk.SplitSelect
