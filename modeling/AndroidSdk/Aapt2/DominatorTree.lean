import AndroidSdk.Aapt2.ConfigDominance
import AndroidSdk.Lib.Dict

/-! # The dominator tree

`DominatorTree` (`DominatorTree.cpp`) arranges the values of a resource entry, for each product, in
a tree in which a configuration stands below the configurations that dominate it.

* **`Node.dominates`**, **`Node.tryAddChild`**, **`DominatorTree.new`** — the tree and its
  construction.
* **`new_eq`** — the tree of a product results from adding its values in turn.
* **`dominatorTree_invariants`** — each value stands in the tree once and below a value that
  dominates it, and siblings do not dominate each other where computed scripts are computed.
* **`not_apart_wrongScripts`** — with another script they may. -/

namespace AndroidSdk.Aapt2

open Lib SplitSelect SplitSelect.ResTableConfig

variable {ι : Type}

/-! ## The tree -/

/-- `DominatorTree::Node`: a value, or none at the root, with the children. Their parent pointers
point to the node that holds them. -/
abbrev Node (ι : Type) := Rose (Option (ResourceConfigValue ι))

/-- The root of a product before values are added. -/
def Node.root : Node ι := .node none []

section

variable (data : LocaleData)

/-- `DominatorTree::Node::Dominates`: the root dominates every node. -/
def Node.dominates : Option (ResourceConfigValue ι) → Option (ResourceConfigValue ι) → Bool
  | none, _ => true
  | some _, none => false
  | some value, some other => value.config.dominates data other.config

/-- `DominatorTree::Node::TryAddChild`: whether the child was added, and the node. The check that
the child is no root fails with `none`. -/
def Node.tryAddChild (node newChild : Node ι) : Option (Bool × Node ι) :=
  if newChild.value = none then none
  else if node.value ≠ none ∧ !dominates data node.value newChild.value then some (false, node)
  else some (true, node.addChild (dominates data) newChild)

/-- One turn of the constructor. -/
def DominatorTree.add (roots : Dict Bytes (Node ι)) (config : ResourceConfigValue ι) :
    Option (Dict Bytes (Node ι)) := do
  let root := (roots.lookup config.product).getD Node.root
  let (_, root) ← Node.tryAddChild data root (.node (some config) [])
  return roots.insert config.product root

/-- The constructor of `DominatorTree`: the roots of the products. -/
def DominatorTree.new (configs : List (ResourceConfigValue ι)) : Option (Dict Bytes (Node ι)) :=
  configs.foldlM (DominatorTree.add data) ∅

end

/-- The tree of a product; a product without values has an empty one. -/
def productTree (roots : Dict Bytes (Node ι)) (product : Bytes) : Node ι :=
  (roots.lookup product).getD Node.root

/-- The values of a product. -/
def valuesOf (configs : List (ResourceConfigValue ι)) (product : Bytes) :
    List (ResourceConfigValue ι) :=
  configs.filter fun config => config.product = product

/-! ## The construction -/

section

variable (data : LocaleData)

/-- A turn of the constructor adds a leaf to the tree of the product. -/
theorem add_eq (roots : Dict Bytes (Node ι)) (config : ResourceConfigValue ι)
    (hroot : (productTree roots config.product).value = none) :
    DominatorTree.add data roots config = some (roots.insert config.product
      ((productTree roots config.product).addChild (Node.dominates data)
        (.node (some config) []))) := by
  have htry : Node.tryAddChild data (productTree roots config.product) (.node (some config) [])
      = some (true, (productTree roots config.product).addChild (Node.dominates data)
        (.node (some config) [])) := by
    unfold Node.tryAddChild
    rw [Rose.value_node, if_neg (Option.some_ne_none config), if_neg fun h => h.1 hroot]
  unfold DominatorTree.add
  change (Node.tryAddChild data (productTree roots config.product) (.node (some config) [])).bind _
    = _
  rw [htry]
  rfl

/-- **The constructor adds the values of each product in turn.** -/
theorem foldlM_add (configs : List (ResourceConfigValue ι)) (roots : Dict Bytes (Node ι))
    (hroots : ∀ product, (productTree roots product).value = none) :
    ∃ roots', configs.foldlM (DominatorTree.add data) roots = some roots' ∧ ∀ product,
      productTree roots' product = (productTree roots product).addLeaves (Node.dominates data)
        ((valuesOf configs product).map some) := by
  induction configs generalizing roots with
  | nil => exact ⟨roots, rfl, fun product => rfl⟩
  | cons config configs ih =>
      have hnext : ∀ product, productTree (roots.insert config.product
          ((productTree roots config.product).addChild (Node.dominates data)
            (.node (some config) []))) product
          = (productTree roots product).addLeaves (Node.dominates data)
            ((valuesOf [config] product).map some) := by
        intro product
        unfold productTree
        rw [Dict.lookup_insert]
        by_cases hproduct : product = config.product
        · subst hproduct
          simp [valuesOf, Rose.addLeaves]
        · simp [valuesOf, Rose.addLeaves, hproduct, Ne.symm hproduct]
      obtain ⟨roots', hrun, htrees⟩ := ih _ fun product => by
        rw [hnext, Rose.value_addLeaves]
        exact hroots product
      refine ⟨roots', ?_, fun product => ?_⟩
      · rw [List.foldlM_cons, add_eq data roots config (hroots config.product)]
        exact hrun
      · have hvalues : valuesOf (config :: configs) product
            = valuesOf [config] product ++ valuesOf configs product := by
          rw [valuesOf, ← List.singleton_append, List.filter_append]
          rfl
        rw [htrees, hnext, hvalues, List.map_append, Rose.addLeaves, Rose.addLeaves,
          Rose.addLeaves, List.foldl_append]

/-- The trees of the products. -/
theorem new_eq (configs : List (ResourceConfigValue ι)) :
    ∃ roots, DominatorTree.new data configs = some roots ∧ ∀ product,
      productTree roots product = Node.root.addLeaves (Node.dominates data)
        ((valuesOf configs product).map some) :=
  foldlM_add data configs ∅ fun _ => rfl

/-- Domination between nodes is transitive where domination between their configurations is. -/
theorem transitiveOn_nodeDominates : Rose.TransitiveOn (Node.dominates (ι := ι) data)
    fun value => ∀ config ∈ value, ScriptComputed data config.config := by
  intro a b c ha hb hc h h'
  cases a with
  | none => rfl
  | some a =>
      cases b with
      | none => cases h
      | some b =>
          cases c with
          | none => cases h'
          | some c =>
              exact transitiveOn_dominates data a.config b.config c.config (ha a rfl) (hb b rfl)
                (hc c rfl) h h'

/-- **The dominator tree**: it holds each value of the product once, every value below the root is
dominated by its parent, and no two children of one node dominate each other where scripts that are
marked as computed have been computed. -/
theorem dominatorTree_invariants (configs : List (ResourceConfigValue ι)) :
    ∃ roots, DominatorTree.new data configs = some roots ∧ ∀ product,
      (productTree roots product).descendants.Perm ((valuesOf configs product).map some)
        ∧ (productTree roots product).Dominated (Node.dominates data)
        ∧ ((∀ config ∈ valuesOf configs product, ScriptComputed data config.config) →
          (productTree roots product).Apart (Node.dominates data)) := by
  obtain ⟨roots, hnew, htrees⟩ := new_eq data configs
  refine ⟨roots, hnew, fun product => ?_⟩
  rw [htrees product]
  have hnone : ∀ c : Node ι, c ∉ ([] : List (Node ι)) := fun _ => List.not_mem_nil
  refine ⟨?_, ?_, fun hscripts => ?_⟩
  · have hvalues : (Node.root.addLeaves (Node.dominates data)
        ((valuesOf configs product).map some)).values.Perm _ := Rose.values_addLeaves Node.root _
    have hroot : (Node.root.addLeaves (Node.dominates data)
        ((valuesOf configs product).map some)).value = _ := Rose.value_addLeaves Node.root _
    generalize Node.root.addLeaves (Node.dominates data) ((valuesOf configs product).map some)
      = tree at hvalues hroot
    obtain ⟨value, children⟩ := tree
    rw [Rose.value_node] at hroot
    rw [hroot, Rose.values_node, Node.root, Rose.values_node, List.flatMap_nil,
      Rose.value_node] at hvalues
    exact hvalues.cons_inv
  · refine Rose.dominated_addLeaves ?_ fun x _ => rfl
    exact ⟨fun c hc => absurd hc (hnone c), fun c hc => absurd hc (hnone c)⟩
  · refine Rose.apart_addLeaves (transitiveOn_nodeDominates data)
      ⟨List.Pairwise.nil, fun c hc => absurd hc (hnone c)⟩ ?_ ?_
    · intro value hvalue
      rw [Node.root, Rose.values_node, List.flatMap_nil, List.mem_singleton] at hvalue
      rw [hvalue]
      exact fun config hconfig => nomatch hconfig
    · intro value hvalue
      obtain ⟨config, hconfig, rfl⟩ := List.mem_map.mp hvalue
      intro config' hconfig'
      rw [← Option.mem_some_iff.mp hconfig']
      exact hscripts config hconfig

end

/-! ## Scripts that were not computed -/

/-- Tables that compute the Latin script for English. -/
def englishData : LocaleData :=
  { LocaleData.unknown with
    computeScript := fun language _ =>
      if language = kEnglish then #v[0x4c, 0x61, 0x74, 0x6e] else defaultConfig.localeScript }

/-- An English value for a smallest width, with a script that is marked as computed or none. -/
def englishValue (smallestScreenWidthDp : UInt16) (script : Option (Vector UInt8 4)) :
    ResourceConfigValue ι where
  config :=
    { defaultConfig with
      language := kEnglish
      smallestScreenWidthDp
      localeScript := script.getD defaultConfig.localeScript
      localeScriptWasComputed := script.isSome }
  product := []
  value := none
  usesReadwriteFeatureFlags := false

/-- `dominatorTree_invariants` for three English values. -/
theorem dominatorTree_english : ∃ roots, DominatorTree.new englishData
      [englishValue (ι := Unit) 400 none, englishValue 600 (some #v[0x4c, 0x61, 0x74, 0x6e]),
        englishValue 300 none] = some roots
      ∧ (productTree roots []).Apart (Node.dominates englishData) := by
  obtain ⟨roots, hnew, htrees⟩ := dominatorTree_invariants englishData
    [englishValue (ι := Unit) 400 none, englishValue 600 (some #v[0x4c, 0x61, 0x74, 0x6e]),
      englishValue 300 none]
  refine ⟨roots, hnew, (htrees []).2.2 ?_⟩
  intro config hconfig
  have hmem : config ∈ [englishValue (ι := Unit) 400 none,
      englishValue 600 (some #v[0x4c, 0x61, 0x74, 0x6e]), englishValue 300 none] :=
    (List.mem_filter.mp hconfig).1
  simp only [List.mem_cons, List.not_mem_nil, or_false] at hmem
  rcases hmem with rfl | rfl | rfl
  · exact fun h => absurd h Bool.false_ne_true
  · exact fun _ => rfl
  · exact fun h => absurd h Bool.false_ne_true

/-- English values of which the first has a script that is marked as computed but is none of
English. -/
def wrongScripts : List (ResourceConfigValue Unit) :=
  [englishValue 300 (some #v[0x43, 0x79, 0x72, 0x6c]), englishValue 450 none,
    englishValue 500 (some #v[0x4c, 0x61, 0x74, 0x6e]), englishValue 400 none]

/-- Whether the second of two grandchildren in a row of single children dominates the first one. -/
def lastDominates (tree : Node Unit) : Bool :=
  match tree with
  | .node _ [.node _ [.node _ [d, c]]] => Node.dominates englishData c.value d.value
  | _ => false

/-- Then siblings are not apart. -/
theorem not_apart_of_lastDominates {tree : Node Unit} (h : lastDominates tree = true) :
    ¬ tree.Apart (Node.dominates englishData) := by
  intro hapart
  unfold lastDominates at h
  split at h
  · obtain ⟨-, hapart⟩ := hapart
    obtain ⟨-, hapart⟩ := hapart _ (List.mem_singleton_self _)
    obtain ⟨hsiblings, -⟩ := hapart _ (List.mem_singleton_self _)
    have hpair := (List.pairwise_cons.mp hsiblings).1 _ (List.mem_singleton_self _)
    rw [h] at hpair
    exact absurd hpair.2 (by decide)
  · cases h

/-- **With a script that was not computed siblings can dominate each other**: the last value takes
over the third one and then the second one, which dominates the third one. -/
theorem not_apart_wrongScripts :
    wrongScripts.Pairwise (fun v w => v.config.compare w.config ≠ .eq)
      ∧ ∃ roots, DominatorTree.new englishData wrongScripts = some roots
        ∧ ¬ (productTree roots []).Apart (Node.dominates englishData) := by
  refine ⟨by decide +kernel, ?_⟩
  obtain ⟨roots, hnew, htrees⟩ := new_eq englishData wrongScripts
  refine ⟨roots, hnew, not_apart_of_lastDominates ?_⟩
  rw [htrees]
  decide +kernel

end AndroidSdk.Aapt2
