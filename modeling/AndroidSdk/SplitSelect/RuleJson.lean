import AndroidSdk.Lib.Json
import AndroidSdk.Lib.Run
import AndroidSdk.SplitSelect.RuleText
import Mathlib.Algebra.BigOperators.Ring.List

/-! # The text of a rule as JSON

Whether the text that `Rule::toJson` writes is a JSON text from which the rule can be read back.
Texts among the arguments are written without quotes, so that it is not one if there are any.

* **`Rule.decode`** — the rule that a JSON value stands for.
* **`Rule.encode`** — the JSON value that stands for a rule; no other one is written with fewer
  characters (`cost_encode_le`).
* **`cost_encode`** — the text has two characters too few for every text among the arguments.
* **`parses_iff`** — which rules are read back. -/

namespace AndroidSdk.SplitSelect

open Lib

/-- The operator that a text stands for. -/
def Operator.ofText (text : List Char) : Option Operator :=
  [.lessThan, .greaterThan, .equals, .containsAny, .containsAll, .isTrue, .isFalse, .andSubrules,
    .orSubrules, .alwaysTrue].find? fun op : Operator => op.text = text

/-- The key that a text stands for. -/
def Key.ofText (text : List Char) : Option Key :=
  [.none, .sdkVersion, .screenDensity, .language, .nativePlatform, .touchScreen, .screenSize,
    .screenLayout].find? fun key : Key => key.text = text

theorem Operator.ofText_text (op : Operator) : Operator.ofText op.text = some op := by
  cases op <;> decide

theorem Operator.text_of_ofText {text : List Char} {op : Operator}
    (h : Operator.ofText text = some op) : op.text = text := by
  simpa using List.find?_some h

theorem Key.ofText_text (key : Key) : Key.ofText key.text = some key := by
  cases key <;> decide

theorem Key.text_of_ofText {text : List Char} {key : Key} (h : Key.ofText text = some key) :
    key.text = text := by
  simpa using List.find?_some h

namespace Rule

/-! ## Decoding -/

/-- The text of a JSON string. -/
def textOf : Json → Option (List Char)
  | .str text => some text
  | _ => none

/-- The integer of a JSON number. -/
def intOf : Json → Option ℤ
  | .num literal => Json.toInt literal
  | _ => none

/-- The elements of a JSON array. -/
def elementsOf : Json → Option (List Json)
  | .arr vs => some vs
  | _ => none

/-- The flag of a rule, which is not set unless it is there. -/
def negateOf : Option Json → Option Bool
  | none => some false
  | some (.bool b) => some b
  | some _ => none

/-- A rule without subrules, from the members of its object. The kind of its arguments depends on
its key. -/
def decodeLeaf (op : Operator) (negate : Bool) (ms : List (List Char × Json)) : Option Rule := do
  let key ← (ms.lookup "property".toList >>= textOf) >>= Key.ofText
  match key with
  | .sdkVersion | .screenDensity =>
      let args ← (ms.lookup "args".toList >>= elementsOf) >>= fun vs => vs.mapM intOf
      return mk op key negate [] args []
  | .language | .nativePlatform =>
      let args ← (ms.lookup "args".toList >>= elementsOf) >>= fun vs => vs.mapM textOf
      return mk op key negate (args.map String.ofList) [] []
  | _ => return mk op key negate [] [] []

mutual

/-- **The rule that a JSON value stands for.** -/
def decode : Json → Option Rule
  | .obj ms => do
      let op ← (ms.lookup "op".toList >>= textOf) >>= Operator.ofText
      let negate ← negateOf (ms.lookup "negate".toList)
      if op.isCombinator then
        let subrules ← decodeSubrules ms
        return mk op .none negate [] [] subrules
      else decodeLeaf op negate ms
  | _ => none

/-- The rules of the member with the subrules. -/
def decodeSubrules : List (List Char × Json) → Option (List Rule)
  | [] => none
  | (name, v) :: ms => if name = "subrules".toList then decodeArray v else decodeSubrules ms

/-- The rules of an array. -/
def decodeArray : Json → Option (List Rule)
  | .arr vs => decodeAll vs
  | _ => none

/-- The rules of the elements of an array. -/
def decodeAll : List Json → Option (List Rule)
  | [] => some []
  | v :: vs => do
      let r ← decode v
      let rs ← decodeAll vs
      return r :: rs

end

/-! ## Encoding -/

/-- The member with the arguments of a rule. -/
def argsMembers (key : Key) (stringArgs : List String) (longArgs : List Int) :
    List (List Char × Json) :=
  match key with
  | .sdkVersion | .screenDensity =>
      [("args".toList, .arr (longArgs.map fun n => .num (toString n).toList))]
  | .language | .nativePlatform =>
      [("args".toList, .arr (stringArgs.map fun s => .str s.toList))]
  | _ => []

/-- The name of the member with the arguments, if there is one. -/
def argsNames : Key → List (List Char)
  | .sdkVersion | .screenDensity | .language | .nativePlatform => ["args".toList]
  | _ => []

theorem map_fst_argsMembers (key : Key) (stringArgs : List String) (longArgs : List Int) :
    (argsMembers key stringArgs longArgs).map Prod.fst = argsNames key := by
  cases key <;> rfl

/-- The member with the flag of a rule. -/
def negateMembers (negate : Bool) : List (List Char × Json) :=
  if negate then [("negate".toList, .bool true)] else []

mutual

/-- **The JSON value that stands for a rule.** -/
def encode : Rule → Json
  | mk op key negate stringArgs longArgs subrules =>
      .obj (("op".toList, .str op.text) :: (negateMembers negate
        ++ (if op.isCombinator then [("subrules".toList, .arr (encodeAll subrules))]
          else ("property".toList, .str key.text) :: argsMembers key stringArgs longArgs)))

/-- The JSON values that stand for rules. -/
def encodeAll : List Rule → List Json
  | [] => []
  | r :: rs => encode r :: encodeAll rs

end

/-- The texts among the arguments that `toJson` writes. -/
def rawArgs (key : Key) (stringArgs : List String) : ℕ :=
  match key with
  | .language | .nativePlatform => stringArgs.length
  | _ => 0

mutual

/-- The number of texts that are written without quotes. -/
def rawTexts : Rule → ℕ
  | mk op key _ stringArgs _ subrules =>
      if op.isCombinator then rawTextsAll subrules else rawArgs key stringArgs

/-- The number of texts that are written without quotes, for several rules. -/
def rawTextsAll : List Rule → ℕ
  | [] => 0
  | r :: rs => rawTexts r + rawTextsAll rs

end

/-! ## The characters of the text -/

section Characters

open Json

@[simp] theorem inked_indentStr (indent : ℕ) : inked (indentStr indent) = 0 := by
  induction indent with
  | zero => rfl
  | succ indent ih => simp [indentStr, inked_cons, isBlank, ih]

@[simp] theorem inked_quoted (text : List Char) : inked (quoted text) = inked text + 2 := by
  simp [quoted, inked_cons, isBlank]
  omega

@[simp] theorem inked_memberText (name : String) (value : List Char) :
    inked (memberText name value) = inked name.toList + inked value + 3 := by
  have hcolon : inked ": ".toList = 1 := rfl
  simp [memberText, -String.reduceToList, hcolon]
  omega

@[simp] theorem inked_nextMember (indent : ℕ) (name : String) (value : List Char) :
    inked (nextMember indent name value) = inked name.toList + inked value + 4 := by
  have hcomma : inked ",\n".toList = 1 := rfl
  rw [nextMember, inked_append, inked_append, hcomma, inked_indentStr, inked_memberText]
  omega

/-- The characters of a list whose items are separated by commas, with one more at the end. -/
theorem inked_commas {α : Type} {text : List α → List Char} {item : α → List Char}
    (hnil : inked (text []) = 0) (hone : ∀ a, inked (text [a]) = inked (item a))
    (hcons : ∀ a b l, inked (text (a :: b :: l)) = inked (item a) + (1 + inked (text (b :: l))))
    (l : List α) : inked (text l) + 1 = max 1 (l.map fun a => inked (item a) + 1).sum := by
  induction l with
  | nil =>
      rw [hnil]
      rfl
  | cons a l ih =>
      cases l with
      | nil => simp [hone]
      | cons b l =>
          have hpos : 1 ≤ ((b :: l).map fun a => inked (item a) + 1).sum := by
            rw [List.map_cons, List.sum_cons]
            omega
          rw [max_eq_right hpos] at ih
          rw [hcons, List.map_cons, List.sum_cons, ← ih, max_eq_right (by omega)]
          omega

/-- The characters of the arguments. -/
theorem inked_separated (args : List (List Char)) :
    inked (separated args) + 1 = max 1 (args.map fun arg => inked arg + 1).sum := by
  have hcomma : inked ", ".toList = 1 := rfl
  refine @inked_commas _ separated (fun arg => arg) rfl (fun arg => rfl) ?_ args
  intro arg arg' args
  show inked (arg ++ (", ".toList ++ separated (arg' :: args))) = _
  rw [inked_append, inked_append, hcomma]

/-- The characters of the subrules. -/
theorem inked_subrulesJson (indent : ℕ) (rs : List Rule) :
    inked (subrulesJson indent rs) + 1
      = max 1 (rs.map fun r => inked (toJson indent r) + 1).sum := by
  have hcomma : inked ",\n".toList = 1 := rfl
  refine inked_commas rfl (fun r => ?_) (fun r r' rs => ?_) rs
  · have hline : inked ['\n'] = 0 := rfl
    rw [subrulesJson, inked_append, hline, Nat.add_zero]
  · show inked (toJson indent r ++ (",\n".toList ++ subrulesJson indent (r' :: rs))) = _
    rw [inked_append, inked_append, hcomma]

/-- What is missing in the items of a list is missing in the list. -/
theorem max_sum_add {α : Type} (l : List α) (f k : α → ℕ) :
    max 1 (l.map fun a => f a + k a + 1).sum
      = max 1 (l.map fun a => f a + 1).sum + (l.map k).sum := by
  cases l with
  | nil => rfl
  | cons a l =>
      have hsum : (l.map fun a => f a + k a + 1).sum
          = (l.map fun a => f a + 1).sum + (l.map k).sum := by
        rw [← List.sum_map_add]
        exact congrArg List.sum (List.map_congr_left fun a _ => by omega)
      simp only [List.map_cons, List.sum_cons, hsum]
      rw [max_eq_right (by omega), max_eq_right (by omega)]
      omega

theorem encodeAll_eq (rs : List Rule) : encodeAll rs = rs.map encode := by
  induction rs with
  | nil => rfl
  | cons r rs ih => rw [encodeAll, ih, List.map_cons]

theorem rawTextsAll_eq (rs : List Rule) : rawTextsAll rs = (rs.map rawTexts).sum := by
  induction rs with
  | nil => rfl
  | cons r rs ih => rw [rawTextsAll, ih, List.map_cons, List.sum_cons]

/-- The characters of the arguments. -/
theorem memberCosts_argsMembers (indent : ℕ) (key : Key) (stringArgs : List String)
    (longArgs : List Int) :
    memberCosts (argsMembers key stringArgs longArgs)
      = inked (argsJson indent key stringArgs longArgs) + 2 * rawArgs key stringArgs := by
  have hlong : memberCosts
        [("args".toList, Json.arr (longArgs.map fun n => .num (toString n).toList))]
      = inked (nextMember indent "args"
          ('[' :: (separated (longArgs.map fun n => (toString n).toList) ++ [']']))) := by
    have hseparated := inked_separated (longArgs.map fun n => (toString n).toList)
    rw [List.map_map] at hseparated
    rw [inked_nextMember, inked_cons_of_inked (by decide), inked_append]
    simp only [memberCosts, cost, costs_eq_sum, List.map_map]
    have hclose : inked [']'] = 1 := rfl
    have hsame : (fun v => cost v + 1) ∘ (fun n : ℤ => Json.num (toString n).toList)
        = (fun arg => inked arg + 1) ∘ fun n : ℤ => (toString n).toList := by
      funext n
      rfl
    rw [hsame, ← hseparated, hclose]
    omega
  have hstring : memberCosts [("args".toList, Json.arr (stringArgs.map fun s => .str s.toList))]
      = inked (nextMember indent "args"
          ('[' :: (separated (stringArgs.map String.toList) ++ [']'])))
        + 2 * stringArgs.length := by
    have hseparated := inked_separated (stringArgs.map String.toList)
    rw [List.map_map] at hseparated
    have hmax := max_sum_add stringArgs (fun s => inked s.toList) fun _ => 2
    have hclose : inked [']'] = 1 := rfl
    have hsame : (fun v => cost v + 1) ∘ (fun s : String => Json.str s.toList)
        = fun s => inked s.toList + 2 + 1 := by
      funext s
      rfl
    rw [inked_nextMember, inked_cons_of_inked (by decide), inked_append]
    simp only [memberCosts, cost, costs_eq_sum, List.map_map]
    rw [hsame, hmax, hclose]
    have htwo : (stringArgs.map fun _ => 2).sum = 2 * stringArgs.length := by
      simp [Nat.mul_comm]
    have hf : (fun arg => inked arg + 1) ∘ String.toList = fun s : String => inked s.toList + 1 :=
      rfl
    rw [hf] at hseparated
    rw [htwo, ← hseparated]
    omega
  cases key with
  | sdkVersion => exact hlong
  | screenDensity => exact hlong
  | language => exact hstring
  | nativePlatform => exact hstring
  | none => rfl
  | touchScreen => rfl
  | screenSize => rfl
  | screenLayout => rfl

/-- **The text has two characters too few for every text among the arguments**: those of the
quotes. -/
theorem cost_encode (r : Rule) (indent : ℕ) :
    cost (encode r) = inked (toJson indent r) + 2 * rawTexts r := by
  induction r using treeInduction generalizing indent with
  | node op key negate stringArgs longArgs subrules ih =>
      have hbrace : inked "\x7b\n".toList = 1 := rfl
      have hclose : inked ('\n' :: (indentStr indent ++ ['\x7d'])) = 1 := by
        rw [inked_cons, inked_append, inked_indentStr]
        rfl
      have hnegate : memberCosts (negateMembers negate)
          = inked (if negate then nextMember (indent + 1) "negate" "true".toList else []) := by
        cases negate with
        | false => rfl
        | true =>
            rw [if_pos rfl, inked_nextMember]
            rfl
      rw [encode, cost, memberCosts, memberCosts_append, hnegate, toJson, rawTexts]
      simp only [inked_append, inked_indentStr, hbrace, inked_memberText, inked_quoted, hclose,
        cost]
      by_cases hop : op.isCombinator
      · simp only [if_pos hop, inked_nextMember, inked_append, inked_indentStr]
        have hopen : inked "[\n".toList = 1 := rfl
        have hbracket : inked [']'] = 1 := rfl
        have hmax := max_sum_add subrules (fun r => inked (toJson (indent + 2) r))
          fun r => 2 * rawTexts r
        have hsame : subrules.map (fun r => cost (encode r) + 1)
            = subrules.map fun r => inked (toJson (indent + 2) r) + 2 * rawTexts r + 1 :=
          List.map_congr_left fun r hr => by rw [ih r hr]
        have hraw : (subrules.map fun r => 2 * rawTexts r).sum = 2 * rawTextsAll subrules := by
          rw [rawTextsAll_eq]
          exact List.sum_map_mul_left ..
        have hcosts : costs (encodeAll subrules)
            = (subrules.map fun r => inked (toJson (indent + 2) r) + 2 * rawTexts r + 1).sum := by
          rw [costs_eq_sum, encodeAll_eq, List.map_map, ← hsame]
          rfl
        simp only [memberCosts, cost]
        rw [hcosts, hmax, hraw, ← inked_subrulesJson, hopen, hbracket]
        omega
      · simp only [if_neg hop, inked_append, inked_nextMember, inked_quoted, memberCosts, cost]
        rw [memberCosts_argsMembers (indent + 1)]
        omega

end Characters

/-! ## The cheapest value -/

section Cheapest

open Json

/-- What is found among the members is there. -/
theorem mem_of_lookup {name : List Char} {v : Json} {ms : List (List Char × Json)}
    (h : ms.lookup name = some v) : (name, v) ∈ ms := by
  obtain ⟨before, after, rfl, -⟩ := List.lookup_eq_some_iff.mp h
  simp

/-- The elements that stand for subrules. -/
theorem exists_of_decodeSubrules {ms : List (List Char × Json)} {rs : List Rule}
    (h : decodeSubrules ms = some rs) :
    ∃ vs, ("subrules".toList, Json.arr vs) ∈ ms ∧ decodeAll vs = some rs := by
  induction ms with
  | nil => cases h
  | cons p ms ih =>
      obtain ⟨name, v⟩ := p
      rw [decodeSubrules] at h
      split at h
      next hname =>
        subst hname
        cases v with
        | arr vs => exact ⟨vs, List.mem_cons_self, h⟩
        | _ => cases h
      · obtain ⟨vs, hmem, hvs⟩ := ih h
        exact ⟨vs, List.mem_cons_of_mem _ hmem, hvs⟩

/-- Every rule of an array stands for one of its elements. -/
theorem forall₂_of_decodeAll {vs : List Json} {rs : List Rule} (h : decodeAll vs = some rs) :
    List.Forall₂ (fun v r => decode v = some r) vs rs := by
  induction vs generalizing rs with
  | nil =>
      cases h
      exact .nil
  | cons v vs ih =>
      rw [decodeAll] at h
      obtain ⟨r, hr, h⟩ := Option.bind_eq_some_iff.mp h
      obtain ⟨rs', hrs, h⟩ := Option.bind_eq_some_iff.mp h
      cases h
      exact .cons hr (ih hrs)

/-- Integers that stand for arguments take at least what the arguments take. -/
theorem costs_intArgs_le {vs : List Json} {args : List ℤ}
    (h : List.Forall₂ (fun v n => intOf v = some n) vs args) :
    costs (args.map fun n => .num (toString n).toList) ≤ costs vs := by
  induction h with
  | nil => exact le_rfl
  | @cons v n vs args hv _ ih =>
      cases v with
      | num literal =>
          have hle := inked_toString_le hv
          simp only [List.map_cons, costs, cost]
          omega
      | _ => cases hv

/-- Strings that stand for arguments are the arguments. -/
theorem eq_of_textArgs {vs : List Json} {args : List (List Char)}
    (h : List.Forall₂ (fun v text => textOf v = some text) vs args) :
    vs = args.map Json.str := by
  induction h with
  | nil => rfl
  | @cons v text vs args hv _ ih =>
      cases v with
      | str text' =>
          cases hv
          rw [ih, List.map_cons]
      | _ => cases hv

/-- What the members of a rule without subrules have: the property, and the arguments of its
kind. -/
structure LeafMembers (ms : List (List Char × Json)) (key : Key) (stringArgs : List String)
    (longArgs : List Int) : Prop where
  property : ("property".toList, Json.str key.text) ∈ ms
  args : ∃ args ⊆ ms, args.map Prod.fst = argsNames key
    ∧ memberCosts (argsMembers key stringArgs longArgs) ≤ memberCosts args
  long : longArgs ≠ [] → key = .sdkVersion ∨ key = .screenDensity
  raw : stringArgs ≠ [] → rawArgs key stringArgs ≠ 0

/-- What is read from a member with a property. -/
theorem mem_of_textOf {name : String} {ms : List (List Char × Json)} {text : List Char}
    (h : (ms.lookup name.toList >>= textOf) = some text) : (name.toList, Json.str text) ∈ ms := by
  obtain ⟨v, hv, htext⟩ := Option.bind_eq_some_iff.mp h
  cases v with
  | str text' =>
      cases htext
      exact mem_of_lookup hv
  | _ => cases htext

/-- What is read from a member with arguments. -/
theorem mem_of_elementsOf {name : String} {ms : List (List Char × Json)} {vs : List Json}
    (h : (ms.lookup name.toList >>= elementsOf) = some vs) : (name.toList, Json.arr vs) ∈ ms := by
  obtain ⟨v, hv, helements⟩ := Option.bind_eq_some_iff.mp h
  cases v with
  | arr vs' =>
      cases helements
      exact mem_of_lookup hv
  | _ => cases helements

/-- A rule with integers as arguments. -/
theorem leafMembers_long {ms : List (List Char × Json)} {key : Key} {vs : List Json} {args : List ℤ}
    (hkey : key = .sdkVersion ∨ key = .screenDensity)
    (hproperty : ("property".toList, Json.str key.text) ∈ ms)
    (hmem : ("args".toList, Json.arr vs) ∈ ms) (hargs : vs.mapM intOf = some args) :
    LeafMembers ms key [] args where
  property := hproperty
  args := by
    have hcosts := costs_intArgs_le (mapM_eq_some_iff.mp hargs)
    have hmembers : argsMembers key [] args
        = [("args".toList, .arr (args.map fun n => .num (toString n).toList))] := by
      obtain rfl | rfl := hkey <;> rfl
    refine ⟨[("args".toList, .arr vs)], List.cons_subset.mpr ⟨hmem, List.nil_subset ms⟩, ?_, ?_⟩
    · rw [← map_fst_argsMembers key [] args, hmembers]
      rfl
    · rw [hmembers]
      simp only [memberCosts, cost]
      omega
  long _ := hkey
  raw h := absurd rfl h

/-- A rule with texts as arguments. -/
theorem leafMembers_string {ms : List (List Char × Json)} {key : Key} {vs : List Json}
    {args : List (List Char)} (hkey : key = .language ∨ key = .nativePlatform)
    (hproperty : ("property".toList, Json.str key.text) ∈ ms)
    (hmem : ("args".toList, Json.arr vs) ∈ ms) (hargs : vs.mapM textOf = some args) :
    LeafMembers ms key (args.map String.ofList) [] where
  property := hproperty
  args := by
    have hvs := eq_of_textArgs (mapM_eq_some_iff.mp hargs)
    have hmembers : argsMembers key (args.map String.ofList) [] = [("args".toList, .arr vs)] := by
      have hsame : (args.map String.ofList).map (fun s => Json.str s.toList) = vs := by
        rw [hvs, List.map_map]
        exact List.map_congr_left fun text _ => congrArg Json.str String.toList_ofList
      obtain rfl | rfl := hkey
      · rw [argsMembers, hsame]
      · rw [argsMembers, hsame]
    refine ⟨[("args".toList, .arr vs)], List.cons_subset.mpr ⟨hmem, List.nil_subset ms⟩, ?_, ?_⟩
    · rw [← map_fst_argsMembers key (args.map String.ofList) [], hmembers]
    · rw [hmembers]
  long h := absurd rfl h
  raw h := by
    have hlength := List.length_pos_of_ne_nil h
    obtain rfl | rfl := hkey
    · exact Nat.pos_iff_ne_zero.mp hlength
    · exact Nat.pos_iff_ne_zero.mp hlength

/-- **What a rule without subrules is read from.** -/
theorem decodeLeaf_cases {op : Operator} {negate : Bool} {ms : List (List Char × Json)} {r : Rule}
    (h : decodeLeaf op negate ms = some r) :
    ∃ key stringArgs longArgs, r = mk op key negate stringArgs longArgs []
      ∧ LeafMembers ms key stringArgs longArgs := by
  rw [decodeLeaf] at h
  obtain ⟨key, hkey, h⟩ := Option.bind_eq_some_iff.mp h
  obtain ⟨text, htext, hofText⟩ := Option.bind_eq_some_iff.mp hkey
  have hproperty : ("property".toList, Json.str key.text) ∈ ms := by
    rw [Key.text_of_ofText hofText]
    exact mem_of_textOf htext
  have hlong (hargs : ((ms.lookup "args".toList >>= elementsOf) >>= fun vs => vs.mapM intOf)
      >>= (fun args => some (mk op key negate [] args [])) = some r)
      (hkey : key = .sdkVersion ∨ key = .screenDensity) : ∃ key stringArgs longArgs,
        r = mk op key negate stringArgs longArgs [] ∧ LeafMembers ms key stringArgs longArgs := by
    obtain ⟨args, hread, hr⟩ := Option.bind_eq_some_iff.mp hargs
    obtain ⟨vs, hvs, hread⟩ := Option.bind_eq_some_iff.mp hread
    cases hr
    exact ⟨key, [], args, rfl, leafMembers_long hkey hproperty (mem_of_elementsOf hvs) hread⟩
  have hstring (hargs : ((ms.lookup "args".toList >>= elementsOf) >>= fun vs => vs.mapM textOf)
      >>= (fun args => some (mk op key negate (args.map String.ofList) [] [])) = some r)
      (hkey : key = .language ∨ key = .nativePlatform) : ∃ key stringArgs longArgs,
        r = mk op key negate stringArgs longArgs [] ∧ LeafMembers ms key stringArgs longArgs := by
    obtain ⟨args, hread, hr⟩ := Option.bind_eq_some_iff.mp hargs
    obtain ⟨vs, hvs, hread⟩ := Option.bind_eq_some_iff.mp hread
    cases hr
    exact ⟨key, _, [], rfl, leafMembers_string hkey hproperty (mem_of_elementsOf hvs) hread⟩
  have hnone (hr : r = mk op key negate [] [] []) (hargs : argsMembers key [] [] = []) :
      ∃ key stringArgs longArgs,
        r = mk op key negate stringArgs longArgs [] ∧ LeafMembers ms key stringArgs longArgs := by
    refine ⟨key, [], [], hr, hproperty, ⟨[], List.nil_subset ms, ?_, ?_⟩, fun h => absurd rfl h,
      fun h => absurd rfl h⟩
    · rw [← map_fst_argsMembers key [] [], hargs]
    · rw [hargs]
  cases key with
  | sdkVersion => exact hlong h (.inl rfl)
  | screenDensity => exact hlong h (.inr rfl)
  | language => exact hstring h (.inl rfl)
  | nativePlatform => exact hstring h (.inr rfl)
  | none => exact hnone (Option.some.inj h).symm rfl
  | touchScreen => exact hnone (Option.some.inj h).symm rfl
  | screenSize => exact hnone (Option.some.inj h).symm rfl
  | screenLayout => exact hnone (Option.some.inj h).symm rfl

/-- What a value that stands for a combinator has. -/
structure NodeMembers (ms : List (List Char × Json)) (key : Key) (stringArgs : List String)
    (longArgs : List Int) (subrules : List Rule) : Prop where
  key : key = .none
  stringArgs : stringArgs = []
  longArgs : longArgs = []
  subrules : ∃ vs, ("subrules".toList, Json.arr vs) ∈ ms
    ∧ List.Forall₂ (fun v r => decode v = some r) vs subrules

/-- What is read from the member with the flag. -/
theorem negateMembers_subset {ms : List (List Char × Json)} {negate : Bool}
    (h : negateOf (ms.lookup "negate".toList) = some negate) : negateMembers negate ⊆ ms := by
  cases hlookup : ms.lookup "negate".toList with
  | none =>
      rw [hlookup] at h
      cases h
      exact List.nil_subset ms
  | some v =>
      rw [hlookup] at h
      cases v with
      | bool b =>
          cases h
          cases negate with
          | false => exact List.nil_subset ms
          | true => exact List.cons_subset.mpr ⟨mem_of_lookup hlookup, List.nil_subset ms⟩
      | _ => cases h

/-- **What a rule is read from**: the members with the operator and with the flag, and either the
subrules, or the property and the arguments. -/
theorem decode_cases {j : Json} {op : Operator} {key : Key} {negate : Bool}
    {stringArgs : List String} {longArgs : List Int} {subrules : List Rule}
    (h : decode j = some (mk op key negate stringArgs longArgs subrules)) :
    ∃ ms, j = .obj ms ∧ ("op".toList, Json.str op.text) ∈ ms ∧ negateMembers negate ⊆ ms
      ∧ (op.isCombinator ∧ NodeMembers ms key stringArgs longArgs subrules
        ∨ ¬ op.isCombinator ∧ subrules = [] ∧ LeafMembers ms key stringArgs longArgs) := by
  cases j with
  | obj ms =>
      rw [decode] at h
      obtain ⟨op', hop', h⟩ := Option.bind_eq_some_iff.mp h
      obtain ⟨negate', hnegate', h⟩ := Option.bind_eq_some_iff.mp h
      obtain ⟨text, htext, hofText⟩ := Option.bind_eq_some_iff.mp hop'
      have hop : ("op".toList, Json.str op'.text) ∈ ms := by
        rw [Operator.text_of_ofText hofText]
        exact mem_of_textOf htext
      have hnegate := negateMembers_subset hnegate'
      split at h
      next hcombinator =>
        obtain ⟨rs, hrs, h⟩ := Option.bind_eq_some_iff.mp h
        cases h
        obtain ⟨vs, hmem, hvs⟩ := exists_of_decodeSubrules hrs
        exact ⟨ms, rfl, hop, hnegate,
          .inl ⟨hcombinator, rfl, rfl, rfl, vs, hmem, forall₂_of_decodeAll hvs⟩⟩
      next hleaf =>
        obtain ⟨key', stringArgs', longArgs', hr, hmembers⟩ := decodeLeaf_cases h
        cases hr
        exact ⟨ms, rfl, hop, hnegate, .inr ⟨hleaf, rfl, hmembers⟩⟩
  | _ => simp [decode] at h

/-- The members of an object take at least what those of a rule take. -/
theorem cost_obj_le {ms rest rest' : List (List Char × Json)} {op : Operator} {negate : Bool}
    (hop : ("op".toList, Json.str op.text) ∈ ms) (hnegate : negateMembers negate ⊆ ms)
    (hrest : rest ⊆ ms) (hnames : (rest.map Prod.fst).Nodup)
    (hother : "op".toList ∉ rest.map Prod.fst ∧ "negate".toList ∉ rest.map Prod.fst)
    (hcost : memberCosts rest' ≤ memberCosts rest) :
    cost (.obj (("op".toList, .str op.text) :: (negateMembers negate ++ rest')))
      ≤ cost (.obj ms) := by
  have hsubset : ("op".toList, Json.str op.text) :: (negateMembers negate ++ rest) ⊆ ms :=
    List.cons_subset.mpr ⟨hop, List.append_subset.mpr ⟨hnegate, hrest⟩⟩
  have hnodup : ((("op".toList, Json.str op.text) :: (negateMembers negate ++ rest)).map
      Prod.fst).Nodup := by
    cases negate with
    | false => exact List.nodup_cons.mpr ⟨hother.1, hnames⟩
    | true =>
        refine List.nodup_cons.mpr ⟨?_, List.nodup_cons.mpr ⟨hother.2, hnames⟩⟩
        intro h
        obtain h | h := List.mem_cons.mp h
        · exact absurd (show "op".toList = "negate".toList from h) (by decide)
        · exact hother.1 h
  have hle := memberCosts_le_of_subset hnodup hsubset
  simp only [memberCosts, memberCosts_append, cost] at hle ⊢
  omega

/-- **The value that stands for a rule takes the fewest characters.** -/
theorem cost_encode_le {j : Json} {r : Rule} (h : decode j = some r) :
    cost (encode r) ≤ cost j := by
  induction r using treeInduction generalizing j with
  | node op key negate stringArgs longArgs subrules ih =>
      obtain ⟨ms, rfl, hop, hnegate, ⟨hcombinator, hnode⟩ | ⟨hleaf, -, hmembers⟩⟩ := decode_cases h
      · obtain ⟨vs, hmem, hvs⟩ := hnode.subrules
        have hcosts : costs (encodeAll subrules) ≤ costs vs := by
          clear hmem hnode h
          induction hvs with
          | nil => exact le_rfl
          | @cons v r vs rs hv _ ihvs =>
              have hr := ih r List.mem_cons_self hv
              have hrs := ihvs fun r' hr' => ih r' (List.mem_cons_of_mem r hr')
              simp only [encodeAll, costs]
              omega
        rw [encode, if_pos hcombinator]
        have hrest : [("subrules".toList, Json.arr vs)] ⊆ ms :=
          List.cons_subset.mpr ⟨hmem, List.nil_subset ms⟩
        refine cost_obj_le hop hnegate hrest (List.nodup_singleton _) ?_ ?_
        · show "op".toList ∉ ["subrules".toList] ∧ "negate".toList ∉ ["subrules".toList]
          decide
        · simp only [memberCosts, cost]
          omega
      · obtain ⟨args, hargs, hnames, hcost⟩ := hmembers.args
        rw [encode, if_neg hleaf]
        have hrest : ("property".toList, Json.str key.text) :: args ⊆ ms :=
          List.cons_subset.mpr ⟨hmembers.property, hargs⟩
        refine cost_obj_le hop hnegate hrest ?_ ?_ ?_
        · rw [List.map_cons, hnames]
          show ("property".toList :: argsNames key).Nodup
          cases key <;> decide
        · rw [List.map_cons, hnames]
          show "op".toList ∉ "property".toList :: argsNames key
            ∧ "negate".toList ∉ "property".toList :: argsNames key
          cases key <;> decide
        · simp only [memberCosts]
          omega

end Cheapest

/-! ## Reading the text -/

/-- A rule whose text is read back: none of its leaves has a text among its arguments, and it has
nothing that is not written, neither a property or arguments at a combinator, nor subrules or
arguments at a leaf that does not use them. -/
inductive Plain : Rule → Prop
  | node {op : Operator} {negate : Bool} {subrules : List Rule} (hop : op.isCombinator)
      (hs : ∀ r ∈ subrules, Plain r) : Plain (mk op .none negate [] [] subrules)
  | leaf {op : Operator} {key : Key} {negate : Bool} {longArgs : List Int}
      (hop : ¬ op.isCombinator)
      (hargs : longArgs ≠ [] → key = .sdkVersion ∨ key = .screenDensity) :
      Plain (mk op key negate [] longArgs [])

section Reading

open Json

theorem isBlank_of_mem_indentStr (indent : ℕ) : ∀ c ∈ indentStr indent, isBlank c = true := by
  induction indent with
  | zero => simp [indentStr]
  | succ indent ih =>
      intro c hc
      simp only [indentStr, List.mem_cons] at hc
      obtain rfl | rfl | hc := hc
      · rfl
      · rfl
      · exact ih c hc

/-- The end of a line and the indentation of the next one. -/
theorem isBlank_of_mem_newLine (indent : ℕ) : ∀ c ∈ '\n' :: indentStr indent, isBlank c = true := by
  intro c hc
  obtain rfl | hc := List.mem_cons.mp hc
  · rfl
  · exact isBlank_of_mem_indentStr indent c hc

/-- The last member of an object. -/
theorem readsMembers_last (name : String) (hname : ∀ c ∈ name.toList, isPlain c = true)
    {t : List Char} {v : Json} (hv : Reads t v) (indent : ℕ) :
    ReadsMembers (memberText name t ++ ('\n' :: (indentStr indent ++ ['\x7d'])))
      [(name.toList, v)] := by
  have hread := readsMembers_single hname hv (isBlank_of_mem_newLine indent)
  have hcolon : ": ".toList = [':', ' '] := rfl
  simpa [memberText, quoted, -String.reduceToList, hcolon] using hread

/-- A member of an object before others. -/
theorem readsMembers_next (name : String) (hname : ∀ c ∈ name.toList, isPlain c = true)
    {t u : List Char} {v : Json} {ms : List (List Char × Json)} (hv : Reads t v) (indent : ℕ)
    (hms : ReadsMembers u ms) :
    ReadsMembers (memberText name t ++ (",\n".toList ++ (indentStr indent ++ u)))
      ((name.toList, v) :: ms) := by
  have hread := readsMembers_cons hname hv (isBlank_of_mem_newLine indent) hms
  have hcolon : ": ".toList = [':', ' '] := rfl
  have hcomma : ",\n".toList = [',', '\n'] := rfl
  simpa [memberText, quoted, -String.reduceToList, hcolon, hcomma] using hread

/-- The integers of a rule. -/
theorem reads_longArgs (args : List ℤ) :
    Reads ('[' :: (separated (args.map fun n => (toString n).toList) ++ [']']))
      (.arr (args.map fun n => .num (toString n).toList)) := by
  have helements (args : List ℤ) (hne : args ≠ []) :
      ReadsElements (separated (args.map fun n => (toString n).toList) ++ [']'])
        (args.map fun n => .num (toString n).toList) := by
    induction args with
    | nil => exact absurd rfl hne
    | cons n args ih =>
        cases args with
        | nil => exact readsElements_single (reads_int n) (w := []) (by simp)
        | cons m args =>
            have hrest := ih (List.cons_ne_nil m args)
            have hread := readsElements_cons (reads_int n) (w := [' ']) (by simp [isBlank]) hrest
            have hcomma : ", ".toList = [',', ' '] := rfl
            simpa [separated, -String.reduceToList, hcomma] using hread
  by_cases hne : args = []
  · subst hne
    exact reads_arr_nil (w := []) (by simp)
  · exact reads_arr (w := []) (by simp) (helements args hne)

/-- The subrules of a rule, each on lines of its own. -/
theorem exists_readsElements {indent : ℕ} (indent' : ℕ) {rs : List Rule} (hne : rs ≠ [])
    (h : ∀ r ∈ rs, ∃ t, toJson indent r = indentStr indent ++ t ∧ Reads t (encode r)) :
    ∃ t, subrulesJson indent rs ++ (indentStr indent' ++ [']']) = indentStr indent ++ t
      ∧ ReadsElements t (encodeAll rs) := by
  induction rs with
  | nil => exact absurd rfl hne
  | cons r rs ih =>
      obtain ⟨t, ht, hread⟩ := h r List.mem_cons_self
      cases rs with
      | nil =>
          refine ⟨t ++ (('\n' :: indentStr indent') ++ [']']), ?_,
            readsElements_single hread (isBlank_of_mem_newLine indent')⟩
          simp [subrulesJson, ht]
      | cons r' rs =>
          obtain ⟨u, hu, hrest⟩ := ih (List.cons_ne_nil r' rs)
            fun r'' hr'' => h r'' (List.mem_cons_of_mem r hr'')
          have hcomma : ",\n".toList = [',', '\n'] := rfl
          refine ⟨t ++ (',' :: (('\n' :: indentStr indent) ++ u)), ?_,
            readsElements_cons hread (isBlank_of_mem_newLine indent) hrest⟩
          rw [subrulesJson, ht, hcomma]
          · simp [hu]
          · simp

/-- A text is plain if that is so for all of its characters. -/
theorem isPlain_of_all {t : List Char} (h : t.all isPlain = true) : ∀ c ∈ t, isPlain c = true :=
  List.all_eq_true.mp h

/-- The object of a rule, from the members after its flag. -/
theorem reads_obj_of_members (op : Operator) (negate : Bool) (indent : ℕ) {u : List Char}
    {ms : List (List Char × Json)} (hms : ReadsMembers u ms) :
    Reads ('\x7b' :: (('\n' :: indentStr indent)
        ++ (memberText "op" (quoted op.text)
          ++ ((if negate then nextMember indent "negate" "true".toList else [])
            ++ (",\n".toList ++ (indentStr indent ++ u))))))
      (.obj (("op".toList, .str op.text) :: (negateMembers negate ++ ms))) := by
  have hop : Reads (quoted op.text) (.str op.text) := by
    refine reads_str (isPlain_of_all ?_)
    cases op <;> rfl
  refine reads_obj (isBlank_of_mem_newLine indent) ?_
  cases negate with
  | false => exact readsMembers_next "op" (isPlain_of_all rfl) hop indent hms
  | true =>
      have hnegate := readsMembers_next "negate" (isPlain_of_all rfl) reads_true indent hms
      have hread := readsMembers_next "op" (isPlain_of_all rfl) hop indent hnegate
      simpa [nextMember, negateMembers, -String.reduceToList] using hread

/-- The property and the arguments of a rule without texts. -/
theorem readsMembers_leaf (key : Key) (longArgs : List ℤ) (indent : ℕ) :
    ReadsMembers (memberText "property" (quoted key.text)
        ++ (argsJson (indent + 1) key [] longArgs ++ ('\n' :: (indentStr indent ++ ['\x7d']))))
      (("property".toList, .str key.text) :: argsMembers key [] longArgs) := by
  have hkey : Reads (quoted key.text) (.str key.text) := by
    refine reads_str (isPlain_of_all ?_)
    cases key <;> rfl
  have hargs {t : List Char} {v : Json} (hv : Reads t v) :
      ReadsMembers (memberText "property" (quoted key.text)
          ++ (nextMember (indent + 1) "args" t ++ ('\n' :: (indentStr indent ++ ['\x7d']))))
        [("property".toList, .str key.text), ("args".toList, v)] := by
    have hlast := readsMembers_last "args" (isPlain_of_all rfl) hv indent
    have hread := readsMembers_next "property" (isPlain_of_all rfl) hkey (indent + 1) hlast
    simpa [nextMember, -String.reduceToList] using hread
  have hnone := readsMembers_last "property" (isPlain_of_all rfl) hkey indent
  have hempty : Reads ['[', ']'] (.arr []) := reads_arr_nil (w := []) (by simp)
  cases key with
  | sdkVersion => exact hargs (reads_longArgs longArgs)
  | screenDensity => exact hargs (reads_longArgs longArgs)
  | language => exact hargs hempty
  | nativePlatform => exact hargs hempty
  | none => exact hnone
  | touchScreen => exact hnone
  | screenSize => exact hnone
  | screenLayout => exact hnone

/-- **The text of a plain rule is read as the value that stands for the rule.** -/
theorem Plain.reads {r : Rule} (hr : Plain r) (indent : ℕ) :
    ∃ t, toJson indent r = indentStr indent ++ t ∧ Reads t (encode r) := by
  have hbrace : "\x7b\n".toList = ['\x7b', '\n'] := rfl
  induction hr generalizing indent with
  | @node op negate subrules hop _ ih =>
      have hbracket : "[\n".toList = ['[', '\n'] := rfl
      have hsubrules : Reads ('[' :: '\n' :: (subrulesJson (indent + 2) subrules
          ++ (indentStr (indent + 1) ++ [']']))) (.arr (encodeAll subrules)) := by
        by_cases hne : subrules = []
        · subst hne
          exact reads_arr_nil (isBlank_of_mem_newLine (indent + 1))
        · obtain ⟨t, ht, hread⟩ := exists_readsElements (indent + 1) hne
            fun r hr => ih r hr (indent + 2)
          rw [ht]
          exact reads_arr (isBlank_of_mem_newLine (indent + 2)) hread
      have hlast := readsMembers_last "subrules" (isPlain_of_all rfl) hsubrules indent
      have hobj := reads_obj_of_members op negate (indent + 1) hlast
      refine ⟨_, ?_, by rw [encode, if_pos hop]; exact hobj⟩
      simp [toJson, hop, nextMember, -String.reduceToList, hbrace, hbracket]
  | @leaf op key negate longArgs hop hargs =>
      have hmembers := readsMembers_leaf key longArgs indent
      have hobj := reads_obj_of_members op negate (indent + 1) hmembers
      refine ⟨_, ?_, by rw [encode, if_neg hop]; exact hobj⟩
      simp [toJson, hop, nextMember, -String.reduceToList, hbrace]

/-- The integers of a rule are read back. -/
theorem mapM_intOf (args : List ℤ) :
    (args.map fun n => Json.num (toString n).toList).mapM intOf = some args := by
  refine mapM_eq_some_iff.mpr ?_
  induction args with
  | nil => exact .nil
  | cons n args ih => exact .cons (toInt_toString n) ih

/-- The property and the arguments of a leaf without texts are read back. -/
theorem decodeLeaf_argsMembers {op : Operator} {key : Key} {negate : Bool} {longArgs : List Int}
    {ms : List (List Char × Json)}
    (hproperty : ms.lookup "property".toList = some (.str key.text))
    (hargs : ms.lookup "args".toList = (argsMembers key [] longArgs).lookup "args".toList)
    (hlong : longArgs ≠ [] → key = .sdkVersion ∨ key = .screenDensity) :
    decodeLeaf op negate ms = some (mk op key negate [] longArgs []) := by
  rw [decodeLeaf, hproperty]
  show (Key.ofText key.text >>= _) = _
  rw [Key.ofText_text, Option.bind_eq_bind, Option.bind_some]
  have hnone (hkey : ¬ (key = .sdkVersion ∨ key = .screenDensity)) : longArgs = [] :=
    not_not.mp (mt hlong hkey)
  cases key with
  | sdkVersion =>
      dsimp only
      rw [hargs]
      show ((longArgs.map fun n => Json.num (toString n).toList).mapM intOf >>= _) = _
      rw [mapM_intOf]
      rfl
  | screenDensity =>
      dsimp only
      rw [hargs]
      show ((longArgs.map fun n => Json.num (toString n).toList).mapM intOf >>= _) = _
      rw [mapM_intOf]
      rfl
  | language =>
      rw [hnone (by simp)] at hargs ⊢
      dsimp only
      rw [hargs]
      rfl
  | nativePlatform =>
      rw [hnone (by simp)] at hargs ⊢
      dsimp only
      rw [hargs]
      rfl
  | none => rw [hnone (by simp)]; rfl
  | touchScreen => rw [hnone (by simp)]; rfl
  | screenSize => rw [hnone (by simp)]; rfl
  | screenLayout => rw [hnone (by simp)]; rfl

/-- Subrules are read back if each of them is. -/
theorem decodeAll_encodeAll {rs : List Rule} (h : ∀ r ∈ rs, decode (encode r) = some r) :
    decodeAll (encodeAll rs) = some rs := by
  induction rs with
  | nil => rw [encodeAll, decodeAll]
  | cons r rs ih =>
      rw [encodeAll, decodeAll, h r List.mem_cons_self,
        ih fun r' hr' => h r' (List.mem_cons_of_mem r hr')]
      rfl

/-- The operator and the flag decide how the other members are read. -/
theorem decode_obj (op : Operator) (negate : Bool) {ms : List (List Char × Json)}
    (hop : ms.lookup "op".toList = some (.str op.text))
    (hnegate : negateOf (ms.lookup "negate".toList) = some negate) :
    decode (.obj ms) = if op.isCombinator then
        (decodeSubrules ms).map fun subrules => mk op .none negate [] [] subrules
      else decodeLeaf op negate ms := by
  rw [decode, hop, hnegate]
  show (Operator.ofText op.text >>= _) = _
  rw [Operator.ofText_text, Option.bind_eq_bind, Option.bind_some, Option.map_eq_bind]
  rfl

/-- **A plain rule is what its value stands for.** -/
theorem Plain.decode_encode {r : Rule} (hr : Plain r) : decode (encode r) = some r := by
  induction hr with
  | @node op negate subrules hop _ ih =>
      rw [encode, if_pos hop, decode_obj op negate rfl (by cases negate <;> rfl), if_pos hop]
      have hsubrules : decodeSubrules (("op".toList, Json.str op.text) :: (negateMembers negate
          ++ [("subrules".toList, Json.arr (encodeAll subrules))])) = some subrules := by
        cases negate <;> simp [decodeSubrules, negateMembers, decodeArray, decodeAll_encodeAll ih]
      rw [hsubrules]
      rfl
  | @leaf op key negate longArgs hop hargs =>
      have hnegate : negateOf ((("op".toList, Json.str op.text) :: (negateMembers negate
          ++ ("property".toList, .str key.text) :: argsMembers key [] longArgs)).lookup
            "negate".toList) = some negate := by
        cases negate <;> cases key <;> rfl
      rw [encode, if_neg hop, decode_obj op negate rfl hnegate, if_neg hop]
      exact decodeLeaf_argsMembers (by cases negate <;> rfl) (by cases negate <;> rfl) hargs

/-- A rule that is read from some value is plain if there are no texts among its arguments. -/
theorem plain_of_decode {j : Json} {r : Rule} (h : decode j = some r) (hraw : rawTexts r = 0) :
    Plain r := by
  induction r using treeInduction generalizing j with
  | node op key negate stringArgs longArgs subrules ih =>
      rw [rawTexts] at hraw
      obtain ⟨ms, rfl, -, -, ⟨hop, hnode⟩ | ⟨hop, rfl, hmembers⟩⟩ := decode_cases h
      · obtain ⟨rfl, rfl, rfl, vs, -, hvs⟩ := hnode
        rw [if_pos hop, rawTextsAll_eq, List.sum_eq_zero_iff] at hraw
        refine .node hop fun r hr => ?_
        obtain ⟨i, hi, rfl⟩ := List.mem_iff_getElem.mp hr
        have hv := hvs.get (hvs.length_eq ▸ hi) hi
        exact ih _ hr hv (hraw _ (List.mem_map_of_mem hr))
      · rw [if_neg hop] at hraw
        obtain rfl : stringArgs = [] := by
          by_contra hne
          exact hmembers.raw hne hraw
        exact .leaf hop hmembers.long

/-- A plain rule has no texts among its arguments. -/
theorem Plain.rawTexts_eq_zero {r : Rule} (hr : Plain r) : rawTexts r = 0 := by
  induction hr with
  | @node op negate subrules hop _ ih =>
      rw [rawTexts, if_pos hop, rawTextsAll_eq, List.sum_eq_zero_iff]
      intro n hn
      obtain ⟨r, hr, rfl⟩ := List.mem_map.mp hn
      exact ih r hr
  | @leaf op key negate longArgs hop hargs =>
      rw [rawTexts, if_neg hop]
      cases key <;> rfl

/-- **The text of a rule is a JSON text from which the rule is read back iff the rule is plain**: it
has no text among its arguments, and nothing that is not written. -/
theorem parses_iff (indent : ℕ) (r : Rule) :
    (∃ j, parse (toJson indent r) = some j ∧ decode j = some r) ↔ Plain r := by
  have hcost := cost_encode r indent
  constructor
  · rintro ⟨j, hparse, hdecode⟩
    have htext := cost_le_of_parse hparse
    have hvalue := cost_encode_le hdecode
    exact plain_of_decode hdecode (by omega)
  · intro hr
    obtain ⟨t, ht, hread⟩ := hr.reads indent
    rw [hr.rawTexts_eq_zero, ht, inked_append, inked_indentStr] at hcost
    refine ⟨encode r, ?_, hr.decode_encode⟩
    rw [ht]
    exact parse_of_reads (isBlank_of_mem_indentStr indent) hread (by omega)

/-- **The rule for a language is not written as JSON.** -/
theorem not_parses_language :
    parse (toJson 0 (mk .equals .language false ["en"] [] [])) = none := by
  decide +kernel

end Reading

end Rule

end AndroidSdk.SplitSelect
