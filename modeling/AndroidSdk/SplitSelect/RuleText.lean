import AndroidSdk.SplitSelect.Rule

/-! # The text of a rule

`Rule::toJson` writes a rule tree in the form of a JSON object, line by line. Texts are lists of
characters.

* **`Operator.text`**, **`Key.text`** — the names of operators and properties; those without a name
  are written as numbers.
* **`toJson`** — the text of a rule tree at an indentation. -/

namespace AndroidSdk.SplitSelect

/-- The value of an operator in the source. -/
def Operator.toNat : Operator → ℕ
  | .lessThan => 1
  | .greaterThan => 2
  | .equals => 3
  | .containsAny => 4
  | .containsAll => 5
  | .isTrue => 6
  | .isFalse => 7
  | .andSubrules => 8
  | .orSubrules => 9
  | .alwaysTrue => 10

/-- The value of a key in the source. -/
def Key.toNat : Key → ℕ
  | .none => 0
  | .sdkVersion => 1
  | .screenDensity => 2
  | .language => 3
  | .nativePlatform => 4
  | .touchScreen => 5
  | .screenSize => 6
  | .screenLayout => 7

/-- An operator as `toJson` writes it. -/
def Operator.text : Operator → List Char
  | .alwaysTrue => "ALWAYS_TRUE".toList
  | .greaterThan => "GREATER_THAN".toList
  | .lessThan => "LESS_THAN".toList
  | .equals => "EQUALS".toList
  | .andSubrules => "AND_SUBRULES".toList
  | .orSubrules => "OR_SUBRULES".toList
  | .containsAny => "CONTAINS_ANY".toList
  | op => (toString op.toNat).toList

/-- A key as `toJson` writes it. -/
def Key.text : Key → List Char
  | .none => "NONE".toList
  | .sdkVersion => "SDK_VERSION".toList
  | .screenDensity => "SCREEN_DENSITY".toList
  | .nativePlatform => "NATIVE_PLATFORM".toList
  | .language => "LANGUAGE".toList
  | key => (toString key.toNat).toList

/-- `indentStr`. -/
def indentStr : ℕ → List Char
  | 0 => []
  | indent + 1 => ' ' :: ' ' :: indentStr indent

/-- A text in quotes. -/
def quoted (text : List Char) : List Char := '"' :: (text ++ ['"'])

/-- A name with a value. -/
def memberText (name : String) (value : List Char) : List Char :=
  quoted name.toList ++ (": ".toList ++ value)

/-- A further name with a value, on a line of its own. -/
def nextMember (indent : ℕ) (name : String) (value : List Char) : List Char :=
  ",\n".toList ++ (indentStr indent ++ memberText name value)

/-- The loop that separates arguments by commas. -/
def separated : List (List Char) → List Char
  | [] => []
  | [arg] => arg
  | arg :: args => arg ++ (", ".toList ++ separated args)

namespace Rule

/-- The arguments of a rule, which are numbers or texts depending on its key. Texts are written as
they are. -/
def argsJson (indent : ℕ) (key : Key) (stringArgs : List String) (longArgs : List Int) : List Char :=
  match key with
  | .sdkVersion | .screenDensity =>
      nextMember indent "args" ('[' :: (separated (longArgs.map fun n => (toString n).toList) ++ [']']))
  | .language | .nativePlatform =>
      nextMember indent "args" ('[' :: (separated (stringArgs.map String.toList) ++ [']']))
  | _ => []

mutual

/-- `Rule::toJson`. -/
def toJson (indent : ℕ) : Rule → List Char
  | mk op key negate stringArgs longArgs subrules =>
      indentStr indent ++ ("\x7b\n".toList ++ (indentStr (indent + 1)
        ++ (memberText "op" (quoted op.text)
        ++ ((if negate then nextMember (indent + 1) "negate" "true".toList else [])
        ++ ((if op.isCombinator then
              nextMember (indent + 1) "subrules" ("[\n".toList
                ++ (subrulesJson (indent + 2) subrules ++ (indentStr (indent + 1) ++ [']'])))
            else
              nextMember (indent + 1) "property" (quoted key.text)
                ++ argsJson (indent + 1) key stringArgs longArgs)
        ++ ('\n' :: (indentStr indent ++ ['}'])))))))

/-- The loop of `toJson` over the subrules. -/
def subrulesJson (indent : ℕ) : List Rule → List Char
  | [] => []
  | [r] => toJson indent r ++ ['\n']
  | r :: rs => toJson indent r ++ (",\n".toList ++ subrulesJson indent rs)

end

end Rule

end AndroidSdk.SplitSelect
