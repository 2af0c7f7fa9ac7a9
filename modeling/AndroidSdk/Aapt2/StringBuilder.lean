import AndroidSdk.Androidfw.Utf16

/-! # Building styled strings

`ResourceUtils::StringBuilder` (`ResourceUtils.cpp`): the text of a string resource is put together
from the texts between its tags. Whitespace is collapsed, quotes and escape sequences are resolved,
and the positions of spans and untranslatable sections are recorded on the way.

* **`appendLoop`** — the loop over the code points of a text.
* **`StringBuilder.appendText`**, **`startSpan`**, **`endSpan`**, **`startUntranslatable`**,
  **`endUntranslatable`** — the operations.

Texts are sequences of characters, since the XML parser delivers no other bytes. Positions of spans
have 32 bits. -/

namespace AndroidSdk.Aapt2.FlattenXml

open Lib Androidfw

/-! ## Code points -/

/-- `isspace`. -/
def isspace (c : Char) : Bool := c ∈ [' ', '\t', '\n', '\x0b', '\x0c', '\r']

/-- The value of a hexadecimal digit. -/
def hexDigit (c : Char) : Option ℕ :=
  if '0' ≤ c ∧ c ≤ '9' then some (c.toNat - 48)
  else if 'a' ≤ c ∧ c ≤ 'f' then some (c.toNat - 97 + 10)
  else if 'A' ≤ c ∧ c ≤ 'F' then some (c.toNat - 65 + 10)
  else none

/-- The loop of `AppendUnicodeEscapeSequence`, with so many turns left: the code point, and the text
behind it. -/
def readUnicodeEscape : ℕ → ℕ → List Char → Option (ℕ × List Char)
  | 0, code, chars => some (code, chars)
  | _ + 1, code, [] => some (code, [])
  | turns + 1, code, c :: chars =>
      match hexDigit c with
      | some a => readUnicodeEscape turns (code * 16 + a) chars
      | none => none

/-- Nothing is put back. -/
theorem length_readUnicodeEscape {turns code code' : ℕ} {chars rest : List Char}
    (h : readUnicodeEscape turns code chars = some (code', rest)) : rest.length ≤ chars.length := by
  induction turns generalizing code chars with
  | zero =>
      cases h
      exact le_rfl
  | succ turns ih =>
      cases chars with
      | nil =>
          cases h
          exact le_rfl
      | cons c chars =>
          rw [readUnicodeEscape] at h
          cases hc : hexDigit c with
          | none =>
              rw [hc] at h
              cases h
          | some a =>
              rw [hc] at h
              exact (ih h).trans (Nat.le_succ _)

/-- `AppendCodepointToUtf8String`: a surrogate has no UTF-8 form, and nothing is appended. -/
def codepointText (code : ℕ) : List Char :=
  if 0xd800 ≤ code ∧ code ≤ 0xdfff then [] else [Char.ofNat code]

/-! ## Texts -/

/-- The errors of `AppendText`. The first two name the text. -/
inductive StringError where
  | unicodeEscape (text : List Char)
  | apostrophe (text : List Char)
  | codePoint
  deriving DecidableEq

/-- What has been appended, whether the text is quoted, and whether its last code point was a
space. -/
structure TextState where
  appended : List Char
  quote : Bool
  lastCodepointWasSpace : Bool
  deriving DecidableEq

/-- What is appended for the character behind a backslash, other than `u`. -/
def escapedText (c : Char) : List Char :=
  if c = 't' then ['\t'] else if c = 'n' then ['\n'] else [c]

/-- **The loop of `AppendText`** over the code points. -/
def appendLoop (preserveSpaces : Bool) (text : List Char) :
    List Char → TextState → Except StringError TextState
  | [], s => .ok s
  | c :: chars, s =>
      if !preserveSpaces && !s.quote && isspace c then
        -- a space is emitted if it is the first
        if s.lastCodepointWasSpace then appendLoop preserveSpaces text chars s
        else appendLoop preserveSpaces text chars
          { s with appended := s.appended ++ [' '], lastCodepointWasSpace := true }
      else
        let s := { s with lastCodepointWasSpace := false }
        if c = '\\' then
          match chars with
          | [] => .ok s
          | 'u' :: chars =>
              match hread : readUnicodeEscape 4 0 chars with
              | none => .error (.unicodeEscape text)
              | some (code, rest) =>
                  have : rest.length ≤ chars.length := length_readUnicodeEscape hread
                  appendLoop preserveSpaces text rest
                    { s with appended := s.appended ++ codepointText code }
          | e :: chars =>
              appendLoop preserveSpaces text chars
                { s with appended := s.appended ++ escapedText e }
        else if !preserveSpaces && c = '"' then
          appendLoop preserveSpaces text chars { s with quote := !s.quote }
        else if !preserveSpaces && !s.quote && c = '\'' then .error (.apostrophe text)
        else appendLoop preserveSpaces text chars { s with appended := s.appended ++ [c] }
  termination_by chars => chars.length

/-! ## The builder -/

/-- `android::Span`. -/
structure Span where
  name : List Char
  firstChar : BitVec 32
  lastChar : BitVec 32
  deriving DecidableEq

/-- `UntranslatableSection`: offsets in bytes. -/
structure UntranslatableSection where
  start : ℕ
  stop : ℕ
  deriving DecidableEq

/-- `FlattenedXmlString`. -/
structure FlattenedXmlString where
  text : List Char
  untranslatableSections : List UntranslatableSection
  spans : List Span
  deriving DecidableEq

/-- `StringBuilder`. What was appended to the text before an error is not read any more. -/
structure StringBuilder where
  error : Option StringError
  xmlString : FlattenedXmlString
  utf16Len : BitVec 32
  preserveSpaces : Bool
  quote : Bool
  lastCodepointWasSpace : Bool

namespace StringBuilder

/-- The constructor. -/
def new (preserveSpaces : Bool) : StringBuilder where
  error := none
  xmlString := ⟨[], [], []⟩
  utf16Len := 0
  preserveSpaces := preserveSpaces
  quote := preserveSpaces
  lastCodepointWasSpace := false

variable (b : StringBuilder)

/-- `ResetTextState`. -/
def resetTextState : StringBuilder :=
  { b with quote := b.preserveSpaces, lastCodepointWasSpace := false }

/-- **`AppendText`.** The iterator stops at a null character, and the length is that of the bytes
that were appended, which a null character follows. -/
def appendText (text : List Char) : StringBuilder :=
  if b.error.isSome then b
  else
    match appendLoop b.preserveSpaces text (text.takeWhile (· ≠ '\x00'))
      ⟨[], b.quote, b.lastCodepointWasSpace⟩ with
    | .error e => { b with error := some e }
    | .ok s =>
        match utf8ToUtf16Length (encoded s.appended) [0] with
        | some (some len) =>
            { b with
              xmlString := { b.xmlString with text := b.xmlString.text ++ s.appended }
              utf16Len := b.utf16Len + BitVec.ofNat 32 len
              quote := s.quote
              lastCodepointWasSpace := s.lastCodepointWasSpace }
        | _ => { b with error := some .codePoint }

/-- `StartSpan`, with the handle. -/
def startSpan (name : List Char) : StringBuilder × ℕ :=
  if b.error.isSome then (b, 0)
  else
    let b := b.resetTextState
    let spans := b.xmlString.spans ++ [⟨name, b.utf16Len, b.utf16Len⟩]
    ({ b with xmlString := { b.xmlString with spans } }, spans.length - 1)

/-- `EndSpan`. -/
def endSpan (handle : ℕ) : StringBuilder :=
  if b.error.isSome then b
  else
    let b := b.resetTextState
    let spans := b.xmlString.spans.modify handle fun span => { span with lastChar := b.utf16Len - 1 }
    { b with xmlString := { b.xmlString with spans } }

/-- `StartUntranslatable`, with the handle. -/
def startUntranslatable : StringBuilder × ℕ :=
  if b.error.isSome then (b, 0)
  else
    let size := (encoded b.xmlString.text).length
    let untranslatableSections := b.xmlString.untranslatableSections ++ [⟨size, size⟩]
    ({ b with xmlString := { b.xmlString with untranslatableSections } },
      untranslatableSections.length - 1)

/-- `EndUntranslatable`. -/
def endUntranslatable (handle : ℕ) : StringBuilder :=
  if b.error.isSome then b
  else
    let untranslatableSections := b.xmlString.untranslatableSections.modify handle fun range =>
      { range with stop := (encoded b.xmlString.text).length }
    { b with xmlString := { b.xmlString with untranslatableSections } }

end StringBuilder

end AndroidSdk.Aapt2.FlattenXml
