import Mathlib.Data.List.DropRight
import Nopass.Core.Text.Bytes

/-!
# Texts of JavaScript

A text is a list of UTF-16 code units, which need not pair up. Regular expressions without
the `u` flag see one code unit at a time. Case conversion follows tables that are not
repeated here; what is used of them is the part for ASCII letters.
-/

/-- A text of JavaScript: its UTF-16 code units. -/
abbrev JsText := List UInt16

/-- The code units of a character. -/
def utf16Char (c : Char) : JsText :=
  if c.toNat < 0x10000 then [UInt16.ofNat c.toNat]
  else [UInt16.ofNat (0xd800 + (c.toNat - 0x10000) / 0x400),
    UInt16.ofNat (0xdc00 + (c.toNat - 0x10000) % 0x400)]

/-- The code units of characters. -/
def utf16 (chars : List Char) : JsText := chars.flatMap utf16Char

/-- A text of the source. -/
def js (text : String) : JsText := utf16 text.toList

namespace JsText

/-- The first half of a pair. -/
def isLead (u : UInt16) : Bool := decide (0xd800 ≤ u) && decide (u ≤ 0xdbff)

/-- The second half of a pair. -/
def isTrail (u : UInt16) : Bool := decide (0xdc00 ≤ u) && decide (u ≤ 0xdfff)

/-- Half of a pair. -/
def isSurrogate (u : UInt16) : Bool := isLead u || isTrail u

/-- `isWellFormed`: every half of a pair has its other half. -/
def isWellFormed : JsText → Bool
  | [] => true
  | [u] => !isSurrogate u
  | u :: v :: rest =>
    if isLead u && isTrail v then isWellFormed rest else !isSurrogate u && isWellFormed (v :: rest)

/-- `\s` of regular expressions, and what `trim` removes. -/
def isSpace (u : UInt16) : Bool :=
  [0x09, 0x0a, 0x0b, 0x0c, 0x0d, 0x20, 0xa0, 0x1680, 0x2028, 0x2029, 0x202f, 0x205f, 0x3000,
    0xfeff].contains u || decide (0x2000 ≤ u) && decide (u ≤ 0x200a)

/-- What `.` of regular expressions does not match. -/
def isLineTerminator (u : UInt16) : Bool := [0x0a, 0x0d, 0x2028, 0x2029].contains u

/-- `trimEnd`. -/
def trimEnd (text : JsText) : JsText := text.rdropWhile isSpace

/-- `startsWith`, with the rest of the text. -/
def dropPrefix? (start text : JsText) : Option JsText :=
  if start.isPrefixOf text then some (text.drop start.length) else none

/-- A letter `A` to `Z`. -/
def isUpperAscii (u : UInt16) : Bool := decide (0x41 ≤ u) && decide (u ≤ 0x5a)

/-- A letter `a` to `z`. -/
def isLowerAscii (u : UInt16) : Bool := decide (0x61 ≤ u) && decide (u ≤ 0x7a)

/-- A digit `0` to `9`. -/
def isDigit (u : UInt16) : Bool := decide (0x30 ≤ u) && decide (u ≤ 0x39)

/-- A code unit of ASCII. -/
def isAscii (u : UInt16) : Bool := decide (u < 0x80)

/-- A letter of ASCII in upper case, any other unit as it is. -/
def upperAscii (u : UInt16) : UInt16 := if isLowerAscii u then u - 0x20 else u

/-- A small letter is one of twenty-six. -/
theorem exists_of_isLowerAscii {u : UInt16} (h : isLowerAscii u = true) :
    ∃ n : Fin 26, u = UInt16.ofNat (0x61 + n) := by
  rw [isLowerAscii, Bool.and_eq_true, decide_eq_true_eq, decide_eq_true_eq, UInt16.le_iff_toNat_le,
    UInt16.le_iff_toNat_le] at h
  have hlow : 0x61 ≤ u.toNat := h.1
  have hhigh : u.toNat ≤ 0x7a := h.2
  refine ⟨⟨u.toNat - 0x61, by omega⟩, ?_⟩
  rw [← UInt16.toNat_inj]
  simp only [UInt16.toNat_ofNat']
  omega

/-- A unit is white space when its upper case is. -/
@[simp] theorem isSpace_upperAscii (u : UInt16) : isSpace (upperAscii u) = isSpace u := by
  rw [upperAscii]
  split
  · rename_i hlower
    obtain ⟨n, rfl⟩ := exists_of_isLowerAscii hlower
    have key : ∀ n : Fin 26, isSpace (UInt16.ofNat (0x61 + n) - 0x20) =
        isSpace (UInt16.ofNat (0x61 + n)) := by decide
    exact key n
  · rfl

/-- A unit is of ASCII when its upper case is. -/
@[simp] theorem isAscii_upperAscii (u : UInt16) : isAscii (upperAscii u) = isAscii u := by
  rw [upperAscii]
  split
  · rename_i hlower
    obtain ⟨n, rfl⟩ := exists_of_isLowerAscii hlower
    have key : ∀ n : Fin 26, isAscii (UInt16.ofNat (0x61 + n) - 0x20) =
        isAscii (UInt16.ofNat (0x61 + n)) := by decide
    exact key n
  · rfl

/-- Every line terminator is a space. -/
theorem isSpace_of_isLineTerminator {u : UInt16} (h : isLineTerminator u = true) :
    isSpace u = true := by
  rw [isLineTerminator, List.contains_iff_mem] at h
  rw [isSpace, Bool.or_eq_true, List.contains_iff_mem]
  left
  simp only [List.mem_cons, List.not_mem_nil, or_false] at h ⊢
  rcases h with rfl | rfl | rfl | rfl <;> simp

/-- What follows a dropped prefix. -/
theorem dropPrefix?_append (start text : JsText) :
    dropPrefix? start (start ++ text) = some text := by
  rw [dropPrefix?, if_pos (List.isPrefixOf_iff_prefix.mpr (List.prefix_append start text)),
    List.drop_left]

end JsText

/-- `toUpperCase` and `toLowerCase`: for every Unicode version's tables, ASCII letters change as
ASCII letters do. -/
structure CaseMapping where
  toUpperCase : JsText → JsText
  toLowerCase : JsText → JsText
  upper_ascii : ∀ text : JsText, text.all JsText.isAscii = true →
    toUpperCase text = text.map fun u => if JsText.isLowerAscii u then u - 0x20 else u
  lower_ascii : ∀ text : JsText, text.all JsText.isAscii = true →
    toLowerCase text = text.map fun u => if JsText.isUpperAscii u then u + 0x20 else u

/-- The tables for ASCII alone. -/
def CaseMapping.ascii : CaseMapping where
  toUpperCase text := text.map fun u => if JsText.isLowerAscii u then u - 0x20 else u
  toLowerCase text := text.map fun u => if JsText.isUpperAscii u then u + 0x20 else u
  upper_ascii _ _ := rfl
  lower_ascii _ _ := rfl

/-- A case mapping that leaves white space as it is, as the tables of every Unicode version do. -/
structure SpacedCaseMapping extends CaseMapping where
  upper_spaced : ∀ text : JsText, (∀ u ∈ text, JsText.isAscii u = true ∨ JsText.isSpace u = true) →
    toUpperCase text = text.map JsText.upperAscii

/-- The tables for ASCII alone leave white space as it is. -/
def SpacedCaseMapping.ascii : SpacedCaseMapping where
  toCaseMapping := CaseMapping.ascii
  upper_spaced _ _ := rfl
