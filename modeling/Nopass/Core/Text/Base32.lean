import Nopass.Core.Bits
import Nopass.Core.Text.JsText

/-!
# Base32

The bits of some bytes, cut into groups of five with zeros after the last bit, each group
written as one of 32 symbols; `=` fills the text up to a multiple of eight. A spelling of
the text may differ in case, white space and trailing padding.
-/

namespace Base32

/-- The symbols of the digits 0 to 31. -/
def alphabet : JsText := js "ABCDEFGHIJKLMNOPQRSTUVWXYZ234567"

/-- The padding. -/
def pad : UInt16 := 0x3d

/-- The symbol of a digit. -/
def symbol (digit : Nat) : UInt16 := alphabet.getD digit 0

/-- The digits of some bytes. -/
def digits (bytes : List UInt8) : List Nat :=
  Bits.toDigits 5 (Bits.ofDigits 8 (bytes.map UInt8.toNat))

/-- The symbols of some bytes, without padding. -/
def symbols (bytes : List UInt8) : JsText := (digits bytes).map symbol

/-- The encoding of some bytes. -/
def encode (bytes : List UInt8) : JsText :=
  symbols bytes ++ List.replicate ((8 - (symbols bytes).length % 8) % 8) pad

example : encode (js "foobar" |>.map fun u => u.toUInt8) = js "MZXW6YTBOI======" := by decide

/-- A text is the encoding of some bytes in any case, with white space anywhere and any padding at
the end. -/
def Spells (text : JsText) (bytes : List UInt8) : Prop :=
  ∃ letters pads, text.filter (fun u => !JsText.isSpace u) = letters ++ pads ∧
    letters.map JsText.upperAscii = symbols bytes ∧ ∀ u ∈ pads, u = pad

/-- Digits of the alphabet fit. -/
theorem lt_of_mem_digits {bytes : List UInt8} {digit : Nat} (h : digit ∈ digits bytes) :
    digit < 32 := Bits.lt_of_mem_firstDigits h

/-- The bits of the digits are those of the bytes and at most four zeros. -/
theorem ofDigits_digits (bytes : List UInt8) : ∃ zeros < 5,
    Bits.ofDigits 5 (digits bytes) =
      Bits.ofDigits 8 (bytes.map UInt8.toNat) ++ List.replicate zeros false := by
  have hlength := Bits.length_ofDigits 8 (bytes.map UInt8.toNat)
  rw [digits, Bits.toDigits, Bits.ofDigits_firstDigits]
  generalize hbits : Bits.ofDigits 8 (bytes.map UInt8.toNat) = bits
  refine ⟨5 * ((bits.length + 5 - 1) / 5) - bits.length, by omega, ?_⟩
  rw [Bits.fill, List.take_of_length_le (by omega)]

/-- No symbol is white space, a small letter or padding, and its digit is read back. -/
theorem symbol_facts {digit : Nat} (h : digit < 32) :
    alphabet.findIdx? (· = symbol digit) = some digit ∧
      JsText.isAscii (symbol digit) = true ∧ JsText.isSpace (symbol digit) = false := by
  have key : ∀ d : Fin 32, alphabet.findIdx? (· = symbol d.val) = some d.val ∧
      JsText.isAscii (symbol d.val) = true ∧ JsText.isSpace (symbol d.val) = false := by decide
  exact key ⟨digit, h⟩

/-- The digit of a symbol. -/
def digit? (u : UInt16) : Option Nat := alphabet.findIdx? (· = u)

/-- A symbol's digit fits. -/
theorem digit?_lt {u : UInt16} {digit : Nat} (h : digit? u = some digit) : digit < 32 := by
  obtain ⟨hlt, _⟩ := List.findIdx?_eq_some_iff_getElem.mp h
  exact hlt

/-- White space and padding are no symbols. -/
theorem digit?_eq_none {u : UInt16} (h : JsText.isSpace u = true ∨ u = pad) :
    digit? u = none := by
  cases hd : digit? u with
  | none => rfl
  | some digit =>
    obtain ⟨hlt, hsymbol, _⟩ := List.findIdx?_eq_some_iff_getElem.mp hd
    have hu : symbol digit = u := by
      rw [symbol, List.getD_eq_getElem _ _ hlt]
      exact of_decide_eq_true hsymbol
    have hfacts : ∀ d : Fin 32, JsText.isSpace (symbol d.val) = false ∧ symbol d.val ≠ pad := by
      decide
    obtain ⟨hspace, hpad⟩ := hfacts ⟨digit, digit?_lt hd⟩
    rw [hu] at hspace hpad
    rcases h with h | h
    · rw [h] at hspace
      cases hspace
    · exact absurd h hpad

/-- A digit is read back from its symbol. -/
theorem digit?_symbol {digit : Nat} (h : digit < 32) : digit? (symbol digit) = some digit :=
  (symbol_facts h).1

/-- A text without its white space shows the same symbols. -/
theorem filterMap_digit?_filter (text : JsText) :
    (text.filter fun u => !JsText.isSpace u).filterMap digit? = text.filterMap digit? := by
  rw [List.filterMap_filter]
  apply List.filterMap_congr
  intro u _
  split
  · rfl
  · rename_i hspace
    rw [Bool.not_eq_true', Bool.not_eq_false] at hspace
    rw [digit?_eq_none (Or.inl hspace)]

/-- Case conversion keeps apart what is white space. -/
theorem filter_map_upperAscii (text : JsText) :
    (text.map JsText.upperAscii).filter (fun u => !JsText.isSpace u) =
      (text.filter fun u => !JsText.isSpace u).map JsText.upperAscii := by
  rw [List.filter_map]
  congr 1
  apply List.filter_congr
  intro u _
  rw [Function.comp, JsText.isSpace_upperAscii]

/-- Digits are read back from their symbols. -/
theorem filterMap_digit?_map {ds : List Nat} (h : ∀ d ∈ ds, d < 32) :
    (ds.map symbol).filterMap digit? = ds := by
  rw [List.filterMap_map]
  have hsome : ∀ d ∈ ds, (digit? ∘ symbol) d = some d := fun d hd => digit?_symbol (h d hd)
  rw [List.filterMap_congr hsome, List.filterMap_some]

/-- Padding shows no symbols. -/
theorem filterMap_digit?_pads {pads : JsText} (h : ∀ u ∈ pads, u = pad) :
    pads.filterMap digit? = [] := by
  rw [List.filterMap_eq_nil_iff]
  exact fun u hu => digit?_eq_none (Or.inr (h u hu))

/-- A spelling in upper case shows the digits of the bytes. -/
theorem filterMap_digit?_of_spells {text : JsText} {bytes : List UInt8} (h : Spells text bytes) :
    (text.map JsText.upperAscii).filterMap digit? = digits bytes := by
  obtain ⟨letters, pads, htext, hletters, hpads⟩ := h
  have hupper : pads.map JsText.upperAscii = pads := by
    have hsame : ∀ u ∈ pads, JsText.upperAscii u = id u := by
      intro u hu
      rw [hpads u hu]
      rfl
    rw [List.map_congr_left hsame, List.map_id]
  rw [← filterMap_digit?_filter, filter_map_upperAscii, htext, List.map_append, hletters,
    List.filterMap_append, hupper, filterMap_digit?_pads hpads, List.append_nil, symbols,
    filterMap_digit?_map fun d hd => lt_of_mem_digits hd]

/-- A spelling has nothing but units of ASCII and white space. -/
theorem ascii_of_spells {text : JsText} {bytes : List UInt8} (h : Spells text bytes) :
    ∀ u ∈ text, JsText.isAscii u = true ∨ JsText.isSpace u = true := by
  obtain ⟨letters, pads, htext, hletters, hpads⟩ := h
  intro u hu
  by_cases hspace : JsText.isSpace u = true
  · exact Or.inr hspace
  · left
    have hmem : u ∈ letters ++ pads := by
      rw [← htext, List.mem_filter]
      exact ⟨hu, by simpa using hspace⟩
    rcases List.mem_append.mp hmem with hletter | hpad
    · have hsymbol : JsText.upperAscii u ∈ symbols bytes := by
        rw [← hletters]
        exact List.mem_map_of_mem hletter
      obtain ⟨d, hd, hsymbol⟩ := List.mem_map.mp hsymbol
      rw [← JsText.isAscii_upperAscii, ← hsymbol]
      exact (symbol_facts (lt_of_mem_digits hd)).2.1
    · rw [hpads u hpad]
      rfl

/-- The encoding is a spelling of itself. -/
theorem spells_encode (bytes : List UInt8) : Spells (encode bytes) bytes := by
  have hupper : ∀ d : Fin 32, JsText.upperAscii (symbol d) = symbol d := by decide
  have hspace : ∀ u ∈ encode bytes, JsText.isSpace u = false := by
    intro u hu
    rcases List.mem_append.mp hu with hu | hu
    · obtain ⟨d, hd, rfl⟩ := List.mem_map.mp hu
      exact (symbol_facts (lt_of_mem_digits hd)).2.2
    · rw [List.eq_of_mem_replicate hu]
      decide
  refine ⟨symbols bytes, List.replicate ((8 - (symbols bytes).length % 8) % 8) pad, ?_, ?_,
    fun u hu => List.eq_of_mem_replicate hu⟩
  · have hkeep : (encode bytes).filter (fun u => !JsText.isSpace u) = encode bytes := by
      rw [List.filter_eq_self]
      intro u hu
      rw [hspace u hu]
      rfl
    exact hkeep
  · have hsame : ∀ u ∈ symbols bytes, JsText.upperAscii u = id u := by
      intro u hu
      obtain ⟨d, hd, rfl⟩ := List.mem_map.mp hu
      exact hupper ⟨d, lt_of_mem_digits hd⟩
    rw [List.map_congr_left hsame, List.map_id]

end Base32
