import Mathlib.Data.List.Forall2
import Nopass.Core.Bits
import Nopass.Core.Text.JsText

/-!
# Recovery codes

A recovery code is 160 random bits in the symbols of Crockford's base32, four to a group.
The generator's accumulator is never masked. What a user types is brought back to the
symbols: case, spaces and dashes do not count, and the letters that the alphabet leaves out
are read as the symbols that they look like.
-/

namespace Nopass

/-- The random bytes of a recovery code. -/
abbrev RecoveryBytes := { bytes : List UInt8 // bytes.length = 20 }

namespace RecoveryCode

/-- `ALPHABET`: no `I`, `L`, `O` or `U`. -/
def alphabet : JsText := js "0123456789ABCDEFGHJKMNPQRSTVWXYZ"

/-- `ALPHABET[digit]`. -/
def symbol (digit : Nat) : UInt16 := alphabet.getD digit 0

/-- `-`. -/
def dash : UInt16 := 0x2d

/-- The `while` loop: symbols go out as long as five bits are pending. Each turn takes five, so that
there are no more turns than bits. -/
def drain : Nat → BitAccumulator × JsText → BitAccumulator × JsText
  | 0, s => s
  | turns + 1, s =>
    if 5 ≤ s.1.pending then drain turns (s.1.give 5, s.2 ++ [symbol (s.1.top 5)]) else s

/-- One turn of the `for` loop. -/
def takeByte (s : BitAccumulator × JsText) (byte : UInt8) : BitAccumulator × JsText :=
  let acc := s.1.take 8 byte.toNat
  drain acc.pending (acc, s.2)

/-- `match(/.{4}/g)`. -/
def fours : JsText → List JsText
  | a :: b :: c :: d :: rest =>
    if [a, b, c, d].any JsText.isLineTerminator then fours (b :: c :: d :: rest)
    else [a, b, c, d] :: fours rest
  | _ => []

/-- `generateRecoveryCode`, for the bytes that `getRandomValues` gives. -/
def generate (bytes : RecoveryBytes) : JsText :=
  let out := (bytes.val.foldl takeByte (.empty, [])).2
  [dash].intercalate (fours out)

/-- `[\s-]`. -/
def isSeparator (u : UInt16) : Bool := JsText.isSpace u || u == dash

/-- `replace(/O/g, "0")`. -/
def replaceO (u : UInt16) : UInt16 := if u = 0x4f then 0x30 else u

/-- `replace(/[IL]/g, "1")`. -/
def replaceIL (u : UInt16) : UInt16 := if u = 0x49 ∨ u = 0x4c then 0x31 else u

/-- `replace(/U/g, "V")`. -/
def replaceU (u : UInt16) : UInt16 := if u = 0x55 then 0x56 else u

/-- `normalizeRecoveryCode`. -/
def normalize (m : CaseMapping) (code : JsText) : JsText :=
  ((((m.toUpperCase code).filter (!isSeparator ·)).map replaceO).map replaceIL).map replaceU

/-- What may be written for a symbol: the symbol or a letter that looks like it, in any case. -/
def Writes (symbol written : UInt16) : Prop :=
  JsText.upperAscii written = symbol ∨ symbol = 0x30 ∧ JsText.upperAscii written = 0x4f ∨
    symbol = 0x31 ∧ (JsText.upperAscii written = 0x49 ∨ JsText.upperAscii written = 0x4c) ∨
    symbol = 0x56 ∧ JsText.upperAscii written = 0x55

/-- A text is a code as somebody may type it, with spaces and dashes anywhere. -/
def Transcribes (written code : JsText) : Prop :=
  List.Forall₂ Writes (code.filter (!isSeparator ·)) (written.filter (!isSeparator ·))

/-- The symbols of a code. -/
def symbols (bytes : RecoveryBytes) : JsText :=
  (Bits.toDigits 5 (Bits.ofDigits 8 (bytes.val.map UInt8.toNat))).map symbol

/-- What is read for a unit. -/
def canonical (u : UInt16) : UInt16 := replaceU (replaceIL (replaceO (JsText.upperAscii u)))

example : generate ⟨(List.range 20).map fun i => UInt8.ofNat (13 * i + 250), by decide⟩ =
    js "Z83H-889E-7D45-ARKF-FJ4S-D8XG-QQ5D-FS7H" := by decide

/-- What the loops keep: the bits of the bytes so far are those of the symbols so far and less than
one that is pending. -/
structure Loop (s : BitAccumulator × JsText) (taken : List Nat) (given : List Nat) : Prop where
  regroups : Regroups 8 5 s.1 taken given
  text : s.2 = given.map symbol

/-- The `while` loop gives out what is pending. -/
theorem Loop.drain {s : BitAccumulator × JsText} {taken given : List Nat} {turns : Nat}
    (h : Loop s taken given) (hturns : s.1.pending ≤ turns) :
    ∃ given', Loop (RecoveryCode.drain turns s) taken given' ∧
      (RecoveryCode.drain turns s).1.pending < 5 := by
  induction turns generalizing s given with
  | zero =>
    rw [RecoveryCode.drain]
    exact ⟨given, h, by omega⟩
  | succ turns ih =>
    rw [RecoveryCode.drain]
    split
    · rename_i hfull
      have hgive : Loop (s.1.give 5, s.2 ++ [symbol (s.1.top 5)]) taken (given ++ [s.1.top 5]) := by
        constructor
        · exact h.regroups.give hfull
        · rw [h.text, List.map_append, List.map_singleton]
      apply ih hgive
      rw [BitAccumulator.pending_give]
      omega
    · exact ⟨given, h, by omega⟩

/-- A byte goes in and what it completes goes out. -/
theorem Loop.takeByte {s : BitAccumulator × JsText} {taken given : List Nat}
    (h : Loop s taken given) (hpending : s.1.pending < 5) (byte : UInt8) :
    ∃ given', Loop (RecoveryCode.takeByte s byte) (taken ++ [byte.toNat]) given' ∧
      (RecoveryCode.takeByte s byte).1.pending < 5 := by
  have htake : Loop (s.1.take 8 byte.toNat, s.2) (taken ++ [byte.toNat]) given :=
    ⟨h.regroups.take byte.toNat_lt (by omega), h.text⟩
  exact htake.drain (Nat.le_refl _)

/-- So does every byte. -/
theorem Loop.foldl {s : BitAccumulator × JsText} {taken given : List Nat}
    (h : Loop s taken given) (hpending : s.1.pending < 5) (bytes : List UInt8) :
    ∃ given', Loop (bytes.foldl RecoveryCode.takeByte s) (taken ++ bytes.map UInt8.toNat) given' ∧
      (bytes.foldl RecoveryCode.takeByte s).1.pending < 5 := by
  induction bytes generalizing s taken given with
  | nil =>
    rw [List.map_nil, List.append_nil]
    exact ⟨given, h, hpending⟩
  | cons byte bytes ih =>
    obtain ⟨given₁, h₁, hpending₁⟩ := h.takeByte hpending byte
    have hrest := ih h₁ hpending₁
    rwa [List.append_assoc] at hrest

/-- The generator writes the symbols of the code: 160 bits are 32 symbols and none left over. -/
theorem text_generate (bytes : RecoveryBytes) :
    (bytes.val.foldl takeByte (.empty, [])).2 = symbols bytes := by
  have hstart : Loop (.empty, []) [] [] := ⟨Regroups.empty, rfl⟩
  obtain ⟨given, h, hpending⟩ := hstart.foldl (by decide) bytes.val
  rw [List.nil_append] at h
  have hcount := h.regroups.length_eq
  rw [List.length_map, bytes.property] at hcount
  have hnone : (bytes.val.foldl takeByte (.empty, [])).1.bits = [] := by
    have hzero : (bytes.val.foldl takeByte (.empty, [])).1.pending = 0 := by omega
    rw [BitAccumulator.bits, hzero]
    rfl
  have hbits := h.regroups.bits_eq
  rw [hnone, List.append_nil] at hbits
  rw [h.text, symbols, hbits, Bits.toDigits_ofDigits (by decide) h.regroups.given_lt]

/-- The digits of a code. -/
theorem digits_lt {bytes : RecoveryBytes} {digit : Nat}
    (h : digit ∈ Bits.toDigits 5 (Bits.ofDigits 8 (bytes.val.map UInt8.toNat))) : digit < 32 :=
  Bits.lt_of_mem_firstDigits h

/-- The digits of a code have the bits of its bytes. -/
theorem ofDigits_digits (bytes : RecoveryBytes) :
    Bits.ofDigits 5 (Bits.toDigits 5 (Bits.ofDigits 8 (bytes.val.map UInt8.toNat))) =
      Bits.ofDigits 8 (bytes.val.map UInt8.toNat) := by
  have hlength := Bits.length_ofDigits 8 (bytes.val.map UInt8.toNat)
  rw [List.length_map, bytes.property] at hlength
  rw [Bits.toDigits, Bits.ofDigits_firstDigits, hlength, Bits.fill_of_le (by rw [hlength]),
    List.take_of_length_le (by rw [hlength])]

/-- A code has 32 symbols. -/
theorem length_symbols (bytes : RecoveryBytes) : (symbols bytes).length = 32 := by
  have hlength := congrArg List.length (ofDigits_digits bytes)
  rw [Bits.length_ofDigits, Bits.length_ofDigits, List.length_map, bytes.property] at hlength
  rw [symbols, List.length_map]
  omega

/-- A symbol shows its digit, and is its own reading. -/
theorem symbol_facts {digit : Nat} (h : digit < 32) :
    alphabet.idxOf (symbol digit) = digit ∧ symbol digit ∈ alphabet ∧
      isSeparator (symbol digit) = false ∧ JsText.isLineTerminator (symbol digit) = false ∧
      JsText.isAscii (symbol digit) = true ∧
      JsText.upperAscii (symbol digit) = symbol digit ∧
      canonical (symbol digit) = symbol digit := by
  have key : ∀ d : Fin 32, alphabet.idxOf (symbol d) = d ∧ symbol d ∈ alphabet ∧
      isSeparator (symbol d) = false ∧ JsText.isLineTerminator (symbol d) = false ∧
      JsText.isAscii (symbol d) = true ∧ JsText.upperAscii (symbol d) = symbol d ∧
      canonical (symbol d) = symbol d := by
    decide
  exact key ⟨digit, h⟩

/-- A symbol of a code is that of a digit. -/
theorem exists_digit {bytes : RecoveryBytes} {u : UInt16} (h : u ∈ symbols bytes) :
    ∃ digit < 32, u = symbol digit := by
  obtain ⟨digit, hd, rfl⟩ := List.mem_map.mp h
  exact ⟨digit, digits_lt hd, rfl⟩

/-- The symbols of different codes differ. -/
theorem symbols_injective {bytes bytes' : RecoveryBytes} (h : symbols bytes = symbols bytes') :
    bytes = bytes' := by
  have hread : ∀ bytes : RecoveryBytes, (symbols bytes).map (alphabet.idxOf ·) =
      Bits.toDigits 5 (Bits.ofDigits 8 (bytes.val.map UInt8.toNat)) := by
    intro bytes
    have hsame : ∀ d ∈ Bits.toDigits 5 (Bits.ofDigits 8 (bytes.val.map UInt8.toNat)),
        ((alphabet.idxOf ·) ∘ symbol) d = id d := fun d hd => (symbol_facts (digits_lt hd)).1
    rw [symbols, List.map_map, List.map_congr_left hsame, List.map_id]
  have hbits : Bits.ofDigits 8 (bytes.val.map UInt8.toNat) =
      Bits.ofDigits 8 (bytes'.val.map UInt8.toNat) := by
    rw [← ofDigits_digits, ← hread, h, hread, ofDigits_digits]
  have hbytes : ∀ bytes : List UInt8, ∀ d ∈ bytes.map UInt8.toNat, d < 2 ^ 8 := by
    intro bytes d hd
    obtain ⟨b, _, rfl⟩ := List.mem_map.mp hd
    exact b.toNat_lt
  have hmap := Bits.ofDigits_inj (hbytes bytes.val) (hbytes bytes'.val)
    (by rw [List.length_map, List.length_map, bytes.property, bytes'.property]) hbits
  apply Subtype.ext
  exact List.map_injective_iff.mpr (fun _ _ => UInt8.toNat_inj.mp) hmap

/-- Groups of four that a text without line terminators falls into. -/
theorem fours_facts {count : Nat} {text : JsText} (hlength : text.length = 4 * count)
    (hplain : ∀ u ∈ text, JsText.isLineTerminator u = false) :
    (fours text).flatten = text ∧ (fours text).length = count ∧
      ∀ group ∈ fours text, group.length = 4 := by
  induction count generalizing text with
  | zero =>
    rw [List.length_eq_zero_iff.mp hlength]
    decide
  | succ count ih =>
    match text, hlength, hplain with
    | a :: b :: c :: d :: rest, hlength, hplain =>
      have hnone : [a, b, c, d].any JsText.isLineTerminator = false := by
        rw [List.any_eq_false]
        intro u hu
        rw [hplain u (List.mem_append_left rest hu)]
        exact Bool.false_ne_true
      have hrest : rest.length = 4 * count := by
        simp only [List.length_cons] at hlength
        omega
      obtain ⟨hflat, hcount, hfour⟩ := ih hrest
        fun u hu => hplain u (List.mem_append_right [a, b, c, d] hu)
      rw [fours, hnone, if_neg Bool.false_ne_true]
      refine ⟨?_, ?_, ?_⟩
      · rw [List.flatten_cons, hflat]
        rfl
      · rw [List.length_cons, hcount]
      · intro group hgroup
        rcases List.mem_cons.mp hgroup with rfl | hgroup
        · rfl
        · exact hfour group hgroup

/-- Dashes between groups are separators. -/
theorem filter_intercalate {groups : List JsText}
    (h : ∀ group ∈ groups, ∀ u ∈ group, isSeparator u = false) :
    ([dash].intercalate groups).filter (!isSeparator ·) = groups.flatten := by
  have hkeep : ∀ group ∈ groups, group.filter (!isSeparator ·) = group := by
    intro group hgroup
    rw [List.filter_eq_self]
    intro u hu
    rw [h group hgroup u hu]
    rfl
  induction groups with
  | nil => rfl
  | cons group groups ih =>
    cases groups with
    | nil => rw [List.intercalate_singleton, hkeep group List.mem_cons_self, List.flatten_singleton]
    | cons next groups =>
      have hdash : [dash].filter (!isSeparator ·) = [] := by decide
      have hrest := ih (fun g hg => h g (List.mem_cons_of_mem _ hg))
        (fun g hg => hkeep g (List.mem_cons_of_mem _ hg))
      rw [List.intercalate_cons_cons, List.filter_append, List.filter_append, hdash, hrest,
        hkeep group List.mem_cons_self, List.append_nil, ← List.flatten_cons]

/-- The groups of a code. -/
theorem generate_groups (bytes : RecoveryBytes) : ∃ groups : List JsText,
    generate bytes = [dash].intercalate groups ∧ groups.flatten = symbols bytes ∧
      groups.length = 8 ∧ ∀ group ∈ groups, group.length = 4 := by
  have hplain : ∀ u ∈ symbols bytes, JsText.isLineTerminator u = false := by
    intro u hu
    obtain ⟨d, hd, rfl⟩ := exists_digit hu
    exact (symbol_facts hd).2.2.2.1
  obtain ⟨hflat, hcount, hfour⟩ := @fours_facts 8 _ (length_symbols bytes) hplain
  refine ⟨fours (symbols bytes), ?_, hflat, hcount, hfour⟩
  rw [generate, text_generate]

/-- Without its dashes a code is its symbols. -/
theorem filter_generate (bytes : RecoveryBytes) :
    (generate bytes).filter (!isSeparator ·) = symbols bytes := by
  obtain ⟨groups, hcode, hflat, _, _⟩ := generate_groups bytes
  have hkeep : ∀ group ∈ groups, ∀ u ∈ group, isSeparator u = false := by
    intro group hgroup u hu
    have hmem : u ∈ symbols bytes := by
      rw [← hflat]
      exact List.mem_flatten_of_mem hgroup hu
    obtain ⟨d, hd, rfl⟩ := exists_digit hmem
    exact (symbol_facts hd).2.2.1
  rw [hcode, filter_intercalate hkeep, hflat]

/-- Case conversion keeps apart what is a separator. -/
theorem isSeparator_upperAscii (u : UInt16) : isSeparator (JsText.upperAscii u) = isSeparator u := by
  have hdash : (JsText.upperAscii u == dash) = (u == dash) := by
    rw [JsText.upperAscii]
    split
    · rename_i hlower
      obtain ⟨n, rfl⟩ := JsText.exists_of_isLowerAscii hlower
      have key : ∀ n : Fin 26, (UInt16.ofNat (0x61 + n) - 0x20 == dash) =
          (UInt16.ofNat (0x61 + n) == dash) := by decide
      exact key n
    · rfl
  rw [isSeparator, isSeparator, JsText.isSpace_upperAscii, hdash]

/-- Normalization reads each unit that is no separator. -/
theorem normalize_eq (m : SpacedCaseMapping) {text : JsText}
    (h : ∀ u ∈ text, JsText.isAscii u = true ∨ JsText.isSpace u = true) :
    normalize m.toCaseMapping text = (text.filter (!isSeparator ·)).map canonical := by
  have hfilter : (text.map JsText.upperAscii).filter (!isSeparator ·) =
      (text.filter (!isSeparator ·)).map JsText.upperAscii := by
    rw [List.filter_map]
    congr 1
    apply List.filter_congr
    intro u _
    rw [Function.comp, isSeparator_upperAscii]
  rw [normalize, m.upper_spaced text h, hfilter, List.map_map, List.map_map, List.map_map]
  rfl

/-- What is written for symbols is read as these. -/
theorem map_canonical_of_writes {code written : JsText} (h : List.Forall₂ Writes code written)
    (hcode : ∀ u ∈ code, ∃ digit < 32, u = symbol digit) :
    written.map canonical = code ∧ ∀ u ∈ written, JsText.isAscii u = true := by
  induction h with
  | nil => exact ⟨rfl, fun u hu => nomatch hu⟩
  | @cons u w code written hw _ ih =>
    obtain ⟨hmap, hascii⟩ := ih fun v hv => hcode v (List.mem_cons_of_mem _ hv)
    obtain ⟨digit, hd, rfl⟩ := hcode u List.mem_cons_self
    obtain ⟨_, _, _, _, hplain, hupper, hown⟩ := symbol_facts hd
    have hread : canonical w = symbol digit ∧ JsText.isAscii (JsText.upperAscii w) = true := by
      rw [canonical]
      rcases hw with hw | ⟨hs, hw⟩ | ⟨hs, hw⟩ | ⟨hs, hw⟩
      · rw [canonical, hupper] at hown
        rw [hw]
        exact ⟨hown, hplain⟩
      · rw [hw, hs]
        decide
      · rcases hw with hw | hw
        · rw [hw, hs]
          decide
        · rw [hw, hs]
          decide
      · rw [hw, hs]
        decide
    rw [JsText.isAscii_upperAscii] at hread
    constructor
    · rw [List.map_cons, hmap, hread.1]
    · intro v hv
      rcases List.mem_cons.mp hv with rfl | hv
      · exact hread.2
      · exact hascii v hv

/-- A transcribed code is normalized to the symbols of the code. -/
theorem normalize_of_transcribes (m : SpacedCaseMapping) {bytes : RecoveryBytes} {written : JsText}
    (h : Transcribes written (generate bytes)) :
    normalize m.toCaseMapping written = symbols bytes := by
  rw [Transcribes, filter_generate] at h
  obtain ⟨hmap, hascii⟩ := map_canonical_of_writes h fun u hu => exists_digit hu
  rw [normalize_eq m, hmap]
  intro u hu
  cases hsep : isSeparator u with
  | false =>
    left
    apply hascii u
    rw [List.mem_filter, hsep]
    exact ⟨hu, rfl⟩
  | true =>
    rw [isSeparator, Bool.or_eq_true, beq_iff_eq] at hsep
    rcases hsep with hspace | rfl
    · exact Or.inr hspace
    · exact Or.inl (by decide)

/-- A code is one way to write it. -/
theorem transcribes_generate (bytes : RecoveryBytes) :
    Transcribes (generate bytes) (generate bytes) := by
  rw [Transcribes, filter_generate, List.forall₂_same]
  intro u hu
  obtain ⟨digit, hd, rfl⟩ := exists_digit hu
  exact Or.inl (symbol_facts hd).2.2.2.2.2.1

/-- What is read for a unit of ASCII that is no separator is read as itself. -/
theorem canonical_facts {u : UInt16} (hascii : JsText.isAscii u = true)
    (hsep : isSeparator u = false) : JsText.isAscii (canonical u) = true ∧
      isSeparator (canonical u) = false ∧ canonical (canonical u) = canonical u := by
  have key : ∀ n : Fin 128, isSeparator (UInt16.ofNat n) = false →
      JsText.isAscii (canonical (UInt16.ofNat n)) = true ∧
        isSeparator (canonical (UInt16.ofNat n)) = false ∧
        canonical (canonical (UInt16.ofNat n)) = canonical (UInt16.ofNat n) := by decide
  rw [JsText.isAscii, decide_eq_true_eq, UInt16.lt_iff_toNat_lt] at hascii
  have hu : UInt16.ofNat u.toNat = u := UInt16.ofNat_toNat
  have hcase := key ⟨u.toNat, hascii⟩
  rw [hu] at hcase
  exact hcase hsep

/-- Normalizing twice is normalizing once. -/
theorem normalize_normalize (m : SpacedCaseMapping) {text : JsText}
    (h : text.all JsText.isAscii = true) :
    normalize m.toCaseMapping (normalize m.toCaseMapping text) =
      normalize m.toCaseMapping text := by
  rw [List.all_eq_true] at h
  have hfacts : ∀ u ∈ text.filter (!isSeparator ·), JsText.isAscii (canonical u) = true ∧
      isSeparator (canonical u) = false ∧ canonical (canonical u) = canonical u := by
    intro u hu
    rw [List.mem_filter, Bool.not_eq_true'] at hu
    exact canonical_facts (h u hu.1) hu.2
  rw [normalize_eq m fun u hu => Or.inl (h u hu)]
  generalize text.filter (!isSeparator ·) = units at hfacts ⊢
  have hkeep : (units.map canonical).filter (!isSeparator ·) = units.map canonical := by
    rw [List.filter_eq_self]
    intro u hu
    obtain ⟨v, hv, rfl⟩ := List.mem_map.mp hu
    rw [(hfacts v hv).2.1]
    rfl
  have hascii : ∀ u ∈ units.map canonical,
      JsText.isAscii u = true ∨ JsText.isSpace u = true := by
    intro u hu
    obtain ⟨v, hv, rfl⟩ := List.mem_map.mp hu
    exact Or.inl (hfacts v hv).1
  rw [normalize_eq m hascii, hkeep, List.map_map]
  apply List.map_congr_left
  intro v hv
  rw [Function.comp, (hfacts v hv).2.2]

/-- What recovery codes are for: they survive transcription and stay distinct. -/
structure SurviveTranscription (m : CaseMapping) : Prop where
  groups : ∀ bytes, ∃ groups : List JsText, generate bytes = [dash].intercalate groups ∧
    groups.length = 8 ∧ ∀ group ∈ groups, group.length = 4 ∧ ∀ u ∈ group, u ∈ alphabet
  distinct : Function.Injective generate
  transcribed : ∀ bytes written, Transcribes written (generate bytes) →
    normalize m written = normalize m (generate bytes)
  distinct_normalized : Function.Injective fun bytes => normalize m (generate bytes)
  idempotent : ∀ text : JsText, text.all JsText.isAscii = true →
    normalize m (normalize m text) = normalize m text

/-- They are. -/
theorem surviveTranscription (m : SpacedCaseMapping) : SurviveTranscription m.toCaseMapping where
  groups bytes := by
    obtain ⟨groups, hcode, hflat, hcount, hfour⟩ := generate_groups bytes
    refine ⟨groups, hcode, hcount, fun group hgroup => ⟨hfour group hgroup, ?_⟩⟩
    intro u hu
    have hmem : u ∈ symbols bytes := by
      rw [← hflat]
      exact List.mem_flatten_of_mem hgroup hu
    obtain ⟨digit, hd, rfl⟩ := exists_digit hmem
    exact (symbol_facts hd).2.1
  distinct bytes bytes' h := by
    apply symbols_injective
    rw [← filter_generate, h, filter_generate]
  transcribed bytes written h := by
    rw [normalize_of_transcribes m h, normalize_of_transcribes m (transcribes_generate bytes)]
  distinct_normalized bytes bytes' h := by
    apply symbols_injective
    have hcode := normalize_of_transcribes m (transcribes_generate bytes)
    have hcode' := normalize_of_transcribes m (transcribes_generate bytes')
    exact hcode.symm.trans (h.trans hcode')
  idempotent _ h := normalize_normalize m h

example : normalize CaseMapping.ascii (js "  z83h889e-7d45ARKF-FJ4S D8XGQQ5D-fs7h\n") =
    js "Z83H889E7D45ARKFFJ4SD8XGQQ5DFS7H" := by decide

end RecoveryCode

end Nopass
