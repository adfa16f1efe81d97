import Nopass.Core.Text.JsText

/-!
# Reading and writing UTF-8

The decoder replaces what is no UTF-8 by U+FFFD, a byte that cannot go on being read
again as the start of the next character; the encoder replaces halves of a pair that
stand alone. A byte of ASCII always stands for itself, so that a text may be decoded in
parts around one.
-/

open JsText

/-- The character U+FFFD. -/
def replacement : Char := '\uFFFD'

/-- The characters of a text, a half of a pair alone read as U+FFFD. -/
def toScalars : JsText → List Char
  | [] => []
  | [u] => [if isSurrogate u then replacement else Char.ofNat u.toNat]
  | u :: v :: rest =>
    if isLead u && isTrail v then
      Char.ofNat (0x10000 + (u.toNat - 0xd800) * 0x400 + (v.toNat - 0xdc00)) :: toScalars rest
    else (if isSurrogate u then replacement else Char.ofNat u.toNat) :: toScalars (v :: rest)

/-- The bytes of characters. -/
def utf8Chars (chars : List Char) : List UInt8 := chars.flatMap String.utf8EncodeChar

/-- `Buffer.from(text, "utf-8")`. -/
def encodeUtf8 (text : JsText) : List UInt8 := utf8Chars (toScalars text)

/-- What the decoder has read of a character, and what the next byte may be. -/
structure PendingChar where
  codePoint : Nat
  /-- Bytes that follow the next one. -/
  needed : Nat
  low : Nat
  high : Nat
  low_ge : 0x80 ≤ low
  /-- No character is spelt longer than it has to be. -/
  shortest : 0x80 ≤ (codePoint * 0x40 + (low - 0x80)) * 0x40 ^ needed

/-- The character of a code point. -/
def scalar (n : Nat) : Char := if n.isValidChar then Char.ofNat n else replacement

/-- A byte between characters: the code units it stands for, and what is to come. -/
def firstByte (b : UInt8) : JsText × Option PendingChar :=
  if b.toNat < 0x80 then ([UInt16.ofNat b.toNat], none)
  else if h : 0xc2 ≤ b.toNat ∧ b.toNat ≤ 0xdf then
    ([], some ⟨b.toNat - 0xc0, 0, 0x80, 0xbf, by omega, by omega⟩)
  else if b.toNat = 0xe0 then ([], some ⟨0, 1, 0xa0, 0xbf, by omega, by omega⟩)
  else if b.toNat = 0xed then ([], some ⟨0xd, 1, 0x80, 0x9f, by omega, by omega⟩)
  else if h : 0xe1 ≤ b.toNat ∧ b.toNat ≤ 0xef then
    ([], some ⟨b.toNat - 0xe0, 1, 0x80, 0xbf, by omega, by omega⟩)
  else if b.toNat = 0xf0 then ([], some ⟨0, 2, 0x90, 0xbf, by omega, by omega⟩)
  else if b.toNat = 0xf4 then ([], some ⟨4, 2, 0x80, 0x8f, by omega, by omega⟩)
  else if h : 0xf1 ≤ b.toNat ∧ b.toNat ≤ 0xf3 then
    ([], some ⟨b.toNat - 0xf0, 2, 0x80, 0xbf, by omega, by omega⟩)
  else (utf16Char replacement, none)

/-- A byte inside a character that it goes on. -/
def nextByte (p : PendingChar) (b : UInt8) (h : p.low ≤ b.toNat) : JsText × Option PendingChar :=
  let codePoint := p.codePoint * 0x40 + (b.toNat - 0x80)
  match hneeded : p.needed with
  | 0 => (utf16Char (scalar codePoint), none)
  | needed + 1 =>
    ([], some ⟨codePoint, needed, 0x80, 0xbf, by omega, by
      have hshortest := p.shortest
      rw [hneeded, Nat.pow_succ'] at hshortest
      have hle : (p.codePoint * 0x40 + (p.low - 0x80)) ≤ codePoint := by omega
      have hmul := Nat.mul_le_mul_right (0x40 * 0x40 ^ needed) hle
      have hassoc : codePoint * (0x40 * 0x40 ^ needed) =
          (codePoint * 0x40 + (0x80 - 0x80)) * 0x40 ^ needed := by
        rw [Nat.sub_self, Nat.add_zero, Nat.mul_assoc]
      omega⟩)

/-- One byte: the code units it stands for, and what is to come. -/
def decodeByte : Option PendingChar → UInt8 → JsText × Option PendingChar
  | none, b => firstByte b
  | some p, b =>
    if h : p.low ≤ b.toNat ∧ b.toNat ≤ p.high then nextByte p b h.1
    else (utf16Char replacement ++ (firstByte b).1, (firstByte b).2)

/-- The rest of a text. -/
def decodeFrom : Option PendingChar → List UInt8 → JsText
  | none, [] => []
  | some _, [] => utf16Char replacement
  | p, b :: rest => (decodeByte p b).1 ++ decodeFrom (decodeByte p b).2 rest

/-- `buffer.toString("utf-8")`. -/
def decodeUtf8 (bytes : List UInt8) : JsText := decodeFrom none bytes

section Units

/-- Halves of a pair in numbers. -/
theorem isLead_iff {u : UInt16} : isLead u = true ↔ 0xd800 ≤ u.toNat ∧ u.toNat ≤ 0xdbff := by
  rw [isLead, Bool.and_eq_true, decide_eq_true_eq, decide_eq_true_eq, UInt16.le_iff_toNat_le,
    UInt16.le_iff_toNat_le]
  rfl

theorem isTrail_iff {u : UInt16} : isTrail u = true ↔ 0xdc00 ≤ u.toNat ∧ u.toNat ≤ 0xdfff := by
  rw [isTrail, Bool.and_eq_true, decide_eq_true_eq, decide_eq_true_eq, UInt16.le_iff_toNat_le,
    UInt16.le_iff_toNat_le]
  rfl

theorem isSurrogate_iff {u : UInt16} :
    isSurrogate u = true ↔ 0xd800 ≤ u.toNat ∧ u.toNat ≤ 0xdfff := by
  rw [isSurrogate, Bool.or_eq_true, isLead_iff, isTrail_iff]
  omega

/-- A code unit that is no half of a pair is a character. -/
theorem toScalars_cons {u : UInt16} (h : isSurrogate u = false) (rest : JsText) :
    toScalars (u :: rest) = Char.ofNat u.toNat :: toScalars rest := by
  have hlead : isLead u = false := by
    rw [isSurrogate, Bool.or_eq_false_iff] at h
    exact h.1
  cases rest with
  | nil => simp [toScalars, h]
  | cons v rest => simp [toScalars, h, hlead]

/-- The numbers of characters. -/
theorem toNat_char (c : Char) :
    c.toNat < 0xd800 ∨ 0xdfff < c.toNat ∧ c.toNat < 0x110000 := c.valid

/-- A character is read back. -/
theorem toScalars_utf16Char_append (c : Char) (rest : JsText) :
    toScalars (utf16Char c ++ rest) = c :: toScalars rest := by
  have hc := toNat_char c
  rw [utf16Char]
  split
  · rename_i hlow
    have hnat : (UInt16.ofNat c.toNat).toNat = c.toNat := by
      rw [UInt16.toNat_ofNat']
      omega
    have hplain : isSurrogate (UInt16.ofNat c.toNat) = false := by
      rw [Bool.eq_false_iff]
      intro h
      rw [isSurrogate_iff, hnat] at h
      omega
    rw [List.singleton_append, toScalars_cons hplain, hnat, Char.ofNat_toNat]
  · rename_i hhigh
    have hfirst : (UInt16.ofNat (0xd800 + (c.toNat - 0x10000) / 0x400)).toNat =
        0xd800 + (c.toNat - 0x10000) / 0x400 := by
      rw [UInt16.toNat_ofNat']
      omega
    have hsecond : (UInt16.ofNat (0xdc00 + (c.toNat - 0x10000) % 0x400)).toNat =
        0xdc00 + (c.toNat - 0x10000) % 0x400 := by
      rw [UInt16.toNat_ofNat']
      omega
    have hlead : isLead (UInt16.ofNat (0xd800 + (c.toNat - 0x10000) / 0x400)) = true := by
      rw [isLead_iff, hfirst]
      omega
    have htrail : isTrail (UInt16.ofNat (0xdc00 + (c.toNat - 0x10000) % 0x400)) = true := by
      rw [isTrail_iff, hsecond]
      omega
    have hnumber : 0x10000 + (0xd800 + (c.toNat - 0x10000) / 0x400 - 0xd800) * 0x400 +
        (0xdc00 + (c.toNat - 0x10000) % 0x400 - 0xdc00) = c.toNat := by
      omega
    simp only [List.cons_append, List.nil_append, toScalars, hlead, htrail, Bool.and_self, if_true,
      hfirst, hsecond, hnumber, Char.ofNat_toNat]

/-- Characters are read back. -/
@[simp] theorem toScalars_utf16 (chars : List Char) : toScalars (utf16 chars) = chars := by
  induction chars with
  | nil => rfl
  | cons c chars ih => rw [utf16, List.flatMap_cons, toScalars_utf16Char_append, ← utf16, ih]

/-- A text may be read in parts, unless a pair is cut. -/
theorem toScalars_append {rest : JsText} (h : rest.head?.any isTrail = false) (text : JsText) :
    toScalars (text ++ rest) = toScalars text ++ toScalars rest := by
  induction text using toScalars.induct with
  | case1 => rfl
  | case2 u =>
    cases rest with
    | nil => simp [toScalars]
    | cons v rest =>
      simp only [List.head?_cons, Option.any_some] at h
      simp [toScalars, h]
  | case3 u v text hpair ih => simp [toScalars, hpair, ih]
  | case4 u v text hpair ih =>
    rw [List.cons_append] at ih
    simp [toScalars, hpair, ih]

end Units

section Decode

attribute [local irreducible] utf16Char

variable {p : Option PendingChar}

@[simp] theorem decodeFrom_cons (p : Option PendingChar) (b : UInt8) (rest : List UInt8) :
    decodeFrom p (b :: rest) = (decodeByte p b).1 ++ decodeFrom (decodeByte p b).2 rest := by
  cases p with
  | none => rfl
  | some p => rfl

/-- A character outside ASCII has no code unit of ASCII. -/
theorem ge_of_mem_utf16Char {c : Char} (h : 0x80 ≤ c.toNat) : ∀ u ∈ utf16Char c, 0x80 ≤ u.toNat := by
  have hc := toNat_char c
  intro u hu
  rw [utf16Char] at hu
  split at hu
  · rw [List.mem_singleton.mp hu, UInt16.toNat_ofNat']
    omega
  · simp only [List.mem_cons, List.not_mem_nil, or_false] at hu
    rcases hu with rfl | rfl
    · rw [UInt16.toNat_ofNat']
      omega
    · rw [UInt16.toNat_ofNat']
      omega

/-- The number of a code point's character. -/
theorem toNat_ofNat {n : Nat} (h : n.isValidChar) : (Char.ofNat n).toNat = n := by
  rw [Char.ofNat, dif_pos h]
  rfl

/-- The character of a code point outside ASCII is outside ASCII. -/
theorem scalar_ge {n : Nat} (h : 0x80 ≤ n) : 0x80 ≤ (scalar n).toNat := by
  rw [scalar]
  split
  · rename_i hvalid
    rw [toNat_ofNat hvalid]
    exact h
  · decide

/-- A byte of ASCII stands for itself and ends what came before it. -/
theorem decodeByte_ascii {b : UInt8} (h : b.toNat < 0x80) (p : Option PendingChar) :
    decodeByte p b = (decodeFrom p [] ++ [UInt16.ofNat b.toNat], none) := by
  have hfirst : firstByte b = ([UInt16.ofNat b.toNat], none) := by rw [firstByte, if_pos h]
  cases p with
  | none => exact hfirst
  | some p =>
    have hlow := p.low_ge
    have hout : ¬ (p.low ≤ b.toNat ∧ b.toNat ≤ p.high) := by omega
    rw [decodeByte, dif_neg hout, hfirst]
    rfl

/-- Any other byte stands for no code unit of ASCII. -/
theorem decodeByte_ge {b : UInt8} (h : 0x80 ≤ b.toNat) (p : Option PendingChar) :
    ∀ u ∈ (decodeByte p b).1, 0x80 ≤ u.toNat := by
  have hreplacement : ∀ u ∈ utf16Char replacement, 0x80 ≤ u.toNat :=
    ge_of_mem_utf16Char (by decide)
  have hfirst : ∀ u ∈ (firstByte b).1, 0x80 ≤ u.toNat := by
    rw [firstByte, if_neg (by omega)]
    split_ifs
    all_goals first | exact hreplacement | simp
  cases p with
  | none => exact hfirst
  | some p =>
    rw [decodeByte]
    split
    · rename_i hin
      rw [nextByte]
      split
      · rename_i hneeded
        have hshortest := p.shortest
        rw [hneeded, Nat.pow_zero, Nat.mul_one] at hshortest
        have hlow := p.low_ge
        have hge : 0x80 ≤ p.codePoint * 0x40 + (b.toNat - 0x80) := by omega
        dsimp only
        exact ge_of_mem_utf16Char (scalar_ge hge)
      · simp
    · simp only [List.mem_append]
      rintro u (hu | hu)
      · exact hreplacement u hu
      · exact hfirst u hu

/-- Around a byte of ASCII the parts are decoded by themselves. -/
theorem decodeFrom_append_ascii {b : UInt8} (h : b.toNat < 0x80) (before after : List UInt8) :
    decodeFrom p (before ++ b :: after) =
      decodeFrom p before ++ UInt16.ofNat b.toNat :: decodeFrom none after := by
  induction before generalizing p with
  | nil => rw [List.nil_append, decodeFrom_cons, decodeByte_ascii h, List.append_assoc]; rfl
  | cons a before ih => rw [List.cons_append, decodeFrom_cons, decodeFrom_cons, ih, List.append_assoc]

/-- A code unit of ASCII comes from its byte. -/
theorem ascii_of_decodeFrom {bytes : List UInt8} {u v : JsText} {c : UInt16} (hc : c.toNat < 0x80)
    (h : decodeFrom p bytes = u ++ c :: v) : ∃ before b after, bytes = before ++ b :: after ∧
      UInt16.ofNat b.toNat = c ∧ decodeFrom p before = u ∧ decodeFrom none after = v := by
  have hnone : ∀ p : Option PendingChar, ∀ x ∈ decodeFrom p [], 0x80 ≤ x.toNat := by
    intro p
    cases p with
    | none => simp [decodeFrom]
    | some p => exact ge_of_mem_utf16Char (by decide)
  induction bytes generalizing p u with
  | nil =>
    have hmem := hnone p c (by simp [h])
    omega
  | cons b rest ih =>
    rw [decodeFrom_cons] at h
    -- An element of ASCII is not among those before it.
    have hsplit {high tail : JsText} (hhigh : ∀ x ∈ high, 0x80 ≤ x.toNat)
        (heq : high ++ tail = u ++ c :: v) : ∃ u', u = high ++ u' ∧ tail = u' ++ c :: v := by
      rcases List.append_eq_append_iff.mp heq with ⟨u', hu, htail⟩ | ⟨w, hw, hv⟩
      · exact ⟨u', hu, htail⟩
      · cases w with
        | nil =>
          rw [List.append_nil] at hw
          exact ⟨[], by rw [hw, List.append_nil], hv.symm⟩
        | cons x w =>
          obtain ⟨rfl, -⟩ := List.cons.inj hv
          have hx := hhigh c (by simp [hw])
          omega
    by_cases hb : b.toNat < 0x80
    · rw [decodeByte_ascii hb, List.append_assoc, List.singleton_append] at h
      obtain ⟨u', rfl, htail⟩ := hsplit (hnone p) h
      cases u' with
      | nil =>
        obtain ⟨hbyte, hrest⟩ := List.cons.inj htail
        exact ⟨[], b, rest, rfl, hbyte, by rw [List.append_nil], hrest⟩
      | cons x u' =>
        obtain ⟨rfl, hrest⟩ := List.cons.inj htail
        obtain ⟨before, b', after, rfl, hb', hbefore, hafter⟩ := ih hrest
        refine ⟨b :: before, b', after, rfl, hb', ?_, hafter⟩
        rw [decodeFrom_cons, decodeByte_ascii hb, List.append_assoc, hbefore]
        rfl
    · obtain ⟨u', rfl, htail⟩ := hsplit (decodeByte_ge (Nat.not_lt.mp hb) p) h
      obtain ⟨before, b', after, rfl, hb', hbefore, hafter⟩ := ih htail
      refine ⟨b :: before, b', after, rfl, hb', ?_, hafter⟩
      rw [decodeFrom_cons, hbefore]

/-- A character has a code unit. -/
theorem utf16Char_ne_nil (c : Char) : utf16Char c ≠ [] := by
  rw [utf16Char]
  split
  · simp
  · simp

/-- A byte that stands for nothing yet starts or goes on a character. -/
theorem isSome_of_decodeByte {b : UInt8} (h : (decodeByte p b).1 = []) :
    (decodeByte p b).2.isSome = true := by
  have hfirst : (firstByte b).1 = [] → (firstByte b).2.isSome = true := by
    rw [firstByte]
    split_ifs
    all_goals simp [utf16Char_ne_nil]
  cases p with
  | none => exact hfirst h
  | some p =>
    rw [decodeByte] at h ⊢
    split at h
    · rename_i hin
      rw [dif_pos hin]
      rw [nextByte] at h ⊢
      split at h
      · dsimp only at h
        exact (utf16Char_ne_nil _ h).elim
      · rfl
    · rw [List.append_eq_nil_iff] at h
      exact (utf16Char_ne_nil _ h.1).elim

/-- Only nothing is decoded to nothing. -/
theorem eq_nil_of_decodeFrom {bytes : List UInt8} (h : decodeFrom p bytes = []) :
    bytes = [] ∧ p = none := by
  induction bytes generalizing p with
  | nil =>
    cases p with
    | none => exact ⟨rfl, rfl⟩
    | some p => exact (utf16Char_ne_nil _ h).elim
  | cons b rest ih =>
    rw [decodeFrom_cons, List.append_eq_nil_iff] at h
    have hsome := isSome_of_decodeByte h.1
    rw [(ih h.2).2] at hsome
    cases hsome

/-- A byte stands for characters. -/
theorem exists_utf16_decodeByte (p : Option PendingChar) (b : UInt8) :
    ∃ chars, (decodeByte p b).1 = utf16 chars := by
  have hchar (c : Char) : utf16Char c = utf16 [c] := by rw [utf16, List.flatMap_singleton]
  have hfirst : ∃ chars, (firstByte b).1 = utf16 chars := by
    by_cases hb : b.toNat < 0x80
    · have hvalid : b.toNat.isValidChar := .inl (by omega)
      refine ⟨[Char.ofNat b.toNat], ?_⟩
      rw [firstByte, if_pos hb, ← hchar, utf16Char, toNat_ofNat hvalid, if_pos (by omega)]
    · rw [firstByte, if_neg hb]
      split_ifs
      all_goals first | exact ⟨[], rfl⟩ | exact ⟨[replacement], hchar replacement⟩
  cases p with
  | none => exact hfirst
  | some p =>
    rw [decodeByte]
    split
    · rw [nextByte]
      split
      · dsimp only
        exact ⟨[scalar _], hchar _⟩
      · exact ⟨[], rfl⟩
    · obtain ⟨chars, hchars⟩ := hfirst
      refine ⟨replacement :: chars, ?_⟩
      rw [hchars, utf16, utf16, List.flatMap_cons]

/-- What is decoded are characters. -/
theorem exists_utf16_decodeFrom (bytes : List UInt8) (p : Option PendingChar) :
    ∃ chars, decodeFrom p bytes = utf16 chars := by
  induction bytes generalizing p with
  | nil =>
    cases p with
    | none => exact ⟨[], rfl⟩
    | some p =>
      refine ⟨[replacement], ?_⟩
      rw [utf16, List.flatMap_singleton, decodeFrom]
  | cons b rest ih =>
    obtain ⟨chars, hchars⟩ := exists_utf16_decodeByte p b
    obtain ⟨chars', hchars'⟩ := ih (decodeByte p b).2
    refine ⟨chars ++ chars', ?_⟩
    rw [decodeFrom_cons, hchars, hchars', utf16, utf16, utf16, List.flatMap_append]

/-- The last byte of a character. -/
theorem decodeFrom_last {p : PendingChar} (hneeded : p.needed = 0) {b : UInt8}
    (hb : p.low ≤ b.toNat ∧ b.toNat ≤ p.high) (rest : List UInt8) :
    decodeFrom (some p) (b :: rest) =
      utf16Char (scalar (p.codePoint * 0x40 + (b.toNat - 0x80))) ++ decodeFrom none rest := by
  rw [decodeFrom_cons, decodeByte, dif_pos hb, nextByte]
  split
  · dsimp only
  · rename_i hsucc
    rw [hneeded] at hsucc
    cases hsucc

/-- A byte inside a character that is not its last. -/
theorem decodeFrom_more {p : PendingChar} {needed : Nat} (hneeded : p.needed = needed + 1)
    {b : UInt8} (hb : p.low ≤ b.toNat ∧ b.toNat ≤ p.high) (rest : List UInt8) :
    ∃ q : PendingChar, q.codePoint = p.codePoint * 0x40 + (b.toNat - 0x80) ∧ q.needed = needed ∧
      q.low = 0x80 ∧ q.high = 0xbf ∧ decodeFrom (some p) (b :: rest) = decodeFrom (some q) rest := by
  rw [decodeFrom_cons, decodeByte, dif_pos hb, nextByte]
  split
  · rename_i hzero
    rw [hneeded] at hzero
    cases hzero
  · rename_i k hsucc
    rw [hneeded] at hsucc
    cases hsucc
    refine ⟨_, ?_, ?_, ?_, ?_, rfl⟩
    all_goals rfl

/-- The first byte of a character of two bytes. -/
theorem decodeFrom_two {b : UInt8} (hb : 0xc2 ≤ b.toNat ∧ b.toNat ≤ 0xdf) (rest : List UInt8) :
    ∃ q : PendingChar, q.codePoint = b.toNat - 0xc0 ∧ q.needed = 0 ∧ q.low = 0x80 ∧ q.high = 0xbf ∧
      decodeFrom none (b :: rest) = decodeFrom (some q) rest := by
  rw [decodeFrom_cons, decodeByte, firstByte, if_neg (by omega), dif_pos hb]
  refine ⟨_, ?_, ?_, ?_, ?_, rfl⟩
  all_goals rfl

/-- The first byte of a character of three bytes. -/
theorem decodeFrom_three {b : UInt8} (hb : 0xe0 ≤ b.toNat ∧ b.toNat ≤ 0xef) (rest : List UInt8) :
    ∃ q : PendingChar, q.codePoint = b.toNat - 0xe0 ∧ q.needed = 1 ∧
      (q.low = 0x80 ∨ b.toNat = 0xe0 ∧ q.low = 0xa0) ∧
      (q.high = 0xbf ∨ b.toNat = 0xed ∧ q.high = 0x9f) ∧
      decodeFrom none (b :: rest) = decodeFrom (some q) rest := by
  rw [decodeFrom_cons, decodeByte, firstByte, if_neg (by omega), dif_neg (by omega)]
  split_ifs with h₁ h₂ h₃
  · refine ⟨_, ?_, ?_, ?_, ?_, rfl⟩
    · rw [h₁]
    · rfl
    · exact .inr ⟨h₁, rfl⟩
    · exact .inl rfl
  · refine ⟨_, ?_, ?_, ?_, ?_, rfl⟩
    · rw [h₂]
    · rfl
    · exact .inl rfl
    · exact .inr ⟨h₂, rfl⟩
  · refine ⟨_, ?_, ?_, ?_, ?_, rfl⟩
    · rfl
    · rfl
    · exact .inl rfl
    · exact .inl rfl
  all_goals omega

/-- The first byte of a character of four bytes. -/
theorem decodeFrom_four {b : UInt8} (hb : 0xf0 ≤ b.toNat ∧ b.toNat ≤ 0xf4) (rest : List UInt8) :
    ∃ q : PendingChar, q.codePoint = b.toNat - 0xf0 ∧ q.needed = 2 ∧
      (q.low = 0x80 ∨ b.toNat = 0xf0 ∧ q.low = 0x90) ∧
      (q.high = 0xbf ∨ b.toNat = 0xf4 ∧ q.high = 0x8f) ∧
      decodeFrom none (b :: rest) = decodeFrom (some q) rest := by
  rw [decodeFrom_cons, decodeByte, firstByte, if_neg (by omega), dif_neg (by omega),
    if_neg (by omega), if_neg (by omega), dif_neg (by omega)]
  split_ifs with h₁ h₂ h₃
  · refine ⟨_, ?_, ?_, ?_, ?_, rfl⟩
    · rw [h₁]
    · rfl
    · exact .inr ⟨h₁, rfl⟩
    · exact .inl rfl
  · refine ⟨_, ?_, ?_, ?_, ?_, rfl⟩
    · rw [h₂]
    · rfl
    · exact .inl rfl
    · exact .inr ⟨h₂, rfl⟩
  · refine ⟨_, ?_, ?_, ?_, ?_, rfl⟩
    · rfl
    · rfl
    · exact .inl rfl
    · exact .inl rfl
  · omega

/-- The last byte's number. -/
theorem toNat_byte {n : Nat} (h : n < 0x100) : (UInt8.ofNat n).toNat = n := by
  rw [UInt8.toNat_ofNat']
  omega

/-- The character of its code point. -/
theorem scalar_toNat (c : Char) : scalar c.toNat = c := by
  have hvalid : c.toNat.isValidChar := by
    have hc := toNat_char c
    rcases hc with hlow | hhigh
    · exact .inl hlow
    · exact .inr hhigh
  rw [scalar, if_pos hvalid, Char.ofNat_toNat]

/-- A character is decoded. -/
theorem decodeFrom_utf8EncodeChar (c : Char) (rest : List UInt8) :
    decodeFrom none (String.utf8EncodeChar c ++ rest) = utf16Char c ++ decodeFrom none rest := by
  have hc := toNat_char c
  have hval : c.val.toNat = c.toNat := rfl
  have htail (n : Nat) : (UInt8.ofNat (n % 0x40 + 0x80)).toNat = n % 0x40 + 0x80 :=
    toNat_byte (by omega)
  rw [String.utf8EncodeChar, hval]
  split_ifs with h₁ h₂ h₃
  · have hb : (UInt8.ofNat c.toNat).toNat < 0x80 := by
      rw [toNat_byte (by omega)]
      omega
    have h : _ = _ := decodeFrom_append_ascii (p := none) hb [] rest
    rw [List.nil_append, toNat_byte (by omega)] at h
    rw [List.singleton_append, h, utf16Char, if_pos (by omega)]
    rfl
  · have hfirst : (UInt8.ofNat (c.toNat / 64 % 0x20 + 0xc0)).toNat = c.toNat / 64 + 0xc0 := by
      rw [toNat_byte (by omega)]
      omega
    obtain ⟨q, hcode, hneeded, hlow, hhigh, hq⟩ := decodeFrom_two
      (b := UInt8.ofNat (c.toNat / 64 % 0x20 + 0xc0)) (by omega)
      (UInt8.ofNat (c.toNat % 0x40 + 0x80) :: rest)
    have hlast := decodeFrom_last hneeded (b := UInt8.ofNat (c.toNat % 0x40 + 0x80))
      (by rw [htail]; omega) rest
    have hnumber : q.codePoint * 0x40 + (c.toNat % 0x40 + 0x80 - 0x80) = c.toNat := by omega
    rw [htail, hnumber, scalar_toNat] at hlast
    exact hq.trans hlast
  · have hfirst : (UInt8.ofNat (c.toNat / 4096 % 0x10 + 0xe0)).toNat = c.toNat / 4096 + 0xe0 := by
      rw [toNat_byte (by omega)]
      omega
    obtain ⟨q, hcode, hneeded, hlow, hhigh, hq⟩ := decodeFrom_three
      (b := UInt8.ofNat (c.toNat / 4096 % 0x10 + 0xe0)) (by omega)
      (UInt8.ofNat (c.toNat / 64 % 0x40 + 0x80) :: UInt8.ofNat (c.toNat % 0x40 + 0x80) :: rest)
    obtain ⟨r, hcode', hneeded', hlow', hhigh', hr⟩ := decodeFrom_more hneeded
      (b := UInt8.ofNat (c.toNat / 64 % 0x40 + 0x80)) (by rw [htail]; omega)
      (UInt8.ofNat (c.toNat % 0x40 + 0x80) :: rest)
    have hlast := decodeFrom_last hneeded' (b := UInt8.ofNat (c.toNat % 0x40 + 0x80))
      (by rw [htail]; omega) rest
    rw [htail] at hcode'
    have hnumber : r.codePoint * 0x40 + (c.toNat % 0x40 + 0x80 - 0x80) = c.toNat := by omega
    rw [htail, hnumber, scalar_toNat] at hlast
    exact hq.trans (hr.trans hlast)
  · have hfirst : (UInt8.ofNat (c.toNat / 262144 % 0x08 + 0xf0)).toNat =
        c.toNat / 262144 + 0xf0 := by
      rw [toNat_byte (by omega)]
      omega
    obtain ⟨q, hcode, hneeded, hlow, hhigh, hq⟩ := decodeFrom_four
      (b := UInt8.ofNat (c.toNat / 262144 % 0x08 + 0xf0)) (by omega)
      (UInt8.ofNat (c.toNat / 4096 % 0x40 + 0x80) :: UInt8.ofNat (c.toNat / 64 % 0x40 + 0x80) ::
        UInt8.ofNat (c.toNat % 0x40 + 0x80) :: rest)
    obtain ⟨r, hcode', hneeded', hlow', hhigh', hr⟩ := decodeFrom_more hneeded
      (b := UInt8.ofNat (c.toNat / 4096 % 0x40 + 0x80)) (by rw [htail]; omega)
      (UInt8.ofNat (c.toNat / 64 % 0x40 + 0x80) :: UInt8.ofNat (c.toNat % 0x40 + 0x80) :: rest)
    obtain ⟨t, hcode'', hneeded'', hlow'', hhigh'', ht⟩ := decodeFrom_more hneeded'
      (b := UInt8.ofNat (c.toNat / 64 % 0x40 + 0x80)) (by rw [htail]; omega)
      (UInt8.ofNat (c.toNat % 0x40 + 0x80) :: rest)
    have hlast := decodeFrom_last hneeded'' (b := UInt8.ofNat (c.toNat % 0x40 + 0x80))
      (by rw [htail]; omega) rest
    rw [htail] at hcode' hcode''
    have hnumber : t.codePoint * 0x40 + (c.toNat % 0x40 + 0x80 - 0x80) = c.toNat := by omega
    rw [htail, hnumber, scalar_toNat] at hlast
    exact hq.trans (hr.trans (ht.trans hlast))

/-- What was encoded is decoded. -/
@[simp] theorem decodeUtf8_utf8Chars (chars : List Char) :
    decodeUtf8 (utf8Chars chars) = utf16 chars := by
  induction chars with
  | nil => rfl
  | cons c chars ih =>
    rw [decodeUtf8] at ih ⊢
    rw [utf8Chars, List.flatMap_cons, decodeFrom_utf8EncodeChar, ← utf8Chars, ih, utf16,
      utf16, List.flatMap_cons]

end Decode

section Lines

/-- Bytes that are UTF-8. -/
def ValidUtf8 (bytes : List UInt8) : Prop := ∃ chars, bytes = utf8Chars chars

/-- A text with U+FFFD for the halves of a pair that stand alone: what is left of it in a file. -/
def toWellFormed (text : JsText) : JsText := utf16 (toScalars text)

/-- A text is read from a file as it was left there. -/
@[simp] theorem decodeUtf8_encodeUtf8 (text : JsText) :
    decodeUtf8 (encodeUtf8 text) = toWellFormed text :=
  decodeUtf8_utf8Chars _

/-- What was decoded has no half of a pair alone. -/
@[simp] theorem toWellFormed_decodeUtf8 (bytes : List UInt8) :
    toWellFormed (decodeUtf8 bytes) = decodeUtf8 bytes := by
  obtain ⟨chars, hchars⟩ := exists_utf16_decodeFrom bytes none
  rw [decodeUtf8, hchars, toWellFormed, toScalars_utf16]

/-- Bytes are written back exactly when they are UTF-8. -/
theorem encodeUtf8_decodeUtf8_iff (bytes : List UInt8) :
    encodeUtf8 (decodeUtf8 bytes) = bytes ↔ ValidUtf8 bytes := by
  constructor
  · intro h
    exact ⟨_, h.symm⟩
  · rintro ⟨chars, rfl⟩
    rw [decodeUtf8_utf8Chars, encodeUtf8, toScalars_utf16]

/-- A code unit is kept by itself. -/
theorem utf16Char_ofNat {u : UInt16} (h : isSurrogate u = false) :
    utf16Char (Char.ofNat u.toNat) = [u] := by
  have hu := u.toNat_lt
  have hvalid : u.toNat.isValidChar := by
    rw [Bool.eq_false_iff, ne_eq, isSurrogate_iff] at h
    by_cases hlow : u.toNat < 0xd800
    · exact .inl hlow
    · exact .inr ⟨by omega, by omega⟩
  rw [utf16Char, toNat_ofNat hvalid, if_pos (by omega), UInt16.ofNat_toNat]

/-- A code unit that is no half of a pair is kept. -/
theorem toWellFormed_cons {u : UInt16} (h : isSurrogate u = false) (rest : JsText) :
    toWellFormed (u :: rest) = u :: toWellFormed rest := by
  rw [toWellFormed, toScalars_cons h, utf16, List.flatMap_cons, utf16Char_ofNat h]
  rfl

/-- A pair is kept. -/
theorem utf16Char_pair {u v : UInt16} (hu : isLead u = true) (hv : isTrail v = true) :
    utf16Char (Char.ofNat (0x10000 + (u.toNat - 0xd800) * 0x400 + (v.toNat - 0xdc00))) = [u, v] := by
  rw [isLead_iff] at hu
  rw [isTrail_iff] at hv
  have hvalid : (0x10000 + (u.toNat - 0xd800) * 0x400 + (v.toNat - 0xdc00)).isValidChar :=
    .inr ⟨by omega, by omega⟩
  rw [utf16Char, toNat_ofNat hvalid, if_neg (by omega)]
  have hfirst : 0xd800 + (0x10000 + (u.toNat - 0xd800) * 0x400 + (v.toNat - 0xdc00) - 0x10000) /
      0x400 = u.toNat := by omega
  have hsecond : 0xdc00 + (0x10000 + (u.toNat - 0xd800) * 0x400 + (v.toNat - 0xdc00) - 0x10000) %
      0x400 = v.toNat := by omega
  rw [hfirst, hsecond, UInt16.ofNat_toNat, UInt16.ofNat_toNat]

/-- Both halves of a pair are kept. -/
theorem toWellFormed_pair {u v : UInt16} (h : (isLead u && isTrail v) = true) (rest : JsText) :
    toWellFormed (u :: v :: rest) = u :: v :: toWellFormed rest := by
  rw [toWellFormed, toScalars, if_pos h, utf16, List.flatMap_cons]
  rw [Bool.and_eq_true] at h
  rw [utf16Char_pair h.1 h.2]
  rfl

/-- A half of a pair that stands alone is replaced. -/
theorem toWellFormed_lone {u : UInt16} (h : isSurrogate u = true) {rest : JsText}
    (hpair : (isLead u && rest.head?.any isTrail) = false) :
    toWellFormed (u :: rest) = 0xfffd :: toWellFormed rest := by
  have hreplacement : utf16Char replacement = [0xfffd] := by decide
  cases rest with
  | nil =>
    rw [toWellFormed, toScalars, if_pos h, utf16, List.flatMap_cons, hreplacement]
    rfl
  | cons v rest =>
    rw [List.head?_cons, Option.any_some] at hpair
    rw [toWellFormed, toScalars, hpair, if_neg Bool.false_ne_true, if_pos h, utf16,
      List.flatMap_cons, hreplacement]
    rfl

/-- A half of a pair is not U+FFFD. -/
theorem ne_replacement {u : UInt16} (h : isSurrogate u = true) : u ≠ 0xfffd := by
  rintro rfl
  revert h
  decide

/-- A text is left as it is exactly when it is well formed. -/
theorem toWellFormed_eq_iff (text : JsText) :
    toWellFormed text = text ↔ isWellFormed text = true := by
  induction text using toScalars.induct with
  | case1 => simp [toWellFormed, toScalars, utf16, isWellFormed]
  | case2 u =>
    by_cases hu : isSurrogate u = true
    · rw [toWellFormed_lone hu (by simp)]
      simp [isWellFormed, hu, (ne_replacement hu).symm]
    · rw [Bool.not_eq_true] at hu
      rw [toWellFormed_cons hu]
      simp [isWellFormed, hu, toWellFormed, toScalars, utf16]
  | case3 u v rest hpair ih =>
    rw [toWellFormed_pair hpair, isWellFormed, if_pos hpair, ← ih]
    simp
  | case4 u v rest hpair ih =>
    rw [Bool.not_eq_true] at hpair
    rw [isWellFormed, if_neg (by simp [hpair])]
    by_cases hu : isSurrogate u = true
    · rw [toWellFormed_lone hu (by simpa using hpair)]
      simp [hu, (ne_replacement hu).symm]
    · rw [Bool.not_eq_true] at hu
      rw [toWellFormed_cons hu, hu]
      simp [ih]

/-- A text may be mended in parts, unless a pair is cut. -/
theorem toWellFormed_append {rest : JsText} (h : rest.head?.any isTrail = false) (text : JsText) :
    toWellFormed (text ++ rest) = toWellFormed text ++ toWellFormed rest := by
  rw [toWellFormed, toScalars_append h, utf16, List.flatMap_append]
  rfl

/-- Mending a text adds and takes away no code unit but U+FFFD and halves of pairs. -/
theorem mem_toWellFormed_iff {u : UInt16} (hu : isSurrogate u = false) (hne : u ≠ 0xfffd)
    (text : JsText) : u ∈ toWellFormed text ↔ u ∈ text := by
  have hsurrogate {v : UInt16} (hv : isSurrogate v = true) : u ≠ v := by
    rintro rfl
    rw [hu] at hv
    cases hv
  induction text using toScalars.induct with
  | case1 => simp [toWellFormed, toScalars, utf16]
  | case2 v =>
    by_cases hv : isSurrogate v = true
    · rw [toWellFormed_lone hv (by simp)]
      simp [toWellFormed, toScalars, utf16, hne, hsurrogate hv]
    · rw [Bool.not_eq_true] at hv
      rw [toWellFormed_cons hv]
      simp [toWellFormed, toScalars, utf16]
  | case3 v w rest hpair ih => simp [toWellFormed_pair hpair, ih]
  | case4 v w rest hpair ih =>
    rw [Bool.not_eq_true] at hpair
    by_cases hv : isSurrogate v = true
    · have hmem : toWellFormed (v :: w :: rest) = 0xfffd :: toWellFormed (w :: rest) :=
        toWellFormed_lone hv (by simpa using hpair)
      simp [hmem, ih, hne, hsurrogate hv]
    · rw [Bool.not_eq_true] at hv
      simp [toWellFormed_cons hv, ih]

end Lines
