/-!
# Base64

The standard alphabet with padding. `decode` is strict: the length is a multiple of
four, padding stands only at the end and the bits it leaves over are zero.
-/

namespace Base64

/-- The character of a six-bit value. -/
def digit (n : Nat) : Char :=
  if n < 26 then Char.ofNat (65 + n)
  else if n < 52 then Char.ofNat (71 + n)
  else if n < 62 then Char.ofNat (n - 4)
  else if n = 62 then '+' else '/'

/-- The six-bit value of a character. -/
def value (c : Char) : Option Nat :=
  if 'A' ≤ c ∧ c ≤ 'Z' then some (c.toNat - 65)
  else if 'a' ≤ c ∧ c ≤ 'z' then some (c.toNat - 71)
  else if '0' ≤ c ∧ c ≤ '9' then some (c.toNat + 4)
  else if c = '+' then some 62
  else if c = '/' then some 63
  else none

/-- Every six-bit value is read back from its character, which is not padding. -/
theorem value_digit {n : Nat} (h : n < 64) : value (digit n) = some n ∧ digit n ≠ '=' := by
  have key : ∀ m : Fin 64, value (digit m.val) = some m.val ∧ digit m.val ≠ '=' := by decide
  exact key ⟨n, h⟩

/-- The characters of a byte string. -/
def encodeChars : List UInt8 → List Char
  | [] => []
  | [a] => [digit (a.toNat / 4), digit (a.toNat % 4 * 16), '=', '=']
  | [a, b] =>
    [digit (a.toNat / 4), digit (a.toNat % 4 * 16 + b.toNat / 16), digit (b.toNat % 16 * 4), '=']
  | a :: b :: c :: rest =>
    digit (a.toNat / 4) :: digit (a.toNat % 4 * 16 + b.toNat / 16) ::
      digit (b.toNat % 16 * 4 + c.toNat / 64) :: digit (c.toNat % 64) :: encodeChars rest

/-- The byte of the first two six-bit values of a group, and so on. -/
def byte₁ (x y : Nat) : UInt8 := UInt8.ofNat (x * 4 + y / 16)

/-- The second byte of a group. -/
def byte₂ (y z : Nat) : UInt8 := UInt8.ofNat (y % 16 * 16 + z / 4)

/-- The third byte of a group. -/
def byte₃ (z t : Nat) : UInt8 := UInt8.ofNat (z % 4 * 64 + t)

/-- The byte string of some characters. -/
def decodeChars : List Char → Option (List UInt8)
  | [] => some []
  | a :: b :: c :: d :: rest => do
    let x ← value a
    let y ← value b
    if rest = [] ∧ d = '=' then
      if c = '=' then
        if y % 16 = 0 then some [byte₁ x y] else none
      else
        let z ← value c
        if z % 4 = 0 then some [byte₁ x y, byte₂ y z] else none
    else
      let z ← value c
      let t ← value d
      let tail ← decodeChars rest
      some (byte₁ x y :: byte₂ y z :: byte₃ z t :: tail)
  | _ => none

/-- Base64 text of a byte string. -/
def encode (bytes : List UInt8) : String := String.ofList (encodeChars bytes)

/-- The byte string of a base64 text. -/
def decode (text : String) : Option (List UInt8) := decodeChars text.toList

/-- The byte string of a text in the URL-safe alphabet without padding. -/
def decodeUrl (text : String) : Option (List UInt8) :=
  let chars := text.toList
  if chars.any fun c => c = '+' ∨ c = '/' ∨ c = '=' then none else
  let chars := chars.map fun c => if c = '-' then '+' else if c = '_' then '/' else c
  decodeChars (chars ++ List.replicate (if chars.length % 4 = 0 then 0 else 4 - chars.length % 4) '=')

private theorem ofNat_eq {a : UInt8} {n : Nat} (h : n = a.toNat) : UInt8.ofNat n = a := by
  rw [h, UInt8.ofNat_toNat]

private theorem byte₁_eq (a : UInt8) {k : Nat} (hk : k < 16) :
    byte₁ (a.toNat / 4) (a.toNat % 4 * 16 + k) = a := by
  apply ofNat_eq
  omega

private theorem byte₂_eq (b : UInt8) (n : Nat) {k : Nat} (hk : k < 4) :
    byte₂ (n * 16 + b.toNat / 16) (b.toNat % 16 * 4 + k) = b := by
  have hb := b.toNat_lt
  apply ofNat_eq
  omega

private theorem byte₃_eq (c : UInt8) (n : Nat) :
    byte₃ (n * 4 + c.toNat / 64) (c.toNat % 64) = c := by
  have hc := c.toNat_lt
  apply ofNat_eq
  omega

/-- Encoded bytes decode to themselves. -/
theorem decodeChars_encodeChars (bytes : List UInt8) :
    decodeChars (encodeChars bytes) = some bytes := by
  induction bytes using encodeChars.induct with
  | case1 => rfl
  | case2 a =>
    have ha := a.toNat_lt
    have hx := value_digit (n := a.toNat / 4) (by omega)
    have hy := value_digit (n := a.toNat % 4 * 16) (by omega)
    simp only [encodeChars, decodeChars, hx.1, hy.1, Option.bind_eq_bind, Option.bind_some]
    simpa using byte₁_eq a (k := 0) (by decide)
  | case3 a b =>
    have ha := a.toNat_lt
    have hb := b.toNat_lt
    have hx := value_digit (n := a.toNat / 4) (by omega)
    have hy := value_digit (n := a.toNat % 4 * 16 + b.toNat / 16) (by omega)
    have hz := value_digit (n := b.toNat % 16 * 4) (by omega)
    have h₁ := byte₁_eq a (k := b.toNat / 16) (by omega)
    have h₂ := byte₂_eq b (a.toNat % 4) (k := 0) (by decide)
    rw [Nat.add_zero] at h₂
    simp only [encodeChars, decodeChars, hx.1, hy.1, hz.1, hz.2, Option.bind_eq_bind,
      Option.bind_some, and_self, if_true, if_false, h₁, h₂]
    rw [if_pos (by omega)]
  | case4 a b c rest ih =>
    have ha := a.toNat_lt
    have hb := b.toNat_lt
    have hc := c.toNat_lt
    have hx := value_digit (n := a.toNat / 4) (by omega)
    have hy := value_digit (n := a.toNat % 4 * 16 + b.toNat / 16) (by omega)
    have hz := value_digit (n := b.toNat % 16 * 4 + c.toNat / 64) (by omega)
    have ht := value_digit (n := c.toNat % 64) (by omega)
    have h₁ := byte₁_eq a (k := b.toNat / 16) (by omega)
    have h₂ := byte₂_eq b (a.toNat % 4) (k := c.toNat / 64) (by omega)
    have h₃ := byte₃_eq c (b.toNat % 16)
    simp only [encodeChars, decodeChars, hx.1, hy.1, hz.1, ht.1, ht.2, Option.bind_eq_bind,
      Option.bind_some, and_false, if_false, ih, h₁, h₂, h₃]

/-- Encoded bytes decode to themselves, as text. -/
@[simp] theorem decode_encode (bytes : List UInt8) : decode (encode bytes) = some bytes := by
  rw [decode, encode, String.toList_ofList, decodeChars_encodeChars]

/-- Skipped by `atob`. -/
def isSpace (c : Char) : Bool := c = ' ' || c = '\t' || c = '\n' || c = '\x0c' || c = '\r'

/-- Without one or two padding characters at the end. -/
def stripPad : List Char → List Char
  | [] => []
  | ['='] => []
  | ['=', '='] => []
  | c :: rest => c :: stripPad rest

/-- The bytes of unpadded characters; left-over bits are dropped. -/
def decodeLoose : List Char → Option (List UInt8)
  | [] => some []
  | [_] => none
  | [a, b] => do
    let x ← value a
    let y ← value b
    some [byte₁ x y]
  | [a, b, c] => do
    let x ← value a
    let y ← value b
    let z ← value c
    some [byte₁ x y, byte₂ y z]
  | a :: b :: c :: d :: rest => do
    let x ← value a
    let y ← value b
    let z ← value c
    let t ← value d
    let tail ← decodeLoose rest
    some (byte₁ x y :: byte₂ y z :: byte₃ z t :: tail)

/-- JavaScript's `atob`, as bytes: spaces are skipped and padding is optional. -/
def atob (text : String) : Option (List UInt8) :=
  let chars := text.toList.filter fun c => !isSpace c
  decodeLoose (if chars.length % 4 = 0 then stripPad chars else chars)

private theorem isSpace_digit (n : Nat) : isSpace (digit n) = false := by
  by_cases h : n < 64
  · have key : ∀ m : Fin 64, isSpace (digit m.val) = false := by decide
    exact key ⟨n, h⟩
  · have hslash : digit n = '/' := by
      unfold digit
      rw [if_neg (by omega), if_neg (by omega), if_neg (by omega), if_neg (by omega)]
    rw [hslash]
    rfl

private theorem stripPad_cons {c : Char} (h : c ≠ '=') (rest : List Char) :
    stripPad (c :: rest) = c :: stripPad rest := by
  rw [stripPad]
  · rintro rfl
    exact absurd rfl h
  · rintro rfl
    exact absurd rfl h

/-- Encoded bytes have no spaces and come in groups of four. -/
theorem encodeChars_groups (bytes : List UInt8) :
    (∀ c ∈ encodeChars bytes, isSpace c = false) ∧ (encodeChars bytes).length % 4 = 0 := by
  induction bytes using encodeChars.induct with
  | case1 => simp [encodeChars]
  | case2 a => simp [encodeChars, isSpace_digit, show isSpace '=' = false from rfl]
  | case3 a b => simp [encodeChars, isSpace_digit, show isSpace '=' = false from rfl]
  | case4 a b c rest ih =>
    obtain ⟨hspace, hlen⟩ := ih
    constructor
    · intro x hx
      simp only [encodeChars, List.mem_cons] at hx
      rcases hx with rfl | rfl | rfl | rfl | hx
      · exact isSpace_digit _
      · exact isSpace_digit _
      · exact isSpace_digit _
      · exact isSpace_digit _
      · exact hspace x hx
    · simp only [encodeChars, List.length_cons]
      omega

private theorem decodeLoose_stripPad (bytes : List UInt8) :
    decodeLoose (stripPad (encodeChars bytes)) = some bytes := by
  induction bytes using encodeChars.induct with
  | case1 => rfl
  | case2 a =>
    have ha := a.toNat_lt
    have hx := value_digit (n := a.toNat / 4) (by omega)
    have hy := value_digit (n := a.toNat % 4 * 16) (by omega)
    have h₁ := byte₁_eq a (k := 0) (by decide)
    rw [Nat.add_zero] at h₁
    simp only [encodeChars, stripPad_cons hx.2, stripPad_cons hy.2, stripPad, decodeLoose, hx.1,
      hy.1, Option.bind_eq_bind, Option.bind_some, h₁]
  | case3 a b =>
    have ha := a.toNat_lt
    have hb := b.toNat_lt
    have hx := value_digit (n := a.toNat / 4) (by omega)
    have hy := value_digit (n := a.toNat % 4 * 16 + b.toNat / 16) (by omega)
    have hz := value_digit (n := b.toNat % 16 * 4) (by omega)
    have h₁ := byte₁_eq a (k := b.toNat / 16) (by omega)
    have h₂ := byte₂_eq b (a.toNat % 4) (k := 0) (by decide)
    rw [Nat.add_zero] at h₂
    simp only [encodeChars, stripPad_cons hx.2, stripPad_cons hy.2, stripPad_cons hz.2, stripPad,
      decodeLoose, hx.1, hy.1, hz.1, Option.bind_eq_bind, Option.bind_some, h₁, h₂]
  | case4 a b c rest ih =>
    have ha := a.toNat_lt
    have hb := b.toNat_lt
    have hc := c.toNat_lt
    have hx := value_digit (n := a.toNat / 4) (by omega)
    have hy := value_digit (n := a.toNat % 4 * 16 + b.toNat / 16) (by omega)
    have hz := value_digit (n := b.toNat % 16 * 4 + c.toNat / 64) (by omega)
    have ht := value_digit (n := c.toNat % 64) (by omega)
    have h₁ := byte₁_eq a (k := b.toNat / 16) (by omega)
    have h₂ := byte₂_eq b (a.toNat % 4) (k := c.toNat / 64) (by omega)
    have h₃ := byte₃_eq c (b.toNat % 16)
    simp only [encodeChars, stripPad_cons hx.2, stripPad_cons hy.2, stripPad_cons hz.2,
      stripPad_cons ht.2, decodeLoose, hx.1, hy.1, hz.1, ht.1, ih, Option.bind_eq_bind,
      Option.bind_some, h₁, h₂, h₃]

/-- `atob` reads encoded bytes back. -/
@[simp] theorem atob_encode (bytes : List UInt8) : atob (encode bytes) = some bytes := by
  obtain ⟨hspace, hlen⟩ := encodeChars_groups bytes
  have hfilter : (encodeChars bytes).filter (fun c => !isSpace c) = encodeChars bytes :=
    List.filter_eq_self.mpr fun c hc => by rw [hspace c hc]; rfl
  rw [atob, encode, String.toList_ofList, hfilter]
  simp only [hlen, if_true]
  exact decodeLoose_stripPad bytes

/-- Only no bytes are encoded as the empty text. -/
theorem encode_eq_empty {bytes : List UInt8} : encode bytes = "" ↔ bytes = [] := by
  constructor
  · intro h
    have hdecode := decode_encode bytes
    rw [h] at hdecode
    exact (Option.some.inj hdecode).symm
  · rintro rfl
    rfl

end Base64
