import Nopass.Core.Text.Utf8

/-!
# CBOR

A decoder for data items of definite length: integers, byte strings, texts and maps. When
asked to, it refuses a head that is longer than its argument needs. What else the format has
is refused.
-/

namespace Cbor

/-- A data item. -/
inductive Item where
  | int (n : Int)
  | bytes (bytes : List UInt8)
  | text (text : JsText)
  | map (entries : List (Item × Item))

/-- The least argument that needs a width. -/
def leastOf : Nat → Nat
  | 1 => 24
  | width => 2 ^ (4 * width)

/-- A head: the major type and the argument, with what follows them. -/
def readHead (shortest : Bool) : List UInt8 → Option (Nat × Nat × List UInt8)
  | [] => none
  | first :: rest =>
    let major := first.toNat / 32
    let info := first.toNat % 32
    if info < 24 then some (major, info, rest)
    else if info < 28 then
      let width := 2 ^ (info - 24)
      let argument := ofBigEndian (rest.take width)
      if width ≤ rest.length && (!shortest || decide (leastOf width ≤ argument)) then
        some (major, argument, rest.drop width)
      else none
    else none

/-- Some bytes, with what follows them. -/
def readBytes (count : Nat) (bytes : List UInt8) : Option (List UInt8 × List UInt8) :=
  if count ≤ bytes.length then some (bytes.take count, bytes.drop count) else none

/-- The entries of a map, with what follows them. -/
def readEntries (read : List UInt8 → Option (Item × List UInt8)) :
    Nat → List UInt8 → Option (List (Item × Item) × List UInt8)
  | 0, bytes => some ([], bytes)
  | count + 1, bytes => do
    let (key, bytes) ← read bytes
    let (value, bytes) ← read bytes
    let (entries, bytes) ← readEntries read count bytes
    some ((key, value) :: entries, bytes)

/-- The text of UTF-8, none when the bytes are not valid. -/
def textOf (bytes : List UInt8) : Option JsText :=
  if encodeUtf8 (decodeUtf8 bytes) = bytes then some (decodeUtf8 bytes)
  else none

/-- What a head announces, with what follows it. -/
def readContents (read : List UInt8 → Option (Item × List UInt8)) (major argument : Nat)
    (bytes : List UInt8) : Option (Item × List UInt8) :=
  match major with
  | 0 => some (.int argument, bytes)
  | 1 => some (.int (-argument - 1), bytes)
  | 2 => (readBytes argument bytes).map fun (contents, bytes) => (.bytes contents, bytes)
  | 3 => (readBytes argument bytes).bind fun (contents, bytes) =>
    (textOf contents).map fun text => (.text text, bytes)
  | 5 => (readEntries read argument bytes).map fun (entries, bytes) => (.map entries, bytes)
  | _ => none

/-- A data item that nests no deeper than the first argument, with what follows it. -/
def readItem (shortest : Bool) : Nat → List UInt8 → Option (Item × List UInt8)
  | 0, _ => none
  | depth + 1, bytes => (readHead shortest bytes).bind fun (major, argument, bytes) =>
    readContents (readItem shortest depth) major argument bytes

/-- A data item, with what follows it; each level of nesting takes a byte. -/
def decode (shortest : Bool) (bytes : List UInt8) : Option (Item × List UInt8) :=
  readItem shortest bytes.length bytes

/-- The head of an argument that fits in the first byte. -/
theorem readHead_short {shortest : Bool} {major info : Nat} (hmajor : major < 8) (hinfo : info < 24)
    (rest : List UInt8) :
    readHead shortest (UInt8.ofNat (32 * major + info) :: rest) = some (major, info, rest) := by
  have hbyte : (UInt8.ofNat (32 * major + info)).toNat = 32 * major + info := by
    rw [UInt8.toNat_ofNat', Nat.mod_eq_of_lt (by omega)]
  have hdiv : (32 * major + info) / 32 = major := by omega
  have hmod : (32 * major + info) % 32 = info := by omega
  simp only [readHead, hbyte, hdiv, hmod, hinfo, if_true]

/-- The head of an argument that follows in one, two, four or eight bytes and needs them. -/
theorem readHead_wide {shortest : Bool} {major e argument : Nat} (hmajor : major < 8) (he : e < 4)
    (hleast : leastOf (2 ^ e) ≤ argument) (hmost : argument < 256 ^ 2 ^ e) (rest : List UInt8) :
    readHead shortest (UInt8.ofNat (32 * major + (24 + e)) :: (bigEndian (2 ^ e) argument ++ rest)) =
      some (major, argument, rest) := by
  have hbyte : (UInt8.ofNat (32 * major + (24 + e))).toNat = 32 * major + (24 + e) := by
    rw [UInt8.toNat_ofNat', Nat.mod_eq_of_lt (by omega)]
  have hdiv : (32 * major + (24 + e)) / 32 = major := by omega
  have hmod : (32 * major + (24 + e)) % 32 = 24 + e := by omega
  have hwidth : (bigEndian (2 ^ e) argument).length = 2 ^ e := length_bigEndian _ _
  have htake : (bigEndian (2 ^ e) argument ++ rest).take (2 ^ e) = bigEndian (2 ^ e) argument := by
    rw [List.take_append_of_le_length hwidth.ge, List.take_of_length_le hwidth.le]
  have hdrop : (bigEndian (2 ^ e) argument ++ rest).drop (2 ^ e) = rest := by
    rw [List.drop_append_of_le_length hwidth.ge, List.drop_of_length_le hwidth.le, List.nil_append]
  have hnot : ¬ 24 + e < 24 := by omega
  have hsmall : 24 + e < 28 := by omega
  simp only [readHead, hbyte, hdiv, hmod, hnot, hsmall, if_false, if_true, Nat.add_sub_cancel_left,
    htake, hdrop, ofBigEndian_bigEndian hmost, hleast, decide_true, Bool.or_true, Bool.and_true]
  rw [if_pos]
  rw [decide_eq_true_eq, List.length_append, hwidth]
  omega

/-- Bytes are read back. -/
theorem readBytes_append (bytes rest : List UInt8) :
    readBytes bytes.length (bytes ++ rest) = some (bytes, rest) := by
  have hle : bytes.length ≤ (bytes ++ rest).length := by
    rw [List.length_append]
    omega
  rw [readBytes, if_pos hle, List.take_left, List.drop_left]

/-- The text that was encoded is read back, up to lone halves of pairs. -/
theorem textOf_encodeUtf8 (text : JsText) :
    textOf (encodeUtf8 text) = some (toWellFormed text) := by
  have hvalid : encodeUtf8 (decodeUtf8 (encodeUtf8 text)) =
      encodeUtf8 text := (encodeUtf8_decodeUtf8_iff _).mpr ⟨_, rfl⟩
  rw [textOf, if_pos hvalid, decodeUtf8_encodeUtf8]

end Cbor
