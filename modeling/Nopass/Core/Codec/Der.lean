import Mathlib.Algebra.Group.Int.Defs
import Nopass.Core.Text.Bytes

/-!
# DER of signatures

The distinguished encoding of integers and of a sequence of two of them, with a parser that
takes nothing but this encoding: lengths and integers in their shortest form, nothing left
over.
-/

namespace Der

/-- The tag of an `INTEGER`. -/
def integerTag : UInt8 := 0x02

/-- The tag of a `SEQUENCE`. -/
def sequenceTag : UInt8 := 0x30

/-- A length in its shortest form, with what follows it. -/
def readLength : List UInt8 → Option (Nat × List UInt8)
  | [] => none
  | first :: rest =>
    if first < 0x80 then some (first.toNat, rest)
    else
      let octets := rest.take (first.toNat - 0x80)
      if octets.length = first.toNat - 0x80 ∧ octets.head?.any (· ≠ 0) ∧ 0x80 ≤ ofBigEndian octets
      then some (ofBigEndian octets, rest.drop (first.toNat - 0x80))
      else none

/-- The contents under a tag, with what follows them. -/
def readValue (tag : UInt8) : List UInt8 → Option (List UInt8 × List UInt8)
  | [] => none
  | first :: rest => do
    guard (first = tag)
    let (length, rest) ← readLength rest
    guard (length ≤ rest.length)
    some (rest.take length, rest.drop length)

/-- Contents of an integer in their shortest form: the first nine bits are not all alike. -/
def isShortest : List UInt8 → Bool
  | [] => false
  | [_] => true
  | first :: second :: _ => !((first == 0x00 && second < 0x80) || (first == 0xff && 0x80 ≤ second))

/-- The integer in two's complement. -/
def twosComplement (contents : List UInt8) : Int :=
  if contents.head?.any (0x80 ≤ ·) then (ofBigEndian contents : Int) - 256 ^ contents.length
  else ofBigEndian contents

/-- An integer, with what follows it. -/
def readInteger (bytes : List UInt8) : Option (Int × List UInt8) := do
  let (contents, rest) ← readValue integerTag bytes
  guard (isShortest contents)
  some (twosComplement contents, rest)

/-- A sequence of exactly two integers and nothing else. -/
def readPair (bytes : List UInt8) : Option (Int × Int) := do
  let (contents, rest) ← readValue sequenceTag bytes
  guard rest.isEmpty
  let (r, contents) ← readInteger contents
  let (s, contents) ← readInteger contents
  guard contents.isEmpty
  some (r, s)

/-- The shortest contents of a number that is not negative. -/
structure Unsigned (n : Nat) (contents : List UInt8) : Prop where
  value : ofBigEndian contents = n
  shortest : isShortest contents = true
  nonnegative : contents.head?.any (0x80 ≤ ·) = false

/-- A value with a length of one byte. -/
def write (tag : UInt8) (contents : List UInt8) : List UInt8 :=
  tag :: UInt8.ofNat contents.length :: contents

variable {tag : UInt8} {contents rest : List UInt8} {n m : Nat}

/-- A value with a length of one byte is read back. -/
theorem readValue_write (h : contents.length < 0x80) (rest : List UInt8) :
    readValue tag (write tag contents ++ rest) = some (contents, rest) := by
  have hbyte : (UInt8.ofNat contents.length).toNat = contents.length := by
    rw [UInt8.toNat_ofNat', Nat.mod_eq_of_lt (by omega)]
  have hshort : UInt8.ofNat contents.length < 0x80 := by
    rw [UInt8.lt_iff_toNat_lt, hbyte]
    exact h
  simp [write, readValue, readLength, hshort, hbyte, guard]

/-- An integer is read back. -/
theorem readInteger_write (h : Unsigned n contents) (hlength : contents.length < 0x80)
    (rest : List UInt8) :
    readInteger (write integerTag contents ++ rest) = some ((n : Int), rest) := by
  have hvalue : twosComplement contents = n := by
    rw [twosComplement, h.nonnegative, if_neg Bool.false_ne_true, h.value]
  simp [readInteger, readValue_write hlength, h.shortest, hvalue, guard]

/-- A sequence of two integers is read back. -/
theorem readPair_write {contents' : List UInt8} (h : Unsigned n contents)
    (h' : Unsigned m contents')
    (hlength : (write integerTag contents ++ write integerTag contents').length < 0x80) :
    readPair (write sequenceTag (write integerTag contents ++ write integerTag contents')) =
      some ((n : Int), (m : Int)) := by
  have hsequence : readValue sequenceTag
      (write sequenceTag (write integerTag contents ++ write integerTag contents')) =
        some (write integerTag contents ++ write integerTag contents', []) := by
    have h := @readValue_write sequenceTag _ hlength []
    rwa [List.append_nil] at h
  rw [List.length_append, write, write, List.length_cons, List.length_cons, List.length_cons,
    List.length_cons] at hlength
  have hfirst := readInteger_write h (by omega) (write integerTag contents')
  have hsecond := readInteger_write h' (by omega) []
  rw [List.append_nil] at hsecond
  simp [readPair, hsequence, hfirst, hsecond, guard]

/-- A number's leading zero is dropped. -/
theorem ofBigEndian_zero_cons (bytes : List UInt8) : ofBigEndian (0 :: bytes) = ofBigEndian bytes :=
  rfl

end Der
