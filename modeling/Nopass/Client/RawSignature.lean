import Nopass.Client.AccountKey
import Nopass.Core.Codec.Der

/-!
# Signatures of passkeys

The browser's ECDSA gives the halves of a signature as 32 bytes each; relying parties take
a DER sequence of two integers.
-/

namespace Nopass

/-- The `while` loop of `encodeInt`: all leading zeros go, but one byte stays. -/
def skipZeros : Bytes → Bytes
  | 0 :: next :: rest => skipZeros (next :: rest)
  | bytes => bytes

/-- `v` of `encodeInt`: a zero keeps the top bit from being a sign. -/
def integerContents (bytes : Bytes) : Bytes :=
  let v := skipZeros bytes
  if v.head?.any fun first => first &&& 0x80 != 0 then 0 :: v else v

/-- `encodeInt`. -/
def encodeInt (bytes : Bytes) : Bytes :=
  let v := integerContents bytes
  0x02 :: UInt8.ofNat v.length :: v

/-- `rawSigToDer`. -/
def rawSigToDer (raw : Bytes) : Client Bytes := do
  throwUnless (decide (raw.length = 64)) "rawSigToDer expects a 64-byte P-256 signature"
  let half := raw.length / 2
  let r := encodeInt (raw.take half)
  let s := encodeInt (raw.drop half)
  pure (0x30 :: UInt8.ofNat (r.length + s.length) :: (r ++ s))

/-- What skipping keeps: the number, at least one byte, and a first byte that is zero only when it
is the only one. -/
theorem skipZeros_facts {bytes : Bytes} (h : bytes ≠ []) :
    ofBigEndian (skipZeros bytes) = ofBigEndian bytes ∧ (skipZeros bytes).length ≤ bytes.length ∧
      ∃ first rest, skipZeros bytes = first :: rest ∧ (first = 0 → rest = []) := by
  fun_induction skipZeros bytes with
  | case1 next rest ih =>
    obtain ⟨hvalue, hlength, hfirst⟩ := ih (List.cons_ne_nil next rest)
    rw [Der.ofBigEndian_zero_cons]
    exact ⟨hvalue, Nat.le_succ_of_le hlength, hfirst⟩
  | case2 bytes hother =>
    obtain ⟨first, rest, rfl⟩ := List.exists_cons_of_ne_nil h
    refine ⟨rfl, Nat.le_refl _, first, rest, rfl, ?_⟩
    rintro rfl
    cases rest with
    | nil => rfl
    | cons next rest => exact absurd rfl (hother next rest)

/-- A byte's top bit. -/
theorem topBit_iff (b : UInt8) : (b &&& 0x80 != 0) = decide (0x80 ≤ b) := by
  have key : ∀ n : Fin 256, (UInt8.ofNat n &&& 0x80 != 0) = decide (0x80 ≤ UInt8.ofNat n) := by
    decide +kernel
  have hb := key ⟨b.toNat, b.toNat_lt⟩
  rwa [UInt8.ofNat_toNat] at hb

/-- The contents are the shortest ones of the number. -/
theorem unsigned_integerContents {bytes : Bytes} (h : bytes ≠ []) :
    Der.Unsigned (ofBigEndian bytes) (integerContents bytes) := by
  obtain ⟨hvalue, _, first, rest, hskip, hzero⟩ := skipZeros_facts h
  rw [hskip] at hvalue
  by_cases htop : 0x80 ≤ first
  · have hcontents : integerContents bytes = 0 :: first :: rest := by
      simp [integerContents, hskip, topBit_iff, htop]
    have hlow : ¬ first < 0x80 := UInt8.not_lt.mpr htop
    rw [hcontents]
    constructor
    · rw [Der.ofBigEndian_zero_cons, hvalue]
    · simp [Der.isShortest, hlow]
    · rfl
  · have hcontents : integerContents bytes = first :: rest := by
      simp [integerContents, hskip, topBit_iff, htop]
    rw [hcontents]
    constructor
    · exact hvalue
    · cases rest with
      | nil => rfl
      | cons second rest =>
        have hne : first ≠ 0 := fun h0 => List.cons_ne_nil _ _ (hzero h0)
        have hff : first ≠ 0xff := by
          rintro rfl
          exact htop (by decide)
        simp [Der.isShortest, hne, hff]
    · simp [htop]

/-- A half gives at most 33 bytes. -/
theorem length_integerContents {bytes : Bytes} (h : bytes.length = 32) :
    (integerContents bytes).length ≤ 33 := by
  have hne : bytes ≠ [] := by
    rintro rfl
    cases h
  obtain ⟨_, hlength, _⟩ := skipZeros_facts hne
  rw [integerContents]
  split
  · rw [List.length_cons]
    omega
  · omega

/-- A raw signature. -/
abbrev RawSignature := { raw : Bytes // raw.length = 64 }

/-- The number that the first half stands for. -/
def RawSignature.r (raw : RawSignature) : Nat := ofBigEndian (raw.val.take 32)

/-- The number that the second half stands for. -/
def RawSignature.s (raw : RawSignature) : Nat := ofBigEndian (raw.val.drop 32)

/-- The strict DER encoding of a signature. -/
structure IsStrictDer (raw : RawSignature) (der : Bytes) : Prop where
  /-- One sequence of two integers, with lengths of one byte each. -/
  sequence : ∃ r s, Der.Unsigned raw.r r ∧ Der.Unsigned raw.s s ∧
    der = Der.write Der.sequenceTag (Der.write Der.integerTag r ++ Der.write Der.integerTag s) ∧
    r.length < 0x80 ∧ s.length < 0x80 ∧ r.length + s.length + 4 < 0x80
  parsed : Der.readPair der = some ((raw.r : Int), (raw.s : Int))

/-- The halves stand for different numbers when signatures differ. -/
theorem RawSignature.ext {raw raw' : RawSignature} (hr : raw.r = raw'.r) (hs : raw.s = raw'.s) :
    raw = raw' := by
  have hread : ∀ bytes bytes' : Bytes, bytes.length = 32 → bytes'.length = 32 →
      ofBigEndian bytes = ofBigEndian bytes' → bytes = bytes' := by
    intro bytes bytes' hlength hlength' heq
    rw [← bigEndian_ofBigEndian bytes, ← bigEndian_ofBigEndian bytes', hlength, hlength', heq]
  have htake : raw.val.take 32 = raw'.val.take 32 := by
    apply hread _ _ _ _ hr
    · simp [raw.property]
    · simp [raw'.property]
  have hdrop : raw.val.drop 32 = raw'.val.drop 32 := by
    apply hread _ _ _ _ hs
    · rw [List.length_drop, raw.property]
    · rw [List.length_drop, raw'.property]
  apply Subtype.ext
  rw [← List.take_append_drop 32 raw.val, htake, hdrop, List.take_append_drop]

/-- The conversion of a raw signature is its strict DER encoding. -/
theorem exists_isStrictDer (raw : RawSignature) :
    ∃ der, rawSigToDer raw.val = .ok der ∧ IsStrictDer raw der := by
  have hfirst : (raw.val.take 32).length = 32 := by
    rw [List.length_take, raw.property]
    rfl
  have hsecond : (raw.val.drop 32).length = 32 := by
    rw [List.length_drop, raw.property]
  have hr := unsigned_integerContents (List.ne_nil_of_length_pos (by omega) : raw.val.take 32 ≠ [])
  have hs := unsigned_integerContents (List.ne_nil_of_length_pos (by omega) : raw.val.drop 32 ≠ [])
  have hrlength := length_integerContents hfirst
  have hslength := length_integerContents hsecond
  generalize hrc : integerContents (raw.val.take 32) = r at hr hrlength
  generalize hsc : integerContents (raw.val.drop 32) = s at hs hslength
  refine ⟨Der.write Der.sequenceTag (Der.write Der.integerTag r ++ Der.write Der.integerTag s),
    ?_, ?_⟩
  · have hhalf : raw.val.length / 2 = 32 := by rw [raw.property]
    have hok : throwUnless (decide (raw.val.length = 64))
        "rawSigToDer expects a 64-byte P-256 signature" = .ok () :=
      client_throwUnless_eq_ok.mpr (decide_eq_true raw.property)
    rw [rawSigToDer, hok, hhalf]
    simp only [encodeInt, hrc, hsc, Der.write, Der.sequenceTag, Der.integerTag, List.length_append]
    rfl
  · constructor
    · exact ⟨r, s, hr, hs, rfl, by omega, by omega, by omega⟩
    · apply Der.readPair_write hr hs
      simp only [Der.write, List.length_append, List.length_cons]
      omega

/-- It is for every signature, and no two have the same. -/
theorem rawSigToDer_strict :
    (∀ raw : RawSignature, ∃ der, rawSigToDer raw.val = .ok der ∧ IsStrictDer raw der) ∧
      Function.Injective fun raw : RawSignature => rawSigToDer raw.val := by
  constructor
  · exact exists_isStrictDer
  · intro raw raw' heq
    obtain ⟨der, hder, hstrict⟩ := exists_isStrictDer raw
    obtain ⟨der', hder', hstrict'⟩ := exists_isStrictDer raw'
    have hsame : der = der' := by
      have hok : (.ok der : Client Bytes) = .ok der' :=
        hder.symm.trans (heq.trans hder')
      exact Except.ok.inj hok
    have hparsed := hstrict.parsed.symm.trans (hsame ▸ hstrict'.parsed)
    rw [Option.some.injEq, Prod.mk.injEq, Int.natCast_inj, Int.natCast_inj] at hparsed
    exact RawSignature.ext hparsed.1 hparsed.2

end Nopass
