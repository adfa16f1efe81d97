import Mathlib.Algebra.Group.Nat.Defs
import Mathlib.Data.List.Induction

/-!
# Texts and numbers as bytes

UTF-8, and numbers of a fixed width with the most significant byte first.
-/

/-- UTF-8, the browser's `TextEncoder`. -/
def utf8 (text : String) : List UInt8 := text.toList.flatMap String.utf8EncodeChar

/-- Texts differ in their bytes. -/
theorem utf8_injective : Function.Injective utf8 := by
  intro a b h
  have hbytes : a.toByteArray = b.toByteArray := by
    rw [← String.utf8Encode_toList, ← String.utf8Encode_toList]
    exact congrArg List.toByteArray h
  exact String.toByteArray_inj.mp hbytes

/-- The last `width` bytes of a number. -/
def bigEndian : Nat → Nat → List UInt8
  | 0, _ => []
  | width + 1, n => bigEndian width (n / 256) ++ [UInt8.ofNat (n % 256)]

/-- The number that bytes stand for. -/
def ofBigEndian (bytes : List UInt8) : Nat := bytes.foldl (fun n b => n * 256 + b.toNat) 0

@[simp] theorem length_bigEndian (width n : Nat) : (bigEndian width n).length = width := by
  induction width generalizing n with
  | zero => rfl
  | succ width ih => rw [bigEndian, List.length_append, ih, List.length_singleton]

/-- A number that fits is read back. -/
theorem ofBigEndian_bigEndian {width n : Nat} (h : n < 256 ^ width) :
    ofBigEndian (bigEndian width n) = n := by
  induction width generalizing n with
  | zero =>
    rw [Nat.pow_zero, Nat.lt_one_iff] at h
    rw [h]
    rfl
  | succ width ih =>
    have hdiv : n / 256 < 256 ^ width := by
      rw [Nat.pow_succ] at h
      exact Nat.div_lt_of_lt_mul (by omega)
    have hprefix := ih hdiv
    rw [ofBigEndian] at hprefix ⊢
    rw [bigEndian, List.foldl_append, hprefix]
    simp only [List.foldl_cons, List.foldl_nil, UInt8.toNat_ofNat']
    omega

/-- Numbers that fit differ in their bytes. -/
theorem bigEndian_inj {width n m : Nat} (hn : n < 256 ^ width) (hm : m < 256 ^ width)
    (h : bigEndian width n = bigEndian width m) : n = m := by
  rw [← ofBigEndian_bigEndian hn, h, ofBigEndian_bigEndian hm]

/-- Bytes stand for a number that fits. -/
theorem ofBigEndian_lt (bytes : List UInt8) : ofBigEndian bytes < 256 ^ bytes.length := by
  induction bytes using List.reverseRecOn with
  | nil => decide
  | append_singleton bytes b ih =>
    have hb := b.toNat_lt
    rw [ofBigEndian] at ih ⊢
    rw [List.foldl_append, List.length_append, List.length_singleton, Nat.pow_succ]
    simp only [List.foldl_cons, List.foldl_nil]
    omega

/-- Bytes are written back as they were read. -/
theorem bigEndian_ofBigEndian (bytes : List UInt8) :
    bigEndian bytes.length (ofBigEndian bytes) = bytes := by
  induction bytes using List.reverseRecOn with
  | nil => rfl
  | append_singleton bytes b ih =>
    have hb := b.toNat_lt
    have hlast : ofBigEndian (bytes ++ [b]) = ofBigEndian bytes * 256 + b.toNat := by
      rw [ofBigEndian, List.foldl_append]
      rfl
    have hdiv : ofBigEndian (bytes ++ [b]) / 256 = ofBigEndian bytes := by omega
    have hmod : ofBigEndian (bytes ++ [b]) % 256 = b.toNat := by omega
    rw [List.length_append, List.length_singleton, bigEndian, hdiv, hmod, ih, UInt8.ofNat_toNat]
