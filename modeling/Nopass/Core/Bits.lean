import Mathlib.Data.List.Induction
import Mathlib.Data.Nat.Bitwise

/-!
# Digits of a fixed width and their bits

A list of digits of one width stands for their bits, the most significant first. An
accumulator cuts them into digits of another width: a digit is taken in at the low end, one
is given out from above what is pending. What was given out stays in the accumulator until
it is shifted out at the top, and no digit that is given out shows it.
-/

namespace Bits

/-- The low bits of a number, most significant first. -/
def low : Nat → Nat → List Bool
  | 0, _ => []
  | width + 1, n => n.testBit width :: low width n

/-- The number that bits stand for. -/
def toNat (bits : List Bool) : Nat := bits.foldl (fun n bit => 2 * n + bit.toNat) 0

/-- The bits of digits. -/
def ofDigits (width : Nat) (digits : List Nat) : List Bool := digits.flatMap (low width)

/-- Bits up to a length, with zeros after the last. -/
def fill (length : Nat) (bits : List Bool) : List Bool :=
  bits.take length ++ List.replicate (length - bits.length) false

/-- The first digits that bits are cut into, with zeros after the last bit. -/
def firstDigits (width : Nat) : Nat → List Bool → List Nat
  | 0, _ => []
  | count + 1, bits => toNat (fill width bits) :: firstDigits width count (bits.drop width)

/-- The digits that bits are cut into, the last one filled up with zeros. -/
def toDigits (width : Nat) (bits : List Bool) : List Nat :=
  firstDigits width ((bits.length + width - 1) / width) bits

@[simp] theorem length_low (width n : Nat) : (low width n).length = width := by
  induction width with
  | zero => rfl
  | succ width ih => rw [low, List.length_cons, ih]

/-- The low bits are those below the width. -/
theorem low_congr {width n m : Nat} (h : ∀ i < width, n.testBit i = m.testBit i) :
    low width n = low width m := by
  induction width with
  | zero => rfl
  | succ width ih =>
    have hlow := ih fun i hi => h i (Nat.lt_succ_of_lt hi)
    rw [low, low, h width (Nat.lt_succ_self width), hlow]

/-- The high part of some low bits, and the rest. -/
theorem low_add (high width n : Nat) :
    low (high + width) n = low high (n >>> width) ++ low width n := by
  induction high with
  | zero => rw [Nat.zero_add, low, List.nil_append]
  | succ high ih =>
    have hbit : n.testBit (high + width) = (n >>> width).testBit high := by
      rw [Nat.testBit_shiftRight, Nat.add_comm]
    rw [Nat.succ_add, low, low, ih, hbit, List.cons_append]

/-- Numbers that fit differ in their low bits. -/
theorem low_inj {width n m : Nat} (hn : n < 2 ^ width) (hm : m < 2 ^ width)
    (h : low width n = low width m) : n = m := by
  have hbits : ∀ i < width, n.testBit i = m.testBit i := by
    clear hn hm
    induction width with
    | zero =>
      intro i hi
      omega
    | succ width ih =>
      rw [low, low, List.cons.injEq] at h
      intro i hi
      rcases Nat.lt_succ_iff_lt_or_eq.mp hi with hi | rfl
      · exact ih h.2 i hi
      · exact h.1
  apply Nat.eq_of_testBit_eq
  intro i
  by_cases hi : i < width
  · exact hbits i hi
  · have hle : 2 ^ width ≤ 2 ^ i := Nat.pow_le_pow_right (by decide) (Nat.le_of_not_lt hi)
    rw [Nat.testBit_lt_two_pow (Nat.lt_of_lt_of_le hn hle),
      Nat.testBit_lt_two_pow (Nat.lt_of_lt_of_le hm hle)]

/-- One more bit at the low end. -/
theorem toNat_concat (bits : List Bool) (bit : Bool) :
    toNat (bits ++ [bit]) = 2 * toNat bits + bit.toNat := by
  rw [toNat, List.foldl_append]
  rfl

/-- Bits stand for a number that fits. -/
theorem toNat_lt (bits : List Bool) : toNat bits < 2 ^ bits.length := by
  induction bits using List.reverseRecOn with
  | nil => decide
  | append_singleton bits bit ih =>
    have hbit : bit.toNat ≤ 1 := Bool.toNat_le bit
    rw [toNat_concat, List.length_append, List.length_singleton, Nat.pow_succ]
    omega

/-- Bits are the low bits of the number that they stand for. -/
theorem low_toNat (bits : List Bool) : low bits.length (toNat bits) = bits := by
  induction bits using List.reverseRecOn with
  | nil => rfl
  | append_singleton bits bit ih =>
    have hbit : bit.toNat ≤ 1 := Bool.toNat_le bit
    have hhigh : toNat (bits ++ [bit]) >>> 1 = toNat bits := by
      rw [toNat_concat, Nat.shiftRight_one]
      omega
    have hlast : low 1 (toNat (bits ++ [bit])) = [bit] := by
      rw [toNat_concat, low, low, Nat.testBit_zero]
      cases bit <;> simp
    rw [List.length_append, List.length_singleton, low_add, hhigh, ih, hlast]

@[simp] theorem ofDigits_append (width : Nat) (digits more : List Nat) :
    ofDigits width (digits ++ more) = ofDigits width digits ++ ofDigits width more :=
  List.flatMap_append

@[simp] theorem ofDigits_singleton (width digit : Nat) :
    ofDigits width [digit] = low width digit := List.flatMap_singleton ..

@[simp] theorem length_ofDigits (width : Nat) (digits : List Nat) :
    (ofDigits width digits).length = width * digits.length := by
  induction digits with
  | nil => rfl
  | cons digit digits ih =>
    rw [ofDigits, List.flatMap_cons, List.length_append, length_low, ← ofDigits, ih,
      List.length_cons, Nat.mul_succ, Nat.add_comm]

/-- Digits that fit differ in their bits. -/
theorem ofDigits_inj {width : Nat} {digits digits' : List Nat}
    (hd : ∀ d ∈ digits, d < 2 ^ width) (hd' : ∀ d ∈ digits', d < 2 ^ width)
    (hlen : digits.length = digits'.length)
    (h : ofDigits width digits = ofDigits width digits') : digits = digits' := by
  induction digits generalizing digits' with
  | nil => exact (List.length_eq_zero_iff.mp hlen.symm).symm
  | cons d digits ih =>
    cases digits' with
    | nil => cases hlen
    | cons d' digits' =>
      rw [ofDigits, ofDigits, List.flatMap_cons, List.flatMap_cons] at h
      obtain ⟨hfirst, hrest⟩ := List.append_inj h (by rw [length_low, length_low])
      have heq : d = d' := low_inj (hd d List.mem_cons_self) (hd' d' List.mem_cons_self) hfirst
      have htail : digits = digits' := ih (fun x hx => hd x (List.mem_cons_of_mem _ hx))
        (fun x hx => hd' x (List.mem_cons_of_mem _ hx)) (Nat.succ.inj hlen) hrest
      rw [heq, htail]

@[simp] theorem length_fill (length : Nat) (bits : List Bool) :
    (fill length bits).length = length := by
  rw [fill, List.length_append, List.length_take, List.length_replicate]
  omega

/-- The first part of filled bits, and the rest. -/
theorem fill_add (first length : Nat) (bits : List Bool) :
    fill (first + length) bits = fill first bits ++ fill length (bits.drop first) := by
  apply List.ext_getElem?
  intro i
  simp only [fill, List.getElem?_append, List.getElem?_take, List.getElem?_replicate,
    List.length_append, List.length_take, List.length_replicate, List.getElem?_drop,
    List.length_drop]
  grind

/-- Bits that are longer are only cut. -/
theorem fill_of_le {length : Nat} {bits : List Bool} (h : length ≤ bits.length) :
    fill length bits = bits.take length := by
  rw [fill, Nat.sub_eq_zero_of_le h, List.replicate_zero, List.append_nil]

/-- What the first digits stand for. -/
theorem ofDigits_firstDigits (width count : Nat) (bits : List Bool) :
    ofDigits width (firstDigits width count bits) = fill (width * count) bits := by
  induction count generalizing bits with
  | zero => simp [firstDigits, ofDigits, fill]
  | succ count ih =>
    have hfirst : low width (toNat (fill width bits)) = fill width bits := by
      have h := low_toNat (fill width bits)
      rwa [length_fill] at h
    rw [firstDigits, ofDigits, List.flatMap_cons, hfirst, ← ofDigits, ih, Nat.mul_succ,
      Nat.add_comm, fill_add]

/-- The digits fit. -/
theorem lt_of_mem_firstDigits {width count digit : Nat} {bits : List Bool}
    (h : digit ∈ firstDigits width count bits) : digit < 2 ^ width := by
  induction count generalizing bits with
  | zero => cases h
  | succ count ih =>
    rcases List.mem_cons.mp h with rfl | h
    · have hlt := toNat_lt (fill width bits)
      rwa [length_fill] at hlt
    · exact ih h

/-- Digits that fit have one way to be cut from their bits. -/
theorem toDigits_ofDigits {width : Nat} (hwidth : 0 < width) {digits : List Nat}
    (hd : ∀ d ∈ digits, d < 2 ^ width) : toDigits width (ofDigits width digits) = digits := by
  have hcount : ((ofDigits width digits).length + width - 1) / width = digits.length := by
    rw [length_ofDigits, Nat.add_sub_assoc hwidth, Nat.mul_add_div hwidth,
      Nat.div_eq_of_lt (Nat.sub_lt hwidth Nat.one_pos), Nat.add_zero]
  have hlength : (firstDigits width digits.length (ofDigits width digits)).length =
      digits.length := by
    have h := congrArg List.length
      (ofDigits_firstDigits width digits.length (ofDigits width digits))
    rw [length_ofDigits, length_fill] at h
    exact Nat.eq_of_mul_eq_mul_left hwidth h
  rw [toDigits, hcount]
  apply ofDigits_inj (fun d hm => lt_of_mem_firstDigits hm) hd hlength
  rw [ofDigits_firstDigits, fill_of_le (by rw [length_ofDigits]), ← length_ofDigits,
    List.take_length]

end Bits

/-- An accumulator of 32 bits and how many of its low ones are pending. -/
structure BitAccumulator where
  value : BitVec 32
  pending : Nat

namespace BitAccumulator

/-- Nothing was taken in. -/
def empty : BitAccumulator := ⟨0, 0⟩

/-- `value = (value << width) | digit`. -/
def take (width digit : Nat) (acc : BitAccumulator) : BitAccumulator where
  value := acc.value <<< width ||| BitVec.ofNat 32 digit
  pending := acc.pending + width

/-- `(value >>> (bits - width)) & mask`, the digit above the others that are pending. -/
def top (width : Nat) (acc : BitAccumulator) : Nat :=
  (acc.value >>> (acc.pending - width)).toNat &&& (2 ^ width - 1)

/-- `bits -= width`. -/
def give (width : Nat) (acc : BitAccumulator) : BitAccumulator :=
  { acc with pending := acc.pending - width }

/-- The bits that are pending. -/
def bits (acc : BitAccumulator) : List Bool := Bits.low acc.pending acc.value.toNat

variable {acc : BitAccumulator} {width digit : Nat}

@[simp] theorem pending_take : (acc.take width digit).pending = acc.pending + width := rfl

@[simp] theorem pending_give : (acc.give width).pending = acc.pending - width := rfl

/-- What is pending after a digit, as long as it has room. -/
theorem bits_take (hdigit : digit < 2 ^ width) (hroom : acc.pending + width ≤ 32) :
    (acc.take width digit).bits = acc.bits ++ Bits.low width digit := by
  have hvalue : ∀ i, ((acc.take width digit).value).toNat.testBit i =
      ((decide (i < 32) && decide (width ≤ i) && acc.value.toNat.testBit (i - width)) ||
        (decide (i < 32) && digit.testBit i)) := by
    intro i
    rw [BitVec.testBit_toNat, take, BitVec.getLsbD_or, BitVec.getLsbD_shiftLeft,
      BitVec.getLsbD_ofNat, BitVec.testBit_toNat]
    by_cases hi : width ≤ i
    · simp [hi, Nat.not_lt.mpr hi]
    · simp [hi, Nat.lt_of_not_le hi]
  have hhigh : ∀ i, width ≤ i → digit.testBit i = false := fun i hi =>
    Nat.testBit_lt_two_pow (Nat.lt_of_lt_of_le hdigit (Nat.pow_le_pow_right (by decide) hi))
  rw [bits, pending_take, Bits.low_add, bits]
  congr 1
  · apply Bits.low_congr
    intro i hi
    have hroom' : width + i < 32 := by omega
    simp [Nat.testBit_shiftRight, hvalue, hhigh, hroom']
  · apply Bits.low_congr
    intro i hi
    have hroom' : i < 32 := by omega
    simp [hvalue, hroom', Nat.not_le_of_lt hi]

/-- A digit that is given out is the upper part of what was pending. -/
theorem bits_give (h : width ≤ acc.pending) :
    acc.bits = Bits.low width (acc.top width) ++ (acc.give width).bits := by
  have hpending : acc.pending = width + (acc.pending - width) := by omega
  have htop : Bits.low width (acc.top width) =
      Bits.low width (acc.value.toNat >>> (acc.pending - width)) := by
    apply Bits.low_congr
    intro i hi
    rw [top, Nat.and_two_pow_sub_one_eq_mod, Nat.testBit_mod_two_pow, decide_eq_true hi,
      Bool.true_and, BitVec.toNat_ushiftRight]
  have hbits := Bits.low_add width (acc.pending - width) acc.value.toNat
  rw [← hpending] at hbits
  rw [htop, bits, hbits]
  rfl

/-- A digit that is given out fits. -/
theorem top_lt : acc.top width < 2 ^ width := by
  rw [top, Nat.and_two_pow_sub_one_eq_mod]
  exact Nat.mod_lt _ (Nat.two_pow_pos width)

end BitAccumulator

/-- What was taken in is what was given out and what is pending. -/
structure Regroups (fromWidth toWidth : Nat) (acc : BitAccumulator) (taken given : List Nat) :
    Prop where
  bits_eq : Bits.ofDigits fromWidth taken = Bits.ofDigits toWidth given ++ acc.bits
  given_lt : ∀ digit ∈ given, digit < 2 ^ toWidth

namespace Regroups

variable {fromWidth toWidth digit : Nat} {acc : BitAccumulator} {taken given : List Nat}

/-- Nothing was taken in or given out. -/
theorem empty : Regroups fromWidth toWidth .empty [] [] where
  bits_eq := rfl
  given_lt _ h := nomatch h

/-- A digit is taken in. -/
theorem take (h : Regroups fromWidth toWidth acc taken given) (hdigit : digit < 2 ^ fromWidth)
    (hroom : acc.pending + fromWidth ≤ 32) :
    Regroups fromWidth toWidth (acc.take fromWidth digit) (taken ++ [digit]) given where
  bits_eq := by
    rw [Bits.ofDigits_append, Bits.ofDigits_singleton, h.bits_eq, List.append_assoc,
      BitAccumulator.bits_take hdigit hroom]
  given_lt := h.given_lt

/-- A digit is given out. -/
theorem give (h : Regroups fromWidth toWidth acc taken given) (hpending : toWidth ≤ acc.pending) :
    Regroups fromWidth toWidth (acc.give toWidth) taken (given ++ [acc.top toWidth]) where
  bits_eq := by
    rw [Bits.ofDigits_append, Bits.ofDigits_singleton, List.append_assoc,
      ← BitAccumulator.bits_give hpending, h.bits_eq]
  given_lt digit hmem := by
    rcases List.mem_append.mp hmem with hmem | hmem
    · exact h.given_lt digit hmem
    · rw [List.mem_singleton.mp hmem]
      exact BitAccumulator.top_lt

/-- How many bits came and went. -/
theorem length_eq (h : Regroups fromWidth toWidth acc taken given) :
    fromWidth * taken.length = toWidth * given.length + acc.pending := by
  have hlength := congrArg List.length h.bits_eq
  rwa [List.length_append, Bits.length_ofDigits, Bits.length_ofDigits, BitAccumulator.bits,
    Bits.length_low] at hlength

/-- Digits whose bits come first among those that were taken in are those that were given out. -/
theorem given_eq (h : Regroups fromWidth toWidth acc taken given) {digits : List Nat}
    (hd : ∀ digit ∈ digits, digit < 2 ^ toWidth) (hlength : digits.length = given.length)
    {rest : List Bool} (hbits : Bits.ofDigits fromWidth taken = Bits.ofDigits toWidth digits ++ rest) :
    given = digits := by
  have heq : Bits.ofDigits toWidth given ++ acc.bits = Bits.ofDigits toWidth digits ++ rest := by
    rw [← h.bits_eq, hbits]
  have hfirst := List.append_inj_left heq
    (by rw [Bits.length_ofDigits, Bits.length_ofDigits, hlength])
  exact Bits.ofDigits_inj h.given_lt hd hlength.symm hfirst

end Regroups
