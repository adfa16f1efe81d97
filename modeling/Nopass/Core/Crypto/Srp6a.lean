import Mathlib.Algebra.Ring.Commute
import Mathlib.Data.ZMod.Basic
import Mathlib.Tactic.Ring

/-!
# SRP-6a

A client that knows a password and a server that knows its verifier compute one premaster
secret each, from public values that both have seen. Powers are computed by squaring, one
bit of the exponent at a time.
-/

namespace Srp6a

/-- The rounds of square-and-multiply: accumulator, base, exponent. -/
def powerLoop (modulus accumulator base exponent : Nat) : Nat :=
  if exponent = 0 then accumulator
  else powerLoop modulus
    (if exponent % 2 = 1 then accumulator * base % modulus else accumulator)
    (base * base % modulus) (exponent / 2)
termination_by exponent

/-- A power under a modulus. -/
def power (modulus base exponent : Nat) : Nat := powerLoop modulus 1 (base % modulus) exponent

section Power

variable {modulus : Nat}

/-- No rounds are left. -/
theorem powerLoop_zero (accumulator base : Nat) :
    powerLoop modulus accumulator base 0 = accumulator := by
  rw [powerLoop, if_pos rfl]

/-- One round. -/
theorem powerLoop_of_ne_zero {exponent : Nat} (h : exponent ≠ 0) (accumulator base : Nat) :
    powerLoop modulus accumulator base exponent = powerLoop modulus
      (if exponent % 2 = 1 then accumulator * base % modulus else accumulator)
      (base * base % modulus) (exponent / 2) := by
  rw [powerLoop, if_neg h]

/-- The rounds multiply the accumulator by the power. -/
theorem cast_powerLoop (accumulator base exponent : Nat) :
    (powerLoop modulus accumulator base exponent : ZMod modulus) = accumulator * base ^ exponent := by
  induction exponent using Nat.strong_induction_on generalizing accumulator base with
  | _ exponent ih =>
    by_cases hzero : exponent = 0
    · rw [hzero, powerLoop_zero, pow_zero, mul_one]
    · have hsplit : exponent = exponent % 2 + 2 * (exponent / 2) := by omega
      rw [powerLoop_of_ne_zero hzero, ih (exponent / 2) (by omega), ZMod.natCast_mod,
        Nat.cast_mul, ← sq, ← pow_mul]
      conv_rhs => rw [hsplit, pow_add]
      split
      · rename_i hodd
        rw [ZMod.natCast_mod, Nat.cast_mul, hodd, pow_one, mul_assoc]
      · rename_i heven
        have hbit : exponent % 2 = 0 := by omega
        rw [hbit, pow_zero, one_mul]

/-- The accumulator stays below the modulus. -/
theorem powerLoop_lt {accumulator : Nat} (h : accumulator < modulus) (base exponent : Nat) :
    powerLoop modulus accumulator base exponent < modulus := by
  induction exponent using Nat.strong_induction_on generalizing accumulator base with
  | _ exponent ih =>
    by_cases hzero : exponent = 0
    · rw [hzero, powerLoop_zero]
      exact h
    · rw [powerLoop_of_ne_zero hzero]
      apply ih (exponent / 2) (by omega)
      split
      · exact Nat.mod_lt _ (by omega)
      · exact h

/-- What is computed is the power. -/
theorem power_eq (h : 1 < modulus) (base exponent : Nat) :
    power modulus base exponent = base ^ exponent % modulus := by
  have hlt : power modulus base exponent < modulus := powerLoop_lt h _ _
  have hcast : (power modulus base exponent : ZMod modulus) = (base ^ exponent : Nat) := by
    rw [power, cast_powerLoop, Nat.cast_one, one_mul, ZMod.natCast_mod, Nat.cast_pow]
  rw [ZMod.natCast_eq_natCast_iff', Nat.mod_eq_of_lt hlt] at hcast
  exact hcast

/-- The power in the ring of residues. -/
theorem cast_power (h : 1 < modulus) (base exponent : Nat) :
    (power modulus base exponent : ZMod modulus) = (base : ZMod modulus) ^ exponent := by
  rw [power_eq h, ZMod.natCast_mod, Nat.cast_pow]

/-- Residues that agree in the ring are equal. -/
theorem eq_of_cast {a b : Nat} (ha : a < modulus) (hb : b < modulus)
    (h : (a : ZMod modulus) = b) : a = b := by
  rw [ZMod.natCast_eq_natCast_iff', Nat.mod_eq_of_lt ha, Nat.mod_eq_of_lt hb] at h
  exact h

/-- A remainder towards zero is the number in the ring of residues. -/
theorem cast_tmod (z : ℤ) : ((z.tmod modulus : ℤ) : ZMod modulus) = z := by
  conv_rhs => rw [← Int.mul_tdiv_add_tmod z modulus]
  rw [Int.cast_add, Int.cast_mul, Int.cast_natCast, ZMod.natCast_self, zero_mul, zero_add]

/-- A power of a unit is not zero. -/
theorem power_ne_zero (h : 1 < modulus) {base : Nat} (hunit : base.Coprime modulus)
    (exponent : Nat) : power modulus base exponent % modulus ≠ 0 := by
  intro hzero
  rw [power_eq h, Nat.mod_mod] at hzero
  have hdvd := Nat.dvd_of_mod_eq_zero hzero
  have hone := Nat.Coprime.eq_one_of_dvd (Nat.Coprime.pow_left exponent hunit).symm hdvd
  omega

end Power

section Agreement

variable {R : Type*} [CommRing R] (g k : R) (a b u x : ℕ)

/-- The client's public value. -/
def clientPublic : R := g ^ a

/-- The verifier of a password. -/
def verifier : R := g ^ x

/-- The server's public value. -/
def serverPublic (v : R) : R := k * v + g ^ b

/-- The premaster secret as the client computes it. -/
def clientPremaster (B : R) : R := (B - k * g ^ x) ^ (a + u * x)

/-- The premaster secret as the server computes it. -/
def serverPremaster (v A : R) : R := (A * v ^ u) ^ b

/-- Both sides compute the same secret. -/
theorem premaster_agree :
    clientPremaster g k a u x (serverPublic g k b (verifier g x)) =
      serverPremaster b u (verifier g x) (clientPublic g a) := by
  have hbase : serverPublic g k b (verifier g x) - k * g ^ x = g ^ b := by
    rw [serverPublic, verifier, add_sub_cancel_left]
  rw [clientPremaster, hbase, serverPremaster, verifier, clientPublic, ← pow_mul, ← pow_mul,
    ← pow_add, ← pow_mul]
  congr 1
  ring

/-- A client whose public value is zero would share a secret with every server, whatever the
password is. -/
theorem serverPremaster_zero (v : R) (hb : b ≠ 0) : serverPremaster b u v 0 = 0 := by
  rw [serverPremaster, zero_mul, zero_pow hb]

end Agreement

end Srp6a
