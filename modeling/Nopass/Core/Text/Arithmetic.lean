import Mathlib.Algebra.Order.Field.Rat
import Mathlib.Data.Rat.Cast.Order
import Mathlib.Tactic.Linarith
import Mathlib.Tactic.Positivity
import Mathlib.Tactic.Ring
import Nopass.Core.Text.JsText
import Nopass.Core.Text.Number

/-!
# Arithmetic of JavaScript

Differences and quotients are rounded to the nearest double; for whole numbers up to
`2 ^ 53` a difference is exact, and a quotient never reaches the next whole number. A
remainder is exact. Bit operations see a number modulo `2 ^ 32`.
-/

namespace JsNumber

/-- `-a`. -/
def neg : JsNumber → JsNumber
  | .finite a => .finite (-a)
  | .infinity negative => .infinity !negative
  | .nan => .nan

/-- `a - b`. -/
def sub (a b : JsNumber) : JsNumber := add a (neg b)

/-- `a / b`, for a positive zero. -/
def div : JsNumber → JsNumber → JsNumber
  | .finite a, .finite b =>
    if b = 0 then if a = 0 then .nan else .infinity (decide (a < 0)) else ofRat (a / b)
  | .finite _, .infinity _ => 0
  | .infinity negative, .finite b => .infinity (negative != decide (b < 0))
  | _, _ => .nan

/-- `Math.floor`. -/
def floor : JsNumber → JsNumber
  | .finite a => .finite a.floor
  | a => a

/-- The whole part of a number. -/
def truncate (q : Rat) : Int := if q < 0 then -(-q).floor else q.floor

/-- `a % b`. -/
def rem : JsNumber → JsNumber → JsNumber
  | .finite a, .finite b => if b = 0 then .nan else .finite (a - b * truncate (a / b))
  | .finite a, .infinity _ => .finite a
  | _, _ => .nan

/-- What bit operations see of a number. -/
def toUint32 : JsNumber → Nat
  | .finite a => (truncate a % 2 ^ 32).toNat
  | _ => 0

/-- The number that some digits stand for. -/
def ofDigits (digits : JsText) : Nat := digits.foldl (fun n u => 10 * n + (u.toNat - 0x30)) 0

/-- `parseInt(text, 10)`: digits after white space and a sign; what follows them is ignored. -/
def parseInt (text : JsText) : JsNumber :=
  let trimmed := text.dropWhile JsText.isSpace
  let unsigned := match trimmed with
    | 0x2b :: rest | 0x2d :: rest => rest
    | _ => trimmed
  let digits := unsigned.takeWhile JsText.isDigit
  if digits.isEmpty then .nan
  else if trimmed.head? = some 0x2d then ofRat (-(ofDigits digits : Rat)) else ofRat (ofDigits digits)

/-- `Math.pow(10, exponent)` for a whole exponent. -/
def pow10 : JsNumber → JsNumber
  | .nan => .nan
  | .infinity negative => if negative then 0 else .infinity false
  | .finite e =>
    if 308 < e then .infinity false
    else if e < -400 then 0
    else ofRat (10 ^ truncate e)

/-- The digits of a number. -/
def decimal (n : Nat) : JsText := utf16 (Nat.toDigits 10 n)

/-- `toString`; what is written with a fraction or an exponent is left to the platform. -/
def toText (otherText : Rat → JsText) : JsNumber → JsText
  | .nan => js "NaN"
  | .infinity negative => js (if negative then "-Infinity" else "Infinity")
  | .finite a =>
    if a.den ≠ 1 ∨ 10 ^ 21 ≤ a.num.natAbs then otherText a
    else if a < 0 then js "-" ++ decimal a.num.natAbs
    else decimal a.num.natAbs

/-- `ToLength`. -/
def toLength : JsNumber → Nat
  | .nan => 0
  | .infinity negative => if negative then 0 else 2 ^ 53 - 1
  | .finite a => min (truncate a).toNat (2 ^ 53 - 1)

/-- `padStart(maxLength, "0")`, none when the text would be longer than texts can be. -/
def padZeros (longest : Nat) (maxLength : JsNumber) (text : JsText) : Option JsText :=
  let length := toLength maxLength
  if length ≤ text.length then some text
  else if longest < length then none
  else some (List.replicate (length - text.length) 0x30 ++ text)

/-- The last digits of a number. -/
def fixedDigits : Nat → Nat → JsText
  | 0, _ => []
  | width + 1, n => fixedDigits width (n / 10) ++ [UInt16.ofNat (0x30 + n % 10)]

/-- A number that is an integer. -/
theorem eq_of_toInt? {a : JsNumber} {n : Int} (h : a.toInt? = some n) : a = .finite n := by
  cases a with
  | nan => cases h
  | infinity _ => cases h
  | finite q =>
    rw [toInt?] at h
    split at h
    · rename_i hden
      cases h
      rw [(Rat.den_eq_one_iff q).mp hden]
    · cases h

variable {q : Rat}

/-- The last bit of a number is at most a 52nd of its first, unless it is the last of all. -/
theorem lastBit_lower (h : 0 < q) : lastBit q = -1074 ∨ 2 ^ (lastBit q + 52) ≤ q := by
  have hm : magnitude q = q := by rw [magnitude, if_neg (not_lt.mpr h.le)]
  have hnum : (2 : Rat) ^ q.num.natAbs.log2 ≤ q.num.natAbs := by
    have hne : q.num.natAbs ≠ 0 := Int.natAbs_ne_zero.mpr (Rat.num_pos.mpr h).ne'
    exact_mod_cast Nat.log2_self_le hne
  have hden : (q.den : Rat) ≤ 2 ^ (q.den.log2 + 1) := by
    exact_mod_cast Nat.lt_log2_self.le
  have hq : q = (q.num.natAbs : Rat) / q.den := by
    have habs : (q.num.natAbs : Int) = q.num := Int.natAbs_of_nonneg (Rat.num_pos.mpr h).le
    rw [← Int.cast_natCast, habs, Rat.num_div_den]
  have hbelow : (2 : Rat) ^ ((q.num.natAbs.log2 : Int) - q.den.log2 - 1) ≤ q := by
    have hsplit : (q.num.natAbs.log2 : Int) - q.den.log2 - 1 =
        (q.num.natAbs.log2 : Int) - (q.den.log2 + 1 : Nat) := by
      omega
    rw [hsplit, zpow_sub₀ (by norm_num), zpow_natCast, zpow_natCast]
    calc (2 : Rat) ^ q.num.natAbs.log2 / 2 ^ (q.den.log2 + 1)
        ≤ q.num.natAbs / q.den := by
          apply div_le_div₀ (by positivity) hnum _ hden
          exact_mod_cast q.den_pos
      _ = q := hq.symm
  rw [lastBit, hm]
  split
  · rename_i hle
    rcases max_choice (-1074 : Int) ((q.num.natAbs.log2 : Int) - q.den.log2 - 52) with hmax | hmax
    · exact Or.inl hmax
    · rw [hmax, sub_add_cancel]
      exact Or.inr hle
  · rcases max_choice (-1074 : Int) ((q.num.natAbs.log2 : Int) - q.den.log2 - 1 - 52)
      with hmax | hmax
    · exact Or.inl hmax
    · rw [hmax, sub_add_cancel]
      exact Or.inr hbelow

/-- Below `2 ^ 53` the last bit is a whole number or less. -/
theorem lastBit_le_zero (h : 0 < q) (hq : q < 2 ^ 53) : lastBit q ≤ 0 := by
  rcases lastBit_lower h with hlast | hlast
  · omega
  · have hlt : (2 : Rat) ^ (lastBit q + 52) < 2 ^ (53 : Int) := lt_of_le_of_lt hlast hq
    have hexponent := (zpow_lt_zpow_iff_right₀ (by norm_num)).mp hlt
    omega

/-- Rounding goes to one of the two whole numbers next to a number. -/
theorem roundHalfEven_cases (q : Rat) :
    roundHalfEven q = q.floor ∨ 1 / 2 ≤ q - q.floor ∧ roundHalfEven q = q.floor + 1 := by
  rw [roundHalfEven]
  by_cases hlow : q - q.floor < 1 / 2
  · rw [if_pos hlow]
    exact Or.inl rfl
  · rw [if_neg hlow]
    have hhalf : 1 / 2 ≤ q - q.floor := not_lt.mp hlow
    split
    · exact Or.inr ⟨hhalf, rfl⟩
    · split
      · exact Or.inl rfl
      · exact Or.inr ⟨hhalf, rfl⟩

/-- Rounding does not go below a whole number. -/
theorem le_roundHalfEven {n : Int} (h : (n : Rat) ≤ q) : n ≤ roundHalfEven q := by
  have hfloor : n ≤ q.floor := Rat.le_floor_iff.mpr h
  rcases roundHalfEven_cases q with hround | ⟨_, hround⟩
  · omega
  · omega

/-- Rounding does not reach a whole number that is more than half away. -/
theorem roundHalfEven_lt {n : Int} (h : q < n - 1 / 2) : roundHalfEven q < n := by
  have hfloor : q.floor < n := by
    rw [Rat.floor_lt_iff]
    linarith
  rcases roundHalfEven_cases q with hround | ⟨hhalf, hround⟩
  · omega
  · have hnext : q.floor + 1 ≠ n := by
      rintro rfl
      push_cast at h
      linarith
    omega

/-- Whole numbers are not rounded. -/
theorem roundHalfEven_intCast (n : Int) : roundHalfEven (n : Rat) = n := by
  rw [roundHalfEven, Rat.floor_intCast, sub_self, if_pos (by norm_num)]

/-- Whole numbers up to `2 ^ 53` are doubles. -/
theorem ofRat_natCast {n : Nat} (h : n ≤ 2 ^ 53) : ofRat (n : Rat) = ofNat n := by
  have hexact : ∃ m : Int, (n : Rat) / 2 ^ lastBit n = m := by
    rcases Nat.eq_zero_or_pos n with rfl | hpos
    · exact ⟨0, by simp⟩
    · rcases Nat.lt_or_eq_of_le h with hlt | rfl
      · have hzero := lastBit_le_zero (q := (n : Rat)) (by exact_mod_cast hpos)
          (by exact_mod_cast hlt)
        refine ⟨n * 2 ^ (-lastBit n).toNat, ?_⟩
        have hcast : ((-lastBit n).toNat : Int) = -lastBit n := Int.toNat_of_nonneg (by omega)
        push_cast
        rw [← zpow_natCast, hcast, zpow_neg, div_eq_mul_inv]
      · have hlast : lastBit ((2 ^ 53 : Nat) : Rat) = 1 := by decide
        refine ⟨2 ^ 52, ?_⟩
        rw [hlast]
        norm_num
  obtain ⟨m, hm⟩ := hexact
  have hback : (m : Rat) * 2 ^ lastBit n = n := by
    have hne : (2 : Rat) ^ lastBit n ≠ 0 := (zpow_pos (by norm_num) _).ne'
    rw [← hm, div_mul_cancel₀ _ hne]
  have hsmall : ¬ (2 : Rat) ^ 1024 ≤ magnitude n := by
    have hn : (n : Rat) ≤ 2 ^ 53 := by exact_mod_cast h
    rw [magnitude, if_neg (not_lt.mpr (Nat.cast_nonneg n)), not_le]
    have hpow : (2 : Rat) ^ 53 < 2 ^ 1024 := pow_lt_pow_right₀ (by norm_num) (by norm_num)
    exact lt_of_le_of_lt hn hpow
  rw [ofRat, hm, roundHalfEven_intCast, hback, if_neg hsmall]
  rfl

/-- A difference of whole numbers up to `2 ^ 53`. -/
theorem sub_ofNat {a b : Nat} (hle : b ≤ a) (ha : a ≤ 2 ^ 53) :
    sub (ofNat a) (ofNat b) = ofNat (a - b) := by
  have hdiff : (a : Rat) + -(b : Rat) = ((a - b : Nat) : Rat) := by
    rw [Nat.cast_sub hle]
    ring
  rw [sub, ofNat, ofNat, neg, add, hdiff, ofRat_natCast (by omega)]

/-- The whole number that a number lies above. -/
theorem floor_eq {n : Int} (hlow : (n : Rat) ≤ q) (hhigh : q < n + 1) : q.floor = n := by
  have hle : n ≤ q.floor := Rat.le_floor_iff.mpr hlow
  have hlt : q.floor < n + 1 := by
    rw [Rat.floor_lt_iff]
    exact_mod_cast hhigh
  omega

/-- A quotient of whole numbers lies between two of them. -/
theorem quotient_bounds (a : Nat) {b : Nat} (hb : 0 < b) :
    ((a / b : Nat) : Rat) ≤ a / b ∧ (a : Rat) / b ≤ (a / b : Nat) + 1 - 1 / b := by
  have hpos : (0 : Rat) < b := by exact_mod_cast hb
  have hsplit : (b : Rat) * (a / b : Nat) + (a % b : Nat) = a := by
    exact_mod_cast Nat.div_add_mod a b
  have hrest : ((a % b : Nat) : Rat) + 1 ≤ b := by exact_mod_cast Nat.mod_lt a hb
  constructor
  · rw [le_div_iff₀ hpos]
    have hnonneg : (0 : Rat) ≤ (a % b : Nat) := Nat.cast_nonneg _
    linarith
  · have hunit : (1 : Rat) / b * b = 1 := one_div_mul_cancel hpos.ne'
    rw [div_le_iff₀ hpos, sub_mul, add_mul, hunit]
    linarith

/-- The whole part of a quotient of whole numbers. -/
theorem floor_quotient (a : Nat) {b : Nat} (hb : 0 < b) : ((a : Rat) / b).floor = (a / b : Nat) := by
  obtain ⟨hlow, hhigh⟩ := quotient_bounds a hb
  have hunit : (0 : Rat) < 1 / b := one_div_pos.mpr (by exact_mod_cast hb)
  apply floor_eq
  · rwa [Int.cast_natCast]
  · rw [Int.cast_natCast]
    linarith

/-- A remainder of whole numbers. -/
theorem rem_ofNat (a : Nat) {b : Nat} (hb : 0 < b) : rem (ofNat a) (ofNat b) = ofNat (a % b) := by
  have hne : (b : Rat) ≠ 0 := by exact_mod_cast hb.ne'
  have hwhole : truncate ((a : Rat) / b) = (a / b : Nat) := by
    rw [truncate, if_neg (not_lt.mpr (by positivity)), floor_quotient a hb]
  have hsplit : (b : Rat) * (a / b : Nat) + (a % b : Nat) = a := by
    exact_mod_cast Nat.div_add_mod a b
  have hrest : (a : Rat) - b * ((a / b : Nat) : Int) = (a % b : Nat) := by
    rw [Int.cast_natCast]
    linarith
  rw [ofNat, ofNat, rem, if_neg hne, hwhole, hrest]
  rfl

/-- A number that is more than half of its last bit below the next whole number is not rounded up to
it. -/
theorem floor_ofRat {n : Nat} (hlow : (n : Rat) ≤ q) (hpos : 0 < q) (hq : q < 2 ^ 53)
    (hgap : q < n + 1 - 2 ^ lastBit q / 2) : floor (ofRat q) = ofNat n := by
  have hlast := lastBit_le_zero hpos hq
  generalize hl : lastBit q = l at hlast hgap
  -- In units of the last bit, `n` and the next number are whole as well.
  have hunit : (2 : Rat) ^ l * 2 ^ (-l).toNat = 1 := by
    have hcast : ((-l).toNat : Int) = -l := Int.toNat_of_nonneg (by omega)
    rw [← zpow_natCast, hcast, ← zpow_add₀ (by norm_num), add_neg_cancel, zpow_zero]
  have hu : (0 : Rat) < 2 ^ l := zpow_pos (by norm_num) l
  have hk : (0 : Rat) < 2 ^ (-l).toNat := pow_pos (by norm_num) _
  have hq' : q / 2 ^ l = q * 2 ^ (-l).toNat := by
    rw [div_eq_iff hu.ne', mul_assoc, mul_comm (2 ^ (-l).toNat), hunit, mul_one]
  have hleast : (n * 2 ^ (-l).toNat : Int) ≤ roundHalfEven (q / 2 ^ l) := by
    apply le_roundHalfEven
    rw [hq']
    push_cast
    exact mul_le_mul_of_nonneg_right hlow hk.le
  have hmost : roundHalfEven (q / 2 ^ l) < (n + 1) * 2 ^ (-l).toNat := by
    apply roundHalfEven_lt
    have hscaled := mul_lt_mul_of_pos_right hgap hk
    rw [sub_mul, div_mul_eq_mul_div, hunit] at hscaled
    rw [hq']
    push_cast
    exact hscaled
  generalize hr : roundHalfEven (q / 2 ^ l) = rounded at hleast hmost
  have hback : ∀ m : Rat, m * 2 ^ (-l).toNat * 2 ^ l = m := by
    intro m
    rw [mul_assoc, mul_comm (2 ^ (-l).toNat), hunit, mul_one]
  have hlower : (n : Rat) ≤ rounded * 2 ^ l := by
    have hcast : (n : Rat) * 2 ^ (-l).toNat ≤ rounded := by exact_mod_cast hleast
    rw [← hback n]
    exact mul_le_mul_of_nonneg_right hcast hu.le
  have hupper : (rounded : Rat) * 2 ^ l < n + 1 := by
    have hcast : (rounded : Rat) < (n + 1) * 2 ^ (-l).toNat := by exact_mod_cast hmost
    rw [← hback (n + 1)]
    exact mul_lt_mul_of_pos_right hcast hu
  have hsmall : ¬ (2 : Rat) ^ 1024 ≤ magnitude (rounded * 2 ^ l) := by
    have hnonneg : (0 : Rat) ≤ rounded * 2 ^ l := le_trans (Nat.cast_nonneg n) hlower
    have hpow : (2 : Rat) ^ 53 + 1 < 2 ^ 1024 := by
      have hstep : (2 : Rat) ^ 54 < 2 ^ 1024 := pow_lt_pow_right₀ (by norm_num) (by norm_num)
      exact lt_trans (by norm_num) hstep
    have hnext : (n : Rat) + 1 ≤ 2 ^ 53 + 1 := by linarith
    rw [magnitude, if_neg (not_lt.mpr hnonneg), not_le]
    exact lt_trans (lt_of_lt_of_le hupper hnext) hpow
  have hfloor : (rounded * 2 ^ l : Rat).floor = (n : Int) := by
    apply floor_eq
    · rwa [Int.cast_natCast]
    · rwa [Int.cast_natCast]
  rw [ofRat, hl, hr, if_neg hsmall, floor, hfloor]
  rfl

/-- A rounded quotient of whole numbers does not reach the next whole number: the gap is more than
half of the last bit. -/
theorem floor_div_ofNat {a b : Nat} (ha : a < 2 ^ 53) (hb : 0 < b) (hb' : b < 2 ^ 1024) :
    floor (div (ofNat a) (ofNat b)) = ofNat (a / b) := by
  have hbq : (0 : Rat) < b := by exact_mod_cast hb
  have haq : (a : Rat) < 2 ^ 53 := by exact_mod_cast ha
  have hone : (1 : Rat) ≤ b := by exact_mod_cast hb
  rw [ofNat, ofNat, div, if_neg hbq.ne']
  rcases Nat.eq_zero_or_pos a with rfl | hpos
  · rw [Nat.zero_div, Nat.cast_zero, zero_div]
    decide +kernel
  · obtain ⟨hlow, hhigh⟩ := quotient_bounds a hb
    have hq : 0 < (a : Rat) / b := div_pos (by exact_mod_cast hpos) hbq
    have hbelow : (a : Rat) / b < 2 ^ 53 := lt_of_le_of_lt (div_le_self (Nat.cast_nonneg a) hone) haq
    have hbit : (2 : Rat) ^ lastBit ((a : Rat) / b) * b < 2 := by
      rcases lastBit_lower hq with hlast | hlast
      · have hbq' : (b : Rat) < 2 ^ 1024 := by exact_mod_cast hb'
        have hsmall : (2 : Rat) ^ (-1074 : Int) * 2 ^ 1024 < 2 := by
          have hpow : (2 : Rat) ^ 1024 = 2 ^ (1024 : Int) := (zpow_natCast 2 1024).symm
          rw [hpow, ← zpow_add₀ (by norm_num)]
          norm_num
        rw [hlast]
        exact lt_trans (mul_lt_mul_of_pos_left hbq' (zpow_pos (by norm_num) _)) hsmall
      · rw [zpow_add₀ (by norm_num), le_div_iff₀ hbq] at hlast
        have hbits : (2 : Rat) ^ (52 : Int) = 2 ^ 52 := by norm_num
        rw [hbits] at hlast
        linarith
    apply floor_ofRat hlow hq hbelow
    have hhalf : (2 : Rat) ^ lastBit ((a : Rat) / b) / 2 < 1 / b := by
      rw [div_lt_div_iff₀ (by norm_num) hbq, one_mul]
      exact hbit
    linarith

/-- A whole number above `2 ^ 53` is rounded to another, or to infinity. -/
theorem ofRat_large {n : Nat} (h : 2 ^ 53 < n) : ofRat (n : Rat) = .infinity false ∨
    ∃ b : Nat, 2 ^ 53 ≤ b ∧ b < 2 ^ 1024 ∧ ofRat (n : Rat) = ofNat b := by
  have hpos : (0 : Rat) < n := by exact_mod_cast Nat.lt_of_le_of_lt (Nat.zero_le _) h
  have hmagnitude : magnitude (n : Rat) = n := by rw [magnitude, if_neg (not_lt.mpr hpos.le)]
  have hone : 1 ≤ lastBit (n : Rat) := by
    have hne : n ≠ 0 := by omega
    have hlog : 53 ≤ n.log2 := (Nat.le_log2 hne).mpr h.le
    have hexponent : (2 : Rat) ^ (n.log2 : Int) ≤ n := by
      rw [zpow_natCast]
      exact_mod_cast Nat.log2_self_le hne
    have hlast : lastBit (n : Rat) = max (-1074) ((n.log2 : Int) - 52) := by
      rw [lastBit, hmagnitude, Rat.num_natCast, Rat.den_natCast, Int.natAbs_natCast]
      have hden : ((Nat.log2 1 : Nat) : Int) = 0 := by decide
      rw [hden, sub_zero, if_pos hexponent]
    rw [hlast]
    omega
  have hlower : (2 : Rat) ^ (lastBit (n : Rat) + 52) ≤ n := by
    rcases lastBit_lower hpos with hlast | hlast
    · omega
    · exact hlast
  generalize hl : lastBit (n : Rat) = l at hone hlower
  obtain ⟨k, rfl⟩ : ∃ k : Nat, l = k := ⟨l.toNat, (Int.toNat_of_nonneg (by omega)).symm⟩
  have hunit : (0 : Rat) < 2 ^ (k : Int) := zpow_pos (by norm_num) _
  have hround : (2 ^ 52 : Int) ≤ roundHalfEven ((n : Rat) / 2 ^ (k : Int)) := by
    apply le_roundHalfEven
    rw [le_div_iff₀ hunit]
    rw [zpow_add₀ (by norm_num)] at hlower
    have hbits : (2 : Rat) ^ (52 : Int) = ((2 ^ 52 : Int) : Rat) := by norm_num
    rw [hbits] at hlower
    linarith
  generalize hr : roundHalfEven ((n : Rat) / 2 ^ (k : Int)) = rounded at hround
  obtain ⟨r, rfl⟩ : ∃ r : Nat, rounded = r :=
    ⟨rounded.toNat, (Int.toNat_of_nonneg (by omega)).symm⟩
  have hvalue : ((r : Int) : Rat) * 2 ^ (k : Int) = ((r * 2 ^ k : Nat) : Rat) := by
    push_cast
    rw [zpow_natCast]
  have hlarge : 2 ^ 53 ≤ r * 2 ^ k := by
    have htwo : 2 ^ 1 ≤ 2 ^ k := Nat.pow_le_pow_right (by decide) (by omega)
    calc 2 ^ 53 = 2 ^ 52 * 2 ^ 1 := by norm_num
      _ ≤ r * 2 ^ k := Nat.mul_le_mul (by omega) htwo
  have hnonneg : ¬ ((r * 2 ^ k : Nat) : Rat) < 0 := not_lt.mpr (Nat.cast_nonneg _)
  rw [ofRat, hl, hr, hvalue, magnitude, if_neg hnonneg]
  split
  · left
    rw [decide_eq_false (not_lt.mpr hpos.le)]
  · rename_i hsmall
    right
    refine ⟨r * 2 ^ k, hlarge, ?_, rfl⟩
    rw [not_le] at hsmall
    exact_mod_cast hsmall

/-- The digits of a number that are one more than those of its tenth. -/
theorem decimal_of_ge {n : Nat} (h : 10 ≤ n) :
    decimal n = decimal (n / 10) ++ [UInt16.ofNat (0x30 + n % 10)] := by
  have hdigit : ∀ d < 10, utf16Char (Nat.digitChar d) = [UInt16.ofNat (0x30 + d)] := by decide
  rw [decimal, Nat.toDigits_of_base_le (by decide) h, utf16, List.flatMap_append,
    List.flatMap_singleton, hdigit _ (Nat.mod_lt n (by decide))]
  rfl

/-- The digit of a small number. -/
theorem decimal_of_lt {n : Nat} (h : n < 10) : decimal n = [UInt16.ofNat (0x30 + n)] := by
  have hdigit : ∀ d < 10, utf16Char (Nat.digitChar d) = [UInt16.ofNat (0x30 + d)] := by decide
  rw [decimal, Nat.toDigits_of_lt_base h, utf16, List.flatMap_singleton, hdigit n h]

/-- The last digits of zero. -/
theorem fixedDigits_zero (width : Nat) : fixedDigits width 0 = List.replicate width 0x30 := by
  induction width with
  | zero => rfl
  | succ width ih =>
    rw [fixedDigits, Nat.zero_div, ih, List.replicate_succ']
    rfl

/-- The last digits see nothing of what is above them. -/
theorem fixedDigits_mod (width n : Nat) : fixedDigits width (n % 10 ^ width) = fixedDigits width n := by
  induction width generalizing n with
  | zero => rfl
  | succ width ih =>
    have hhigh : n % 10 ^ (width + 1) / 10 = n / 10 % 10 ^ width := by
      rw [Nat.pow_succ', Nat.mod_mul_right_div_self]
    have hlow : n % 10 ^ (width + 1) % 10 = n % 10 :=
      Nat.mod_mod_of_dvd n (Dvd.intro_left (10 ^ width) rfl)
    rw [fixedDigits, fixedDigits, hhigh, hlow, ih]

/-- Zeros before the digits of a number that fits make up its last digits. -/
theorem replicate_append_decimal {width n : Nat} (hwidth : 0 < width) (h : n < 10 ^ width) :
    (decimal n).length ≤ width ∧
      List.replicate (width - (decimal n).length) 0x30 ++ decimal n = fixedDigits width n := by
  induction width generalizing n with
  | zero => cases hwidth
  | succ width ih =>
    by_cases hsmall : n < 10
    · rw [decimal_of_lt hsmall, List.length_singleton, Nat.add_sub_cancel, fixedDigits,
        Nat.div_eq_of_lt hsmall, Nat.mod_eq_of_lt hsmall, fixedDigits_zero]
      exact ⟨Nat.succ_le_succ (Nat.zero_le _), rfl⟩
    · have hge : 10 ≤ n := Nat.le_of_not_lt hsmall
      have hpos : 0 < width := by
        rcases Nat.eq_zero_or_pos width with rfl | hpos
        · omega
        · exact hpos
      have hdiv : n / 10 < 10 ^ width := by
        rw [Nat.pow_succ] at h
        exact Nat.div_lt_of_lt_mul (by omega)
      obtain ⟨hlength, hdigits⟩ := ih hpos hdiv
      rw [decimal_of_ge hge, List.length_append, List.length_singleton, Nat.add_sub_add_right,
        ← List.append_assoc, hdigits, fixedDigits]
      exact ⟨Nat.succ_le_succ hlength, rfl⟩

/-- The whole part of a whole number. -/
theorem truncate_natCast (n : Nat) : truncate (n : Rat) = n := by
  rw [truncate, if_neg (not_lt.mpr (Nat.cast_nonneg n)), ← Int.cast_natCast, Rat.floor_intCast]

@[simp] theorem toUint32_ofNat (n : Nat) : toUint32 (ofNat n) = n % 2 ^ 32 := by
  rw [ofNat, toUint32, truncate_natCast]
  omega

@[simp] theorem toLength_ofNat (n : Nat) : toLength (ofNat n) = min n (2 ^ 53 - 1) := by
  rw [ofNat, toLength, truncate_natCast, Int.toNat_natCast]

/-- What is written for a whole number. -/
theorem toText_ofNat (otherText : Rat → JsText) {n : Nat} (h : n < 10 ^ 21) :
    toText otherText (ofNat n) = decimal n := by
  have hplain : ¬ ((n : Rat).den ≠ 1 ∨ 10 ^ 21 ≤ (n : Rat).num.natAbs) := by
    rw [Rat.den_natCast, Rat.num_natCast, Int.natAbs_natCast]
    omega
  rw [ofNat, toText, if_neg hplain, if_neg (not_lt.mpr (Nat.cast_nonneg n)), Rat.num_natCast,
    Int.natAbs_natCast]

/-- A text of digits for a number. -/
def IsNumeral (text : JsText) (n : Nat) : Prop :=
  text ≠ [] ∧ text.all JsText.isDigit = true ∧ ofDigits text = n

/-- A numeral is read as its number. -/
theorem parseInt_of_isNumeral {text : JsText} {n : Nat} (h : IsNumeral text n) :
    parseInt text = ofRat n := by
  obtain ⟨hne, hdigits, rfl⟩ := h
  obtain ⟨first, rest, rfl⟩ := List.exists_cons_of_ne_nil hne
  rw [List.all_eq_true] at hdigits
  have hfirst := hdigits first List.mem_cons_self
  have hplain : JsText.isSpace first = false ∧ first ≠ 0x2b ∧ first ≠ 0x2d := by
    rw [JsText.isDigit, Bool.and_eq_true, decide_eq_true_eq, decide_eq_true_eq,
      UInt16.le_iff_toNat_le, UInt16.le_iff_toNat_le] at hfirst
    have key : ∀ d : Fin 10, JsText.isSpace (UInt16.ofNat (0x30 + d)) = false ∧
        UInt16.ofNat (0x30 + d) ≠ 0x2b ∧ UInt16.ofNat (0x30 + d) ≠ 0x2d := by decide
    have hlow : 0x30 ≤ first.toNat := hfirst.1
    have hhigh : first.toNat ≤ 0x39 := hfirst.2
    have hunit := key ⟨first.toNat - 0x30, by omega⟩
    have hback : 0x30 + (first.toNat - 0x30) = first.toNat := by omega
    simp only [hback, UInt16.ofNat_toNat] at hunit
    exact hunit
  have htrim : (first :: rest).dropWhile JsText.isSpace = first :: rest := by
    rw [List.dropWhile_cons_of_neg]
    rw [hplain.1]
    exact Bool.false_ne_true
  have htake : (first :: rest).takeWhile JsText.isDigit = first :: rest :=
    List.takeWhile_eq_self_iff.mpr hdigits
  have hhead : ¬ (first :: rest).head? = some 0x2d := by simp [hplain.2.2]
  rw [parseInt, htrim]
  split
  · rename_i heq
    exact absurd (List.cons.inj heq).1 hplain.2.1
  · rename_i heq
    exact absurd (List.cons.inj heq).1 hplain.2.2
  · rw [htake, if_neg hhead]
    rfl

end JsNumber
