import Mathlib.Data.Rat.Defs

/-!
# The numbers of JavaScript

What comparisons and the test for integers see of a number, and sums, which are rounded to
the nearest double.
-/

/-- A number of JavaScript. -/
inductive JsNumber where
  | nan
  | infinity (negative : Bool)
  | finite (value : Rat)
  deriving DecidableEq

namespace JsNumber

instance (n : Nat) : OfNat JsNumber n := ⟨.finite n⟩

/-- A whole number. -/
def ofNat (n : Nat) : JsNumber := .finite n

/-- `a === b`. -/
def strictEq : JsNumber → JsNumber → Bool
  | .nan, _ => false
  | a, b => decide (a = b)

/-- `a < b`. -/
def lt : JsNumber → JsNumber → Bool
  | .finite a, .finite b => decide (a < b)
  | .nan, _ => false
  | _, .nan => false
  | .infinity a, .infinity b => a && !b
  | .infinity a, .finite _ => a
  | .finite _, .infinity b => !b

/-- `a <= b`. -/
def le (a b : JsNumber) : Bool := lt a b || strictEq a b

/-- `Number.isInteger`, with the integer. -/
def toInt? : JsNumber → Option Int
  | .finite a => if a.den = 1 then some a.num else none
  | _ => none

/-- The nearest integer, the even one of two. -/
def roundHalfEven (q : Rat) : Int :=
  let rest := q - q.floor
  if rest < 1 / 2 then q.floor
  else if 1 / 2 < rest then q.floor + 1
  else if q.floor % 2 = 0 then q.floor else q.floor + 1

/-- `Math.abs`. -/
def magnitude (q : Rat) : Rat := if q < 0 then -q else q

/-- The exponent of the last bit of the double nearest to a number. -/
def lastBit (q : Rat) : Int :=
  let exponent : Int := (q.num.natAbs.log2 : Int) - (q.den.log2 : Int)
  max (-1074) ((if 2 ^ exponent ≤ magnitude q then exponent else exponent - 1) - 52)

/-- The double nearest to a number. -/
def ofRat (q : Rat) : JsNumber :=
  let rounded : Rat := roundHalfEven (q / 2 ^ lastBit q) * 2 ^ lastBit q
  if 2 ^ 1024 ≤ magnitude rounded then .infinity (decide (q < 0)) else .finite rounded

/-- `a + b`. -/
def add : JsNumber → JsNumber → JsNumber
  | .finite a, .finite b => ofRat (a + b)
  | .infinity a, .infinity b => if a = b then .infinity a else .nan
  | .infinity a, .finite _ | .finite _, .infinity a => .infinity a
  | .nan, _ | _, .nan => .nan

example : add 4294967295 1 = 4294967296 ∧ add 9007199254740992 1 = 9007199254740992 := by
  decide +kernel

/-- Equal numbers are one number. -/
theorem eq_of_strictEq {a b : JsNumber} (h : strictEq a b = true) : a = b := by
  cases a with
  | nan => cases h
  | infinity _ => exact of_decide_eq_true h
  | finite _ => exact of_decide_eq_true h

/-- An integer equals itself. -/
theorem strictEq_self {a : JsNumber} {n : Int} (h : a.toInt? = some n) :
    strictEq a a = true := by
  cases a with
  | nan => cases h
  | infinity _ => cases h
  | finite _ => exact decide_eq_true rfl

@[simp] theorem toInt?_ofNat (n : Nat) : (ofNat n).toInt? = some (n : Int) := by
  rw [ofNat, toInt?, if_pos (Rat.den_natCast n), Rat.num_natCast]

@[simp] theorem lt_ofNat (n m : Nat) : lt (ofNat n) (ofNat m) = decide (n < m) := by
  simp [ofNat, lt, Rat.natCast_lt_natCast]

end JsNumber
