import Mathlib.Algebra.Group.Nat.Defs

/-!
# Identifiers of 128 bits

A UUID is a number below `2 ^ 128`. Clients handle its text; `uuidBytes` reads the
sixteen bytes back, from any spelling of the digits and any place of the dashes. The
server writes one spelling and reads its own back.
-/

/-- A UUID by its value. -/
structure Uuid where
  /-- The sixteen bytes read as one number, most significant first. -/
  value : Fin (2 ^ 128)
  deriving DecidableEq, Repr

namespace Uuid

instance (n : Nat) : OfNat Uuid n := ⟨⟨Fin.ofNat _ n⟩⟩

end Uuid

/-- The value of a hexadecimal digit. -/
def hexDigit (c : Char) : Option Nat :=
  if '0' ≤ c ∧ c ≤ '9' then some (c.toNat - 48)
  else if 'a' ≤ c ∧ c ≤ 'f' then some (c.toNat - 87)
  else if 'A' ≤ c ∧ c ≤ 'F' then some (c.toNat - 55)
  else none

/-- The bytes that pairs of digits stand for. -/
def hexBytes : List Char → Option (List UInt8)
  | [] => some []
  | [_] => none
  | a :: b :: rest => do
    let x ← hexDigit a
    let y ← hexDigit b
    let bytes ← hexBytes rest
    some (UInt8.ofNat (16 * x + y) :: bytes)

/-- `uuidBytes`: the bytes of thirty-two digits, dashes left out. -/
def uuidBytes (uuid : String) : Option (List UInt8) :=
  let hex := uuid.toList.filter (· ≠ '-')
  if hex.length = 32 then hexBytes hex else none

/-- The character of a hexadecimal digit. -/
def hexChar (n : Nat) : Char := if n < 10 then Char.ofNat (48 + n) else Char.ofNat (87 + n)

/-- Every digit is read back from its character, which is no dash. -/
theorem hexDigit_hexChar {n : Nat} (h : n < 16) :
    hexDigit (hexChar n) = some n ∧ hexChar n ≠ '-' := by
  have key : ∀ m : Fin 16, hexDigit (hexChar m.val) = some m.val ∧ hexChar m.val ≠ '-' := by
    decide
  exact key ⟨n, h⟩

/-- The last `k` digits of a number. -/
def hexChars : Nat → Nat → List Char
  | 0, _ => []
  | k + 1, n => hexChars k (n / 16) ++ [hexChar (n % 16)]

/-- The number that some digits stand for. -/
def hexNumber (chars : List Char) : Option Nat :=
  chars.foldlM (fun n c => (hexDigit c).map (16 * n + ·)) 0

@[simp] theorem length_hexChars (k n : Nat) : (hexChars k n).length = k := by
  induction k generalizing n with
  | zero => rfl
  | succ k ih => rw [hexChars, List.length_append, ih, List.length_singleton]

/-- Digits are no dashes. -/
theorem ne_dash_of_mem_hexChars {k n : Nat} {c : Char} (h : c ∈ hexChars k n) : c ≠ '-' := by
  induction k generalizing n with
  | zero => cases h
  | succ k ih =>
    rcases List.mem_append.mp h with h | h
    · exact ih h
    · rw [List.mem_singleton.mp h]
      exact (hexDigit_hexChar (Nat.mod_lt n (by decide))).2

/-- A number is read back from its digits. -/
theorem hexNumber_hexChars (k n : Nat) : hexNumber (hexChars k n) = some (n % 16 ^ k) := by
  induction k generalizing n with
  | zero => simp [hexNumber, hexChars, Nat.mod_one]
  | succ k ih =>
    have hdigit := (hexDigit_hexChar (Nat.mod_lt n (show 0 < 16 by decide))).1
    have hrest := ih (n / 16)
    rw [hexNumber] at hrest
    rw [hexNumber, hexChars, List.foldlM_append, hrest]
    simp only [List.foldlM_cons, List.foldlM_nil, hdigit, Option.map_some, Option.bind_eq_bind,
      Option.bind_some, Option.pure_def, Option.some.injEq]
    rw [Nat.pow_succ', Nat.mod_mul]
    omega

namespace Uuid

/-- Digits with dashes after the eighth, the twelfth, the sixteenth and the twentieth. -/
def hyphenate (chars : List Char) : List Char :=
  chars.take 8 ++ '-' :: (chars.drop 8).take 4 ++ '-' :: (chars.drop 12).take 4 ++
    '-' :: (chars.drop 16).take 4 ++ '-' :: chars.drop 20

/-- `to_string`: thirty-two lower-case digits with dashes. -/
def text (u : Uuid) : String := String.ofList (hyphenate (hexChars 32 u.value))

/-- The UUID of a text, with all its dashes or none. -/
def ofText (text : String) : Option Uuid :=
  let chars := text.toList
  let hex := chars.filter (· ≠ '-')
  if hex.length = 32 ∧ (chars = hex ∨ chars = hyphenate hex) then
    (hexNumber hex).map fun n => ⟨Fin.ofNat _ n⟩
  else none

/-- Dashes between digits are taken out again. -/
theorem filter_hyphenate {chars : List Char} (h : ∀ c ∈ chars, c ≠ '-') :
    (hyphenate chars).filter (· ≠ '-') = chars := by
  have hall : ∀ l : List Char, (∀ c ∈ l, c ∈ chars) → l.filter (· ≠ '-') = l := by
    intro l hl
    rw [List.filter_eq_self]
    intro c hc
    exact decide_eq_true (h c (hl c hc))
  have htake : ∀ m n, ∀ c ∈ (chars.drop m).take n, c ∈ chars :=
    fun m n c hc => List.mem_of_mem_drop (List.mem_of_mem_take hc)
  rw [hyphenate]
  simp only [List.filter_append, List.cons_append, List.append_assoc]
  rw [hall (chars.take 8) (htake 0 8), List.filter_cons_of_neg (by simp), List.filter_append,
    hall _ (htake 8 4), List.filter_cons_of_neg (by simp), List.filter_append,
    hall _ (htake 12 4), List.filter_cons_of_neg (by simp), List.filter_append,
    hall _ (htake 16 4), List.filter_cons_of_neg (by simp),
    hall _ fun c hc => List.mem_of_mem_drop hc]
  have hsplit : ∀ m n, (chars.drop m).take n ++ chars.drop (m + n) = chars.drop m := by
    intro m n
    rw [← List.drop_drop, List.take_append_drop]
  rw [hsplit 16 4, hsplit 12 4, hsplit 8 4]
  exact hsplit 0 8

/-- A text has thirty-six characters. -/
@[simp] theorem length_text (u : Uuid) : u.text.length = 36 := by
  rw [text, String.length_ofList, hyphenate]
  simp

/-- A UUID is read back from its text. -/
@[simp] theorem ofText_text (u : Uuid) : ofText u.text = some u := by
  have hhex : (u.text.toList).filter (· ≠ '-') = hexChars 32 u.value := by
    rw [text, String.toList_ofList]
    exact filter_hyphenate fun c hc => ne_dash_of_mem_hexChars hc
  have hchars : u.text.toList = hyphenate (hexChars 32 u.value) := by
    rw [text, String.toList_ofList]
  unfold ofText
  simp only [hhex, length_hexChars, true_and]
  rw [if_pos (Or.inr hchars), hexNumber_hexChars]
  have hvalue : u.value.val % 16 ^ 32 = u.value.val := by
    apply Nat.mod_eq_of_lt
    exact u.value.isLt
  rw [hvalue]
  simp

/-- Texts of different UUIDs are different. -/
theorem text_injective {u v : Uuid} (h : u.text = v.text) : u = v := by
  have hu := ofText_text u
  rw [h, ofText_text] at hu
  exact (Option.some.inj hu).symm

end Uuid
