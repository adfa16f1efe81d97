import Nopass.Core.OrderedMap
import Nopass.Core.Text.JsText
import Nopass.Core.Text.Lines

/-!
# References to secrets and `.env` files

A field of a vault item is exposed under an environment variable: upper-cased names with
every other code unit folded to an underscore. A reference `nopwd://item/field` is looked
up in the variables of its item. A line of a `.env` file is matched by one regular
expression; each of its repetitions stops where the next part cannot begin, so that the
match that it finds is the one that takes as much as it can.
-/

namespace Nopass

open JsText

/-- `CustomField`, with what the command line reads of it. -/
structure CustomField where
  name : JsText
  value : JsText
  deriving DecidableEq

/-- `LoginItem`, with what the command line reads and writes of it. -/
structure LoginItem where
  name : JsText
  username : JsText
  password : JsText
  totp : Option JsText := none
  notes : Option JsText := none
  customFields : List CustomField
  deriving DecidableEq

/-- `VaultItemPlaintext`, with what the command line reads of it. -/
inductive VaultItemPlaintext where
  | login (item : LoginItem)
  | note (name content : JsText)
  | card (name : JsText)
  | identity (name : JsText)
  | sshKey (name privateKey : JsText) (publicKey : Option JsText)
  deriving DecidableEq

namespace VaultItemPlaintext

/-- The name of an item. -/
def name : VaultItemPlaintext → JsText
  | .login item => item.name
  | .note name _ | .card name | .identity name | .sshKey name _ _ => name

end VaultItemPlaintext

/-- `REF_PREFIX`. -/
def refPrefix : JsText := js "nopwd://"

/-- The code unit that a name keeps. -/
def isEnvKeyChar (u : UInt16) : Bool := isUpperAscii u || isDigit u

/-- `toEnvKey`. -/
def toEnvKey (cases : CaseMapping) (name : JsText) : JsText :=
  (cases.toUpperCase name).map fun u => if isEnvKeyChar u then u else 0x5f

/-- The variables of an item. -/
abbrev EnvVars := OrderedMap JsText JsText

/-- `if (value) vars[key] = value`. -/
def setIfTruthy (vars : EnvVars) (key value : JsText) : EnvVars :=
  if value = [] then vars else vars.set key value

/-- `itemToEnvVars`. -/
def itemToEnvVars (cases : CaseMapping) (item : VaultItemPlaintext) : EnvVars :=
  let key := toEnvKey cases item.name
  match item with
  | .login login =>
    let vars := setIfTruthy .empty key login.password
    let vars := setIfTruthy vars (key ++ js "_USERNAME") login.username
    let vars := setIfTruthy vars (key ++ js "_TOTP") (login.totp.getD [])
    login.customFields.foldl
      (fun vars field => setIfTruthy vars (key ++ js "_" ++ toEnvKey cases field.name) field.value)
      vars
  | .note _ content => OrderedMap.empty.set key content
  | .card _ | .identity _ => .empty
  | .sshKey _ privateKey publicKey =>
    (setIfTruthy .empty (key ++ js "_PUBLIC") (publicKey.getD [])).set (key ++ js "_PRIVATE")
      privateKey

/-- `formatReference`. -/
def formatReference (itemName field : JsText) : JsText := refPrefix ++ itemName ++ js "/" ++ field

/-- `isReference`. -/
def isReference (value : JsText) : Bool := refPrefix.isPrefixOf value

/-- The variable that a field name stands for; the name is in lower case. -/
def fieldKey (cases : CaseMapping) (itemKey fieldName : JsText) : JsText :=
  if fieldName = js "password" then itemKey
  else if fieldName = js "username" then itemKey ++ js "_USERNAME"
  else if fieldName = js "totp" then itemKey ++ js "_TOTP"
  else itemKey ++ js "_" ++ toEnvKey cases fieldName

/-- `resolveReference`: the value, or what is wrong. -/
def resolveReference (cases : CaseMapping) (vault : List VaultItemPlaintext) (ref : JsText) :
    Except JsText JsText :=
  let rest := ref.drop refPrefix.length
  let itemName := rest.takeWhile (· ≠ 0x2f)
  match rest.dropWhile (· ≠ 0x2f) with
  | [] => .error (js "malformed reference " ++ ref)
  | _ :: fieldName =>
    if !isReference ref || itemName.isEmpty then .error (js "malformed reference " ++ ref) else
    let itemName := cases.toLowerCase itemName
    let fieldName := cases.toLowerCase fieldName
    match vault.find? fun i => decide (cases.toLowerCase i.name = itemName) with
    | none => .error (js "no vault item matches reference " ++ ref)
    | some item =>
      match (itemToEnvVars cases item).get (fieldKey cases (toEnvKey cases item.name) fieldName) with
      | none => .error (js "field \"" ++ fieldName ++ js "\" not found in vault item \"" ++
          item.name ++ js "\"")
      | some value => .ok value

/-- `DotenvEntry`. -/
structure DotenvEntry where
  key : JsText
  value : JsText
  /-- Line number, from 1. -/
  line : Nat
  deriving DecidableEq

/-- `ParsedDotenvLine`. -/
structure ParsedDotenvLine where
  exportPrefix : Bool
  key : JsText
  value : JsText
  /-- Whatever follows the value on the line, such as an inline comment. -/
  trailing : JsText
  /-- The value opens a quote that the line never closes. -/
  unterminatedQuote : Bool
  deriving DecidableEq

/-- `[A-Za-z_]`. -/
def isKeyStart (u : UInt16) : Bool := isUpperAscii u || isLowerAscii u || decide (u = 0x5f)

/-- `[A-Za-z0-9_.-]`. -/
def isKeyChar (u : UInt16) : Bool :=
  isKeyStart u || isDigit u || decide (u = 0x2e) || decide (u = 0x2d)

/-- `export\s+`, with the rest of the line. -/
def matchExport (line : JsText) : Option JsText :=
  (dropPrefix? (js "export") line).bind fun rest =>
    if rest.head?.any isSpace then some (rest.dropWhile isSpace) else none

/-- `([A-Za-z_][A-Za-z0-9_.-]*)\s*=\s*(.*)$`: the key and the rest after the spaces. -/
def matchAssignment (line : JsText) : Option (JsText × JsText) :=
  if line.head?.any isKeyStart then
    match (line.dropWhile isKeyChar).dropWhile isSpace with
    | [] => none
    | u :: rest =>
      if u = 0x3d ∧ (rest.dropWhile isSpace).all (!isLineTerminator ·) then
        some (line.takeWhile isKeyChar, rest.dropWhile isSpace)
      else none
  else none

/-- `DOTENV_LINE`: whether it is exported, the key and the rest. A line that does not match with
the optional group is tried without it. -/
def dotenvLine (line : JsText) : Option (Bool × JsText × JsText) :=
  let line := line.dropWhile isSpace
  match (matchExport line).bind matchAssignment with
  | some (key, rest) => some (true, key, rest)
  | none => (matchAssignment line).map fun (key, rest) => (false, key, rest)

/-- `((?:\\.|[^"\\])*)"`: what stands before the closing quote, and the rest. The text is on one
line, so that `.` matches every code unit. -/
def quotedBody : JsText → Option (JsText × JsText)
  | [] => none
  | [u] => if u = 0x22 then some ([], []) else none
  | u :: v :: rest =>
    if u = 0x22 then some ([], v :: rest)
    else if u = 0x5c then (quotedBody rest).map fun (body, rest) => (u :: v :: body, rest)
    else (quotedBody (v :: rest)).map fun (body, rest) => (u :: body, rest)

/-- `value.replace(/\\(.)/g, …)` on a text of one line. -/
def unescape : JsText → JsText
  | [] => []
  | [u] => [u]
  | u :: v :: rest =>
    if u = 0x5c then (if v = 0x6e then 0x0a else v) :: unescape rest else u :: unescape (v :: rest)

/-- `/\s+#.*$/` on a text of one line: what stands before the comment, and the comment. -/
def splitComment : JsText → JsText × JsText
  | [] => ([], [])
  | u :: rest =>
    if isSpace u && ((u :: rest).dropWhile isSpace).head? = some 0x23 then ([], u :: rest)
    else (u :: (splitComment rest).1, (splitComment rest).2)

/-- `parseDotenvLine`. -/
def parseDotenvLine (line : JsText) : Option ParsedDotenvLine :=
  (dotenvLine line).map fun (exported, key, rest) =>
    let raw := trimEnd rest
    let parsed (value trailing : JsText) (unterminatedQuote : Bool) : ParsedDotenvLine :=
      { exportPrefix := exported, key := key, value := value, trailing := trailing
        unterminatedQuote := unterminatedQuote }
    match raw with
    | 0x22 :: inside =>
      match quotedBody inside with
      | none => parsed raw [] true
      | some (body, trailing) => parsed (unescape body) trailing false
    | 0x27 :: inside =>
      match inside.dropWhile (· ≠ 0x27) with
      | [] => parsed raw [] true
      | _ :: trailing => parsed (inside.takeWhile (· ≠ 0x27)) trailing false
    | _ => parsed (splitComment raw).1 (splitComment raw).2 false

/-- `split(/(\r?\n)/)`: the texts of the lines, each with its terminator. -/
def splitLines (content : JsText) : List (JsText × JsText) := Lines.split 0x0d 0x0a content

/-- The entry of one line. -/
def dotenvEntry (line : JsText) (number : Nat) : Option DotenvEntry :=
  (parseDotenvLine line).bind fun parsed =>
    if parsed.unterminatedQuote then none
    else some { key := parsed.key, value := parsed.value, line := number }

/-- `parseDotenv`. -/
def parseDotenv (content : JsText) : List DotenvEntry :=
  (splitLines content).zipIdx.filterMap fun (line, i) => dotenvEntry line.1 (i + 1)

section Lines

/-- What may stand in a name is between the hyphen and the letter `z`. -/
theorem isKeyChar_range {u : UInt16} (h : isKeyChar u = true) :
    0x2d ≤ u.toNat ∧ u.toNat ≤ 0x7a := by
  rw [isKeyChar, isKeyStart, isUpperAscii, isLowerAscii, isDigit] at h
  simp only [Bool.or_eq_true, Bool.and_eq_true, decide_eq_true_eq, UInt16.le_iff_toNat_le,
    ← UInt16.toNat_inj] at h
  change ((((0x41 ≤ _ ∧ _ ≤ 0x5a ∨ 0x61 ≤ _ ∧ _ ≤ 0x7a) ∨ _ = 0x5f) ∨ 0x30 ≤ _ ∧ _ ≤ 0x39) ∨
    _ = 0x2e) ∨ _ = 0x2d at h
  omega

/-- What may stand in a name is no space. -/
theorem isSpace_of_isKeyChar {u : UInt16} (h : isKeyChar u = true) : isSpace u = false := by
  have hrange := isKeyChar_range h
  rw [Bool.eq_false_iff]
  intro hspace
  rw [isSpace, Bool.or_eq_true, List.contains_iff_mem] at hspace
  rcases hspace with hmem | hwide
  · simp only [List.mem_cons, List.not_mem_nil, or_false] at hmem
    rcases hmem with rfl | rfl | rfl | rfl | rfl | rfl | rfl | rfl | rfl | rfl | rfl | rfl |
      rfl | rfl <;> revert hrange <;> decide
  · simp only [Bool.and_eq_true, decide_eq_true_eq, UInt16.le_iff_toNat_le] at hwide
    change 0x2000 ≤ _ ∧ _ at hwide
    omega

/-- A name before an equals sign. -/
theorem matchAssignment_append {key : JsText} (hkey : ∀ u ∈ key, isKeyChar u = true) {u : UInt16}
    (hu : isSpace u = false) (rest : JsText) : matchAssignment (key ++ 0x3d :: u :: rest) =
      if key.head?.any isKeyStart = true ∧ (u :: rest).all (!isLineTerminator ·) = true then
        some (key, u :: rest) else none := by
  have hequals : isKeyChar 0x3d = false ∧ isSpace 0x3d = false := by decide
  have hhead : (key ++ 0x3d :: u :: rest).head?.any isKeyStart = key.head?.any isKeyStart := by
    cases key with
    | nil => rfl
    | cons v key => rfl
  rw [matchAssignment, hhead]
  by_cases hstart : key.head?.any isKeyStart = true
  · rw [if_pos hstart, List.takeWhile_append_of_pos hkey, List.dropWhile_append_of_pos hkey]
    simp only [List.takeWhile_cons, List.dropWhile_cons, hequals, hu, Bool.false_eq_true, if_false,
      List.append_nil, true_and, hstart]
  · rw [if_neg hstart, if_neg fun h => hstart h.1]

/-- A name before an equals sign is not the keyword. -/
theorem matchExport_append {key : JsText} (hkey : ∀ u ∈ key, isKeyChar u = true) (rest : JsText) :
    matchExport (key ++ 0x3d :: rest) = none := by
  have hequals : (0x3d : UInt16) ∉ js "export" := by decide
  rw [matchExport, dropPrefix?]
  split
  · rename_i hprefix
    rw [List.isPrefixOf_iff_prefix] at hprefix
    have hshort : js "export" <+: key := by
      rcases List.prefix_or_prefix_of_prefix hprefix (List.prefix_append key _) with h | ⟨tail, htail⟩
      · exact h
      · rw [← htail, List.prefix_append_right_inj] at hprefix
        cases tail with
        | nil => exact ⟨[], by rw [List.append_nil, ← htail, List.append_nil]⟩
        | cons u tail =>
          obtain ⟨rfl, -⟩ := List.cons_prefix_cons.mp hprefix
          exact (hequals (by simp [← htail])).elim
    obtain ⟨tail, rfl⟩ := hshort
    have hspace : ((tail ++ 0x3d :: rest).head?.any isSpace) = false := by
      cases tail with
      | nil =>
        change isSpace 0x3d = false
        decide
      | cons u tail => exact isSpace_of_isKeyChar (hkey u (by simp))
    rw [List.append_assoc, List.drop_left, Option.bind_some, hspace]
    rfl
  · rfl

end Lines

end Nopass
