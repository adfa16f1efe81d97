import Mathlib.Data.List.Sort
import Nopass.Cli.SecretRefs

/-!
# Printing a `.env` file

`nopwd run --env-file` prints each variable as its name and the JSON text of its value.
The parser of `.env` files knows one escape, `\n`; of any other it keeps what follows the
backslash. So a line reads back exactly when its name is one that the parser takes and
the JSON text uses no escape but those of the newline, the quote and the backslash.
-/

namespace Nopass

open JsText

/-- A hexadecimal digit in lower case. -/
def hexUnit (n : Nat) : UInt16 := UInt16.ofNat (if n < 10 then 0x30 + n else 0x57 + n)

/-- `UnicodeEscape`. -/
def unicodeEscape (u : UInt16) : JsText :=
  [0x5c, 0x75, hexUnit (u.toNat / 0x1000), hexUnit (u.toNat / 0x100 % 0x10),
    hexUnit (u.toNat / 0x10 % 0x10), hexUnit (u.toNat % 0x10)]

/-- A code unit in a JSON text, where it is not half of a pair. -/
def quoteUnit (u : UInt16) : JsText :=
  if u = 0x08 then [0x5c, 0x62]
  else if u = 0x09 then [0x5c, 0x74]
  else if u = 0x0a then [0x5c, 0x6e]
  else if u = 0x0c then [0x5c, 0x66]
  else if u = 0x0d then [0x5c, 0x72]
  else if u = 0x22 ∨ u = 0x5c then [0x5c, u]
  else if u < 0x20 ∨ isSurrogate u then unicodeEscape u
  else [u]

/-- `QuoteJSONString` between the quotes. -/
def quoteBody : JsText → JsText
  | [] => []
  | [u] => quoteUnit u
  | u :: v :: rest =>
    if isLead u && isTrail v then u :: v :: quoteBody rest else quoteUnit u ++ quoteBody (v :: rest)

/-- `JSON.stringify` of a text. -/
def jsonStringify (text : JsText) : JsText := 0x22 :: (quoteBody text ++ [0x22])

/-- The array index that a key spells. -/
def arrayIndex? (key : JsText) : Option Nat :=
  let n := key.foldl (fun n u => n * 10 + (u.toNat - 0x30)) 0
  if key ≠ [] ∧ key.all isDigit ∧ (key.head? = some 0x30 → key = [0x30]) ∧ n < 2 ^ 32 - 1 then
    some n
  else none

/-- `Object.entries`: array indices first, in ascending order. -/
def objectEntries (vars : EnvVars) : List (JsText × JsText) :=
  ((vars.entries.filter fun e => (arrayIndex? e.1).isSome).insertionSort
      fun a b => (arrayIndex? a.1).getD 0 ≤ (arrayIndex? b.1).getD 0) ++
    vars.entries.filter fun e => (arrayIndex? e.1).isNone

/-- `Object.assign`. -/
def assign (target source : EnvVars) : EnvVars :=
  (objectEntries source).foldl (fun vars e => vars.set e.1 e.2) target

/-- `injected`: the variables of the selected items. -/
def injected (cases : CaseMapping) (selected : List VaultItemPlaintext) : EnvVars :=
  selected.foldl (fun vars item => assign vars (itemToEnvVars cases item)) .empty

/-- What `--env-file` prints for a variable. -/
def envLine (e : JsText × JsText) : JsText := e.1 ++ js "=" ++ jsonStringify e.2

/-- What `--env-file` prints. -/
def envFile (vars : EnvVars) : JsText := (objectEntries vars).flatMap fun e => envLine e ++ js "\n"

/-- A code unit whose JSON text reads back as itself. -/
def Kept (u : UInt16) : Prop := u = 0x0a ∨ 0x20 ≤ u ∧ u ≠ 0x2028 ∧ u ≠ 0x2029

/-- A variable whose line reads back: the name is one and does not start with a digit, and the
value has no control character but the newline, no line or paragraph separator and no half of a
pair alone. -/
structure Printable (e : JsText × JsText) : Prop where
  key : e.1.head?.any isKeyStart = true
  wellFormed : isWellFormed e.2 = true
  kept : ∀ u ∈ e.2, Kept u

section Quote

@[simp] theorem unescape_backslash (u : UInt16) (rest : JsText) :
    unescape (0x5c :: u :: rest) = (if u = 0x6e then 0x0a else u) :: unescape rest := by
  simp [unescape]

/-- A code unit other than a backslash is kept. -/
theorem unescape_cons {u : UInt16} (h : u ≠ 0x5c) (rest : JsText) :
    unescape (u :: rest) = u :: unescape rest := by
  cases rest with
  | nil => rfl
  | cons v rest => rw [unescape, if_neg h]

/-- A hexadecimal digit is a digit or a letter. -/
theorem hexUnit_ne {n : Nat} (h : n < 0x10) {u : UInt16}
    (hu : u.toNat < 0x30 ∨ 0x39 < u.toNat ∧ u.toNat < 0x61 ∨ 0x66 < u.toNat) : hexUnit n ≠ u := by
  rintro rfl
  rw [hexUnit, UInt16.toNat_ofNat'] at hu
  split at hu
  · omega
  · omega

/-- The digits of an escape. -/
theorem digits_lt (u : UInt16) : u.toNat / 0x1000 < 0x10 ∧ u.toNat / 0x100 % 0x10 < 0x10 ∧
    u.toNat / 0x10 % 0x10 < 0x10 ∧ u.toNat % 0x10 < 0x10 := by
  have hu := u.toNat_lt
  omega

/-- How a code unit is quoted: with a letter or itself behind a backslash, by its number, or not
at all. -/
theorem quoteUnit_cases (u : UInt16) :
    (∃ c, quoteUnit u = [0x5c, c] ∧ 0x20 ≤ c ∧ c < 0x7f ∧
      ((if c = 0x6e then 0x0a else c) = u ↔ isSurrogate u = false ∧ (u = 0x0a ∨ 0x20 ≤ u)) ∧
      u ≠ 0x2028 ∧ u ≠ 0x2029) ∨
    (quoteUnit u = unicodeEscape u ∧ ¬ (isSurrogate u = false ∧ (u = 0x0a ∨ 0x20 ≤ u)) ∧
      u ≠ 0x2028 ∧ u ≠ 0x2029) ∨
    (quoteUnit u = [u] ∧ 0x20 ≤ u ∧ u ≠ 0x22 ∧ u ≠ 0x5c ∧ isSurrogate u = false) := by
  by_cases hshort : u ∈ [0x08, 0x09, 0x0a, 0x0c, 0x0d, 0x22, 0x5c]
  · left
    simp only [List.mem_cons, List.not_mem_nil, or_false] at hshort
    rcases hshort with rfl | rfl | rfl | rfl | rfl | rfl | rfl
    · exact ⟨0x62, by decide⟩
    · exact ⟨0x74, by decide⟩
    · exact ⟨0x6e, by decide⟩
    · exact ⟨0x66, by decide⟩
    · exact ⟨0x72, by decide⟩
    · exact ⟨0x22, by decide⟩
    · exact ⟨0x5c, by decide⟩
  · simp only [List.mem_cons, List.not_mem_nil, or_false, not_or] at hshort
    right
    by_cases hescape : u < 0x20 ∨ isSurrogate u = true
    · left
      refine ⟨by simp [quoteUnit, hshort, hescape], ?_, ?_, ?_⟩
      · rintro ⟨hsurrogate, hlf | hlow⟩
        · exact hshort.2.2.1 hlf
        · rcases hescape with hcontrol | hpair
          · exact absurd hlow (UInt16.not_le.mpr hcontrol)
          · rw [hsurrogate] at hpair
            cases hpair
      · rintro rfl
        revert hescape
        decide
      · rintro rfl
        revert hescape
        decide
    · right
      have hplain := not_or.mp hescape
      refine ⟨by simp [quoteUnit, hshort, hescape], UInt16.not_lt.mp hplain.1, hshort.2.2.2.2.2.1,
        hshort.2.2.2.2.2.2, by simpa using hplain.2⟩

/-- An escape by number loses its backslash. -/
theorem unescape_unicodeEscape (u : UInt16) (rest : JsText) :
    unescape (unicodeEscape u ++ rest) = (unicodeEscape u).drop 1 ++ unescape rest := by
  have hne {n : Nat} (h : n < 0x10) : hexUnit n ≠ 0x5c := hexUnit_ne h (by decide)
  obtain ⟨h₁, h₂, h₃, h₄⟩ := digits_lt u
  simp only [unicodeEscape, List.cons_append, List.nil_append, List.drop_succ_cons, List.drop_zero,
    unescape_backslash, unescape_cons (hne h₁), unescape_cons (hne h₂), unescape_cons (hne h₃),
    unescape_cons (hne h₄)]
  rfl

/-- A quoted code unit is read as itself exactly when it is no control character but the newline
and no half of a pair. -/
theorem unescape_quoteUnit (u : UInt16) : ∃ read : JsText, read ≠ [] ∧
    (∀ rest, unescape (quoteUnit u ++ rest) = read ++ unescape rest) ∧
    (read = [u] ↔ isSurrogate u = false ∧ (u = 0x0a ∨ 0x20 ≤ u)) := by
  rcases quoteUnit_cases u with ⟨c, hquote, -, -, hread, -⟩ | ⟨hquote, hlost, -⟩ | ⟨hquote, hplain⟩
  · refine ⟨[if c = 0x6e then 0x0a else c], by simp, fun rest => ?_, ?_⟩
    · rw [hquote]
      exact unescape_backslash c rest
    · rw [List.cons.injEq, and_iff_left rfl]
      exact hread
  · refine ⟨(unicodeEscape u).drop 1, by simp [unicodeEscape], fun rest => ?_, ?_⟩
    · rw [hquote, unescape_unicodeEscape]
    · constructor
      · intro h
        cases h
      · exact fun h => (hlost h).elim
  · refine ⟨[u], by simp, fun rest => ?_, ?_⟩
    · rw [hquote]
      exact unescape_cons hplain.2.2.1 rest
    · exact ⟨fun _ => ⟨hplain.2.2.2, .inr hplain.1⟩, fun _ => rfl⟩

/-- Halves of a pair are far from ASCII. -/
theorem surrogate_ge {u : UInt16} (h : isSurrogate u = true) : 0xd800 ≤ u := by
  rw [isSurrogate, isLead, isTrail] at h
  simp only [Bool.or_eq_true, Bool.and_eq_true, decide_eq_true_eq, UInt16.le_iff_toNat_le] at h ⊢
  change 0xd800 ≤ _ ∧ _ ∨ 0xdc00 ≤ _ ∧ _ at h
  change 0xd800 ≤ _
  omega

/-- Code units far apart differ. -/
theorem ne_of_surrogate {u v : UInt16} (h : isSurrogate u = true) (hv : v < 0xd800 := by decide) :
    u ≠ v := by
  rintro rfl
  exact absurd (surrogate_ge h) (UInt16.not_le.mpr hv)

/-- The halves of a pair. -/
theorem surrogate_of_pair {u v : UInt16} (h : (isLead u && isTrail v) = true) :
    isSurrogate u = true ∧ isSurrogate v = true := by
  rw [Bool.and_eq_true] at h
  rw [isSurrogate, isSurrogate, h.1, h.2, Bool.or_true]
  exact ⟨rfl, rfl⟩

/-- A pair reads back. -/
theorem unescape_pair {u v : UInt16} (h : (isLead u && isTrail v) = true) (rest : JsText) :
    unescape (u :: v :: rest) = u :: v :: unescape rest := by
  obtain ⟨hu, hv⟩ := surrogate_of_pair h
  rw [unescape_cons (ne_of_surrogate hu), unescape_cons (ne_of_surrogate hv)]

/-- A quoted text reads back as at least as many code units. -/
theorem length_le_unescape (text : JsText) :
    text.length ≤ (unescape (quoteBody text)).length := by
  induction text using quoteBody.induct with
  | case1 => simp [quoteBody]
  | case2 u =>
    obtain ⟨read, hne, hread, -⟩ := unescape_quoteUnit u
    have hlength := List.length_pos_iff.mpr hne
    have h := hread []
    rw [List.append_nil] at h
    rw [quoteBody, h, List.length_append, List.length_singleton]
    omega
  | case3 u v rest hpair ih =>
    rw [quoteBody, if_pos hpair, unescape_pair hpair]
    simpa using ih
  | case4 u v rest hpair ih =>
    obtain ⟨read, hne, hread, -⟩ := unescape_quoteUnit u
    have hlength := List.length_pos_iff.mpr hne
    rw [quoteBody, if_neg hpair, hread, List.length_append, List.length_cons]
    omega

/-- A quoted code unit and what follows read back exactly when each does. -/
theorem unescape_quoteUnit_append_iff {u : UInt16} {rest quoted : JsText}
    (hlength : rest.length ≤ (unescape quoted).length) :
    unescape (quoteUnit u ++ quoted) = u :: rest ↔
      (isSurrogate u = false ∧ (u = 0x0a ∨ 0x20 ≤ u)) ∧ unescape quoted = rest := by
  obtain ⟨read, hne, hread, hsame⟩ := unescape_quoteUnit u
  rw [hread, ← hsame]
  constructor
  · intro h
    have hlengths := congrArg List.length h
    have hpos := List.length_pos_iff.mpr hne
    rw [List.length_append, List.length_cons] at hlengths
    have hone : read.length = 1 := by omega
    obtain ⟨v, rfl⟩ := List.length_eq_one_iff.mp hone
    obtain ⟨rfl, hrest⟩ := List.cons.inj h
    exact ⟨rfl, hrest⟩
  · rintro ⟨rfl, rfl⟩
    rfl

/-- A text reads back from its JSON text exactly when it has no control character but the newline
and no half of a pair alone. -/
theorem unescape_quoteBody_iff (text : JsText) : unescape (quoteBody text) = text ↔
    isWellFormed text = true ∧ ∀ u ∈ text, u = 0x0a ∨ 0x20 ≤ u := by
  induction text using quoteBody.induct with
  | case1 => simp [quoteBody, unescape, isWellFormed]
  | case2 u =>
    have h : unescape (quoteUnit u ++ []) = [u] ↔ _ := unescape_quoteUnit_append_iff le_rfl
    rw [List.append_nil] at h
    rw [quoteBody, h]
    simp [isWellFormed, unescape]
  | case3 u v rest hpair ih =>
    obtain ⟨hu, hv⟩ := surrogate_of_pair hpair
    have hlow {w : UInt16} (hw : isSurrogate w = true) : 0x20 ≤ w :=
      UInt16.le_trans (by decide) (surrogate_ge hw)
    rw [quoteBody, if_pos hpair, unescape_pair hpair, isWellFormed, if_pos hpair]
    simp [ih, hlow hu, hlow hv]
  | case4 u v rest hpair ih =>
    rw [quoteBody, if_neg hpair, unescape_quoteUnit_append_iff (length_le_unescape (v :: rest)), ih,
      isWellFormed, if_neg hpair]
    simp only [Bool.and_eq_true, Bool.not_eq_true', List.forall_mem_cons (a := u)]
    tauto

/-- A JSON text between its quotes. -/
inductive Quoted : JsText → Prop
  | nil : Quoted []
  | escape {c : UInt16} {rest : JsText} : 0x20 ≤ c → Quoted rest → Quoted (0x5c :: c :: rest)
  | plain {u : UInt16} {rest : JsText} :
      0x20 ≤ u → u ≠ 0x22 → u ≠ 0x5c → Quoted rest → Quoted (u :: rest)

/-- A quoted code unit comes before a JSON text. -/
theorem quoted_quoteUnit (u : UInt16) {rest : JsText} (h : Quoted rest) :
    Quoted (quoteUnit u ++ rest) := by
  rcases quoteUnit_cases u with ⟨c, hquote, hc, -⟩ | ⟨hquote, -⟩ | ⟨hquote, hplain⟩
  · rw [hquote]
    exact .escape hc h
  · have hdigit {n : Nat} (hn : n < 0x10) {rest : JsText} (h : Quoted rest) :
        Quoted (hexUnit n :: rest) := by
      refine .plain ?_ (hexUnit_ne hn (by decide)) (hexUnit_ne hn (by decide)) h
      rw [hexUnit, UInt16.le_iff_toNat_le, UInt16.toNat_ofNat']
      change 0x20 ≤ _
      split
      · omega
      · omega
    obtain ⟨h₁, h₂, h₃, h₄⟩ := digits_lt u
    rw [hquote]
    exact .escape (by decide) (hdigit h₁ (hdigit h₂ (hdigit h₃ (hdigit h₄ h))))
  · rw [hquote]
    exact .plain hplain.1 hplain.2.1 hplain.2.2.1 h

/-- Every text is quoted properly. -/
theorem quoted_quoteBody (text : JsText) : Quoted (quoteBody text) := by
  induction text using quoteBody.induct with
  | case1 => exact .nil
  | case2 u =>
    have h := quoted_quoteUnit u .nil
    rwa [List.append_nil] at h
  | case3 u v rest hpair ih =>
    obtain ⟨hu, hv⟩ := surrogate_of_pair hpair
    have hlow {w : UInt16} (hw : isSurrogate w = true) : 0x20 ≤ w :=
      UInt16.le_trans (by decide) (surrogate_ge hw)
    rw [quoteBody, if_pos hpair]
    exact .plain (hlow hu) (ne_of_surrogate hu) (ne_of_surrogate hu)
      (.plain (hlow hv) (ne_of_surrogate hv) (ne_of_surrogate hv) ih)
  | case4 u v rest hpair ih =>
    rw [quoteBody, if_neg hpair]
    exact quoted_quoteUnit u ih

/-- The closing quote is found. -/
theorem quotedBody_append {text : JsText} (h : Quoted text) (rest : JsText) :
    quotedBody (text ++ 0x22 :: rest) = some (text, rest) := by
  induction h with
  | nil => cases rest with
    | nil => rfl
    | cons v rest => rfl
  | escape _ _ ih => simp [quotedBody, ih]
  | plain _ hquote hbackslash hrest ih =>
    rename_i u text _
    have hcons : ∀ tail, quotedBody (u :: (text ++ 0x22 :: tail)) =
        (quotedBody (text ++ 0x22 :: tail)).map fun found => (u :: found.1, found.2) := by
      intro tail
      cases htext : text ++ 0x22 :: tail with
      | nil => simp at htext
      | cons v rest => rw [quotedBody, if_neg hquote, if_neg hbackslash]
    rw [List.cons_append, hcons, ih]
    rfl

/-- No control character is left in a JSON text. -/
theorem ge_of_mem_quoted {text : JsText} (h : Quoted text) : ∀ u ∈ text, 0x20 ≤ u := by
  induction h with
  | nil => simp
  | escape hc _ ih => simpa [hc] using ih
  | plain hu _ _ _ ih => simpa [hu] using ih

/-- The two separators are left as they are. -/
theorem mem_quoteBody_iff {text : JsText} {u : UInt16} (hu : u = 0x2028 ∨ u = 0x2029) :
    u ∈ quoteBody text ↔ u ∈ text := by
  have hunit (v : UInt16) : u ∈ quoteUnit v ↔ u = v := by
    rcases quoteUnit_cases v with ⟨c, hquote, -, hc, -, hne⟩ | ⟨hquote, -, hne⟩ | ⟨hquote, -⟩
    · have hbackslash : u ≠ 0x5c := by
        rcases hu with rfl | rfl <;> decide
      have hshort : u ≠ c := by
        rintro rfl
        rcases hu with rfl | rfl
        · revert hc
          decide
        · revert hc
          decide
      have hsame : u ≠ v := by
        rintro rfl
        exact hu.elim hne.1 hne.2
      simp [hquote, hbackslash, hshort, hsame]
    · have hdigit {n : Nat} (hn : n < 0x10) : u ≠ hexUnit n := by
        rcases hu with rfl | rfl
        · exact (hexUnit_ne hn (by decide)).symm
        · exact (hexUnit_ne hn (by decide)).symm
      have hstart : u ≠ 0x5c ∧ u ≠ 0x75 := by
        rcases hu with rfl | rfl <;> decide
      have hsame : u ≠ v := by
        rintro rfl
        exact hu.elim hne.1 hne.2
      obtain ⟨h₁, h₂, h₃, h₄⟩ := digits_lt v
      simp [hquote, unicodeEscape, hstart, hdigit h₁, hdigit h₂, hdigit h₃, hdigit h₄, hsame]
    · rw [hquote, List.mem_singleton]
  induction text using quoteBody.induct with
  | case1 => simp [quoteBody]
  | case2 v => rw [quoteBody, hunit, List.mem_singleton]
  | case3 v w rest hpair ih => simp [quoteBody, hpair, ih]
  | case4 v w rest hpair ih =>
    have hmem : u ∈ quoteBody (v :: w :: rest) ↔ u = v ∨ u ∈ quoteBody (w :: rest) := by
      rw [quoteBody, if_neg hpair, List.mem_append, hunit]
    exact hmem.trans ((or_congr_right ih).trans List.mem_cons.symm)

end Quote

section Keys

/-- A name made of what `toEnvKey` leaves. -/
def IsEnvKey (key : JsText) : Prop := ∀ u ∈ key, isEnvKeyChar u = true ∨ u = 0x5f

/-- Such a code unit may stand in a name. -/
theorem isKeyChar_of_envKey {u : UInt16} (h : isEnvKeyChar u = true ∨ u = 0x5f) :
    isKeyChar u = true := by
  rcases h with h | rfl
  · rw [isEnvKeyChar, Bool.or_eq_true] at h
    rw [isKeyChar, isKeyStart]
    rcases h with h | h
    · simp [h]
    · simp [h]
  · decide

/-- `toEnvKey` leaves a name. -/
theorem isEnvKey_toEnvKey (cases : CaseMapping) (name : JsText) :
    IsEnvKey (toEnvKey cases name) := by
  intro u hu
  obtain ⟨v, -, rfl⟩ := List.mem_map.mp hu
  split
  · rename_i h
    exact .inl h
  · exact .inr rfl

/-- Names one after the other are a name. -/
theorem IsEnvKey.append {a b : JsText} (ha : IsEnvKey a) (hb : IsEnvKey b) :
    IsEnvKey (a ++ b) := by
  intro u hu
  rcases List.mem_append.mp hu with hu | hu
  · exact ha u hu
  · exact hb u hu

/-- All the variables are under names. -/
def AllNamed (vars : EnvVars) : Prop := ∀ key ∈ vars.keys, IsEnvKey key

theorem AllNamed.set {vars : EnvVars} (h : AllNamed vars) {key : JsText} (hkey : IsEnvKey key)
    (value : JsText) : AllNamed (vars.set key value) := by
  intro k hk
  rw [OrderedMap.keys_set] at hk
  split at hk
  · exact h k hk
  · rcases List.mem_append.mp hk with hk | hk
    · exact h k hk
    · exact List.mem_singleton.mp hk ▸ hkey

theorem AllNamed.setIfTruthy {vars : EnvVars} (h : AllNamed vars) {key : JsText}
    (hkey : IsEnvKey key) (value : JsText) : AllNamed (setIfTruthy vars key value) := by
  rw [Nopass.setIfTruthy]
  split
  · exact h
  · exact h.set hkey value

theorem allNamed_empty : AllNamed OrderedMap.empty := by
  intro key hkey
  cases hkey

/-- An item's variables are under names. -/
theorem allNamed_itemToEnvVars (cases : CaseMapping) (item : VaultItemPlaintext) :
    AllNamed (itemToEnvVars cases item) := by
  have hkey := isEnvKey_toEnvKey cases item.name
  have hsuffix {suffix : JsText} (hs : IsEnvKey suffix) := hkey.append hs
  have hconst {suffix : JsText} (h : suffix.all (fun u => isEnvKeyChar u || decide (u = 0x5f)) =
      true) : IsEnvKey suffix := by
    intro u hu
    simpa using List.all_eq_true.mp h u hu
  cases item with
  | login item =>
    have hfields : ∀ (fields : List CustomField) (vars : EnvVars), AllNamed vars →
        AllNamed (fields.foldl (fun vars field => Nopass.setIfTruthy vars
          (toEnvKey cases item.name ++ js "_" ++ toEnvKey cases field.name) field.value) vars) := by
      intro fields
      induction fields with
      | nil => exact fun vars h => h
      | cons field fields ih =>
        intro vars h
        have hname := (hsuffix (hconst (by decide : (js "_").all _ = true))).append
          (isEnvKey_toEnvKey cases field.name)
        exact ih _ (h.setIfTruthy hname field.value)
    exact hfields _ _ (((allNamed_empty.setIfTruthy hkey _).setIfTruthy
      (hsuffix (hconst (by decide))) _).setIfTruthy (hsuffix (hconst (by decide))) _)
  | note name content => exact allNamed_empty.set hkey content
  | card name => exact allNamed_empty
  | identity name => exact allNamed_empty
  | sshKey name privateKey publicKey =>
    exact (allNamed_empty.setIfTruthy (hsuffix (hconst (by decide))) _).set
      (hsuffix (hconst (by decide))) privateKey

/-- `Object.entries` gives the entries. -/
theorem mem_objectEntries {vars : EnvVars} {e : JsText × JsText} :
    e ∈ objectEntries vars ↔ e ∈ vars.entries := by
  rw [objectEntries, List.mem_append, List.mem_insertionSort, List.mem_filter, List.mem_filter]
  cases arrayIndex? e.1 with
  | none => simp
  | some n => simp

/-- The variables that are printed are under names. -/
theorem allNamed_injected (cases : CaseMapping) (selected : List VaultItemPlaintext) :
    AllNamed (injected cases selected) := by
  have hassign : ∀ (entries : List (JsText × JsText)) (vars : EnvVars),
      (∀ e ∈ entries, IsEnvKey e.1) → AllNamed vars →
      AllNamed (entries.foldl (fun vars e => vars.set e.1 e.2) vars) := by
    intro entries
    induction entries with
    | nil => exact fun vars _ h => h
    | cons e entries ih =>
      intro vars hentries h
      rw [List.forall_mem_cons] at hentries
      exact ih _ hentries.2 (h.set hentries.1 e.2)
  have hitems : ∀ (items : List VaultItemPlaintext) (vars : EnvVars), AllNamed vars →
      AllNamed (items.foldl (fun vars item => assign vars (itemToEnvVars cases item)) vars) := by
    intro items
    induction items with
    | nil => exact fun vars h => h
    | cons item items ih =>
      intro vars h
      refine ih _ (hassign _ _ (fun e he => ?_) h)
      exact allNamed_itemToEnvVars cases item e.1 (List.mem_map_of_mem (mem_objectEntries.mp he))
  exact hitems selected _ allNamed_empty

end Keys

section Lines

variable {e : JsText × JsText}

/-- A printed line without the constants of the source. -/
theorem envLine_eq (e : JsText × JsText) :
    envLine e = e.1 ++ 0x3d :: 0x22 :: (quoteBody e.2 ++ [0x22]) := by
  have hequals : js "=" = [0x3d] := by decide
  rw [envLine, hequals, jsonStringify, List.append_assoc]
  rfl

/-- A printed line has a line terminator exactly when its value has a separator. -/
theorem noTerminator_iff (text : JsText) :
    (0x22 :: (quoteBody text ++ [0x22])).all (!isLineTerminator ·) = true ↔
      (0x2028 : UInt16) ∉ text ∧ (0x2029 : UInt16) ∉ text := by
  have hmem : (0x22 :: (quoteBody text ++ [0x22])).all (!isLineTerminator ·) = true ↔
      ∀ u ∈ quoteBody text, isLineTerminator u = false := by
    simp only [List.all_cons, List.all_append, List.all_nil, Bool.and_true]
    have hquote : (!isLineTerminator 0x22) = true := by decide
    rw [hquote, Bool.true_and, Bool.and_true, List.all_eq_true]
    simp only [Bool.not_eq_true']
  rw [hmem]
  constructor
  · intro h
    constructor
    · intro hu
      exact absurd (h _ ((mem_quoteBody_iff (.inl rfl)).mpr hu)) (by decide)
    · intro hu
      exact absurd (h _ ((mem_quoteBody_iff (.inr rfl)).mpr hu)) (by decide)
  · intro h u hu
    have hlow := ge_of_mem_quoted (quoted_quoteBody text) u hu
    rw [Bool.eq_false_iff, isLineTerminator]
    intro hterminator
    rw [List.contains_iff_mem] at hterminator
    simp only [List.mem_cons, List.not_mem_nil, or_false] at hterminator
    rcases hterminator with rfl | rfl | rfl | rfl
    · exact absurd hlow (by decide)
    · exact absurd hlow (by decide)
    · exact h.1 ((mem_quoteBody_iff (.inl rfl)).mp hu)
    · exact h.2 ((mem_quoteBody_iff (.inr rfl)).mp hu)

/-- The parser's entry for a printed line. -/
theorem dotenvEntry_envLine (hkey : IsEnvKey e.1) (number : Nat) :
    dotenvEntry (envLine e) number =
      if e.1.head?.any isKeyStart = true ∧ (0x2028 : UInt16) ∉ e.2 ∧ (0x2029 : UInt16) ∉ e.2 then
        some { key := e.1, value := unescape (quoteBody e.2), line := number } else none := by
  have hchars : ∀ u ∈ e.1, isKeyChar u = true := fun u hu => isKeyChar_of_envKey (hkey u hu)
  have hdrop : (envLine e).dropWhile isSpace = envLine e := by
    rw [envLine_eq]
    cases hname : e.1 with
    | nil => rfl
    | cons u key =>
      have hu := isSpace_of_isKeyChar (hchars u (by simp [hname]))
      rw [List.cons_append, List.dropWhile_cons, hu]
      rfl
  have hexport : matchExport (envLine e) = none := by
    rw [envLine_eq]
    exact matchExport_append hchars _
  have hassign : matchAssignment (envLine e) =
      if e.1.head?.any isKeyStart = true ∧ (0x2028 : UInt16) ∉ e.2 ∧ (0x2029 : UInt16) ∉ e.2 then
        some (e.1, jsonStringify e.2) else none := by
    rw [envLine_eq, matchAssignment_append hchars (by decide), jsonStringify]
    simp only [noTerminator_iff]
  have htrim : trimEnd (jsonStringify e.2) = jsonStringify e.2 := by
    have hquote : ¬ isSpace 0x22 = true := by decide
    rw [trimEnd, jsonStringify, ← List.cons_append, List.rdropWhile_concat_neg _ _ _ hquote]
  rw [dotenvEntry, parseDotenvLine, dotenvLine]
  simp only [hdrop, hexport, Option.bind_none, hassign]
  split
  · simp only [Option.map_some, htrim]
    rw [jsonStringify]
    simp only [quotedBody_append (quoted_quoteBody e.2), Option.bind_some, Bool.false_eq_true,
      if_false]
  · rfl

/-- A printed line is one line. -/
theorem lf_not_mem_envLine (hkey : IsEnvKey e.1) : (0x0a : UInt16) ∉ envLine e := by
  have hquoted := ge_of_mem_quoted (quoted_quoteBody e.2)
  rw [envLine_eq]
  simp only [List.mem_append, List.mem_cons, List.not_mem_nil, or_false, not_or]
  refine ⟨fun h => ?_, by decide, by decide, fun h => absurd (hquoted _ h) (by decide), by decide⟩
  exact absurd (hkey _ h) (by decide)

/-- Printed lines are split where they were put together. -/
theorem splitLines_printed (entries : List (JsText × JsText)) (h : ∀ e ∈ entries, IsEnvKey e.1) :
    splitLines (entries.flatMap fun e => envLine e ++ js "\n") =
      entries.map (fun e => (envLine e, [0x0a])) ++ [([], [])] := by
  have hlf : js "\n" = [0x0a] := by decide
  induction entries with
  | nil => rfl
  | cons e entries ih =>
    rw [List.forall_mem_cons] at h
    have hends : Lines.Ends 0x0d 0x0a (envLine e, ([0x0a] : JsText)) := by
      left
      refine ⟨rfl, ?_⟩
      have hlast : envLine e = e.1 ++ 0x3d :: 0x22 :: quoteBody e.2 ++ [0x22] := by
        simp [envLine_eq]
      rw [hlast, List.getLast?_concat]
      decide
    have hsplit := Lines.split_append (by decide) (lf_not_mem_envLine h.1) hends
    rw [splitLines] at ih ⊢
    rw [List.flatMap_cons, hlf, hsplit, ← hlf, ih h.2]
    rfl

/-- The names and values that the parser finds, whatever the line numbers. -/
theorem map_parseDotenv (content : JsText) :
    (parseDotenv content).map (fun entry => (entry.key, entry.value)) =
      (splitLines content).filterMap fun line =>
        (dotenvEntry line.1 0).map fun entry => (entry.key, entry.value) := by
  have hnumber (line : JsText) (n : Nat) : (dotenvEntry line n).map (fun entry => (entry.key,
      entry.value)) = (dotenvEntry line 0).map fun entry => (entry.key, entry.value) := by
    rw [dotenvEntry, dotenvEntry]
    cases parseDotenvLine line with
    | none => rfl
    | some parsed =>
      rw [Option.bind_some, Option.bind_some]
      cases parsed.unterminatedQuote with
      | true => rfl
      | false => rfl
  rw [parseDotenv, List.map_filterMap]
  have hfst : (fun line : (JsText × JsText) × Nat =>
        (dotenvEntry line.1.1 (line.2 + 1)).map fun entry => (entry.key, entry.value)) =
      (fun line : JsText × JsText => (dotenvEntry line.1 0).map fun entry =>
        (entry.key, entry.value)) ∘ Prod.fst := by
    funext line
    exact hnumber line.1.1 (line.2 + 1)
  have hlines := List.filterMap_map (f := Prod.fst) (l := (splitLines content).zipIdx)
    (g := fun line : JsText × JsText => (dotenvEntry line.1 0).map fun entry =>
      (entry.key, entry.value))
  rw [List.zipIdx_map_fst, ← hfst] at hlines
  exact hlines.symm

/-- A printed line gives its variable back exactly when it is printable. -/
theorem entry_eq_iff (hkey : IsEnvKey e.1) :
    ((dotenvEntry (envLine e) 0).map fun entry => (entry.key, entry.value)) = some e ↔
      Printable e := by
  rw [dotenvEntry_envLine hkey]
  have hvalue := unescape_quoteBody_iff e.2
  constructor
  · intro h
    split at h
    · rename_i hline
      have hsame := (Prod.ext_iff.mp (Option.some.inj h)).2
      obtain ⟨hwell, hkept⟩ := hvalue.mp hsame
      refine ⟨hline.1, hwell, fun u hu => ?_⟩
      rcases hkept u hu with hlf | hlow
      · exact .inl hlf
      · exact .inr ⟨hlow, fun h => hline.2.1 (h ▸ hu), fun h => hline.2.2 (h ▸ hu)⟩
    · cases h
  · intro h
    have hseparators : ∀ u ∈ e.2, u ≠ 0x2028 ∧ u ≠ 0x2029 := by
      intro u hu
      rcases h.kept u hu with rfl | ⟨-, hseparators⟩
      · decide
      · exact hseparators
    have hline : (0x2028 : UInt16) ∉ e.2 ∧ (0x2029 : UInt16) ∉ e.2 :=
      ⟨fun hu => (hseparators _ hu).1 rfl, fun hu => (hseparators _ hu).2 rfl⟩
    have hkept : ∀ u ∈ e.2, u = 0x0a ∨ 0x20 ≤ u := fun u hu => (h.kept u hu).imp_right And.left
    rw [if_pos ⟨h.key, hline⟩, Option.map_some, hvalue.mpr ⟨h.wellFormed, hkept⟩]

/-- A list is what a partial function makes of it exactly when that keeps every element. -/
theorem filterMap_eq_self_iff {α : Type} {f : α → Option α} {l : List α} :
    l.filterMap f = l ↔ ∀ x ∈ l, f x = some x := by
  induction l with
  | nil => simp
  | cons x l ih =>
    rw [List.forall_mem_cons, List.filterMap_cons]
    cases hf : f x with
    | none =>
      simp only [reduceCtorEq, false_and, iff_false]
      intro h
      have hlength := List.length_filterMap_le f l
      rw [h, List.length_cons] at hlength
      omega
    | some y =>
      rw [List.cons.injEq, ih, Option.some_inj]

end Lines

/-- The printed lines give exactly the variables back. -/
def ReadsBack (vars : EnvVars) : Prop :=
  (parseDotenv (envFile vars)).map (fun entry => (entry.key, entry.value)) = objectEntries vars

/-- What `--env-file` prints for any selection of items reads back exactly when each variable is
printable. -/
theorem readsBack_iff (cases : CaseMapping) (selected : List VaultItemPlaintext) :
    ReadsBack (injected cases selected) ↔
      ∀ e ∈ (injected cases selected).entries, Printable e := by
  have hkeys : ∀ e ∈ objectEntries (injected cases selected), IsEnvKey e.1 := by
    intro e he
    exact allNamed_injected cases selected e.1 (List.mem_map_of_mem (mem_objectEntries.mp he))
  have hempty : (dotenvEntry [] 0).map (fun entry => (entry.key, entry.value)) = none := rfl
  have hparse : (parseDotenv (envFile (injected cases selected))).map
      (fun entry => (entry.key, entry.value)) =
        (objectEntries (injected cases selected)).filterMap fun e =>
          (dotenvEntry (envLine e) 0).map fun entry => (entry.key, entry.value) := by
    rw [map_parseDotenv, envFile, splitLines_printed _ hkeys, List.filterMap_append,
      List.filterMap_map]
    simp only [List.filterMap_cons, hempty, List.filterMap_nil, List.append_nil]
    rfl
  rw [ReadsBack, hparse, filterMap_eq_self_iff]
  constructor
  · intro h e he
    have hmem := mem_objectEntries.mpr he
    exact (entry_eq_iff (hkeys e hmem)).mp (h e hmem)
  · intro h e he
    exact (entry_eq_iff (hkeys e he)).mpr (h e (mem_objectEntries.mp he))

/-- A password with a tab in it comes back with the letter `t`. -/
theorem not_readsBack_tab : ¬ ∀ (cases : CaseMapping) (selected : List VaultItemPlaintext),
    ReadsBack (injected cases selected) := by
  intro h
  have htab := h .ascii [.login
    { name := js "db", username := [], password := js "a\tb", customFields := [] }]
  revert htab
  rw [ReadsBack]
  decide

end Nopass
