import Nopass.Core.Text.Base64
import Nopass.Core.Text.Utf8

/-!
# Texts in URLs

A URL without an origin has a path, a query and a fragment. The query form lists names with
values: parts between `&`, each split at its first `=`, with `+` for a space and escapes of
two hexadecimal digits. A base64 text without its padding stands in a URL as it is.
-/

open JsText

/-- The parts of a URL after its origin, `search` and `hash` with the character that they begin
with, or empty. -/
structure UrlParts where
  pathname : JsText
  search : JsText
  hash : JsText
  deriving DecidableEq, Repr

namespace UrlParts

/-- `?` -/
def question : UInt16 := 0x3f

/-- `#` -/
def number : UInt16 := 0x23

/-- A part that is its first character alone is empty. -/
def trimBare (part : JsText) : JsText := if part.length ≤ 1 then [] else part

/-- The parts of a text that needs no encoding. -/
def ofText (text : JsText) : UrlParts where
  pathname := (text.takeWhile fun u => u ≠ number).takeWhile fun u => u ≠ question
  search := trimBare ((text.takeWhile fun u => u ≠ number).dropWhile fun u => u ≠ question)
  hash := trimBare (text.dropWhile fun u => u ≠ number)

/-- A path with a fragment. -/
theorem ofText_append {path fragment : JsText} (hpath : ∀ u ∈ path, u ≠ number ∧ u ≠ question)
    (hfragment : fragment ≠ []) : ofText (path ++ number :: fragment) =
      { pathname := path, search := [], hash := number :: fragment } := by
  have hnumber : ∀ u ∈ path, decide (u ≠ number) = true := by
    intro u hu
    exact decide_eq_true (hpath u hu).1
  have hquestion : ∀ u ∈ path, decide (u ≠ question) = true := by
    intro u hu
    exact decide_eq_true (hpath u hu).2
  have htake : (path ++ number :: fragment).takeWhile (fun u => u ≠ number) = path := by
    rw [List.takeWhile_append_of_pos hnumber, List.takeWhile_cons_of_neg (by simp),
      List.append_nil]
  have hdrop : (path ++ number :: fragment).dropWhile (fun u => u ≠ number) =
      number :: fragment := by
    rw [List.dropWhile_append_of_pos hnumber, List.dropWhile_cons_of_neg (by simp)]
  have hpathname : path.takeWhile (fun u => u ≠ question) = path :=
    List.takeWhile_eq_self_iff.mpr hquestion
  have hsearch : path.dropWhile (fun u => u ≠ question) = [] :=
    List.dropWhile_eq_nil_iff.mpr hquestion
  have hlong : ¬ (number :: fragment).length ≤ 1 := by
    rw [List.length_cons]
    have hpos := List.length_pos_iff.mpr hfragment
    omega
  rw [ofText, htake, hdrop, hpathname, hsearch, trimBare, trimBare, if_neg hlong]
  rfl

/-- A path alone. -/
theorem ofText_path {path : JsText} (hpath : ∀ u ∈ path, u ≠ number ∧ u ≠ question) :
    ofText path = { pathname := path, search := [], hash := [] } := by
  have htake : path.takeWhile (fun u => u ≠ number) = path :=
    List.takeWhile_eq_self_iff.mpr fun u hu => decide_eq_true (hpath u hu).1
  have hdrop : path.dropWhile (fun u => u ≠ number) = [] :=
    List.dropWhile_eq_nil_iff.mpr fun u hu => decide_eq_true (hpath u hu).1
  have hpathname : path.takeWhile (fun u => u ≠ question) = path :=
    List.takeWhile_eq_self_iff.mpr fun u hu => decide_eq_true (hpath u hu).2
  have hsearch : path.dropWhile (fun u => u ≠ question) = [] :=
    List.dropWhile_eq_nil_iff.mpr fun u hu => decide_eq_true (hpath u hu).2
  rw [ofText, htake, hdrop, hpathname, hsearch]
  rfl

/-- What stands before the first `#` has no fragment. -/
theorem hash_ofText {text : JsText} (h : number ∉ text) : (ofText text).hash = [] := by
  have hdrop : text.dropWhile (fun u => u ≠ number) = [] := by
    rw [List.dropWhile_eq_nil_iff]
    intro u hu
    exact decide_eq_true fun heq => h (heq ▸ hu)
  rw [ofText]
  simp only [hdrop]
  rfl

/-- A URL without a fragment is the path and the query that were read. -/
theorem number_notMem (text : JsText) :
    number ∉ (ofText text).pathname ++ (ofText text).search := by
  have htake : number ∉ text.takeWhile fun u => u ≠ number := by
    intro hmem
    have hu := List.mem_takeWhile_imp hmem
    simp at hu
  intro hmem
  rcases List.mem_append.mp hmem with hmem | hmem
  · exact htake ((List.takeWhile_sublist _).subset hmem)
  · have hsearch : number ∈
        (text.takeWhile fun u => u ≠ number).dropWhile fun u => u ≠ question := by
      simp only [ofText, trimBare] at hmem
      split at hmem
      · cases hmem
      · exact hmem
    exact htake ((List.dropWhile_sublist _).subset hsearch)

end UrlParts

namespace SearchParams

/-- `&` -/
def ampersand : UInt8 := 0x26

/-- `=` -/
def equals : UInt8 := 0x3d

/-- `%` -/
def percent : UInt8 := 0x25

/-- `+` -/
def plus : UInt8 := 0x2b

/-- A hexadecimal digit. -/
def hexValue (b : UInt8) : Option UInt8 :=
  if 0x30 ≤ b ∧ b ≤ 0x39 then some (b - 0x30)
  else if 0x41 ≤ b ∧ b ≤ 0x46 then some (b - 0x37)
  else if 0x61 ≤ b ∧ b ≤ 0x66 then some (b - 0x57)
  else none

/-- The bytes with their escapes resolved; what is no escape stays. -/
def percentDecode : List UInt8 → List UInt8
  | a :: b :: c :: rest =>
    if a = percent then
      match hexValue b, hexValue c with
      | some x, some y => (x * 16 + y) :: percentDecode rest
      | _, _ => a :: percentDecode (b :: c :: rest)
    else a :: percentDecode (b :: c :: rest)
  | short => short

/-- A name or a value. -/
def decodePart (bytes : List UInt8) : JsText :=
  decodeUtf8 (percentDecode (bytes.map fun b => if b = plus then 0x20 else b))

/-- A name with its value. -/
def parsePair (part : List UInt8) : JsText × JsText :=
  (decodePart (part.takeWhile fun b => b ≠ equals),
    decodePart ((part.dropWhile fun b => b ≠ equals).drop 1))

/-- `new URLSearchParams(init)`. -/
def ofText (init : JsText) : List (JsText × JsText) :=
  let query := if init.head? = some UrlParts.question then init.drop 1 else init
  (((encodeUtf8 query).splitOn ampersand).filter fun part => !part.isEmpty).map parsePair

/-- `get`. -/
def get (params : List (JsText × JsText)) (name : JsText) : Option JsText :=
  (params.find? fun pair => pair.1 = name).map (·.2)

/-- A character that stands for itself in a query. -/
def Plain (u : UInt16) : Prop :=
  u.toNat < 0x80 ∧ u.toNat ≠ 0x26 ∧ u.toNat ≠ 0x3d ∧ u.toNat ≠ 0x25 ∧ u.toNat ≠ 0x2b ∧
    u.toNat ≠ 0x3f

/-- A code unit of ASCII is no half of a pair. -/
theorem isSurrogate_of_ascii {u : UInt16} (h : u.toNat < 0x80) : isSurrogate u = false := by
  rw [Bool.eq_false_iff, ne_eq, isSurrogate_iff]
  omega

/-- ASCII is encoded by itself. -/
theorem encodeUtf8_cons_ascii {u : UInt16} (h : u.toNat < 0x80) (rest : JsText) :
    encodeUtf8 (u :: rest) = UInt8.ofNat u.toNat :: encodeUtf8 rest := by
  have hvalid : u.toNat.isValidChar := .inl (by omega)
  have hchar : String.utf8EncodeChar (Char.ofNat u.toNat) = [UInt8.ofNat u.toNat] := by
    have hval : (Char.ofNat u.toNat).val.toNat = u.toNat := toNat_ofNat hvalid
    rw [String.utf8EncodeChar, hval, if_pos (by omega)]
  rw [encodeUtf8, toScalars_cons (isSurrogate_of_ascii h), utf8Chars, List.flatMap_cons, hchar]
  rfl

/-- ASCII is encoded unit by unit. -/
theorem encodeUtf8_ascii {text : JsText} (h : ∀ u ∈ text, u.toNat < 0x80) (rest : JsText) :
    encodeUtf8 (text ++ rest) = text.map (fun u => UInt8.ofNat u.toNat) ++ encodeUtf8 rest := by
  induction text with
  | nil => rfl
  | cons u tail ih =>
    rw [List.cons_append, encodeUtf8_cons_ascii (h u List.mem_cons_self),
      ih fun v hv => h v (List.mem_cons_of_mem u hv)]
    rfl

/-- ASCII has no half of a pair. -/
theorem toWellFormed_ascii {text : JsText} (h : ∀ u ∈ text, u.toNat < 0x80) :
    toWellFormed text = text := by
  induction text with
  | nil => rfl
  | cons u tail ih =>
    rw [toWellFormed_cons (isSurrogate_of_ascii (h u List.mem_cons_self)),
      ih fun v hv => h v (List.mem_cons_of_mem u hv)]

/-- Bytes without escapes stay. -/
theorem percentDecode_eq {bytes : List UInt8} (h : percent ∉ bytes) :
    percentDecode bytes = bytes := by
  induction bytes using percentDecode.induct with
  | case1 b c rest x y hb hc ih => exact absurd List.mem_cons_self h
  | case2 b c rest hno ih => exact absurd List.mem_cons_self h
  | case3 a b c rest hne ih =>
    rw [percentDecode, if_neg hne, ih fun hmem => h (List.mem_cons_of_mem a hmem)]
  | case4 short hshort =>
    rw [percentDecode]
    exact hshort

/-- Plain texts as bytes. -/
theorem mem_plainBytes {text : JsText} (h : ∀ u ∈ text, Plain u) {b : UInt8}
    (hb : b ∈ text.map fun u => UInt8.ofNat u.toNat) :
    b ≠ ampersand ∧ b ≠ equals ∧ b ≠ percent ∧ b ≠ plus := by
  obtain ⟨u, hu, rfl⟩ := List.mem_map.mp hb
  obtain ⟨hascii, hampersand, hequals, hpercent, hplus, -⟩ := h u hu
  have hnat : (UInt8.ofNat u.toNat).toNat = u.toNat := by
    rw [UInt8.toNat_ofNat', Nat.mod_eq_of_lt (by omega)]
  refine ⟨?_, ?_, ?_, ?_⟩
  · intro heq
    exact hampersand (hnat.symm.trans (congrArg UInt8.toNat heq))
  · intro heq
    exact hequals (hnat.symm.trans (congrArg UInt8.toNat heq))
  · intro heq
    exact hpercent (hnat.symm.trans (congrArg UInt8.toNat heq))
  · intro heq
    exact hplus (hnat.symm.trans (congrArg UInt8.toNat heq))

/-- A plain text is read back. -/
theorem decodePart_plain {text : JsText} (h : ∀ u ∈ text, Plain u) :
    decodePart (text.map fun u => UInt8.ofNat u.toNat) = text := by
  have hascii : ∀ u ∈ text, u.toNat < 0x80 := fun u hu => (h u hu).1
  have hplus : (text.map fun u => UInt8.ofNat u.toNat).map (fun b => if b = plus then 0x20 else b) =
      text.map fun u => UInt8.ofNat u.toNat := by
    rw [List.map_congr_left fun b hb => if_neg (mem_plainBytes h hb).2.2.2, List.map_id']
  have hpercent : percent ∉ text.map fun u => UInt8.ofNat u.toNat := by
    intro hmem
    exact (mem_plainBytes h hmem).2.2.1 rfl
  have hencode := encodeUtf8_ascii hascii []
  rw [List.append_nil, show encodeUtf8 ([] : JsText) = [] from rfl, List.append_nil] at hencode
  rw [decodePart, hplus, percentDecode_eq hpercent, ← hencode, decodeUtf8_encodeUtf8,
    toWellFormed_ascii hascii]

/-- The value of the only name of a query. -/
theorem get_append {name value : JsText} (hname : ∀ u ∈ name, Plain u)
    (hvalue : ∀ u ∈ value, Plain u) :
    get (ofText (name ++ 0x3d :: value)) name = some value := by
  have hbytes : encodeUtf8 (name ++ 0x3d :: value) =
      name.map (fun u => UInt8.ofNat u.toNat) ++ equals ::
        value.map fun u => UInt8.ofNat u.toNat := by
    have hrest := encodeUtf8_ascii (fun u hu => (hvalue u hu).1) []
    rw [List.append_nil, show encodeUtf8 ([] : JsText) = [] from rfl, List.append_nil] at hrest
    rw [encodeUtf8_ascii fun u hu => (hname u hu).1, encodeUtf8_cons_ascii (by decide), hrest]
    rfl
  have hquestion : (name ++ 0x3d :: value).head? ≠ some UrlParts.question := by
    cases name with
    | nil =>
      intro heq
      exact absurd (Option.some.inj heq) (by decide)
    | cons u tail =>
      intro heq
      have hu := (hname u List.mem_cons_self).2.2.2.2.2
      exact hu (congrArg UInt16.toNat (Option.some.inj heq))
  have hnoAmpersand : ampersand ∉ name.map (fun u => UInt8.ofNat u.toNat) ++ equals ::
      value.map fun u => UInt8.ofNat u.toNat := by
    intro hmem
    rcases List.mem_append.mp hmem with hmem | hmem
    · exact (mem_plainBytes hname hmem).1 rfl
    · rcases List.mem_cons.mp hmem with heq | hmem
      · exact absurd heq (by decide)
      · exact (mem_plainBytes hvalue hmem).1 rfl
  have hbefore : ∀ b ∈ name.map (fun u => UInt8.ofNat u.toNat), decide (b ≠ equals) = true := by
    intro b hb
    exact decide_eq_true (mem_plainBytes hname hb).2.1
  have hpair : parsePair (name.map (fun u => UInt8.ofNat u.toNat) ++ equals ::
      value.map fun u => UInt8.ofNat u.toNat) = (name, value) := by
    rw [parsePair, List.takeWhile_append_of_pos hbefore, List.takeWhile_cons_of_neg (by simp),
      List.append_nil, List.dropWhile_append_of_pos hbefore,
      List.dropWhile_cons_of_neg (by simp), List.drop_one, List.tail_cons,
      decodePart_plain hname, decodePart_plain hvalue]
  have hnonempty : (name.map (fun u => UInt8.ofNat u.toNat) ++ equals ::
      value.map fun u => UInt8.ofNat u.toNat).isEmpty = false := by
    simp
  rw [ofText, if_neg hquestion]
  simp only [hbytes, List.splitOn_eq_singleton hnoAmpersand]
  rw [List.filter_cons_of_pos (by rw [hnonempty]; rfl), List.filter_nil, List.map_singleton, hpair]
  simp [get]

end SearchParams

namespace Base64

/-- The code units of the padding character, and of the characters that URLs replace. -/
def padUnit : UInt16 := 0x3d

/-- A character of the URL-safe alphabet. -/
def urlUnit (u : UInt16) : UInt16 := if u = 0x2b then 0x2d else if u = 0x2f then 0x5f else u

/-- A character of the standard alphabet again. -/
def standardUnit (u : UInt16) : UInt16 := if u = 0x2d then 0x2b else if u = 0x5f then 0x2f else u

/-- The URL-safe text of a byte string, without padding. -/
def toUrlText (bytes : List UInt8) : JsText :=
  ((js (encode bytes)).map urlUnit).rdropWhile (· = padUnit)

/-- The byte string of a URL-safe text, through `atob`. -/
def ofUrlText (text : JsText) : Option (List UInt8) :=
  let standard := text.map standardUnit
  let padded := standard ++ List.replicate ((4 - standard.length % 4) % 4) padUnit
  atob (String.ofList (toScalars padded))

/-- The code units of base64 characters: those of a digit are plain in a query and come back. -/
theorem digit_unit {n : Nat} (h : n < 64) :
    utf16Char (digit n) = [UInt16.ofNat (digit n).toNat] ∧
      urlUnit (UInt16.ofNat (digit n).toNat) ≠ padUnit ∧
      standardUnit (urlUnit (UInt16.ofNat (digit n).toNat)) = UInt16.ofNat (digit n).toNat ∧
      SearchParams.Plain (urlUnit (UInt16.ofNat (digit n).toNat)) ∧
      urlUnit (UInt16.ofNat (digit n).toNat) ≠ UrlParts.number := by
  have key : ∀ m : Fin 64, utf16Char (digit m.val) = [UInt16.ofNat (digit m.val).toNat] ∧
      urlUnit (UInt16.ofNat (digit m.val).toNat) ≠ padUnit ∧
      standardUnit (urlUnit (UInt16.ofNat (digit m.val).toNat)) =
        UInt16.ofNat (digit m.val).toNat ∧
      ((urlUnit (UInt16.ofNat (digit m.val).toNat)).toNat < 0x80 ∧
        (urlUnit (UInt16.ofNat (digit m.val).toNat)).toNat ≠ 0x26 ∧
        (urlUnit (UInt16.ofNat (digit m.val).toNat)).toNat ≠ 0x3d ∧
        (urlUnit (UInt16.ofNat (digit m.val).toNat)).toNat ≠ 0x25 ∧
        (urlUnit (UInt16.ofNat (digit m.val).toNat)).toNat ≠ 0x2b ∧
        (urlUnit (UInt16.ofNat (digit m.val).toNat)).toNat ≠ 0x3f) ∧
      urlUnit (UInt16.ofNat (digit m.val).toNat) ≠ UrlParts.number := by
    decide
  exact key ⟨n, h⟩

/-- Base64 text: digits, and padding that fills up the last group. -/
theorem encodeChars_eq (bytes : List UInt8) : ∃ digits : List Nat, ∃ pad, (∀ n ∈ digits, n < 64) ∧
    pad ≤ 2 ∧ encodeChars bytes = digits.map digit ++ List.replicate pad '=' := by
  induction bytes using encodeChars.induct with
  | case1 => exact ⟨[], 0, by simp, by decide, rfl⟩
  | case2 a =>
    have ha := a.toNat_lt
    refine ⟨[a.toNat / 4, a.toNat % 4 * 16], 2, ?_, le_rfl, rfl⟩
    simp only [List.mem_cons, List.not_mem_nil, or_false]
    omega
  | case3 a b =>
    have ha := a.toNat_lt
    have hb := b.toNat_lt
    refine ⟨[a.toNat / 4, a.toNat % 4 * 16 + b.toNat / 16, b.toNat % 16 * 4], 1, ?_, by decide, rfl⟩
    simp only [List.mem_cons, List.not_mem_nil, or_false]
    omega
  | case4 a b c rest ih =>
    have ha := a.toNat_lt
    have hb := b.toNat_lt
    have hc := c.toNat_lt
    obtain ⟨digits, pad, hdigits, hpad, hrest⟩ := ih
    refine ⟨a.toNat / 4 :: (a.toNat % 4 * 16 + b.toNat / 16) ::
      (b.toNat % 16 * 4 + c.toNat / 64) :: c.toNat % 64 :: digits, pad, ?_, hpad, ?_⟩
    · intro n hn
      simp only [List.mem_cons] at hn
      rcases hn with rfl | rfl | rfl | rfl | hn
      · omega
      · omega
      · omega
      · omega
      · exact hdigits n hn
    · rw [encodeChars, hrest]
      rfl

/-- The code units of digits. -/
theorem utf16_digits {digits : List Nat} (h : ∀ n ∈ digits, n < 64) :
    utf16 (digits.map digit) = digits.map fun n => UInt16.ofNat (digit n).toNat := by
  induction digits with
  | nil => rfl
  | cons n rest ih =>
    rw [List.map_cons, utf16, List.flatMap_cons, (digit_unit (h n List.mem_cons_self)).1,
      ← utf16, ih fun m hm => h m (List.mem_cons_of_mem n hm)]
    rfl

/-- Padding is dropped from what has none. -/
theorem rdropWhile_padded {units : JsText} (h : ∀ u ∈ units, u ≠ padUnit) (pad : Nat) :
    (units ++ List.replicate pad padUnit).rdropWhile (· = padUnit) = units := by
  induction pad with
  | zero =>
    rw [List.replicate_zero, List.append_nil, List.rdropWhile_eq_self_iff]
    intro hne hlast
    exact h _ (List.getLast_mem hne) (of_decide_eq_true hlast)
  | succ pad ih =>
    rw [List.replicate_succ', ← List.append_assoc, List.rdropWhile_concat_pos _ _ _ (by simp), ih]

/-- The digits of a URL-safe text. -/
theorem toUrlText_eq {bytes : List UInt8} {digits : List Nat} {pad : Nat}
    (hdigits : ∀ n ∈ digits, n < 64)
    (h : encodeChars bytes = digits.map digit ++ List.replicate pad '=') :
    toUrlText bytes = digits.map fun n => urlUnit (UInt16.ofNat (digit n).toNat) := by
  have hunits : js (encode bytes) =
      (digits.map fun n => UInt16.ofNat (digit n).toNat) ++ List.replicate pad padUnit := by
    rw [js, encode, String.toList_ofList, h, utf16, List.flatMap_append, ← utf16,
      utf16_digits hdigits, List.flatMap_replicate]
    congr 1
    rw [show utf16Char '=' = [padUnit] from rfl, List.flatten_replicate_singleton]
  rw [toUrlText, hunits, List.map_append, List.map_replicate, List.map_map]
  apply rdropWhile_padded
  intro u hu
  obtain ⟨n, hn, rfl⟩ := List.mem_map.mp hu
  exact (digit_unit (hdigits n hn)).2.1

/-- Bytes are read back from their URL-safe text. -/
@[simp] theorem ofUrlText_toUrlText (bytes : List UInt8) :
    ofUrlText (toUrlText bytes) = some bytes := by
  obtain ⟨digits, pad, hdigits, hpad, hchars⟩ := encodeChars_eq bytes
  have hlength := (encodeChars_groups bytes).2
  rw [hchars, List.length_append, List.length_map, List.length_replicate] at hlength
  have hstandard : (toUrlText bytes).map standardUnit =
      digits.map fun n => UInt16.ofNat (digit n).toNat := by
    rw [toUrlText_eq hdigits hchars, List.map_map]
    apply List.map_congr_left
    intro n hn
    exact (digit_unit (hdigits n hn)).2.2.1
  have hcount : (4 - digits.length % 4) % 4 = pad := by omega
  have hpadded : (digits.map fun n => UInt16.ofNat (digit n).toNat) ++
      List.replicate pad padUnit = utf16 (encodeChars bytes) := by
    rw [hchars, utf16, List.flatMap_append, ← utf16, utf16_digits hdigits, List.flatMap_replicate,
      show utf16Char '=' = [padUnit] from rfl, List.flatten_replicate_singleton]
  rw [ofUrlText]
  simp only [hstandard, List.length_map, hcount, hpadded]
  rw [toScalars_utf16]
  exact atob_encode bytes

/-- A URL-safe text stands in a query and in a fragment as it is. -/
theorem plain_of_mem_toUrlText {bytes : List UInt8} {u : UInt16} (h : u ∈ toUrlText bytes) :
    SearchParams.Plain u ∧ u ≠ UrlParts.number := by
  obtain ⟨digits, pad, hdigits, -, hchars⟩ := encodeChars_eq bytes
  rw [toUrlText_eq hdigits hchars] at h
  obtain ⟨n, hn, rfl⟩ := List.mem_map.mp h
  exact (digit_unit (hdigits n hn)).2.2.2

/-- Only no bytes have the empty text. -/
theorem toUrlText_ne_nil {bytes : List UInt8} (h : bytes ≠ []) : toUrlText bytes ≠ [] := by
  intro hnil
  have hread := ofUrlText_toUrlText bytes
  rw [hnil] at hread
  have hempty : ofUrlText [] = some [] := by decide
  rw [hempty] at hread
  exact h (Option.some.inj hread).symm

end Base64
