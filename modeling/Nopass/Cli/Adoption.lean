import Nopass.Cli.Adopt
import Nopass.Cli.References

/-!
# What adopting a secret changes

The file is decoded as a whole, cut into lines, and encoded again. Line ends are bytes of
ASCII, so that the lines of the bytes are those of the text. Lines that are UTF-8 come back
as they were, whatever the item is called; the line that is rewritten names the item, and
reads back if the name survives there.
-/

namespace Nopass

open JsText

/-- The lines of a file. -/
def byteLines (bytes : List UInt8) : List (List UInt8 × List UInt8) := Lines.split 0x0d 0x0a bytes

/-- The byte order mark that a line of a file starts with. -/
def byteOrderMarkBytes (index : Nat) (text : List UInt8) : List UInt8 :=
  if index = 0 ∧ [0xef, 0xbb, 0xbf].isPrefixOf text then [0xef, 0xbb, 0xbf] else []

/-- One secret was moved, and nothing else changed. -/
structure MovesOneSecret (cases : CaseMapping) (opts : AdoptOptions)
    (vault : List VaultItemPlaintext) (before after : List UInt8) (reference : JsText)
    (item : LoginItem) : Prop where
  /-- Outside the text of the target line every byte is as it was. -/
  outside : ∃ line text, (byteLines before)[opts.line - 1]? = some line ∧
    byteLines after = (byteLines before).set (opts.line - 1)
      (byteOrderMarkBytes (opts.line - 1) line.1 ++ text, line.2)
  /-- The entries are the same but for the value of the target line's. -/
  entries : parseDotenv (decodeUtf8 after) = (parseDotenv (decodeUtf8 before)).map fun e =>
    if e.line = opts.line then { e with value := reference } else e
  /-- The reference resolves to the value that the target line had. -/
  resolves : ∃ e ∈ parseDotenv (decodeUtf8 before), e.line = opts.line ∧
    resolveReference cases (vault ++ [.login item]) reference = .ok e.value

/-- A name that a reference can carry in a `.env` file. -/
structure Referable (itemName : JsText) : Prop where
  nonempty : itemName ≠ []
  wellFormed : isWellFormed itemName = true
  /-- `.` does not match the line and paragraph separators. -/
  noSeparator : (0x2028 : UInt16) ∉ itemName ∧ (0x2029 : UInt16) ∉ itemName

/-- The item's name can be referred to, and the other lines of the file are UTF-8. -/
structure Adoptable (opts : AdoptOptions) (path : FilePath) (file : List UInt8) : Prop where
  name : ∀ line bom secret, targetSecret opts path (splitLines (decodeUtf8 file)) =
    .ok (line, bom, secret) → Referable (opts.itemName path secret)
  others : ∀ index line, (byteLines file)[index]? = some line → index + 1 ≠ opts.line →
    ValidUtf8 line.1

section Files

/-- A line of a file as text. -/
def decodeLine (line : List UInt8 × List UInt8) : JsText × JsText :=
  (decodeUtf8 line.1, decodeUtf8 line.2)

/-- A line of text as bytes. -/
def encodeLine (line : JsText × JsText) : List UInt8 × List UInt8 :=
  (encodeUtf8 line.1, encodeUtf8 line.2)

/-- A byte of ASCII is known by its code unit. -/
theorem eq_of_ofNat_toNat {b : UInt8} {u : UInt16} (h : UInt16.ofNat b.toNat = u) :
    b.toNat = u.toNat := by
  have hb := b.toNat_lt
  rw [← h, UInt16.toNat_ofNat']
  omega

/-- A line feed in a text comes from one in its bytes. -/
theorem lf_not_mem_decodeUtf8 {text : List UInt8} (h : (0x0a : UInt8) ∉ text) :
    (0x0a : UInt16) ∉ decodeUtf8 text := by
  intro hmem
  obtain ⟨u, v, huv⟩ := List.append_of_mem hmem
  obtain ⟨before, b, after, rfl, hb, -⟩ := ascii_of_decodeFrom (by decide) huv
  have hbyte : b = 0x0a := UInt8.toNat_inj.mp (eq_of_ofNat_toNat hb)
  exact h (by simp [hbyte])

/-- A carriage return at the end of a text comes from one at the end of its bytes. -/
theorem cr_not_last_decodeUtf8 {text : List UInt8} (h : text.getLast? ≠ some 0x0d) :
    (decodeUtf8 text).getLast? ≠ some 0x0d := by
  intro hlast
  obtain ⟨u, hu⟩ := List.getLast?_eq_some_iff.mp hlast
  obtain ⟨before, b, after, rfl, hb, -, hafter⟩ := ascii_of_decodeFrom (by decide) hu
  have hbyte : b = 0x0d := UInt8.toNat_inj.mp (eq_of_ofNat_toNat hb)
  obtain ⟨rfl, -⟩ := eq_nil_of_decodeFrom hafter
  exact h (by rw [hbyte, List.getLast?_concat])

/-- Line ends are decoded by themselves. -/
theorem decodeUtf8_append_end {line : List UInt8 × List UInt8}
    (hends : Lines.Ends 0x0d 0x0a line) (rest : List UInt8) :
    decodeUtf8 (line.1 ++ line.2 ++ rest) =
      decodeUtf8 line.1 ++ decodeUtf8 line.2 ++ decodeUtf8 rest := by
  have hsplit {b : UInt8} (hb : b.toNat < 0x80) (before after : List UInt8) :
      decodeUtf8 (before ++ b :: after) =
        decodeUtf8 before ++ UInt16.ofNat b.toNat :: decodeUtf8 after :=
    decodeFrom_append_ascii hb before after
  rcases hends with ⟨hlf, -⟩ | hcrlf
  · rw [hlf, List.append_assoc, List.singleton_append, hsplit (by decide), List.append_assoc]
    rfl
  · have hcr : line.1 ++ [0x0d, 0x0a] ++ rest = line.1 ++ 0x0d :: ([] ++ 0x0a :: rest) := by simp
    rw [hcrlf, hcr, hsplit (by decide), hsplit (by decide), List.append_assoc]
    rfl

/-- The lines of decoded bytes are proper. -/
theorem proper_decodeLine {lines : List (List UInt8 × List UInt8)}
    (h : Lines.Proper 0x0d 0x0a lines) : Lines.Proper 0x0d 0x0a (lines.map decodeLine) := by
  induction h with
  | last htext => exact .last (lf_not_mem_decodeUtf8 htext)
  | cons htext hends _ ih =>
    refine .cons (lf_not_mem_decodeUtf8 htext) ?_ ih
    rcases hends with ⟨hlf, hlast⟩ | hcrlf
    · exact .inl ⟨by rw [decodeLine, hlf]; rfl, cr_not_last_decodeUtf8 hlast⟩
    · exact .inr (by rw [decodeLine, hcrlf]; rfl)

/-- Lines are decoded by themselves. -/
theorem decodeUtf8_join {lines : List (List UInt8 × List UInt8)}
    (h : Lines.Proper 0x0d 0x0a lines) :
    decodeUtf8 (Lines.join lines) = Lines.join (lines.map decodeLine) := by
  induction h with
  | last htext => simp [Lines.join, decodeLine, decodeUtf8, decodeFrom]
  | cons htext hends _ ih =>
    rw [Lines.join_cons, decodeUtf8_append_end hends, ih]
    rfl

/-- The lines of a decoded file are its lines decoded. -/
theorem splitLines_decodeUtf8 (bytes : List UInt8) :
    splitLines (decodeUtf8 bytes) = (byteLines bytes).map decodeLine := by
  have hproper : Lines.Proper 0x0d 0x0a (byteLines bytes) := Lines.proper_split (by decide) bytes
  have hjoin : Lines.join (byteLines bytes) = bytes := Lines.join_split bytes
  have hdecode := decodeUtf8_join hproper
  rw [hjoin] at hdecode
  rw [hdecode]
  exact Lines.split_join (by decide) (proper_decodeLine hproper)

/-- A code unit of ASCII is encoded by itself. -/
theorem encodeUtf8_append_ascii {u : UInt16} (hu : u.toNat < 0x80) (before after : JsText) :
    encodeUtf8 (before ++ u :: after) =
      encodeUtf8 before ++ UInt8.ofNat u.toNat :: encodeUtf8 after := by
  have hplain : isSurrogate u = false := by
    rw [Bool.eq_false_iff, ne_eq, isSurrogate_iff]
    omega
  have htrail : ((u :: after).head?.any isTrail) = false := by
    rw [isSurrogate, Bool.or_eq_false_iff] at hplain
    exact hplain.2
  have hvalid : u.toNat.isValidChar := .inl (by omega)
  have hchar : String.utf8EncodeChar (Char.ofNat u.toNat) = [UInt8.ofNat u.toNat] := by
    have hval : (Char.ofNat u.toNat).val.toNat = u.toNat := toNat_ofNat hvalid
    rw [String.utf8EncodeChar, hval, if_pos (by omega)]
  rw [encodeUtf8, toScalars_append htrail, toScalars_cons hplain, utf8Chars, List.flatMap_append,
    List.flatMap_cons, hchar]
  rfl

/-- Line ends are encoded by themselves. -/
theorem encodeUtf8_append_end {line : JsText × JsText} (hends : Lines.Ends 0x0d 0x0a line)
    (rest : JsText) : encodeUtf8 (line.1 ++ line.2 ++ rest) =
      encodeUtf8 line.1 ++ encodeUtf8 line.2 ++ encodeUtf8 rest := by
  rcases hends with ⟨hlf, -⟩ | hcrlf
  · rw [hlf, List.append_assoc, List.singleton_append, encodeUtf8_append_ascii (by decide),
      List.append_assoc]
    rfl
  · have hcr : line.1 ++ [0x0d, 0x0a] ++ rest = line.1 ++ 0x0d :: ([] ++ 0x0a :: rest) := by simp
    rw [hcrlf, hcr, encodeUtf8_append_ascii (by decide), encodeUtf8_append_ascii (by decide),
      List.append_assoc]
    rfl

/-- A text that is encoded without a new end of line. -/
def Encodable (text : JsText) : Prop := toWellFormed text = text ∨ (0x0d : UInt16) ∉ text

/-- The lines of encoded text are proper. -/
theorem proper_encodeLine {lines : List (JsText × JsText)} (h : Lines.Proper 0x0d 0x0a lines)
    (hlines : ∀ line ∈ lines, Encodable line.1) :
    Lines.Proper 0x0d 0x0a (lines.map encodeLine) := by
  have hlf {text : JsText} (h : (0x0a : UInt16) ∉ text) : (0x0a : UInt8) ∉ encodeUtf8 text := by
    intro hmem
    obtain ⟨x, y, hxy⟩ := List.append_of_mem hmem
    have hdecode := decodeUtf8_encodeUtf8 text
    rw [hxy, decodeUtf8, decodeFrom_append_ascii (by decide)] at hdecode
    apply h
    rw [← mem_toWellFormed_iff (by decide) (by decide), ← hdecode]
    exact List.mem_append_right _ List.mem_cons_self
  have hcr {text : JsText} (htext : Encodable text) (h : text.getLast? ≠ some 0x0d) :
      (encodeUtf8 text).getLast? ≠ some 0x0d := by
    intro hlast
    obtain ⟨x, hx⟩ := List.getLast?_eq_some_iff.mp hlast
    have hdecode := decodeUtf8_encodeUtf8 text
    rw [hx, decodeUtf8, decodeFrom_append_ascii (by decide)] at hdecode
    rcases htext with hwell | hnot
    · rw [hwell] at hdecode
      apply h
      rw [← hdecode]
      exact List.getLast?_concat ..
    · apply hnot
      rw [← mem_toWellFormed_iff (by decide) (by decide), ← hdecode]
      exact List.mem_append_right _ List.mem_cons_self
  induction h with
  | last htext => exact .last (hlf htext)
  | cons htext hends _ ih =>
    rw [List.forall_mem_cons] at hlines
    refine .cons (hlf htext) ?_ (ih hlines.2)
    rcases hends with ⟨hterminator, hlast⟩ | hcrlf
    · exact .inl ⟨by rw [encodeLine, hterminator]; rfl, hcr hlines.1 hlast⟩
    · exact .inr (by rw [encodeLine, hcrlf]; rfl)

/-- The lines of encoded lines are these lines encoded. -/
theorem byteLines_encodeUtf8 {lines : List (JsText × JsText)} (h : Lines.Proper 0x0d 0x0a lines)
    (hlines : ∀ line ∈ lines, Encodable line.1) :
    byteLines (encodeUtf8 (Lines.join lines)) = lines.map encodeLine := by
  have hencode : encodeUtf8 (Lines.join lines) = Lines.join (lines.map encodeLine) := by
    clear hlines
    induction h with
    | last htext => simp [Lines.join, encodeLine, encodeUtf8, toScalars, utf8Chars]
    | cons htext hends _ ih =>
      rw [Lines.join_cons, encodeUtf8_append_end hends, ih]
      rfl
  rw [hencode]
  exact Lines.split_join (by decide) (proper_encodeLine h hlines)

/-- A terminator is the same in bytes and in text. -/
theorem encodeUtf8_terminator {bytes : List UInt8} {line : List UInt8 × List UInt8}
    (hline : line ∈ byteLines bytes) : encodeUtf8 (decodeUtf8 line.2) = line.2 := by
  have hproper : Lines.Proper 0x0d 0x0a (byteLines bytes) := Lines.proper_split (by decide) bytes
  rcases hproper.terminator hline with h | h | h
  · rw [h]
    decide
  · rw [h]
    decide
  · rw [h]
    decide

/-- The byte order mark is encoded by itself. -/
theorem encodeUtf8_byteOrderMark (text : JsText) :
    encodeUtf8 (0xfeff :: text) = [0xef, 0xbb, 0xbf] ++ encodeUtf8 text := by
  have hchar : String.utf8EncodeChar (Char.ofNat (0xfeff : UInt16).toNat) = [0xef, 0xbb, 0xbf] := by
    decide
  rw [encodeUtf8, toScalars_cons (by decide), utf8Chars, List.flatMap_cons, hchar]
  rfl

/-- The byte order mark is decoded by itself. -/
theorem decodeUtf8_byteOrderMark (bytes : List UInt8) :
    decodeUtf8 ([0xef, 0xbb, 0xbf] ++ bytes) = 0xfeff :: decodeUtf8 bytes := by
  have hchar : String.utf8EncodeChar (Char.ofNat 0xfeff) = [0xef, 0xbb, 0xbf] := by
    decide
  have hunits : utf16Char (Char.ofNat 0xfeff) = [0xfeff] := by decide
  have hdecode := decodeFrom_utf8EncodeChar (Char.ofNat 0xfeff) bytes
  rw [hchar, hunits] at hdecode
  exact hdecode

section Replaced

variable {bytes : List UInt8} {index : Nat} {line : JsText × JsText}
  (hline : (splitLines (decodeUtf8 bytes))[index]? = some line) {text : JsText}
  (hlf : (0x0a : UInt16) ∉ text) (hcr : (0x0d : UInt16) ∉ text)

include hline hlf hcr

/-- The lines of a file in which one line was replaced. -/
theorem byteLines_replaced :
    byteLines (encodeUtf8 (Lines.join ((splitLines (decodeUtf8 bytes)).set index (text, line.2)))) =
      ((splitLines (decodeUtf8 bytes)).map encodeLine).set index
        (encodeUtf8 text, encodeUtf8 line.2) := by
  have hproper : Lines.Proper 0x0d 0x0a (splitLines (decodeUtf8 bytes)) :=
    Lines.proper_split (by decide) _
  rw [byteLines_encodeUtf8 (hproper.set hline hlf hcr), List.map_set]
  · rfl
  · intro other hother
    rcases List.mem_or_eq_of_mem_set hother with hmem | rfl
    · rw [splitLines_decodeUtf8] at hmem
      obtain ⟨source, -, rfl⟩ := List.mem_map.mp hmem
      exact .inl (toWellFormed_decodeUtf8 _)
    · exact .inr hcr

/-- The text of a file in which one line was replaced. -/
theorem splitLines_replaced :
    splitLines (decodeUtf8
        (encodeUtf8 (Lines.join ((splitLines (decodeUtf8 bytes)).set index (text, line.2))))) =
      (splitLines (decodeUtf8 bytes)).set index (toWellFormed text, line.2) := by
  have hsame : ∀ other ∈ splitLines (decodeUtf8 bytes), decodeLine (encodeLine other) = other := by
    intro other hother
    rw [splitLines_decodeUtf8] at hother
    obtain ⟨source, -, rfl⟩ := List.mem_map.mp hother
    simp [decodeLine, encodeLine]
  have htarget := hsame line (List.mem_of_getElem? hline)
  have hmap : ((splitLines (decodeUtf8 bytes)).map encodeLine).map decodeLine =
      splitLines (decodeUtf8 bytes) := by
    rw [List.map_map]
    exact (List.map_congr_left hsame).trans (List.map_id _)
  rw [splitLines_decodeUtf8, byteLines_replaced hline hlf hcr, List.map_set, hmap]
  rw [decodeLine, decodeUtf8_encodeUtf8, decodeUtf8_encodeUtf8]
  rw [decodeLine, encodeLine, decodeUtf8_encodeUtf8, decodeUtf8_encodeUtf8] at htarget
  have hterminator : toWellFormed line.2 = line.2 := congrArg Prod.snd htarget
  rw [hterminator]

end Replaced

end Files

section Lines

/-- What a line that matches has as its name and its rest. -/
theorem matchAssignment_some {line key rest : JsText}
    (h : matchAssignment line = some (key, rest)) : key.head?.any isKeyStart = true ∧
      (∀ u ∈ key, isKeyChar u = true) ∧ ∀ u ∈ rest, isLineTerminator u = false := by
  rw [matchAssignment] at h
  split at h
  · rename_i hstart
    split at h
    · cases h
    · split at h
      · rename_i hrest
        cases h
        refine ⟨?_, fun u hu => List.mem_takeWhile_imp hu, ?_⟩
        · cases line with
          | nil => cases hstart
          | cons u line =>
            have hu : isKeyChar u = true := by
              rw [List.head?_cons, Option.any_some] at hstart
              simp [isKeyChar, hstart]
            rwa [List.takeWhile_cons, if_pos hu]
        · simpa using hrest.2
      · cases h
  · cases h

/-- What a line that matches has as its name and its rest, exported or not. -/
theorem dotenvLine_some {line key rest : JsText} {exported : Bool}
    (h : dotenvLine line = some (exported, key, rest)) : key.head?.any isKeyStart = true ∧
      (∀ u ∈ key, isKeyChar u = true) ∧ ∀ u ∈ rest, isLineTerminator u = false := by
  rw [dotenvLine] at h
  cases hexport : (matchExport (line.dropWhile isSpace)).bind matchAssignment with
  | some found =>
    rw [hexport] at h
    obtain ⟨line', -, hmatch⟩ := Option.bind_eq_some_iff.mp hexport
    cases h
    exact matchAssignment_some hmatch
  | none =>
    rw [hexport] at h
    obtain ⟨found, hmatch, hfound⟩ := Option.map_eq_some_iff.mp h
    cases hfound
    exact matchAssignment_some hmatch

/-- What follows a closing quote was there before. -/
theorem mem_of_quotedBody {text body trailing : JsText}
    (h : quotedBody text = some (body, trailing)) : ∀ u ∈ trailing, u ∈ text := by
  induction text using quotedBody.induct generalizing body with
  | case1 => cases h
  | case2 => cases h; simp
  | case3 u hu => rw [quotedBody, if_neg hu] at h; cases h
  | case4 v rest =>
    rw [quotedBody, if_pos rfl] at h
    cases h
    exact fun u hu => List.mem_cons_of_mem _ hu
  | case5 v rest hquote ih =>
    rw [quotedBody, if_neg hquote, if_pos rfl] at h
    obtain ⟨found, hfound, heq⟩ := Option.map_eq_some_iff.mp h
    cases heq
    exact fun u hu => List.mem_cons_of_mem _ (List.mem_cons_of_mem _ (ih hfound u hu))
  | case6 u v rest hquote hbackslash ih =>
    rw [quotedBody, if_neg hquote, if_neg hbackslash] at h
    obtain ⟨found, hfound, heq⟩ := Option.map_eq_some_iff.mp h
    cases heq
    exact fun w hw => List.mem_cons_of_mem _ (ih hfound w hw)

/-- A comment was there before. -/
theorem mem_of_splitComment {text : JsText} : ∀ u ∈ (splitComment text).2, u ∈ text := by
  induction text with
  | nil => simp [splitComment]
  | cons u rest ih =>
    rw [splitComment]
    split
    · exact fun v hv => hv
    · exact fun v hv => List.mem_cons_of_mem _ (ih v hv)

/-- What a parsed line has as its name and behind its value. -/
theorem parseDotenvLine_some {line : JsText} {parsed : ParsedDotenvLine}
    (h : parseDotenvLine line = some parsed) : parsed.key.head?.any isKeyStart = true ∧
      (∀ u ∈ parsed.key, isKeyChar u = true) ∧
      ∀ u ∈ parsed.trailing, isLineTerminator u = false := by
  obtain ⟨⟨exported, key, rest⟩, hline, hparsed⟩ := Option.map_eq_some_iff.mp h
  obtain ⟨hstart, hkey, hrest⟩ := dotenvLine_some hline
  have hraw : ∀ u ∈ trimEnd rest, isLineTerminator u = false :=
    fun u hu => hrest u (List.IsPrefix.mem hu (List.rdropWhile_prefix ..))
  dsimp only at hparsed
  split at hparsed
  · rename_i inside hinside
    rw [hinside] at hraw
    split at hparsed
    · subst hparsed
      exact ⟨hstart, hkey, by simp⟩
    · rename_i body trailing hbody
      subst hparsed
      exact ⟨hstart, hkey, fun u hu => hraw u (List.mem_cons_of_mem _ (mem_of_quotedBody hbody u hu))⟩
  · rename_i inside hinside
    rw [hinside] at hraw
    split at hparsed
    · subst hparsed
      exact ⟨hstart, hkey, by simp⟩
    · rename_i _ quote trailing hafter
      subst hparsed
      refine ⟨hstart, hkey, fun u hu => hraw u (List.mem_cons_of_mem _ ?_)⟩
      have hmem : u ∈ inside.dropWhile (· ≠ 0x27) := hafter ▸ List.mem_cons_of_mem _ hu
      exact (List.dropWhile_sublist _).mem hmem
  · subst hparsed
    exact ⟨hstart, hkey, fun u hu => hraw u (mem_of_splitComment u hu)⟩

/-- Spaces behind something else are trimmed by themselves. -/
theorem trimEnd_append {u : UInt16} (hu : isSpace u = false) (before after : JsText) :
    trimEnd (before ++ u :: after) = before ++ u :: trimEnd after := by
  have hneg : ¬ isSpace u = true := by simp [hu]
  rw [trimEnd, trimEnd]
  induction after using List.reverseRecOn with
  | nil => rw [List.rdropWhile_nil, List.rdropWhile_concat_neg _ _ _ hneg]
  | append_singleton after v ih =>
    have hassoc : before ++ u :: (after ++ [v]) = before ++ u :: after ++ [v] := by simp
    rw [hassoc]
    by_cases hv : isSpace v = true
    · rw [List.rdropWhile_concat_pos _ _ _ hv, List.rdropWhile_concat_pos _ _ _ hv, ih]
    · rw [List.rdropWhile_concat_neg _ _ _ hv, List.rdropWhile_concat_neg _ _ _ hv, hassoc]

/-- Leading spaces are skipped. -/
theorem dropWhile_bom {bom line : JsText} (hbom : bom.all isSpace = true)
    (hline : line.head?.any isSpace = false) : (bom ++ line).dropWhile isSpace = line := by
  rw [List.dropWhile_append_of_pos (List.all_eq_true.mp hbom)]
  cases line with
  | nil => rfl
  | cons u line =>
    rw [List.head?_cons, Option.any_some] at hline
    rw [List.dropWhile_cons, hline]
    rfl

/-- The keyword before a name. -/
theorem matchExport_keyword {line : JsText} (hline : line.head?.any isSpace = false) :
    matchExport (js "export" ++ 0x20 :: line) = some line := by
  have hspace : isSpace 0x20 = true := by decide
  rw [matchExport, dropPrefix?_append, Option.bind_some, List.head?_cons, Option.any_some,
    if_pos hspace]
  have hspaces : ([0x20] : JsText).all isSpace = true := by decide
  have hdrop := dropWhile_bom hspaces hline
  rw [List.singleton_append] at hdrop
  rw [hdrop]

/-- The keyword is no name before another name. -/
theorem matchAssignment_keyword {u : UInt16} (hu : isKeyStart u = true) (rest : JsText) :
    matchAssignment (js "export" ++ 0x20 :: u :: rest) = none := by
  have hkeyword : (js "export").all isKeyChar = true := by decide
  have hkeyChar : isKeyChar u = true := by simp [isKeyChar, hu]
  have hspace : isSpace 0x20 = true ∧ isKeyChar 0x20 = false := by decide
  have hequals : u ≠ 0x3d := by
    rintro rfl
    revert hu
    decide
  rw [matchAssignment, List.dropWhile_append_of_pos (List.all_eq_true.mp hkeyword)]
  simp only [List.dropWhile_cons, hspace, isSpace_of_isKeyChar hkeyChar, Bool.false_eq_true,
    if_false, if_true, hequals, false_and]
  split
  · rfl
  · rfl

/-- The name and the rest of a line that was rewritten. -/
theorem dotenvLine_rewritten {bom key rest : JsText} (exported : Bool)
    (hbom : bom.all isSpace = true) (hstart : key.head?.any isKeyStart = true)
    (hkey : ∀ u ∈ key, isKeyChar u = true) :
    dotenvLine (bom ++ ((if exported then js "export " else []) ++ (key ++ 0x3d :: 0x27 :: rest))) =
      if rest.all (!isLineTerminator ·) = true then some (exported, key, 0x27 :: rest) else none := by
  have hassign : matchAssignment (key ++ 0x3d :: 0x27 :: rest) =
      if rest.all (!isLineTerminator ·) = true then some (key, 0x27 :: rest) else none := by
    have hquote : (!isLineTerminator 0x27) = true := by decide
    rw [matchAssignment_append hkey (by decide), List.all_cons, hquote, Bool.true_and]
    simp only [hstart, true_and]
  obtain ⟨u, key', rfl⟩ : ∃ u key', key = u :: key' := by
    cases key with
    | nil => cases hstart
    | cons u key' => exact ⟨u, key', rfl⟩
  have hhead : ((u :: key' ++ 0x3d :: 0x27 :: rest).head?.any isSpace) = false :=
    isSpace_of_isKeyChar (hkey u (by simp))
  cases exported with
  | false =>
    rw [if_neg Bool.false_ne_true, List.nil_append, dotenvLine, dropWhile_bom hbom hhead,
      matchExport_append hkey, Option.bind_none, hassign]
    by_cases hrest : rest.all (!isLineTerminator ·) = true
    · rw [if_pos hrest, if_pos hrest]
      rfl
    · rw [if_neg hrest, if_neg hrest]
      rfl
  | true =>
    have hkeyword : js "export " = js "export" ++ [0x20] := by decide
    have hspace : ((js "export" ++ 0x20 :: (u :: key' ++ 0x3d :: 0x27 :: rest)).head?.any isSpace) =
        false := by
      have hexport : js "export" = 0x65 :: js "xport" := by decide
      rw [hexport]
      change isSpace 0x65 = false
      decide
    rw [if_pos rfl, hkeyword, List.append_assoc, List.singleton_append, dotenvLine,
      dropWhile_bom hbom hspace, matchExport_keyword hhead, Option.bind_some, hassign]
    by_cases hrest : rest.all (!isLineTerminator ·) = true
    · rw [if_pos hrest, if_pos hrest]
    · rw [if_neg hrest, if_neg hrest]
      exact congrArg (Option.map _) (matchAssignment_keyword hstart _)

/-- The entry of a line that was rewritten. -/
theorem dotenvEntry_rewritten {bom key value trailing : JsText} (exported : Bool)
    (hbom : bom.all isSpace = true) (hstart : key.head?.any isKeyStart = true)
    (hkey : ∀ u ∈ key, isKeyChar u = true) (hquote : (0x27 : UInt16) ∉ value)
    (htrailing : ∀ u ∈ trailing, isLineTerminator u = false) (number : Nat) :
    dotenvEntry (bom ++ ((if exported then js "export " else []) ++
        (key ++ 0x3d :: 0x27 :: (value ++ 0x27 :: trailing)))) number =
      if value.all (!isLineTerminator ·) = true then
        some { key := key, value := value, line := number } else none := by
  have htrailing : trailing.all (!isLineTerminator ·) = true := by
    rw [List.all_eq_true]
    intro u hu
    rw [htrailing u hu, Bool.not_false]
  have hall : (value ++ 0x27 :: trailing).all (!isLineTerminator ·) =
      value.all (!isLineTerminator ·) := by
    have hterminator : (!isLineTerminator 0x27) = true := by decide
    rw [List.all_append, List.all_cons, hterminator, htrailing, Bool.and_true, Bool.and_true]
  have htrim : trimEnd (0x27 :: (value ++ 0x27 :: trailing)) =
      0x27 :: (value ++ 0x27 :: trimEnd trailing) :=
    trimEnd_append (by decide) (0x27 :: value) trailing
  have hvalue : ∀ u ∈ value, decide (u ≠ 0x27) = true :=
    fun u hu => decide_eq_true fun h => hquote (h ▸ hu)
  rw [dotenvEntry, parseDotenvLine, dotenvLine_rewritten exported hbom hstart hkey]
  by_cases hline : value.all (!isLineTerminator ·) = true
  · rw [if_pos (hall.trans hline), if_pos hline, Option.map_some]
    dsimp only
    rw [htrim]
    simp only [List.dropWhile_append_of_pos hvalue, List.takeWhile_append_of_pos hvalue]
    simp
  · rw [if_neg (by rwa [hall]), if_neg hline]
    rfl

end Lines

section Entries

/-- The entries of lines that are counted from a number on. -/
def entriesFrom (start : Nat) (lines : List (JsText × JsText)) : List DotenvEntry :=
  (lines.zipIdx start).filterMap fun (line, i) => dotenvEntry line.1 (i + 1)

theorem parseDotenv_eq (content : JsText) :
    parseDotenv content = entriesFrom 0 (splitLines content) := rfl

/-- An entry has the number of its line. -/
theorem line_of_dotenvEntry {line : JsText} {number : Nat} {e : DotenvEntry}
    (h : dotenvEntry line number = some e) : e.line = number := by
  obtain ⟨parsed, -, hparsed⟩ := Option.bind_eq_some_iff.mp h
  split at hparsed
  · cases hparsed
  · cases hparsed
    rfl

/-- Entries have the numbers of their lines. -/
theorem line_of_mem_entriesFrom {start : Nat} {lines : List (JsText × JsText)} {e : DotenvEntry}
    (h : e ∈ entriesFrom start lines) : start < e.line ∧ e.line ≤ start + lines.length := by
  obtain ⟨⟨line, i⟩, hmem, he⟩ := List.mem_filterMap.mp h
  have hle := List.le_snd_of_mem_zipIdx hmem
  have hlt := List.snd_lt_add_of_mem_zipIdx hmem
  have hline := line_of_dotenvEntry he
  dsimp only at hle hlt
  omega

/-- The entries around one line. -/
theorem entriesFrom_append (start : Nat) (before : List (JsText × JsText)) (line : JsText × JsText)
    (after : List (JsText × JsText)) : entriesFrom start (before ++ line :: after) =
      entriesFrom start before ++ ((dotenvEntry line.1 (start + before.length + 1)).toList ++
        entriesFrom (start + before.length + 1) after) := by
  rw [entriesFrom, List.zipIdx_append, List.filterMap_append, List.zipIdx_cons,
    List.filterMap_cons]
  dsimp only
  cases dotenvEntry line.1 (start + before.length + 1) with
  | none => rfl
  | some e => rfl

/-- A changed line gives an entry with another value exactly when all other entries stay. -/
theorem entriesFrom_set_iff {lines : List (JsText × JsText)} {index : Nat} {line : JsText × JsText}
    (hline : lines[index]? = some line) {e : DotenvEntry}
    (he : dotenvEntry line.1 (index + 1) = some e) (text terminator value : JsText) :
    entriesFrom 0 (lines.set index (text, terminator)) = (entriesFrom 0 lines).map (fun e =>
        if e.line = index + 1 then { e with value := value } else e) ↔
      dotenvEntry text (index + 1) = some { e with value := value } := by
  obtain ⟨hindex, hget⟩ := List.getElem?_eq_some_iff.mp hline
  have hlength : (lines.take index).length = index := by
    rw [List.length_take]
    omega
  have hlines : lines = lines.take index ++ line :: lines.drop (index + 1) := by
    rw [← hget, List.getElem_cons_drop, List.take_append_drop]
  have hset : lines.set index (text, terminator) =
      lines.take index ++ (text, terminator) :: lines.drop (index + 1) := by
    rw [List.set_eq_take_append_cons_drop, if_pos hindex]
  have hsame {start : Nat} {rest : List (JsText × JsText)}
      (hrest : ∀ e ∈ entriesFrom start rest, e.line ≠ index + 1) :
      (entriesFrom start rest).map (fun e =>
        if e.line = index + 1 then { e with value := value } else e) = entriesFrom start rest := by
    refine (List.map_congr_left fun e he => ?_).trans (List.map_id _)
    exact if_neg (hrest e he)
  have hbefore : ∀ e ∈ entriesFrom 0 (lines.take index), e.line ≠ index + 1 := by
    intro e he
    have hbounds := line_of_mem_entriesFrom he
    omega
  have hafter : ∀ e ∈ entriesFrom (index + 1) (lines.drop (index + 1)), e.line ≠ index + 1 := by
    intro e he
    have hbounds := line_of_mem_entriesFrom he
    omega
  have heline := line_of_dotenvEntry he
  conv_lhs => rhs; rw [hlines]
  rw [hset, entriesFrom_append, entriesFrom_append, hlength, Nat.zero_add, he, List.map_append,
    List.map_append, hsame hbefore, hsame hafter, List.append_cancel_left_eq]
  simp only [Option.toList_some, List.map_cons, List.map_nil, heline, if_true, List.cons_append,
    List.nil_append]
  cases dotenvEntry text (index + 1) with
  | none => simp
  | some e' => simp

end Entries

section Adoption

variable {cases : CaseMapping} {opts : AdoptOptions} {outside : Surroundings} {s s' : AdoptState}
  {result : AdoptResult} {path : FilePath}

/-- A failed call leaves the file. -/
theorem file_of_error {e : JsText} (h : adoptSecret cases opts outside s = (.error e, s')) :
    s'.file = s.file := by
  rw [adoptSecret] at h
  split at h
  · cases h
    rfl
  · split at h
    · cases h
      rfl
    · split at h
      · cases h
        rfl
      · dsimp only at h
        split at h
        · cases h
        · split at h
          · cases h
            rfl
          · cases h

/-- The line that was rewritten, and what was made of it. -/
structure Rewritten (cases : CaseMapping) (opts : AdoptOptions) (path : FilePath)
    (s s' : AdoptState) (result : AdoptResult) (index : Nat) (line : JsText × JsText)
    (parsed : ParsedDotenvLine) (secret : ExtractedSecret) (item : LoginItem) : Prop where
  line_eq : opts.line = index + 1
  line_mem : (splitLines (decodeUtf8 s.file))[index]? = some line
  target : targetSecret opts path (splitLines (decodeUtf8 s.file)) =
    .ok (line, byteOrderMark index line.1, secret)
  parsed_eq : parseDotenvLine (line.1.drop (byteOrderMark index line.1).length) = some parsed
  value_ne : parsed.value ≠ []
  terminated : parsed.unterminatedQuote = false
  name : item.name = opts.itemName path secret
  name_ok : item.name.any breaksItemName = false
  name_new : opts.existingNames.any (fun n =>
    decide (cases.toLowerCase n = cases.toLowerCase item.name)) = false
  password : item.password = parsed.value
  reference : result.reference = formatReference item.name (js "password")
  saved : s'.saved = s.saved ++ [item]
  file : s'.file = encodeUtf8 (Lines.join ((splitLines (decodeUtf8 s.file)).set index
    (byteOrderMark index line.1 ++ ((if parsed.exportPrefix then js "export " else []) ++
      (parsed.key ++ 0x3d :: 0x27 :: (result.reference ++ 0x27 :: parsed.trailing))), line.2)))

/-- The new line of a `.env` file. -/
theorem extractSecret_rewrites {lineText : JsText} {start : Option JsText}
    {secret : ExtractedSecret} {rewriteLine : JsText → JsText}
    (h : extractSecret path lineText start = .ok secret) (hr : secret.rewriteLine = some rewriteLine) :
    ∃ parsed, parseDotenvLine lineText = some parsed ∧ parsed.value ≠ [] ∧
      parsed.unterminatedQuote = false ∧ secret.value = parsed.value ∧
      ∀ reference, rewriteLine reference = (if parsed.exportPrefix then js "export " else []) ++
        (parsed.key ++ 0x3d :: 0x27 :: (reference ++ 0x27 :: parsed.trailing)) := by
  have hopen : js "='" = [0x3d, 0x27] := by decide
  have hclose : js "'" = [0x27] := by decide
  rw [extractSecret] at h
  split at h
  · split at h
    · cases h
    · rename_i parsed hparsed
      split at h
      · cases h
      · rename_i hvalue
        split at h
        · cases h
        · rename_i hquote
          split at h
          · cases h
          · cases h
            cases hr
            refine ⟨parsed, hparsed, hvalue, by simpa using hquote, rfl, fun reference => ?_⟩
            rw [hopen, hclose]
            simp
  · generalize chosenLiterals lineText start = chosen at h
    rcases chosen with - | ⟨first, - | ⟨second, chosen⟩⟩
    · simp at h
    · cases h
      cases hr
    · simp at h

/-- Where the secret of the target line was found. -/
theorem targetSecret_ok {lines : List (JsText × JsText)} {line : JsText × JsText} {bom : JsText}
    {secret : ExtractedSecret} (h : targetSecret opts path lines = .ok (line, bom, secret)) :
    ∃ index, opts.line = index + 1 ∧ lines[index]? = some line ∧ bom = byteOrderMark index line.1 ∧
      extractSecret path (line.1.drop (byteOrderMark index line.1).length) opts.start =
        .ok secret := by
  rw [targetSecret] at h
  split at h
  · cases h
  · rename_i index hindex
    split at h
    · cases h
    · rename_i found hline
      split at h
      · cases h
      · dsimp only at h
        cases hsecret : extractSecret path (found.1.drop (byteOrderMark index found.1).length)
            opts.start with
        | error e =>
          rw [hsecret] at h
          cases h
        | ok found' =>
          rw [hsecret] at h
          cases h
          exact ⟨index, hindex, hline, rfl, hsecret⟩

/-- What a call did that rewrote the file. -/
theorem exists_rewritten (hpath : outside.realpath = .ok path)
    (h : adoptSecret cases opts outside s = (.ok result, s')) (hr : result.rewritten = true) :
    ∃ index line parsed secret item,
      Rewritten cases opts path s s' result index line parsed secret item := by
  rw [adoptSecret, hpath] at h
  dsimp only at h
  split at h
  · cases h
  · rename_i adoption hprepared
    rw [prepareAdoption] at hprepared
    split at hprepared
    · cases hprepared
    · rename_i line bom secret htarget
      dsimp only at hprepared
      split at hprepared
      · cases hprepared
      · rename_i hname
        split at hprepared
        · cases hprepared
        · rename_i hnew
          cases hprepared
          split at h
          · cases h
          · dsimp only at h
            cases hrewrite : secret.rewriteLine with
            | none =>
              rw [hrewrite] at h
              cases h
              cases hr
            | some rewriteLine =>
              rw [hrewrite] at h
              dsimp only [Option.map_some] at h
              split at h
              · cases h
              · cases h
                obtain ⟨index, hindex, hline, rfl, hsecret⟩ := targetSecret_ok htarget
                obtain ⟨parsed, hparsed, hvalue, hterminated, hsame, hlineText⟩ :=
                  extractSecret_rewrites hsecret hrewrite
                refine ⟨index, line, parsed, secret, _, hindex, hline, htarget, hparsed, hvalue,
                  hterminated, rfl, by simpa using hname, by simpa using hnew, hsame, rfl, rfl, ?_⟩
                have hset : opts.line - 1 = index := by omega
                rw [hset, hlineText]

/-- The text of a line that was rewritten. -/
def newText (bom : JsText) (parsed : ParsedDotenvLine) (reference trailing : JsText) : JsText :=
  bom ++ ((if parsed.exportPrefix then js "export " else []) ++
    (parsed.key ++ 0x3d :: 0x27 :: (reference ++ 0x27 :: trailing)))

/-- A byte order mark is a space and no half of a pair. -/
theorem byteOrderMark_all (index : Nat) (text : JsText) :
    (byteOrderMark index text).all isSpace = true ∧
      ∀ u ∈ byteOrderMark index text, isSurrogate u = false ∧ isLineTerminator u = false := by
  rw [byteOrderMark]
  split
  · exact ⟨by decide, by simp; decide⟩
  · simp

/-- What may stand in a name is neither a half of a pair nor a line terminator. -/
theorem plain_of_isKeyChar {u : UInt16} (h : isKeyChar u = true) :
    isSurrogate u = false ∧ isLineTerminator u = false := by
  have hspace := isSpace_of_isKeyChar h
  have hrange := isKeyChar_range h
  constructor
  · rw [Bool.eq_false_iff, ne_eq, isSurrogate_iff]
    omega
  · rw [Bool.eq_false_iff]
    intro hterminator
    rw [isSpace_of_isLineTerminator hterminator] at hspace
    cases hspace

/-- Code units that are no halves of pairs are kept in front of a text. -/
theorem toWellFormed_plain {text : JsText} (h : ∀ u ∈ text, isSurrogate u = false) (rest : JsText) :
    toWellFormed (text ++ rest) = text ++ toWellFormed rest := by
  induction text with
  | nil => rfl
  | cons u text ih =>
    rw [List.forall_mem_cons] at h
    rw [List.cons_append, toWellFormed_cons h.1, ih h.2, List.cons_append]

/-- Mending a rewritten line mends the reference and what follows it. -/
theorem toWellFormed_newText {bom : JsText} {parsed : ParsedDotenvLine}
    (hbom : ∀ u ∈ bom, isSurrogate u = false) (hkey : ∀ u ∈ parsed.key, isKeyChar u = true)
    (reference trailing : JsText) : toWellFormed (newText bom parsed reference trailing) =
      newText bom parsed (toWellFormed reference) (toWellFormed trailing) := by
  have hexport : ∀ u ∈ (if parsed.exportPrefix then js "export " else []), isSurrogate u = false := by
    have hascii : (js "export ").all (fun u => !isSurrogate u) = true := by decide
    cases parsed.exportPrefix with
    | true => simpa using hascii
    | false => simp
  have hquote : isSurrogate 0x27 = false ∧ isSurrogate 0x3d = false := by decide
  have htrail : ((0x27 :: trailing : JsText).head?.any isTrail) = false := by
    change isTrail 0x27 = false
    decide
  rw [newText, toWellFormed_plain hbom, toWellFormed_plain hexport,
    toWellFormed_plain fun u hu => (plain_of_isKeyChar (hkey u hu)).1, toWellFormed_cons hquote.2,
    toWellFormed_cons hquote.1, toWellFormed_append htrail, toWellFormed_cons hquote.1, newText]

section Name

variable {name : JsText}

/-- A reference is mended with the name in it. -/
theorem toWellFormed_reference (name : JsText) :
    toWellFormed (formatReference name (js "password")) =
      formatReference (toWellFormed name) (js "password") := by
  have hplain : (refPrefix.all fun u => !isSurrogate u) = true ∧
      ((js "/" ++ js "password").all fun u => !isSurrogate u) = true := by decide
  have htrail : ((js "/" ++ js "password").head?.any isTrail) = false := by decide
  have hfield : toWellFormed (js "/" ++ js "password") = js "/" ++ js "password" := by
    decide
  have hstart : ∀ u ∈ refPrefix, isSurrogate u = false := by simpa using hplain.1
  rw [formatReference, List.append_assoc, List.append_assoc, toWellFormed_plain hstart,
    toWellFormed_append htrail, hfield, formatReference, List.append_assoc, List.append_assoc]

/-- A code unit that stands in no constant part of a reference stands in the name. -/
theorem mem_reference_iff {u : UInt16}
    (hu : (refPrefix ++ js "/" ++ js "password").contains u = false) :
    u ∈ formatReference name (js "password") ↔ u ∈ name := by
  rw [formatReference]
  simp only [List.contains_eq_mem, List.mem_append, decide_eq_false_iff_not, not_or] at hu
  simp [hu]

/-- A name that passed the check has no quote, no slash and no line end. -/
theorem not_mem_name (h : name.any breaksItemName = false) {u : UInt16}
    (hu : breaksItemName u = true) : u ∉ name := by
  intro hmem
  rw [List.any_eq_false] at h
  exact h u hmem hu

/-- A reference is on one line when the name has no separator. -/
theorem noTerminator_reference_iff (h : name.any breaksItemName = false) :
    (∀ u ∈ formatReference name (js "password"), isLineTerminator u = false) ↔
      (0x2028 : UInt16) ∉ name ∧ (0x2029 : UInt16) ∉ name := by
  constructor
  · intro hline
    constructor
    · intro hmem
      exact absurd (hline _ ((mem_reference_iff (by decide)).mpr hmem)) (by decide)
    · intro hmem
      exact absurd (hline _ ((mem_reference_iff (by decide)).mpr hmem)) (by decide)
  · rintro ⟨hline, hparagraph⟩ u hu
    rw [Bool.eq_false_iff, isLineTerminator]
    intro hterminator
    rw [List.contains_iff_mem] at hterminator
    simp only [List.mem_cons, List.not_mem_nil, or_false] at hterminator
    rcases hterminator with rfl | rfl | rfl | rfl
    · exact not_mem_name h (by decide) ((mem_reference_iff (by decide)).mp hu)
    · exact not_mem_name h (by decide) ((mem_reference_iff (by decide)).mp hu)
    · exact hline ((mem_reference_iff (by decide)).mp hu)
    · exact hparagraph ((mem_reference_iff (by decide)).mp hu)

/-- Only the name decides how a reference is mended. -/
theorem toWellFormed_reference_eq_iff (name : JsText) :
    toWellFormed (formatReference name (js "password")) = formatReference name (js "password") ↔
      isWellFormed name = true := by
  rw [toWellFormed_reference, ← toWellFormed_eq_iff, formatReference, formatReference]
  simp

end Name

namespace Rewritten

variable {index : Nat} {line : JsText × JsText} {parsed : ParsedDotenvLine}
  {secret : ExtractedSecret} {item : LoginItem}
  (h : Rewritten cases opts path s s' result index line parsed secret item)

include h

omit h in
/-- The target line starts with its byte order mark. -/
theorem line_text (line : JsText × JsText) (index : Nat) : line.1 = byteOrderMark index line.1 ++
    line.1.drop (byteOrderMark index line.1).length := by
  rw [byteOrderMark]
  split
  · rename_i hbom
    cases htext : line.1 with
    | nil =>
      rw [htext] at hbom
      cases hbom.2
    | cons u text =>
      rw [htext] at hbom
      cases hbom.2
      rfl
  · rfl

/-- The target line's entry before the call. -/
theorem entry_before : dotenvEntry line.1 (index + 1) =
    some { key := parsed.key, value := parsed.value, line := index + 1 } := by
  have hline : dotenvLine line.1 =
      dotenvLine (line.1.drop (byteOrderMark index line.1).length) := by
    conv_lhs => rw [line_text line index]
    rw [dotenvLine, dotenvLine, List.dropWhile_append_of_pos
      (List.all_eq_true.mp (byteOrderMark_all index line.1).1)]
  have hparsed := h.parsed_eq
  rw [parseDotenvLine, ← hline, ← parseDotenvLine] at hparsed
  rw [dotenvEntry, hparsed, Option.bind_some, h.terminated]
  rfl

/-- The target line's entry after the call. -/
theorem entry_after : dotenvEntry (toWellFormed (newText (byteOrderMark index line.1) parsed
      result.reference parsed.trailing)) (index + 1) =
    if (0x2028 : UInt16) ∉ item.name ∧ (0x2029 : UInt16) ∉ item.name then
      some { key := parsed.key, value := toWellFormed result.reference, line := index + 1 }
    else none := by
  obtain ⟨hstart, hkey, htrailing⟩ := parseDotenvLine_some h.parsed_eq
  obtain ⟨hspace, hbom⟩ := byteOrderMark_all index line.1
  have hkept {u : UInt16} (hu : isLineTerminator u = true) (text : JsText) :
      u ∈ toWellFormed text ↔ u ∈ text := by
    rw [isLineTerminator, List.contains_iff_mem] at hu
    simp only [List.mem_cons, List.not_mem_nil, or_false] at hu
    rcases hu with rfl | rfl | rfl | rfl
    all_goals exact mem_toWellFormed_iff (by decide) (by decide) text
  have hnone (text : JsText) : (∀ u ∈ toWellFormed text, isLineTerminator u = false) ↔
      ∀ u ∈ text, isLineTerminator u = false := by
    constructor
    · intro hall u hu
      by_contra hterminator
      rw [Bool.not_eq_false] at hterminator
      exact hterminator.symm.trans (hall u ((hkept hterminator text).mpr hu)) |> Bool.noConfusion
    · intro hall u hu
      by_contra hterminator
      rw [Bool.not_eq_false] at hterminator
      exact hterminator.symm.trans (hall u ((hkept hterminator text).mp hu)) |> Bool.noConfusion
  have hquote : (0x27 : UInt16) ∉ toWellFormed result.reference := by
    rw [mem_toWellFormed_iff (by decide) (by decide), h.reference,
      mem_reference_iff (by decide)]
    exact not_mem_name h.name_ok (by decide)
  have hentry := dotenvEntry_rewritten parsed.exportPrefix hspace hstart hkey hquote
    ((hnone _).mpr htrailing) (index + 1)
  rw [toWellFormed_newText (fun u hu => (hbom u hu).1) hkey, newText, hentry]
  simp only [List.all_eq_true, Bool.not_eq_true', hnone, h.reference,
    noTerminator_reference_iff h.name_ok]

/-- The new text of the target line has no line end. -/
theorem newText_noEnd {u : UInt16} (hu : u = 0x0a ∨ u = 0x0d) :
    u ∉ newText (byteOrderMark index line.1) parsed result.reference parsed.trailing := by
  obtain ⟨-, hkey, htrailing⟩ := parseDotenvLine_some h.parsed_eq
  obtain ⟨-, hbom⟩ := byteOrderMark_all index line.1
  have hterminator : isLineTerminator u = true := by
    rcases hu with rfl | rfl <;> decide
  have hne {text : JsText} (htext : ∀ v ∈ text, isLineTerminator v = false) : u ∉ text := by
    intro hmem
    rw [htext u hmem] at hterminator
    cases hterminator
  have hexport : ∀ v ∈ (if parsed.exportPrefix then js "export " else []),
      isLineTerminator v = false := by
    have hascii : (js "export ").all (fun u => !isLineTerminator u) = true := by decide
    cases parsed.exportPrefix with
    | true => simpa using hascii
    | false => simp
  have hreference : u ∉ result.reference := by
    rw [h.reference]
    rcases hu with rfl | rfl
    · rw [mem_reference_iff (by decide)]
      exact not_mem_name h.name_ok (by decide)
    · rw [mem_reference_iff (by decide)]
      exact not_mem_name h.name_ok (by decide)
  have hquote : u ≠ 0x3d ∧ u ≠ 0x27 := by
    rcases hu with rfl | rfl <;> decide
  rw [newText]
  simp only [List.mem_append, List.mem_cons, not_or]
  exact ⟨hne fun v hv => (hbom v hv).2, hne hexport,
    hne fun v hv => (plain_of_isKeyChar (hkey v hv)).2, hquote.1, hquote.2, hreference, hquote.2,
    hne htrailing⟩

/-- The file after the call. -/
theorem file_eq : s'.file = encodeUtf8 (Lines.join ((splitLines (decodeUtf8 s.file)).set index
    (newText (byteOrderMark index line.1) parsed result.reference parsed.trailing, line.2))) :=
  h.file

omit h in
/-- The new line starts with the byte order mark of the file. -/
theorem encodeUtf8_newText {source : List UInt8 × List UInt8} {line : JsText × JsText}
    (parsed : ParsedDotenvLine) (index : Nat) (reference : JsText) (hsource : decodeLine source = line) :
    ∃ text, encodeUtf8 (newText (byteOrderMark index line.1) parsed reference
      parsed.trailing) = byteOrderMarkBytes index source.1 ++ text := by
  rw [byteOrderMarkBytes]
  split
  · rename_i hbom
    obtain ⟨rest, hrest⟩ := List.isPrefixOf_iff_prefix.mp hbom.2
    have hhead : line.1.head? = some 0xfeff := by
      rw [← hsource, decodeLine, ← hrest, decodeUtf8_byteOrderMark]
      rfl
    rw [byteOrderMark, if_pos ⟨hbom.1, hhead⟩, newText, List.singleton_append,
      encodeUtf8_byteOrderMark]
    exact ⟨_, rfl⟩
  · exact ⟨_, rfl⟩

/-- The bytes outside the target line stay exactly when all other lines are UTF-8. -/
theorem outside_iff : (∃ source text, (byteLines s.file)[index]? = some source ∧
      byteLines s'.file = (byteLines s.file).set index
        (byteOrderMarkBytes index source.1 ++ text, source.2)) ↔
    ∀ i other, (byteLines s.file)[i]? = some other → i ≠ index → ValidUtf8 other.1 := by
  have hlines := byteLines_replaced h.line_mem (h.newText_noEnd (.inl rfl))
    (h.newText_noEnd (.inr rfl))
  rw [← h.file_eq, splitLines_decodeUtf8, List.map_map] at hlines
  have hmem := h.line_mem
  rw [splitLines_decodeUtf8, List.getElem?_map] at hmem
  obtain ⟨source, hsource, hdecode⟩ := Option.map_eq_some_iff.mp hmem
  constructor
  · rintro ⟨source', text, -, hafter⟩ i other hother hne
    have hget : (byteLines s'.file)[i]? = some other := by
      rw [hafter, List.getElem?_set_ne (Ne.symm hne), hother]
    rw [hlines, List.getElem?_set_ne (Ne.symm hne), List.getElem?_map, hother, Option.map_some,
      Option.some_inj] at hget
    exact (encodeUtf8_decodeUtf8_iff other.1).mp (congrArg Prod.fst hget)
  · intro hvalid
    obtain ⟨text, htext⟩ := encodeUtf8_newText parsed index result.reference hdecode
    refine ⟨source, text, hsource, ?_⟩
    have hterminator : encodeUtf8 line.2 = source.2 := by
      rw [← hdecode]
      exact encodeUtf8_terminator (List.mem_of_getElem? hsource)
    rw [hlines, htext, hterminator]
    ext i : 1
    by_cases hi : i = index
    · subst hi
      have hlt := (List.getElem?_eq_some_iff.mp hsource).1
      rw [List.getElem?_set_self hlt, List.getElem?_set_self (by simpa using hlt)]
    · rw [List.getElem?_set_ne (Ne.symm hi), List.getElem?_set_ne (Ne.symm hi), List.getElem?_map]
      cases hother : (byteLines s.file)[i]? with
      | none => rfl
      | some other =>
        have hsame := (encodeUtf8_decodeUtf8_iff other.1).mpr (hvalid i other hother hi)
        have hend := encodeUtf8_terminator (List.mem_of_getElem? hother)
        exact congrArg some (Prod.ext hsame hend)

/-- The entries stay but for the target's value exactly when the name survives. -/
theorem entries_iff : (parseDotenv (decodeUtf8 s'.file) =
      (parseDotenv (decodeUtf8 s.file)).map fun e =>
        if e.line = index + 1 then { e with value := result.reference } else e) ↔
    isWellFormed item.name = true ∧ (0x2028 : UInt16) ∉ item.name ∧ (0x2029 : UInt16) ∉ item.name := by
  have hlines := splitLines_replaced h.line_mem (h.newText_noEnd (.inl rfl))
    (h.newText_noEnd (.inr rfl))
  rw [← h.file_eq] at hlines
  have hmended : toWellFormed result.reference = result.reference ↔ isWellFormed item.name = true := by
    rw [h.reference]
    exact toWellFormed_reference_eq_iff item.name
  rw [parseDotenv_eq, parseDotenv_eq, hlines,
    entriesFrom_set_iff h.line_mem h.entry_before, h.entry_after]
  by_cases hseparator : (0x2028 : UInt16) ∉ item.name ∧ (0x2029 : UInt16) ∉ item.name
  · simp [hseparator, hmended]
  · simp [hseparator]

/-- The reference resolves to the old value exactly when the item has a name. -/
theorem resolves_iff {vault : List VaultItemPlaintext}
    (hvault : opts.existingNames = vault.map (·.name)) :
    (∃ e ∈ parseDotenv (decodeUtf8 s.file), e.line = index + 1 ∧
      resolveReference cases (vault ++ [.login item]) result.reference = .ok e.value) ↔
    item.name ≠ [] := by
  have hentry : ∀ e ∈ parseDotenv (decodeUtf8 s.file), e.line = index + 1 →
      e.value = item.password := by
    intro e he heline
    obtain ⟨⟨other, i⟩, hmem, hother⟩ := List.mem_filterMap.mp he
    have hi := line_of_dotenvEntry hother
    have hat : (splitLines (decodeUtf8 s.file))[i]? = some other :=
      List.mem_zipIdx_iff_getElem?.mp hmem
    obtain rfl : i = index := by omega
    rw [h.line_mem] at hat
    cases hat
    have hsame := hother.symm.trans h.entry_before
    rw [Option.some.inj hsame, h.password]
  constructor
  · rintro ⟨e, -, -, hresolve⟩ hname
    obtain ⟨error, herror⟩ : ∃ error, resolveReference cases (vault ++ [.login item])
        (formatReference [] (js "password")) = .error error := by
      exact resolveReference_unnamed (js "password")
    rw [h.reference, hname, herror] at hresolve
    cases hresolve
  · intro hname
    have hslash : (0x2f : UInt16) ∉ item.name := not_mem_name h.name_ok (by decide)
    have hfind : (vault ++ [VaultItemPlaintext.login item]).find? (fun j =>
        decide (cases.toLowerCase j.name = cases.toLowerCase item.name)) = some (.login item) := by
      have hnone : vault.find? (fun j =>
          decide (cases.toLowerCase j.name = cases.toLowerCase item.name)) = none := by
        have hnew := h.name_new
        rw [hvault, List.any_map, List.any_eq_false] at hnew
        rw [List.find?_eq_none]
        exact hnew
      rw [List.find?_append, hnone, Option.none_or]
      simp [VaultItemPlaintext.name]
    have hpassword : item.password ≠ [] := by
      rw [h.password]
      exact h.value_ne
    have hmem : { key := parsed.key, value := parsed.value, line := index + 1 } ∈
        parseDotenv (decodeUtf8 s.file) :=
      List.mem_filterMap.mpr ⟨(line, index), List.mem_zipIdx_iff_getElem?.mpr h.line_mem,
        h.entry_before⟩
    refine ⟨_, hmem, rfl, ?_⟩
    rw [h.reference, resolve_password_iff hfind hslash hname, if_neg hpassword, h.password]

end Rewritten

/-- A successful call that rewrote the file moved one secret and nothing else exactly when the
item's name can stand in a reference and all other lines are UTF-8. A call that failed left the
file. -/
theorem movesOneSecret_iff (cases : CaseMapping) (opts : AdoptOptions) (outside : Surroundings)
    (vault : List VaultItemPlaintext) (s s' : AdoptState)
    (hvault : opts.existingNames = vault.map (·.name)) :
    (∀ e, adoptSecret cases opts outside s = (.error e, s') → s'.file = s.file) ∧
    ∀ result path, outside.realpath = .ok path →
      adoptSecret cases opts outside s = (.ok result, s') → result.rewritten = true →
      ∃ item, s'.saved = s.saved ++ [item] ∧
        (MovesOneSecret cases opts vault s.file s'.file result.reference item ↔
          Adoptable opts path s.file) := by
  constructor
  · exact fun e he => file_of_error he
  · intro result path hpath hrun hrewritten
    obtain ⟨index, line, parsed, secret, item, h⟩ := exists_rewritten hpath hrun hrewritten
    have hindex : opts.line - 1 = index := by
      have hline := h.line_eq
      omega
    have hline : ∀ n, n = opts.line ↔ n = index + 1 := fun n => by rw [h.line_eq]
    refine ⟨item, h.saved, ?_⟩
    constructor
    · rintro ⟨houtside, hentries, hresolves⟩
      rw [hindex] at houtside
      simp only [hline] at hentries hresolves
      obtain ⟨hwell, hseparator⟩ := h.entries_iff.mp hentries
      have hname := (h.resolves_iff hvault).mp hresolves
      constructor
      · intro line' bom secret' htarget
        rw [h.target] at htarget
        cases htarget
        rw [← h.name]
        exact ⟨hname, hwell, hseparator⟩
      · intro i other hother hne
        apply h.outside_iff.mp houtside i other hother
        rintro rfl
        exact hne h.line_eq.symm
    · intro hadoptable
      have hname := hadoptable.name _ _ _ h.target
      rw [← h.name] at hname
      constructor
      · rw [hindex]
        apply h.outside_iff.mpr
        intro i other hother hne
        apply hadoptable.others i other hother
        intro heq
        have hi := (hline _).mp heq
        omega
      · simp only [hline]
        exact h.entries_iff.mpr ⟨hname.wellFormed, hname.noSeparator⟩
      · simp only [hline]
        exact (h.resolves_iff hvault).mpr hname.nonempty

/-- The options of a call for the first line of `.env` in a vault without items. -/
def firstLine : AdoptOptions :=
  { path := js ".env", line := 1, name := none, start := none, existingNames := [] }

/-- A directory `app` in which everything can be written. -/
def appDirectory : Surroundings :=
  { realpath := .ok { dir := [js "app"], base := js ".env" }
    saveItem := fun _ => .ok ()
    rewrite := .ok () }

/-- A file with the line `KEY=secret` before others, and nothing saved. -/
def keyFile (rest : List UInt8) : AdoptState :=
  { file := encodeUtf8 (js "KEY=secret\n") ++ rest, saved := [] }

/-- The one secret of a file of ASCII is moved. -/
theorem movesOneSecret_ascii : ∃ result s' item,
    adoptSecret .ascii firstLine appDirectory (keyFile []) = (.ok result, s') ∧
      s'.saved = [item] ∧
      MovesOneSecret .ascii firstLine [] (keyFile []).file s'.file result.reference item := by
  obtain ⟨answer, s', hrun⟩ : ∃ answer s',
      adoptSecret .ascii firstLine appDirectory (keyFile []) = (answer, s') := ⟨_, _, rfl⟩
  have hrewritten : (adoptSecret .ascii firstLine appDirectory (keyFile [])).1.toOption.any
      (·.rewritten) = true := by decide
  rw [hrun] at hrewritten
  cases answer with
  | error e => cases hrewritten
  | ok result =>
    obtain ⟨item, hsaved, hiff⟩ := (movesOneSecret_iff .ascii firstLine appDirectory []
      (keyFile []) s' rfl).2 result { dir := [js "app"], base := js ".env" } rfl hrun hrewritten
    refine ⟨result, s', item, hrun, hsaved, hiff.mpr ?_⟩
    constructor
    · intro line bom secret htarget
      have hkey : (targetSecret firstLine { dir := [js "app"], base := js ".env" }
          (splitLines (decodeUtf8 (keyFile []).file))).toOption.bind (·.2.2.envKey) =
            some (js "KEY") := by decide
      rw [htarget] at hkey
      have hname : firstLine.itemName { dir := [js "app"], base := js ".env" } secret =
          js "app KEY" := by
        change defaultItemName _ secret 1 = _
        have hsecret : secret.envKey = some (js "KEY") := hkey
        rw [defaultItemName, hsecret]
        decide
      rw [hname]
      exact ⟨by decide, by decide, by decide⟩
    · intro index line hline hne
      have hlines : byteLines (keyFile []).file =
          [(encodeUtf8 (js "KEY=secret"), [0x0a]), ([], [])] := by decide
      rw [hlines] at hline
      rcases index with - | - | index
      · exact (hne rfl).elim
      · cases hline
        exact ⟨[], rfl⟩
      · cases hline

/-- A comment in another encoding, `# caf\xe9`, is not kept. -/
theorem not_movesOneSecret_latin1 : ¬ ∀ (cases : CaseMapping) (opts : AdoptOptions)
    (outside : Surroundings) (vault : List VaultItemPlaintext) (s s' : AdoptState)
    (result : AdoptResult), opts.existingNames = vault.map (·.name) →
      adoptSecret cases opts outside s = (.ok result, s') → result.rewritten = true →
      ∃ item, s'.saved = s.saved ++ [item] ∧
        MovesOneSecret cases opts vault s.file s'.file result.reference item := by
  intro h
  obtain ⟨answer, s', hrun⟩ : ∃ answer s', adoptSecret .ascii firstLine appDirectory
      (keyFile [0x23, 0x20, 0x63, 0x61, 0x66, 0xe9]) = (answer, s') := ⟨_, _, rfl⟩
  have hrewritten : (adoptSecret .ascii firstLine appDirectory
      (keyFile [0x23, 0x20, 0x63, 0x61, 0x66, 0xe9])).1.toOption.any (·.rewritten) = true := by
    decide
  have hsecond : (byteLines (adoptSecret .ascii firstLine appDirectory
      (keyFile [0x23, 0x20, 0x63, 0x61, 0x66, 0xe9])).2.file)[1]? ≠
        (byteLines (keyFile [0x23, 0x20, 0x63, 0x61, 0x66, 0xe9]).file)[1]? := by decide
  rw [hrun] at hrewritten hsecond
  cases answer with
  | error e => cases hrewritten
  | ok result =>
    obtain ⟨item, -, hmoves⟩ := h _ _ _ [] _ _ _ rfl hrun hrewritten
    obtain ⟨line, text, -, hafter⟩ := hmoves.outside
    apply hsecond
    dsimp only
    rw [hafter]
    exact List.getElem?_set_ne (by decide)

end Adoption

end Nopass
