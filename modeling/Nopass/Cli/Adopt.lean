import Nopass.Cli.SecretRefs
import Nopass.Core.Text.Utf8

/-!
# Moving a secret from a file into the vault

`nopwd adopt` reads a file as UTF-8, takes the value that one line assigns, saves it as a
login item and only then writes the file again with a reference in place of the value.
-/

namespace Nopass

open JsText

/-- A file by the components of its canonical path. -/
structure FilePath where
  /-- The directories from the root. -/
  dir : List JsText
  base : JsText

/-- The text of a path. -/
def FilePath.text (path : FilePath) : JsText :=
  (path.dir ++ [path.base]).flatMap fun component => js "/" ++ component

/-- `isDotenvPath`. -/
def isDotenvPath (path : FilePath) : Bool :=
  decide (path.base = js ".env") || (js ".env.").isPrefixOf path.base ||
    (js ".env").isSuffixOf path.base

/-- A number in a text. -/
def jsNat (n : Nat) : JsText := js (toString n)

/-- `redactedPreview`. -/
def redactedPreview (value : JsText) : JsText :=
  if value.length ≤ 8 then jsNat value.length ++ js " chars"
  else value.take 4 ++ js "…" ++ value.drop (value.length - 2) ++ js " (" ++ jsNat value.length ++
    js " chars)"

/-- `ExtractedSecret`. -/
structure ExtractedSecret where
  value : JsText
  /-- Name of a `.env` assignment. -/
  envKey : Option JsText
  /-- The new line; none for a file that must not be edited. -/
  rewriteLine : Option (JsText → JsText)

/-- The rest of `/(["'`])((?:\\.|(?!\1).)*)\1/` behind the opening quote: the literal and what
follows it. A backslash takes the next code unit along, and is one by itself where no match is
found otherwise. -/
def literalBody (quote : UInt16) : JsText → Option (JsText × JsText)
  | [] => none
  | [u] => if u = quote then some ([], []) else none
  | u :: v :: rest =>
    let escaped := if u = 0x5c ∧ !isLineTerminator v then
        (literalBody quote rest).map fun (body, rest) => (u :: v :: body, rest)
      else none
    let plain := if u ≠ quote ∧ !isLineTerminator u then
        (literalBody quote (v :: rest)).map fun (body, rest) => (u :: body, rest)
      else none
    (escaped.or plain).or (if u = quote then some ([], v :: rest) else none)

/-- `lineText.matchAll(…)`: the literals of a line, for `fuel` code units. -/
def literals : Nat → JsText → List JsText
  | 0, _ => []
  | _ + 1, [] => []
  | fuel + 1, u :: rest =>
    if [0x22, 0x27, 0x60].contains u then
      match literalBody u rest with
      | some (body, after) => body :: literals fuel after
      | none => literals fuel rest
    else literals fuel rest

/-- Shortest literal that is taken for a secret. -/
def minSourceSecretLength : Nat := 8

/-- Texts with a comma between them. -/
def joinComma : List JsText → JsText
  | [] => []
  | [text] => text
  | text :: rest => text ++ js ", " ++ joinComma rest

/-- The literals of a line that may be the secret; an empty start counts as none. -/
def chosenLiterals (lineText : JsText) (start : Option JsText) : List JsText :=
  let candidates := (literals lineText.length lineText).filter fun s =>
    decide (minSourceSecretLength ≤ s.length) && !s.contains 0x5c
  candidates.filter fun s => (start.getD []).isPrefixOf s

/-- Why no literal was taken. -/
def noSecretMessage : Option JsText → JsText
  | some (u :: start) =>
    js "no quoted string on that line starts with \"" ++ (u :: start) ++ js "\""
  | some [] | none => js "no quoted secret found on that line"

/-- `extractSecret`. -/
def extractSecret (path : FilePath) (lineText : JsText) (start : Option JsText) :
    Except JsText ExtractedSecret :=
  if isDotenvPath path then
    match parseDotenvLine lineText with
    | none => .error (js "line is not a KEY=value assignment")
    | some parsed =>
      if parsed.value = [] then .error (js "line is not a KEY=value assignment")
      else if parsed.unterminatedQuote then
        .error (parsed.key ++ js " is a multi-line value; move it into the vault by hand")
      else if isReference parsed.value then
        .error (parsed.key ++ js " already points at the vault")
      else .ok
        { value := parsed.value
          envKey := some parsed.key
          rewriteLine := some fun reference =>
            (if parsed.exportPrefix then js "export " else []) ++ parsed.key ++ js "='" ++
              reference ++ js "'" ++ parsed.trailing }
  else
    match chosenLiterals lineText start with
    | [] => .error (noSecretMessage start)
    | [secret] => .ok { value := secret, envKey := none, rewriteLine := none }
    | chosen => .error (js "that line has several quoted strings (" ++
        joinComma (chosen.map redactedPreview) ++
        js "); pass --match with the start of the secret")

/-- `defaultItemName`. -/
def defaultItemName (path : FilePath) (secret : ExtractedSecret) (lineNumber : Nat) : JsText :=
  let project := path.dir.getLastD []
  match secret.envKey with
  | some envKey => project ++ js " " ++ envKey
  | none => project ++ js " " ++ path.base ++ js ":" ++ jsNat lineNumber

/-- `[/'\u0000-\u001f\u007f]`. -/
def breaksItemName (u : UInt16) : Bool :=
  decide (u = 0x2f) || decide (u = 0x27) || decide (u < 0x20) || decide (u = 0x7f)

/-- `AdoptOptions`; the line is counted from 1. -/
structure AdoptOptions where
  path : JsText
  line : Nat
  name : Option JsText
  /-- Start of the secret. -/
  start : Option JsText
  existingNames : List JsText

/-- `AdoptResult`. -/
structure AdoptResult where
  itemName : JsText
  reference : JsText
  rewritten : Bool
  preview : JsText

/-- The byte order mark that a line starts with. -/
def byteOrderMark (index : Nat) (text : JsText) : JsText :=
  if index = 0 ∧ text.head? = some 0xfeff then [0xfeff] else []

/-- What is to be done once the line was found: the item to save, and the lines of the new file,
none when the file is not edited. -/
structure Adoption where
  item : LoginItem
  rewritten : Option (List (JsText × JsText))

/-- The secret of the target line. -/
def targetSecret (opts : AdoptOptions) (path : FilePath) (lines : List (JsText × JsText)) :
    Except JsText ((JsText × JsText) × JsText × ExtractedSecret) :=
  match opts.line with
  | 0 => .error (js "Cannot read properties of undefined (reading 'slice')")
  | index + 1 =>
    match lines[index]? with
    | none => .error (opts.path ++ js " has no line " ++ jsNat opts.line)
    | some line =>
      if opts.line = lines.length ∧ line.1 = [] then
        .error (opts.path ++ js " has no line " ++ jsNat opts.line)
      else
        let bom := byteOrderMark index line.1
        (extractSecret path (line.1.drop bom.length) opts.start).map fun secret =>
          (line, bom, secret)

/-- The name of the item to save. -/
def AdoptOptions.itemName (opts : AdoptOptions) (path : FilePath) (secret : ExtractedSecret) :
    JsText := opts.name.getD (defaultItemName path secret opts.line)

/-- `adoptSecret` before the item is saved. -/
def prepareAdoption (cases : CaseMapping) (opts : AdoptOptions) (path : FilePath)
    (content : JsText) : Except JsText Adoption :=
  match targetSecret opts path (splitLines content) with
  | .error e => .error e
  | .ok (line, bom, secret) =>
    let itemName := opts.itemName path secret
    if itemName.any breaksItemName then
      .error (js "item name \"" ++ itemName ++
        js "\" must not contain \"/\", \"'\" or control characters")
    else if opts.existingNames.any
        fun n => decide (cases.toLowerCase n = cases.toLowerCase itemName) then
      .error (js "a vault item named \"" ++ itemName ++
        js "\" already exists (adopted before?); pass --name to choose another")
    else .ok
      { item :=
          { name := itemName
            username := []
            password := secret.value
            notes := some (js "Moved from " ++ path.text ++ js ":" ++ jsNat opts.line)
            customFields := [] }
        rewritten := secret.rewriteLine.map fun rewriteLine =>
          (splitLines content).set (opts.line - 1)
            (bom ++ rewriteLine (formatReference itemName (js "password")), line.2) }

/-- What the file system and the vault answer, with their errors. -/
structure Surroundings where
  /-- `realpathSync` and `readFileSync`. -/
  realpath : Except JsText FilePath
  saveItem : LoginItem → Except JsText Unit
  /-- `statSync`, `writeFileSync` and `renameSync`. -/
  rewrite : Except JsText Unit

/-- The file at the canonical path, and the items that were saved. -/
structure AdoptState where
  file : List UInt8
  saved : List LoginItem

/-- `adoptSecret`: the answer, and what is left. -/
def adoptSecret (cases : CaseMapping) (opts : AdoptOptions) (outside : Surroundings)
    (s : AdoptState) : Except JsText AdoptResult × AdoptState :=
  match outside.realpath with
  | .error e => (.error e, s)
  | .ok path =>
    match prepareAdoption cases opts path (decodeUtf8 s.file) with
    | .error e => (.error e, s)
    | .ok adoption =>
      match outside.saveItem adoption.item with
      | .error e => (.error e, s)
      | .ok () =>
        let s := { s with saved := s.saved ++ [adoption.item] }
        let result (rewritten : Bool) : AdoptResult :=
          { itemName := adoption.item.name
            reference := formatReference adoption.item.name (js "password")
            rewritten := rewritten
            preview := redactedPreview adoption.item.password }
        match adoption.rewritten with
        | none => (.ok (result false), s)
        | some lines =>
          match outside.rewrite with
          | .error e => (.error (js "saved \"" ++ adoption.item.name ++
              js "\" to the vault but could not rewrite " ++ opts.path ++ js ": " ++ e), s)
          | .ok () => (.ok (result true), { s with file := encodeUtf8 (Lines.join lines) })

end Nopass
