import Nopass.Client.Webauthn

/-!
# What relying parties read of a passkey

A decoder reads back each value that the CBOR writer is given and nothing more, and finds
the head of each item in its shortest form. Of an attestation object it recovers the parts
of the authenticator data. Only a half of a surrogate pair that stands alone in a text is
not read back: UTF-8 has no bytes for it.
-/

namespace Nopass

/-- An integer that a head can hold. -/
def InCborRange (n : JsNumber) : Prop := ∃ k ∈ n.toInt?, -2 ^ 32 ≤ k ∧ k < 2 ^ 32

/-- A key within the writer's range. -/
def CborKey.InRange : CborKey → Prop
  | .number n => InCborRange n
  | .text t => (encodeUtf8 t).length < 2 ^ 32

mutual

/-- A value within the writer's range: integers in `[-2 ^ 32, 2 ^ 32)`, lengths below `2 ^ 32`. -/
def CborValue.InRange : CborValue → Prop
  | .number n => InCborRange n
  | .text t => (encodeUtf8 t).length < 2 ^ 32
  | .bytes b => b.length < 2 ^ 32
  | .map entries => entries.size < 2 ^ 32 ∧ entries.InRange

/-- Entries within the writer's range. -/
def CborMap.InRange : CborMap → Prop
  | .empty => True
  | .entry key value rest => key.InRange ∧ value.InRange ∧ rest.InRange

end

/-- The data item of a number. -/
def numberItem (n : JsNumber) : Cbor.Item := .int (n.toInt?.getD 0)

/-- The data item of a key. -/
def CborKey.item : CborKey → Cbor.Item
  | .number n => numberItem n
  | .text t => .text t

mutual

/-- The data item of a value. -/
def CborValue.item : CborValue → Cbor.Item
  | .number n => numberItem n
  | .text t => .text t
  | .bytes b => .bytes b
  | .map entries => .map entries.items

/-- The entries of a map's data item. -/
def CborMap.items : CborMap → List (Cbor.Item × Cbor.Item)
  | .empty => []
  | .entry key value rest => (key.item, value.item) :: rest.items

end

/-- A key with U+FFFD for halves of pairs that stand alone. -/
def CborKey.wellFormed : CborKey → CborKey
  | .number n => .number n
  | .text t => .text (toWellFormed t)

mutual

/-- A value with U+FFFD for halves of pairs that stand alone in its texts. -/
def CborValue.wellFormed : CborValue → CborValue
  | .number n => .number n
  | .text t => .text (toWellFormed t)
  | .bytes b => .bytes b
  | .map entries => .map entries.wellFormed

/-- Entries with U+FFFD for halves of pairs that stand alone in their texts. -/
def CborMap.wellFormed : CborMap → CborMap
  | .empty => .empty
  | .entry key value rest => .entry key.wellFormed value.wellFormed rest.wellFormed

end

/-- A head is read back, in its shortest form. -/
theorem readHead_cborHead (shortest : Bool) {major length : Nat} (hmajor : major < 8)
    (hlength : length < 2 ^ 32) (rest : Bytes) :
    Cbor.readHead shortest (cborHead major length ++ rest) = some (major, length, rest) := by
  have hor : ∀ info < 32, major <<< 5 ||| info = 32 * major + info := by
    intro info hinfo
    rw [← Nat.shiftLeft_add_eq_or_of_lt (i := 5) hinfo, Nat.shiftLeft_eq]
    omega
  have hmask : ∀ n : Nat, n &&& 0xff = n % 256 := fun n => Nat.and_two_pow_sub_one_eq_mod n 8
  by_cases h1 : length < 24
  · rw [cborHead, if_pos h1, hor length (by omega)]
    exact Cbor.readHead_short hmajor h1 rest
  by_cases h2 : length < 0x100
  · have hbytes : cborHead major length =
        UInt8.ofNat (32 * major + (24 + 0)) :: bigEndian (2 ^ 0) length := by
      rw [cborHead, if_neg h1, if_pos h2, hor 24 (by omega), Nat.pow_zero, bigEndian, bigEndian,
        Nat.mod_eq_of_lt h2]
      rfl
    rw [hbytes]
    exact Cbor.readHead_wide hmajor (by omega) (by simpa [Cbor.leastOf] using h1)
      (by simpa using h2) rest
  by_cases h3 : length < 0x10000
  · have hbytes : cborHead major length =
        UInt8.ofNat (32 * major + (24 + 1)) :: bigEndian (2 ^ 1) length := by
      have hhigh : length >>> 8 = length / 256 % 256 := by
        rw [Nat.shiftRight_eq_div_pow]
        omega
      rw [cborHead, if_neg h1, if_neg h2, if_pos h3, hor 25 (by omega), hmask, hhigh]
      rfl
    rw [hbytes]
    exact Cbor.readHead_wide hmajor (by omega) (by simpa [Cbor.leastOf] using h2)
      (by simpa using h3) rest
  · have hbytes : cborHead major length =
        UInt8.ofNat (32 * major + (24 + 2)) :: bigEndian (2 ^ 2) length := by
      have hword : length % 2 ^ 32 = length := Nat.mod_eq_of_lt hlength
      have h24 : length >>> 24 = length / 256 / 256 / 256 := by
        rw [Nat.shiftRight_eq_div_pow]
        omega
      have h16 : length >>> 16 = length / 256 / 256 := by
        rw [Nat.shiftRight_eq_div_pow]
        omega
      have h8 : length >>> 8 = length / 256 := Nat.shiftRight_eq_div_pow length 8
      rw [cborHead, if_neg h1, if_neg h2, if_neg h3, hor 26 (by omega)]
      simp only [hmask, hword, h24, h16, h8]
      rfl
    rw [hbytes]
    exact Cbor.readHead_wide hmajor (by omega) (by simpa [Cbor.leastOf] using h3)
      (by simpa using hlength) rest

/-- Bytes from which a decoder reads an item and no more, however it treats long heads. -/
structure DecodesTo (bytes : Bytes) (item : Cbor.Item) : Prop where
  nonempty : 0 < bytes.length
  read : ∀ shortest depth, bytes.length ≤ depth → ∀ rest,
    Cbor.readItem shortest depth (bytes ++ rest) = some (item, rest)

/-- Bytes from which a decoder reads the entries of a map and no more. -/
def DecodesEntries (bytes : Bytes) (count : Nat) (entries : List (Cbor.Item × Cbor.Item)) : Prop :=
  ∀ shortest depth, bytes.length ≤ depth → ∀ rest,
    Cbor.readEntries (Cbor.readItem shortest depth) count (bytes ++ rest) = some (entries, rest)

/-- A head has at least one byte. -/
theorem cborHead_pos (major length : Nat) : 0 < (cborHead major length).length := by
  rw [cborHead]
  split
  · exact Nat.one_pos
  split
  · exact Nat.two_pos
  split
  · exact Nat.succ_pos _
  · exact Nat.succ_pos _

/-- Contents after a head. -/
theorem decodesTo_head {major length : Nat} {contents : Bytes} {item : Cbor.Item}
    (hmajor : major < 8) (hlength : length < 2 ^ 32)
    (h : ∀ shortest depth, contents.length ≤ depth → ∀ rest,
      Cbor.readContents (Cbor.readItem shortest depth) major length (contents ++ rest) =
        some (item, rest)) :
    DecodesTo (cborHead major length ++ contents) item where
  nonempty := by
    have hpos := cborHead_pos major length
    rw [List.length_append]
    omega
  read shortest depth hdepth rest := by
    have hpos := cborHead_pos major length
    rw [List.length_append] at hdepth
    obtain ⟨depth, rfl⟩ : ∃ d, depth = d + 1 := ⟨depth - 1, by omega⟩
    rw [List.append_assoc, Cbor.readItem, readHead_cborHead shortest hmajor hlength]
    exact h shortest depth (by omega) rest

/-- A number within range is read back. -/
theorem decodesTo_number {n : JsNumber} (h : InCborRange n) :
    ∃ bytes, encodeNumber n = .ok bytes ∧ DecodesTo bytes (numberItem n) := by
  obtain ⟨k, hk, hlow, hhigh⟩ := h
  have hk' : n.toInt? = some k := hk
  rw [numberItem, encodeNumber, hk', Option.getD_some]
  by_cases hnonneg : 0 ≤ k
  · have hback : ((k.toNat : Nat) : Int) = k := Int.toNat_of_nonneg hnonneg
    refine ⟨cborHead 0 k.toNat ++ [], ?_, decodesTo_head (by decide) (by omega) ?_⟩
    · simp [orThrow, hnonneg, bind, Except.bind, pure, Except.pure]
    · intro _ _ _ rest
      rw [Cbor.readContents, hback]
      rfl
  · obtain ⟨m, rfl⟩ : ∃ m : Nat, k = -((m + 1 : Nat) : Int) := ⟨(-k - 1).toNat, by omega⟩
    have hn : n.neg = JsNumber.ofNat (m + 1) := by
      rw [JsNumber.eq_of_toInt? hk', JsNumber.neg, Int.cast_neg, neg_neg, Int.cast_natCast]
      rfl
    have hsub : n.neg.sub 1 = JsNumber.ofNat m := by
      rw [hn]
      exact JsNumber.sub_ofNat (Nat.le_add_left 1 m) (by omega)
    refine ⟨cborHead 1 m ++ [], ?_, decodesTo_head (by decide) (by omega) ?_⟩
    · have hlength : ((JsNumber.ofNat m).toInt?.getD 0).toNat = m := by
        rw [JsNumber.toInt?_ofNat, Option.getD_some, Int.toNat_natCast]
      simp only [orThrow, hsub, hlength, hnonneg, bind, Except.bind, if_false, List.append_nil]
      rfl
    · intro _ _ _ rest
      have hback : -(m : Int) - 1 = -((m + 1 : Nat) : Int) := by omega
      rw [Cbor.readContents, hback]
      rfl

/-- A text is read back. -/
theorem decodesTo_text {t : JsText} (h : (encodeUtf8 t).length < 2 ^ 32) :
    DecodesTo (encodeText t) (.text (toWellFormed t)) := by
  rw [encodeText]
  apply decodesTo_head (by decide) h
  intro _ _ _ rest
  simp only [Cbor.readContents, Cbor.readBytes_append, Option.bind_some, Cbor.textOf_encodeUtf8,
    Option.map_some]

/-- A key within range is read back. -/
theorem decodesTo_key {key : CborKey} (h : key.InRange) :
    ∃ bytes, key.encode = .ok bytes ∧ DecodesTo bytes key.wellFormed.item := by
  cases key with
  | number n => exact decodesTo_number h
  | text t => exact ⟨encodeText t, rfl, decodesTo_text h⟩

mutual

/-- A value within range is read back. -/
theorem decodesTo_value : ∀ value : CborValue, value.InRange →
    ∃ bytes, encodeInto value = .ok bytes ∧ DecodesTo bytes value.wellFormed.item
  | .number n, h => decodesTo_number h
  | .text t, h => ⟨encodeText t, rfl, decodesTo_text h⟩
  | .bytes b, h => by
    refine ⟨cborHead 2 b.length ++ b, rfl, ?_⟩
    apply decodesTo_head (by decide) h
    intro _ _ _ rest
    rw [Cbor.readContents, Cbor.readBytes_append]
    rfl
  | .map entries, h => by
    obtain ⟨pushed, hpushed, hread⟩ := decodesEntries entries h.2
    refine ⟨cborHead 5 entries.size ++ pushed, ?_, ?_⟩
    · rw [encodeInto, hpushed]
      rfl
    · apply decodesTo_head (by decide) h.1
      intro shortest depth hdepth rest
      rw [Cbor.readContents, hread shortest depth hdepth]
      rfl

/-- So are the entries of a map. -/
theorem decodesEntries : ∀ entries : CborMap, entries.InRange →
    ∃ bytes, encodeEntries entries = .ok bytes ∧
      DecodesEntries bytes entries.size entries.wellFormed.items
  | .empty, _ => ⟨[], rfl, fun _ _ _ _ => rfl⟩
  | .entry key value rest, h => by
    obtain ⟨k, hk, hkey⟩ := decodesTo_key h.1
    obtain ⟨v, hv, hvalue⟩ := decodesTo_value value h.2.1
    obtain ⟨pushed, hpushed, hrest⟩ := decodesEntries rest h.2.2
    refine ⟨k ++ v ++ pushed, ?_, ?_⟩
    · rw [encodeEntries, hk, hv, hpushed]
      rfl
    · intro shortest depth hdepth after
      rw [List.length_append, List.length_append] at hdepth
      rw [CborMap.size, Cbor.readEntries, List.append_assoc, List.append_assoc]
      simp only [hkey.read shortest depth (by omega), hvalue.read shortest depth (by omega),
        hrest shortest depth (by omega), Option.bind_eq_bind, Option.bind_some]
      rfl

end

/-- A key whose text has no half of a pair alone. -/
def CborKey.IsText : CborKey → Prop
  | .number _ => True
  | .text t => JsText.isWellFormed t = true

mutual

/-- A value whose texts have no half of a pair alone. -/
def CborValue.IsText : CborValue → Prop
  | .number _ | .bytes _ => True
  | .text t => JsText.isWellFormed t = true
  | .map entries => entries.IsText

/-- Entries whose texts have no half of a pair alone. -/
def CborMap.IsText : CborMap → Prop
  | .empty => True
  | .entry key value rest => key.IsText ∧ value.IsText ∧ rest.IsText

end

mutual

/-- Nothing is replaced in such a value. -/
theorem CborValue.wellFormed_eq : ∀ value : CborValue, value.IsText → value.wellFormed = value
  | .number _, _ => rfl
  | .bytes _, _ => rfl
  | .text t, h => congrArg CborValue.text ((toWellFormed_eq_iff t).mpr h)
  | .map entries, h => congrArg CborValue.map (CborMap.wellFormed_eq entries h)

/-- Nor in such entries. -/
theorem CborMap.wellFormed_eq : ∀ entries : CborMap, entries.IsText → entries.wellFormed = entries
  | .empty, _ => rfl
  | .entry key value rest, h => by
    have hkey : key.wellFormed = key := by
      cases key with
      | number n => rfl
      | text t => exact congrArg CborKey.text ((toWellFormed_eq_iff t).mpr h.1)
    rw [CborMap.wellFormed, hkey, CborValue.wellFormed_eq value h.2.1,
      CborMap.wellFormed_eq rest h.2.2]

end

/-- What a decoder reads when nothing follows. -/
theorem DecodesTo.decode {bytes : Bytes} {item : Cbor.Item} (h : DecodesTo bytes item)
    (shortest : Bool) : Cbor.decode shortest bytes = some (item, []) := by
  have hread := h.read shortest bytes.length (Nat.le_refl _) []
  rwa [List.append_nil] at hread

/-- Bytes that decode to an item are no proper beginning of others that do. -/
theorem DecodesTo.eq_of_prefix {bytes bytes' : Bytes} {item item' : Cbor.Item}
    (h : DecodesTo bytes item) (h' : DecodesTo bytes' item') (hfront : bytes <+: bytes') :
    bytes = bytes' := by
  obtain ⟨rest, rfl⟩ := hfront
  have hlength : bytes.length ≤ (bytes ++ rest).length := by
    rw [List.length_append]
    omega
  have hshort := h.read true _ hlength rest
  have hlong := h'.read true _ (Nat.le_refl _) []
  rw [List.append_nil, hshort, Option.some.injEq, Prod.mk.injEq] at hlong
  rw [hlong.2, List.append_nil]

/-- The parts of authenticator data for a new credential. -/
structure AuthenticatorData where
  rpIdHash : Bytes
  flags : UInt8
  signCount : Nat
  aaguid : Bytes
  credentialId : Bytes
  publicKey : Bytes
  deriving DecidableEq

/-- Authenticator data that says that it has a credential. -/
def parseAuthenticatorData (bytes : Bytes) : Option AuthenticatorData := do
  let (rpIdHash, bytes) ← Cbor.readBytes 32 bytes
  let (flags, bytes) ← Cbor.readBytes 1 bytes
  let (signCount, bytes) ← Cbor.readBytes 4 bytes
  guard (flags.all fun b => b &&& flagAt = flagAt)
  let (aaguid, bytes) ← Cbor.readBytes 16 bytes
  let (length, bytes) ← Cbor.readBytes 2 bytes
  let (credentialId, publicKey) ← Cbor.readBytes (ofBigEndian length) bytes
  some
    { rpIdHash := rpIdHash
      flags := flags.headD 0
      signCount := ofBigEndian signCount
      aaguid := aaguid
      credentialId := credentialId
      publicKey := publicKey }

/-- The value under a text in a map. -/
def lookupText (name : JsText) : List (Cbor.Item × Cbor.Item) → Option Cbor.Item
  | [] => none
  | (.text key, value) :: rest => if key = name then some value else lookupText name rest
  | _ :: rest => lookupText name rest

/-- The parts of an attestation object. -/
structure AttestationObject where
  fmt : JsText
  attStmt : List (Cbor.Item × Cbor.Item)
  authData : AuthenticatorData

/-- An attestation object and nothing else. -/
def parseAttestationObject (shortest : Bool) (bytes : Bytes) : Option AttestationObject :=
  match Cbor.decode shortest bytes with
  | some (.map entries, []) =>
    match lookupText (js "fmt") entries, lookupText (js "attStmt") entries,
        lookupText (js "authData") entries with
    | some (.text fmt), some (.map attStmt), some (.bytes authData) =>
      (parseAuthenticatorData authData).map fun authData =>
        { fmt := fmt, attStmt := attStmt, authData := authData }
    | _, _, _ => none
  | _ => none

/-- The parts that authenticator data is built from. -/
def authenticatorDataOf (sha256 : Sha256) (rpId : JsText) (flags : UInt8) (signCount : Nat)
    (attested : AttestedCredential) : AuthenticatorData where
  rpIdHash := sha256.digest (encodeUtf8 rpId)
  flags := flags ||| flagAt
  signCount := signCount
  aaguid := aaguid
  credentialId := attested.credentialId
  publicKey := attested.cosePublicKey

/-- A flag that was set is set. -/
theorem or_and_flagAt (flags : UInt8) : (flags ||| flagAt) &&& flagAt = flagAt := by
  have key : ∀ n : Fin 256, (UInt8.ofNat n ||| flagAt) &&& flagAt = flagAt := by decide +kernel
  have hflags := key ⟨flags.toNat, flags.toNat_lt⟩
  rwa [UInt8.ofNat_toNat] at hflags

/-- Some bytes at the front of others are read back. -/
theorem readBytes_front {count : Nat} {front : Bytes} (h : front.length = count) (rest : Bytes) :
    Cbor.readBytes count (front ++ rest) = some (front, rest) := by
  rw [← h, Cbor.readBytes_append]

/-- The parts are read back. -/
theorem parseAuthenticatorData_build (sha256 : Sha256) (rpId : JsText) (flags : UInt8)
    {signCount : Nat} (hcount : signCount < 2 ^ 32) {attested : AttestedCredential}
    (hid : attested.credentialId.length < 65536) :
    parseAuthenticatorData (buildAuthenticatorData sha256 rpId flags signCount (some attested)) =
      some (authenticatorDataOf sha256 rpId flags signCount attested) := by
  have hbytes : buildAuthenticatorData sha256 rpId flags signCount (some attested) =
      sha256.digest (encodeUtf8 rpId) ++ ([flags ||| flagAt] ++ (bigEndian 4 signCount ++
        (aaguid ++ (bigEndian 2 attested.credentialId.length ++
          (attested.credentialId ++ attested.cosePublicKey))))) := by
    simp [buildAuthenticatorData]
  have hflag : ([flags ||| flagAt].all fun b => b &&& flagAt = flagAt) = true := by
    simp [or_and_flagAt]
  have hsign : ofBigEndian (bigEndian 4 signCount) = signCount := ofBigEndian_bigEndian hcount
  have hlength : ofBigEndian (bigEndian 2 attested.credentialId.length) =
      attested.credentialId.length := ofBigEndian_bigEndian hid
  have hone : ([flags ||| flagAt] : Bytes).length = 1 := rfl
  have hsixteen : aaguid.length = 16 := rfl
  rw [hbytes, parseAuthenticatorData]
  simp only [readBytes_front (sha256.length_digest _), Option.bind_eq_bind, Option.bind_some,
    readBytes_front hone, readBytes_front (length_bigEndian 4 _), hflag, guard, if_true,
    readBytes_front hsixteen, readBytes_front (length_bigEndian 2 _), hlength,
    Cbor.readBytes_append, hsign]
  rfl

/-- The attestation object of some authenticator data as a map. -/
def attestationMap (authData : Bytes) : CborMap :=
  .entry (.text (js "fmt")) (.text (js "none"))
    (.entry (.text (js "attStmt")) (.map .empty)
      (.entry (.text (js "authData")) (.bytes authData) .empty))

/-- It is within the writer's range, and its texts are written as they are. -/
theorem attestationMap_facts {authData : Bytes} (h : authData.length < 2 ^ 32) :
    (CborValue.map (attestationMap authData)).InRange ∧
      (CborValue.map (attestationMap authData)).IsText := by
  have hkeys : ∀ t ∈ [js "fmt", js "none", js "attStmt", js "authData"],
      (encodeUtf8 t).length < 2 ^ 32 ∧ JsText.isWellFormed t = true := by decide
  simp only [List.forall_mem_cons] at hkeys
  obtain ⟨hfmt, hnone, hstmt, hdata, _⟩ := hkeys
  have hsize : (attestationMap authData).size < 2 ^ 32 := by
    have hthree : (attestationMap authData).size = 3 := rfl
    omega
  constructor
  · exact ⟨hsize, hfmt.1, hnone.1, hstmt.1, ⟨Nat.two_pow_pos 32, trivial⟩, hdata.1, h, trivial⟩
  · exact ⟨hfmt.2, hnone.2, hstmt.2, trivial, hdata.2, trivial, trivial⟩

/-- The parts of an attestation object are read back. -/
theorem parseAttestationObject_build (sha256 : Sha256) (rpId : JsText) (flags : UInt8)
    {signCount : Nat} (hcount : signCount < 2 ^ 32) {attested : AttestedCredential}
    (hid : attested.credentialId.length < 65536)
    (hlength : (buildAuthenticatorData sha256 rpId flags signCount (some attested)).length < 2 ^ 32) :
    ∃ bytes, buildAttestationObject
        (buildAuthenticatorData sha256 rpId flags signCount (some attested)) = .ok bytes ∧
      ∀ shortest, parseAttestationObject shortest bytes = some
        { fmt := js "none"
          attStmt := []
          authData := authenticatorDataOf sha256 rpId flags signCount attested } := by
  have hparts := parseAuthenticatorData_build sha256 rpId flags hcount hid
  generalize buildAuthenticatorData sha256 rpId flags signCount (some attested) = authData
    at hlength hparts ⊢
  obtain ⟨hrange, htext⟩ := attestationMap_facts hlength
  obtain ⟨bytes, hbytes, hdecodes⟩ := decodesTo_value _ hrange
  rw [CborValue.wellFormed_eq _ htext] at hdecodes
  refine ⟨bytes, hbytes, fun shortest => ?_⟩
  have hitem : (CborValue.map (attestationMap authData)).item = .map
      [(.text (js "fmt"), .text (js "none")), (.text (js "attStmt"), .map []),
        (.text (js "authData"), .bytes authData)] := rfl
  have hstmt : js "fmt" ≠ js "attStmt" := by decide
  have hdata : js "fmt" ≠ js "authData" ∧ js "attStmt" ≠ js "authData" := by decide
  rw [parseAttestationObject, hdecodes.decode shortest, hitem]
  simp only [lookupText, if_true, hstmt, hdata.1, hdata.2, if_false, hparts, Option.map_some]

/-- What the writers of a passkey are for. -/
structure WritersReadBack (sha256 : Sha256) : Prop where
  /-- A decoder reads a value back and nothing more, with each head in its shortest form. -/
  value : ∀ value : CborValue, value.InRange → ∃ bytes, cborEncode value = .ok bytes ∧
    ∀ shortest, Cbor.decode shortest bytes = some (value.wellFormed.item, [])
  /-- Where no half of a pair stands alone, the value that was given. -/
  text : ∀ value : CborValue, value.IsText → value.wellFormed = value
  /-- No encoding is a proper beginning of another. -/
  apart : ∀ value value' : CborValue, value.InRange → value'.InRange → ∀ bytes bytes',
    cborEncode value = .ok bytes → cborEncode value' = .ok bytes' → bytes <+: bytes' →
      bytes = bytes'
  attestation : ∀ rpId flags signCount attested, signCount < 2 ^ 32 →
    attested.credentialId.length < 65536 →
    (buildAuthenticatorData sha256 rpId flags signCount (some attested)).length < 2 ^ 32 →
    ∃ bytes, buildAttestationObject
        (buildAuthenticatorData sha256 rpId flags signCount (some attested)) = .ok bytes ∧
      ∀ shortest, parseAttestationObject shortest bytes = some
        { fmt := js "none"
          attStmt := []
          authData := authenticatorDataOf sha256 rpId flags signCount attested }

end Nopass
