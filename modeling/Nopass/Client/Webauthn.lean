import Nopass.Client.AccountKey
import Nopass.Core.Codec.Cbor
import Nopass.Core.Text.Arithmetic

/-!
# The writers of the passkey authenticator

CBOR for what an attestation object needs, and authenticator data: a head, the counter, and
for a new credential its identifier and public key. Texts are encoded as UTF-8, where a
half of a surrogate pair that stands alone becomes U+FFFD.
-/

namespace Nopass

/-- A key of a `CborMap`. -/
inductive CborKey where
  | number (n : JsNumber)
  | text (text : JsText)

mutual

/-- `CborValue`. -/
inductive CborValue where
  | number (n : JsNumber)
  | text (text : JsText)
  | bytes (bytes : Bytes)
  | map (entries : CborMap)

/-- `CborMap`: the entries in the order in which they were inserted. A `Map` has each key once, which
nothing here rests on. -/
inductive CborMap where
  | empty
  | entry (key : CborKey) (value : CborValue) (rest : CborMap)

end

/-- `size`. -/
def CborMap.size : CborMap → Nat
  | .empty => 0
  | .entry _ _ rest => rest.size + 1

/-- `cborHead`; shifts and masks see the argument modulo `2 ^ 32`. -/
def cborHead (major length : Nat) : Bytes :=
  if length < 24 then [UInt8.ofNat (major <<< 5 ||| length)]
  else if length < 0x100 then [UInt8.ofNat (major <<< 5 ||| 24), UInt8.ofNat length]
  else if length < 0x10000 then
    [UInt8.ofNat (major <<< 5 ||| 25), UInt8.ofNat (length >>> 8), UInt8.ofNat (length &&& 0xff)]
  else
    let word := length % 2 ^ 32
    [UInt8.ofNat (major <<< 5 ||| 26), UInt8.ofNat (word >>> 24 &&& 0xff),
      UInt8.ofNat (word >>> 16 &&& 0xff), UInt8.ofNat (word >>> 8 &&& 0xff),
      UInt8.ofNat (word &&& 0xff)]

/-- `encodeInto` for a number. -/
def encodeNumber (value : JsNumber) : Client Bytes := do
  let n ← orThrow "CBOR: only integers supported" value.toInt?
  if 0 ≤ n then pure (cborHead 0 n.toNat)
  else pure (cborHead 1 (((value.neg.sub 1).toInt?.getD 0).toNat))

/-- `encodeInto` for a text. -/
def encodeText (value : JsText) : Bytes :=
  let bytes := encodeUtf8 value
  cborHead 3 bytes.length ++ bytes

/-- `encodeInto` for a key. -/
def CborKey.encode : CborKey → Client Bytes
  | .number n => encodeNumber n
  | .text t => pure (encodeText t)

mutual

/-- `encodeInto`: what is pushed to `out`. -/
def encodeInto : CborValue → Client Bytes
  | .number n => encodeNumber n
  | .text t => pure (encodeText t)
  | .bytes value => pure (cborHead 2 value.length ++ value)
  | .map entries => do
    let pushed ← encodeEntries entries
    pure (cborHead 5 entries.size ++ pushed)

/-- The loop over the entries of a map. -/
def encodeEntries : CborMap → Client Bytes
  | .empty => pure []
  | .entry key value rest => do
    let k ← key.encode
    let v ← encodeInto value
    let pushed ← encodeEntries rest
    pure (k ++ v ++ pushed)

end

/-- `cborEncode`. -/
def cborEncode (value : CborValue) : Client Bytes := encodeInto value

/-- `FLAG_AT`: attested credential data included. -/
def flagAt : UInt8 := 0x40

/-- `AAGUID` of the authenticator. -/
def aaguid : Bytes :=
  [0x6e, 0x6f, 0x70, 0x77, 0x64, 0x00, 0x00, 0x00, 0x00, 0x00, 0x00, 0x00, 0x00, 0x00, 0x00, 0x01]

/-- `attested` of `buildAuthenticatorData`. -/
structure AttestedCredential where
  credentialId : Bytes
  cosePublicKey : Bytes

/-- SHA-256. -/
structure Sha256 where
  digest : Bytes → Bytes
  length_digest : ∀ bytes, (digest bytes).length = 32

/-- `buildAuthenticatorData`; a counter and a length are written modulo what fits. -/
def buildAuthenticatorData (sha256 : Sha256) (rpId : JsText) (flags : UInt8)
    (signCount : Nat) (attested : Option AttestedCredential) : Bytes :=
  let rpIdHash := sha256.digest (encodeUtf8 rpId)
  let parts := [rpIdHash, [flags ||| (if attested.isSome then flagAt else 0)],
    bigEndian 4 signCount]
  let parts := match attested with
    | some a => parts ++ [aaguid, bigEndian 2 a.credentialId.length, a.credentialId,
        a.cosePublicKey]
    | none => parts
  parts.flatten

/-- `buildAttestationObject`. -/
def buildAttestationObject (authData : Bytes) : Client Bytes :=
  cborEncode (.map (.entry (.text (js "fmt")) (.text (js "none"))
    (.entry (.text (js "attStmt")) (.map .empty)
      (.entry (.text (js "authData")) (.bytes authData) .empty))))

end Nopass
