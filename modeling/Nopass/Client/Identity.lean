import Nopass.Client.AccountKey
import Nopass.Core.Stateful
import Nopass.Core.Text.Number

/-!
# Identity keys and signed wraps of organization keys

A member's bundle is signed with their identity key, and the identity key is pinned once
the user has compared safety numbers. Each wrap of an organization key names its signer;
a chain of wraps leads from the caller's own to one that the owner signed for himself.
-/

namespace Nopass

/-- What the clients take from their libraries for identity keys. -/
structure IdentityCrypto where
  /-- `ed25519.verify` for a signature and a key of the right length: signature, message, key. -/
  verifies : Bytes → Bytes → Bytes → Bool
  sha512 : Bytes → Bytes

/-- `KeyBundle`. -/
structure KeyBundle where
  userId : String
  publicKey : String
  identityPublicKey : Option String
  publicKeySignature : Option String
  deriving DecidableEq

/-- `OrgKeyWrap`: who wrapped which epoch of an organization's key for whom. -/
structure OrgKeyWrap where
  orgId : String
  epoch : JsNumber
  recipientUserId : String
  signerUserId : String
  /-- The recipient's role, as granted by the signer. -/
  role : String
  encryptedOrgKey : String
  deriving DecidableEq

/-- `SignedWrapLink`: a wrap and the bundle of whoever signed it. -/
structure SignedWrapLink where
  wrap : OrgKeyWrap
  signature : Option String
  signer : KeyBundle
  deriving DecidableEq

/-- A signer whose identity key is not pinned. -/
structure UnconfirmedSigner where
  bundle : KeyBundle
  safetyNumber : String
  deriving DecidableEq

/-- What these functions throw. -/
inductive TrustError where
  | pinnedKeyChanged (userId : String)
  | unverifiableKey (userId reason : String)
  | untrustedOrgKey (reason : String)
  | unconfirmedSigners (signers : List UnconfirmedSigner)
  | other (message : String)
  deriving DecidableEq

/-- `message` of an error. -/
def TrustError.message : TrustError → String
  | .pinnedKeyChanged userId => "The identity key for user " ++ userId ++
      " changed since you last saw it. Do not share anything with them until you have compared " ++
      "safety numbers in person or over a trusted channel."
  | .unverifiableKey _ reason => reason
  | .untrustedOrgKey reason => reason
  | .unconfirmedSigners _ => "Confirm the safety numbers of the people who shared this " ++
      "organization's key before using it."
  | .other message => message

/-- The pins and the highest epochs that a device holds. -/
structure TrustStores where
  pins : String → Option String
  epochs : String → Option JsNumber
  /-- History: what was given to `decrypt`. -/
  decrypted : List String := []

/-- A program on the stores. -/
abbrev Trust (α : Type) := EStateM TrustError TrustStores α

/-- `pins.get`. -/
def getPin (userId : String) : Trust (Option String) := fun s => .ok (s.pins userId) s

/-- `pins.set`. -/
def setPin (userId identityKey : String) : Trust Unit := fun s =>
  .ok () { s with pins := fun id => if id = userId then some identityKey else s.pins id }

/-- `epochs.get`. -/
def getEpoch (orgId : String) : Trust (Option JsNumber) := fun s => .ok (s.epochs orgId) s

/-- `epochs.record`, which never lowers an epoch. -/
def recordEpoch (orgId : String) (epoch : JsNumber) : Trust Unit := fun s =>
  if epoch.le ((s.epochs orgId).getD 0) then .ok () s
  else .ok () { s with epochs := fun id => if id = orgId then some epoch else s.epochs id }

/-- A step that uses no store. -/
def liftClient {α : Type} : Client α → Trust α
  | .ok a => pure a
  | .error e => throw (.other e)

/-- `fromBase64`. -/
def fromBase64 (text : String) : Client Bytes :=
  orThrow "InvalidCharacterError" (Base64.atob text)

/-- `uuidBytes`, which throws. -/
def bytesOfUuid (uuid : String) : Client Bytes :=
  orThrow ("not a UUID: " ++ uuid) (uuidBytes uuid)

/-- `ed25519.verify`. -/
def IdentityCrypto.verify (c : IdentityCrypto) (signature message key : Bytes) : Client Bool := do
  throwUnless (decide (signature.length = 64)) "\"signature\" expected Uint8Array of length 64"
  throwUnless (decide (key.length = 32)) "\"publicKey\" expected Uint8Array of length 32"
  pure (c.verifies signature message key)

/-- The value of a step, false when it throws. -/
def caught : Client Bool → Bool
  | .ok ok => ok
  | .error _ => false

/-- `bundleMessage`. -/
def bundleMessage (userId rsaPublicKey : String) : Client Bytes := do
  let user ← bytesOfUuid userId
  let key ← fromBase64 rsaPublicKey
  pure (utf8 "nopwd-key-bundle-v1" ++ [0] ++ user ++ key)

/-- `verifyKeyBundle`. -/
def verifyKeyBundle (c : IdentityCrypto) (bundle : KeyBundle) : Bool :=
  match truthy bundle.identityPublicKey, truthy bundle.publicKeySignature with
  | some identityKey, some signature => caught do
    let signature ← fromBase64 signature
    let message ← bundleMessage bundle.userId bundle.publicKey
    let identityKey ← fromBase64 identityKey
    c.verify signature message identityKey
  | _, _ => false

/-- Five digits of a safety number. -/
def safetyGroup (digest : Bytes) : String :=
  let digits := toString (ofBigEndian digest % 100000)
  "".pushn '0' (5 - digits.length) ++ digits

/-- `safetyNumber`. -/
def safetyNumber (c : IdentityCrypto) (userId identityPublicKey : String) : Client String := do
  let user ← bytesOfUuid userId
  let key ← fromBase64 identityPublicKey
  let digest := Nat.iterate c.sha512 5200 (utf8 "nopwd-safety-number-v1" ++ user ++ key)
  pure (" ".intercalate ((List.range 6).map fun g => safetyGroup ((digest.drop (g * 5)).take 5)))

/-- `VerifiedKey`. -/
structure VerifiedKey where
  rsaPublicKey : String
  safetyNumber : String
  /-- The identity key is not pinned yet. -/
  firstSeen : Bool

/-- `verifyMemberKey`: the bundle signs itself and its identity key is not another than the pinned
one. -/
def verifyMemberKey (c : IdentityCrypto) (bundle : KeyBundle) : Trust VerifiedKey := do
  let identityKey ← .orThrow (.unverifiableKey bundle.userId
      "This user has not published an identity key yet. Ask them to sign in once, then try again.")
    ((truthy bundle.publicKeySignature).bind fun _ => truthy bundle.identityPublicKey)
  .throwUnless (verifyKeyBundle c bundle)
    (.unverifiableKey bundle.userId "This user's key bundle has an invalid signature.")
  let pinned ← getPin bundle.userId
  .throwUnless (pinned.all (· = identityKey)) (.pinnedKeyChanged bundle.userId)
  let number ← liftClient (safetyNumber c bundle.userId identityKey)
  pure { rsaPublicKey := bundle.publicKey, safetyNumber := number, firstSeen := pinned.isNone }

/-- `confirmKey`: pin an identity key that the user compared. -/
def confirmKey (c : IdentityCrypto) (bundle : KeyBundle) : Trust Unit := do
  let verified ← verifyMemberKey c bundle
  if verified.firstSeen then setPin bundle.userId (bundle.identityPublicKey.getD "") else pure ()

/-- `wrapMessage`: everything that a wrap's signature covers. -/
def wrapMessage (wrap : OrgKeyWrap) : Client Bytes := do
  let role := utf8 wrap.role
  throwUnless (decide (role.length ≤ 255)) "role too long"
  let epoch ← orThrow "invalid key epoch"
    (wrap.epoch.toInt?.filter fun n => decide (1 ≤ n) && decide (n ≤ 0xffffffff))
  let org ← bytesOfUuid wrap.orgId
  let recipient ← bytesOfUuid wrap.recipientUserId
  let signer ← bytesOfUuid wrap.signerUserId
  let key ← fromBase64 wrap.encryptedOrgKey
  pure (utf8 "nopwd-org-key-wrap-v2" ++ [0] ++ org ++ bigEndian 4 epoch.toNat ++ recipient ++
    signer ++ [UInt8.ofNat role.length] ++ role ++ key)

/-- `ORG_ADMIN_ROLES`. -/
def orgAdminRoles : List String := ["owner", "admin"]

/-- Whose copy of which organization's key a chain is to vouch for. -/
structure ExpectedWrap where
  orgId : String
  recipientUserId : String

/-- A wrap that its recipient signed. -/
def OrgKeyWrap.selfSigned (wrap : OrgKeyWrap) : Bool :=
  decide (wrap.signerUserId = wrap.recipientUserId)

/-- A signature over a wrap under an identity key. -/
def verifyWrap (c : IdentityCrypto) (wrap : OrgKeyWrap) (signature identityKey : String) : Bool :=
  caught do
    let signature ← fromBase64 signature
    let message ← wrapMessage wrap
    let identityKey ← fromBase64 identityKey
    c.verify signature message identityKey

/-- Where a link may stand: the owner's own at the end, any other before the link of its signer. -/
def checkPlace (link : SignedWrapLink) (next : Option SignedWrapLink) : Trust Unit :=
  if link.wrap.selfSigned then
    .throwUnless (decide (link.wrap.role = "owner") && next.isNone)
      (.untrustedOrgKey "Only the organization owner can vouch for their own key.")
  else
    .throwUnless (next.any fun next =>
        decide (next.wrap.recipientUserId = link.wrap.signerUserId) &&
          orgAdminRoles.contains next.wrap.role)
      (.untrustedOrgKey
        "This organization's key was shared by someone who is not an admin or owner.")

/-- One turn of the loop of `verifyOrgKeyChain`: a link, the next one, and the signers to confirm
so far. -/
def verifyLink (c : IdentityCrypto) (expected : ExpectedWrap) (epoch : JsNumber)
    (link : SignedWrapLink) (next : Option SignedWrapLink) (unconfirmed : List UnconfirmedSigner) :
    Trust (List UnconfirmedSigner) := do
  let signature ← .orThrow (.untrustedOrgKey ("This organization's key is not signed by whoever " ++
    "shared it. Ask the owner to re-sign the organization.")) (truthy link.signature)
  .throwUnless (decide (link.wrap.orgId = expected.orgId) && link.wrap.epoch.strictEq epoch)
    (.untrustedOrgKey "This organization's key chain mixes organizations or key versions.")
  .throwUnless (decide (link.signer.userId = link.wrap.signerUserId))
    (.untrustedOrgKey "Key chain signer mismatch.")
  checkPlace link next
  let verified ← verifyMemberKey c link.signer
  .throwUnless (verifyWrap c link.wrap signature (link.signer.identityPublicKey.getD ""))
    (.untrustedOrgKey ("This organization key's signature is invalid — it may have been " ++
      "replaced."))
  if verified.firstSeen && !unconfirmed.any (fun u => u.bundle.userId = link.signer.userId) then
    pure (unconfirmed ++ [{ bundle := link.signer, safetyNumber := verified.safetyNumber }])
  else pure unconfirmed

/-- The loop of `verifyOrgKeyChain`. -/
def verifyLinks (c : IdentityCrypto) (expected : ExpectedWrap) (epoch : JsNumber) :
    List SignedWrapLink → List UnconfirmedSigner → Trust (List UnconfirmedSigner)
  | [], unconfirmed => pure unconfirmed
  | link :: rest, unconfirmed => do
    let unconfirmed ← verifyLink c expected epoch link rest.head? unconfirmed
    verifyLinks c expected epoch rest unconfirmed

/-- `verifyOrgKeyChain`: the caller's verified wrap. -/
def verifyOrgKeyChain (c : IdentityCrypto) (chain : List SignedWrapLink)
    (expected : ExpectedWrap) : Trust OrgKeyWrap := do
  let own ← .orThrow (.untrustedOrgKey
      "The server did not return your copy of this organization's key.")
    (chain.head?.filter fun own => decide (own.wrap.orgId = expected.orgId) &&
      decide (own.wrap.recipientUserId = expected.recipientUserId))
  .throwUnless (decide (chain.length ≤ 16))
    (.untrustedOrgKey "This organization's key chain is too long.")
  let unconfirmed ← verifyLinks c expected own.wrap.epoch chain []
  let highest ← getEpoch expected.orgId
  .throwUnless (!highest.any (own.wrap.epoch.lt ·)) (.untrustedOrgKey
    ("This organization's key is older than one this device already uses — refusing a " ++
      "rollback."))
  .throwUnless unconfirmed.isEmpty (.unconfirmedSigners unconfirmed)
  pure own.wrap

/-- `WrapLink`: a link as the server serves it. -/
structure WrapLink where
  recipientUserId : String
  role : String
  encryptedOrgKey : String
  wrapSignature : Option String
  keyEpoch : Option JsNumber
  signerUserId : String
  signer : KeyBundle

/-- `chainFromServer`: a wrap without an epoch counts as unsigned. -/
def chainFromServer (orgId : String) (chain : List WrapLink) : List SignedWrapLink :=
  chain.map fun l =>
    { wrap :=
        { orgId := orgId
          epoch := l.keyEpoch.getD 0
          recipientUserId := l.recipientUserId
          signerUserId := l.signerUserId
          role := l.role
          encryptedOrgKey := l.encryptedOrgKey }
      signature := l.keyEpoch.bind fun _ => l.wrapSignature
      signer := l.signer }

end Nopass
