import Nopass.Client.TrustState
import Nopass.Client.OrgTrust

/-!
# Building a rotation of an organization's key

The owner's device makes a new key, encrypts every item again, and signs a wrap of the new
key for every member who remains. What the device has seen of the organization before and
the server no longer lists has to be acknowledged first.
-/

namespace Nopass

/-- What the clients take from their libraries to sign and to wrap. -/
structure SigningCrypto extends IdentityCrypto where
  aes : Aead
  /-- HKDF-SHA256 of a private key, for the identity key. -/
  hkdf : Bytes → Bytes
  /-- `ed25519.getPublicKey`. -/
  getPublicKey : Bytes → Bytes
  /-- `ed25519.sign`: message, key. -/
  sign : Bytes → Bytes → Bytes
  /-- The public key of an RSA private key; throws on what is none. -/
  exportPublic : Bytes → Client Bytes
  /-- RSA-OAEP under a public key, with the random seed. -/
  rsaEncrypt : Bytes → Bytes → Bytes → Client Bytes

/-- `IdentityKey`. -/
structure IdentityKey where
  secretKey : Bytes
  publicKey : String
  rsaPublicKey : String

/-- An owner's private key as it is stored, and the key it is encrypted under. -/
structure ProtectedIdentity where
  protectedPrivateKey : String
  protectedPrivateKeyIv : String
  stretchedMasterKey : CryptoKey

/-- `OrgMember`: a member as the server lists them. -/
structure OrgMember where
  userId : String
  role : String
  publicKey : Option String
  identityPublicKey : Option String
  publicKeySignature : Option String

/-- A wrap as it is uploaded. -/
structure ResignedWrap where
  userId : String
  encryptedOrgKey : String
  wrapSignature : String
  keyEpoch : JsNumber

/-- `ResignInput`; the pins are in the state. -/
structure ResignInput where
  orgId : String
  epoch : JsNumber
  ownerUserId : String
  orgKey : CryptoKey
  members : List OrgMember
  identity : ProtectedIdentity

/-- `decryptBytes`. -/
def decryptBytes (aes : Aead) (encrypted : EncryptedBlob) (key : CryptoKey) : Client Bytes := do
  let iv ← fromBase64 encrypted.blobIv
  let ciphertext ← fromBase64 encrypted.blob
  match key with
  | .aesGcm bytes => orThrow "OperationError" (aes.decrypt bytes iv [] ciphertext)
  | .hmac _ => .error "InvalidAccessError"

/-- The bytes of a key. -/
def exportRaw : CryptoKey → Bytes
  | .aesGcm bytes | .hmac bytes => bytes

section Wraps

variable (c : SigningCrypto)

/-- `deriveIdentityKey`. -/
def deriveIdentityKey (identity : ProtectedIdentity) : Client IdentityKey := do
  let pkcs8 ← decryptBytes c.aes { blob := identity.protectedPrivateKey
                                   blobIv := identity.protectedPrivateKeyIv
                                   blobMac := "" } identity.stretchedMasterKey
  let secretKey := c.hkdf pkcs8
  let spki ← c.exportPublic pkcs8
  pure { secretKey := secretKey
         publicKey := Base64.encode (c.getPublicKey secretKey)
         rsaPublicKey := Base64.encode spki }

/-- `encryptOrgKeyForMember`, with the random seed. -/
def encryptOrgKeyForMember (orgKey : CryptoKey) (recipientPublicKey : String) (seed : Bytes) :
    Client String := do
  let spki ← fromBase64 recipientPublicKey
  let encrypted ← c.rsaEncrypt spki (exportRaw orgKey) seed
  pure (Base64.encode encrypted)

/-- `signOrgKeyWrap`. -/
def signOrgKeyWrap (wrap : OrgKeyWrap) (secretKey : Bytes) : Client String := do
  let message ← wrapMessage wrap
  pure (Base64.encode (c.sign message secretKey))

/-- The RSA key that a member's wrap is made for, none for a member who is skipped. -/
def wrapKey (ownerUserId : String) (identity : IdentityKey) (m : OrgMember) :
    Trust (Option String) :=
  if m.userId = ownerUserId then pure (some identity.rsaPublicKey)
  else match truthy m.publicKey with
    | none => pure none
    | some publicKey => tryCatch (do
        let verified ← verifyMemberKey c.toIdentityCrypto
          { userId := m.userId
            publicKey := publicKey
            identityPublicKey := m.identityPublicKey
            publicKeySignature := m.publicKeySignature }
        pure (if verified.firstSeen then none else some verified.rsaPublicKey)) fun _ => pure none

/-- The wrap for one member. -/
def resignWrap (input : ResignInput) (identity : IdentityKey) (m : OrgMember)
    (rsaPublicKey : String) (seed : Bytes) : Client ResignedWrap := do
  let encryptedOrgKey ← encryptOrgKeyForMember c input.orgKey rsaPublicKey seed
  let wrapSignature ← signOrgKeyWrap c
    { orgId := input.orgId
      epoch := input.epoch
      recipientUserId := m.userId
      signerUserId := input.ownerUserId
      role := m.role
      encryptedOrgKey := encryptedOrgKey } identity.secretKey
  pure { userId := m.userId
         encryptedOrgKey := encryptedOrgKey
         wrapSignature := wrapSignature
         keyEpoch := input.epoch }

/-- The wraps and the ids of who was skipped. -/
structure ResignedWraps where
  wraps : List ResignedWrap
  skipped : List String

/-- One turn of the loop of `buildResignedWraps`, with the random seeds. -/
def resignMember (input : ResignInput) (identity : IdentityKey) (seeds : Nat → Bytes)
    (done : ResignedWraps) (m : OrgMember) : Trust ResignedWraps := do
  match ← wrapKey c input.ownerUserId identity m with
  | none => pure { done with skipped := done.skipped ++ [m.userId] }
  | some rsaPublicKey =>
    let wrap ← liftClient (resignWrap c input identity m rsaPublicKey (seeds done.wraps.length))
    pure { done with wraps := done.wraps ++ [wrap] }

/-- `buildResignedWraps`. -/
def buildResignedWraps (input : ResignInput) (seeds : Nat → Bytes) : Trust ResignedWraps := do
  let identity ← liftClient (deriveIdentityKey c input.identity)
  input.members.foldlM (resignMember c input identity seeds) { wraps := [], skipped := [] }

end Wraps

/-- `RotationInput`; the pins and the revisions are in the state. -/
structure RotationInput where
  orgId : String
  ownerUserId : String
  currentEpoch : JsNumber
  oldKey : CryptoKey
  /-- Every item that the server listed. -/
  items : List EncryptedVaultItem
  /-- Every member that the server listed. -/
  members : List OrgMember
  removeUserId : Option String
  /-- What this device saw of the organization before. -/
  known : OrgLedgerEntry
  /-- What the owner chose to delete. -/
  dropItemIds : List String
  /-- What the owner acknowledged as gone. -/
  acknowledgedGone : OrgLedgerEntry
  identity : ProtectedIdentity

/-- An item as it is uploaded. -/
structure MovedItem extends EncryptedBlob where
  id : String

/-- `RotateKeyRequest` without the member to remove, which is added when it is sent. -/
structure RotateKeyRequest where
  newEpoch : JsNumber
  wraps : List ResignedWrap
  items : List MovedItem
  deleteItemIds : Option (List String)

/-- `RotationPlan`. -/
structure RotationPlan where
  request : RotateKeyRequest
  revisions : List (String × Nat)
  keepsAccess : List String
  losesAccess : List String
  acknowledgedGone : OrgLedgerEntry

/-- What `buildRotation` throws. -/
inductive RotationError where
  | rotationSetIncomplete (missingItems missingMembers : List String)
  | unconfirmedMembers (userIds : List String)
  | undecryptableItems (itemIds : List String)
  | trust (e : TrustError)
  | item (e : ItemError)

/-- The pins and the revisions that a rotation is built on. -/
structure RotationStores where
  trust : TrustStores
  revisions : Option MemoryRevisionStore

/-- A program on both stores. -/
abbrev RotationBuild (α : Type) := EStateM RotationError RotationStores α

/-- A step on the pins. -/
def onTrust {α : Type} (x : Trust α) : RotationBuild α := fun s =>
  match x s.trust with
  | .ok a trust => .ok a { s with trust := trust }
  | .error e trust => .error (.trust e) { s with trust := trust }

/-- A step on the revisions. -/
def onRevisions {α : Type} (x : Items α) : RotationBuild α := fun s =>
  match x s.revisions with
  | .ok a revisions => .ok a { s with revisions := revisions }
  | .error e revisions => .error (.item e) { s with revisions := revisions }

/-- What is drawn at random for a rotation: the new key, the seeds of the wraps, the IVs of the
items. -/
structure RotationDraws where
  orgKey : Bytes
  seeds : Nat → Bytes
  ivs : Nat → Bytes

/-- The items that were encrypted again, their revisions, and those that do not decrypt. -/
structure MovedItems where
  items : List MovedItem
  revisions : List (String × Nat)
  undecryptable : List String

section Rotation

variable {P : Type} (c : SigningCrypto) (ic : ItemCrypto P)

/-- An item decrypted under the old key, none when it does not decrypt. -/
def readItem (input : RotationInput) (item : EncryptedVaultItem) (binding : ItemBinding) :
    Items (Option (DecryptedItem P)) :=
  tryCatch (do
    let current ← decryptVaultItem ic item.toEncryptedBlob binding
      { vaultEncKey := input.oldKey, vaultMacKey := input.oldKey }
    pure (some current)) fun _ => pure none

/-- One turn of the loop over the items, with the random IVs. -/
def moveItem (input : RotationInput) (newKey : CryptoKey) (ivs : Nat → Bytes) (done : MovedItems)
    (item : EncryptedVaultItem) : Items MovedItems :=
  if input.dropItemIds.contains item.id then pure done
  else do
    let binding := bindingForItem { item with orgId := some input.orgId }
    match ← readItem ic input item binding with
    | none => pure { done with undecryptable := done.undecryptable ++ [item.id] }
    | some current =>
      let (encrypted, revision) ← encryptVaultItem ic current.plaintext binding newKey
        (some current.revision) (ivs done.items.length)
      pure { done with
        items := done.items ++ [{ encrypted with id := item.id }]
        revisions := done.revisions ++ [(item.id, revision)] }

/-- What this device has seen and the server does not list; an item that the owner chose to delete
is not looked for. -/
def RotationInput.gone (input : RotationInput) : OrgLedgerEntry where
  items := input.known.items.filter fun id =>
    !(input.items.map (·.id)).contains id && !input.dropItemIds.contains id
  members := input.known.members.filter fun id => !(input.members.map (·.userId)).contains id

/-- What of it was not acknowledged. -/
def RotationInput.missing (input : RotationInput) : OrgLedgerEntry where
  items := input.gone.items.filter fun id => !input.acknowledgedGone.items.contains id
  members := input.gone.members.filter fun id => !input.acknowledgedGone.members.contains id

/-- The members who keep their access. -/
def RotationInput.remaining (input : RotationInput) : List OrgMember :=
  input.members.filter fun m => decide (some m.userId ≠ input.removeUserId)

/-- The items to delete: of those that the owner chose, what the server lists. -/
def RotationInput.deleteItemIds (input : RotationInput) : List String :=
  input.dropItemIds.filter fun id => (input.items.map (·.id)).contains id

/-- `buildRotation`. -/
def buildRotation (input : RotationInput) (draws : RotationDraws) : RotationBuild RotationPlan := do
  .throwUnless (input.missing.items.isEmpty && input.missing.members.isEmpty)
    (.rotationSetIncomplete input.missing.items input.missing.members)
  let newEpoch := input.currentEpoch.add 1
  let newKey := CryptoKey.aesGcm draws.orgKey
  let resigned ← onTrust (buildResignedWraps c
    { orgId := input.orgId
      epoch := newEpoch
      ownerUserId := input.ownerUserId
      orgKey := newKey
      members := input.remaining
      identity := input.identity } draws.seeds)
  .throwUnless resigned.skipped.isEmpty (.unconfirmedMembers resigned.skipped)
  let moved ← onRevisions (input.items.foldlM (moveItem ic input newKey draws.ivs)
    { items := [], revisions := [], undecryptable := [] })
  .throwUnless moved.undecryptable.isEmpty (.undecryptableItems moved.undecryptable)
  pure
    { request :=
        { newEpoch := newEpoch
          wraps := resigned.wraps
          items := moved.items
          deleteItemIds := if input.deleteItemIds.isEmpty then none else some input.deleteItemIds }
      revisions := moved.revisions
      keepsAccess := input.remaining.map (·.userId)
      losesAccess := (truthy input.removeUserId).toList
      acknowledgedGone := input.gone }

/-- What `commitRotation` makes of the ledger entry once the server accepted the rotation. -/
def RotationPlan.commit (plan : RotationPlan) (dropItemIds : List String) (e : OrgLedgerEntry) :
    OrgLedgerEntry :=
  (e.forget { items := dropItemIds ++ plan.acknowledgedGone.items
              members := plan.losesAccess ++ plan.acknowledgedGone.members }).remember
    { items := plan.request.items.map (·.id), members := plan.keepsAccess }

end Rotation

end Nopass
