import Nopass.Client.AccountKey
import Nopass.Core.Stateful

/-!
# Envelopes of vault items

The legacy form is a ciphertext with a MAC. The current form is a version byte, a
revision and a ciphertext whose associated data names the owner scope, the item, its
type and the revision. A store of the highest revisions seen refuses older ones.
-/

namespace Nopass

/-- A key of the Web Crypto API, for one algorithm. -/
inductive CryptoKey where
  | aesGcm (bytes : Bytes)
  | hmac (bytes : Bytes)
  deriving DecidableEq

/-- What the clients take from the browser for items with plaintexts of type `P`. -/
structure ItemCrypto (P : Type) where
  aes : Aead
  /-- HMAC-SHA256: key, message. -/
  hmacSign : Bytes → Bytes → Bytes
  /-- `type` of a plaintext, when it has one. -/
  typeOf : P → Option String
  /-- `JSON.stringify`, then UTF-8. -/
  serialize : P → Bytes
  /-- UTF-8, then `JSON.parse`. -/
  parse : Bytes → Option P

/-- `EncryptedBlob`. -/
structure EncryptedBlob where
  blob : String
  blobIv : String
  blobMac : String
  deriving DecidableEq

/-- `EncryptedVaultItem`, an item as the server serves it. -/
structure EncryptedVaultItem extends EncryptedBlob where
  id : String
  vaultId : String
  /-- None for a personal item. -/
  orgId : Option String := none
  itemType : String
  version : Int := 1
  deletedAt : Option String := none
  deriving DecidableEq

/-- `ItemScope`. -/
inductive ItemScope where
  | personal
  | org (orgId : String)
  deriving DecidableEq

/-- `ItemBinding`: what an envelope is bound to. -/
structure ItemBinding where
  scope : ItemScope
  itemId : String
  itemType : String
  deriving DecidableEq

/-- What these functions throw. -/
inductive ItemError where
  | legacyItemRejected (itemId : String)
  | itemRollback (itemId : String) (revision highestSeen : Nat)
  | other (message : String)
  deriving DecidableEq

/-- `message` of an error. -/
def ItemError.message : ItemError → String
  | .legacyItemRejected itemId => "vault item " ++ itemId ++ " was served in the old v1 format " ++
      "after this account finished moving to v2 — refusing it"
  | .itemRollback itemId revision highestSeen => "vault item " ++ itemId ++
      " was served at revision " ++ toString revision ++ ", older than revision " ++
      toString highestSeen ++ " seen before — refusing a possible rollback"
  | .other message => message

/-- `MemoryRevisionStore`: the highest revision seen of each item, and whether legacy items are
refused. -/
structure MemoryRevisionStore where
  revisions : String → Option Nat
  legacyClosed : Bool

namespace MemoryRevisionStore

/-- `record`: the store after a change, none when the revision is not above the stored one. -/
def record? (store : MemoryRevisionStore) (itemId : String) (revision : Nat) :
    Option MemoryRevisionStore :=
  if (store.revisions itemId).any (revision ≤ ·) then none
  else some { store with
    revisions := fun id => if id = itemId then some revision else store.revisions id }

/-- The store after `record`. -/
def record (store : MemoryRevisionStore) (itemId : String) (revision : Nat) :
    MemoryRevisionStore :=
  (store.record? itemId revision).getD store

/-- `markV2Only`: the store after a change, none when it was marked before. -/
def markV2Only? (store : MemoryRevisionStore) : Option MemoryRevisionStore :=
  if store.legacyClosed then none else some { store with legacyClosed := true }

/-- The store after `markV2Only`. -/
def markV2Only (store : MemoryRevisionStore) : MemoryRevisionStore :=
  store.markV2Only?.getD store

/-- What a revision that is recorded does to another. -/
@[simp] theorem revisions_record (store : MemoryRevisionStore) (itemId : String) (revision : Nat)
    (id : String) : (store.record itemId revision).revisions id =
      if id = itemId then some (max ((store.revisions itemId).getD revision) revision)
      else store.revisions id := by
  rw [record, record?]
  cases hr : store.revisions itemId with
  | none => simp
  | some highest =>
    by_cases hle : revision ≤ highest
    · rw [Option.any_some, if_pos (decide_eq_true hle)]
      split
      · rename_i h
        rw [h, Option.getD_none, hr, Option.getD_some, Nat.max_eq_left hle]
      · rfl
    · rw [Option.any_some, if_neg (by simpa using hle)]
      simp [Nat.max_eq_right (Nat.le_of_not_le hle)]

@[simp] theorem legacyClosed_record (store : MemoryRevisionStore) (itemId : String)
    (revision : Nat) : (store.record itemId revision).legacyClosed = store.legacyClosed := by
  rw [record, record?]
  split
  · rfl
  · rfl

@[simp] theorem revisions_markV2Only (store : MemoryRevisionStore) :
    store.markV2Only.revisions = store.revisions := by
  rw [markV2Only, markV2Only?]
  split
  · rfl
  · rfl

@[simp] theorem legacyClosed_markV2Only (store : MemoryRevisionStore) :
    store.markV2Only.legacyClosed = true := by
  rw [markV2Only, markV2Only?]
  split
  · rename_i h
    exact h
  · rfl

end MemoryRevisionStore

/-- A program on the revision store, when there is one. -/
abbrev Items (α : Type) := EStateM ItemError (Option MemoryRevisionStore) α

/-- A step that uses no store. -/
def liftItem {α : Type} : Client α → Items α
  | .ok a => pure a
  | .error e => throw (.other e)

/-- `bindingForItem`. -/
def bindingForItem (item : EncryptedVaultItem) : ItemBinding where
  scope := match truthy item.orgId with
    | some orgId => .org orgId
    | none => .personal
  itemId := item.id
  itemType := item.itemType

/-- `isLegacyItemBlob`. -/
def isLegacyItemBlob (blob : EncryptedBlob) : Bool := blob.blobMac ≠ ""

/-- `Number.MAX_SAFE_INTEGER`. -/
def maxSafeInteger : Nat := 2 ^ 53 - 1

/-- `u64be`. -/
def u64be (n : Nat) : Client Bytes := do
  throwUnless (decide (n ≤ maxSafeInteger)) ("invalid revision: " ++ toString n)
  pure (bigEndian 8 n)

/-- The bytes of a scope. -/
def ItemScope.bytes : ItemScope → Client Bytes
  | .personal => pure [0]
  | .org orgId => do
    let org ← orThrow ("not a UUID: " ++ orgId) (uuidBytes orgId)
    pure (1 :: org)

/-- `itemAad`. -/
def itemAad (binding : ItemBinding) (revision : Nat) : Client Bytes := do
  let type := utf8 binding.itemType
  throwUnless (decide (type.length ≤ 255)) "item type too long"
  let scope ← binding.scope.bytes
  let item ← orThrow ("not a UUID: " ++ binding.itemId) (uuidBytes binding.itemId)
  let revision ← u64be revision
  pure (utf8 "nopwd-item" ++ [0, 2] ++ scope ++ item ++ [UInt8.ofNat type.length] ++ type ++
    revision)

/-- The two forms of an envelope. -/
inductive ItemFormat where
  | v1
  | v2
  deriving DecidableEq

/-- `DecryptedItem`. -/
structure DecryptedItem (P : Type) where
  plaintext : P
  /-- 0 for a legacy blob. -/
  revision : Nat
  format : ItemFormat

section Functions

variable {P : Type} (c : ItemCrypto P)

/-- `crypto.subtle.encrypt` with AES-GCM. -/
def ItemCrypto.seal (key : CryptoKey) (iv ad text : Bytes) : Client Bytes :=
  match key with
  | .aesGcm bytes => .ok (c.aes.encrypt bytes iv ad text)
  | .hmac _ => .error "InvalidAccessError"

/-- `crypto.subtle.decrypt` with AES-GCM. -/
def ItemCrypto.unseal (key : CryptoKey) (iv ad ciphertext : Bytes) : Client Bytes :=
  match key with
  | .aesGcm bytes => orThrow "OperationError" (c.aes.decrypt bytes iv ad ciphertext)
  | .hmac _ => .error "InvalidAccessError"

/-- `crypto.subtle.verify` with HMAC. -/
def ItemCrypto.verifyMac (key : CryptoKey) (mac data : Bytes) : Client Bool :=
  match key with
  | .hmac bytes => .ok (decide (c.hmacSign bytes data = mac))
  | .aesGcm _ => .error "InvalidAccessError"

/-- `atob`, which throws. -/
def decodeBytes (text : String) : Client Bytes :=
  orThrow "InvalidCharacterError" (Base64.atob text)

/-- `decryptItem`: the legacy form. -/
def decryptItem (encrypted : EncryptedBlob) (vaultEncKey vaultMacKey : CryptoKey) : Client P := do
  let iv ← decodeBytes encrypted.blobIv
  let ciphertext ← decodeBytes encrypted.blob
  let mac ← decodeBytes encrypted.blobMac
  let valid ← c.verifyMac vaultMacKey mac (iv ++ ciphertext)
  throwUnless valid "MAC verification failed — vault item may have been tampered with"
  let text ← c.unseal vaultEncKey iv [] ciphertext
  orThrow "SyntaxError" (c.parse text)

/-- `encryptItemV2`, with the random IV. -/
def encryptItemV2 (plaintext : P) (binding : ItemBinding) (revision : Nat) (vaultEncKey : CryptoKey)
    (iv : Bytes) : Client EncryptedBlob := do
  throwUnless (decide (c.typeOf plaintext = some binding.itemType))
    ("item type mismatch: plaintext is " ++ (c.typeOf plaintext).getD "undefined" ++
      ", binding is " ++ binding.itemType)
  let ad ← itemAad binding revision
  let ciphertext ← c.seal vaultEncKey iv ad (c.serialize plaintext)
  let header ← u64be revision
  pure { blob := Base64.encode (2 :: (header ++ ciphertext)), blobIv := Base64.encode iv
         blobMac := "" }

/-- The current form: the part of `decryptVaultItem` that opens it. -/
def decryptItemV2 (encrypted : EncryptedBlob) (binding : ItemBinding) (vaultEncKey : CryptoKey) :
    Client (DecryptedItem P) := do
  let blob ← decodeBytes encrypted.blob
  throwUnless (decide (9 < blob.length) && decide (blob.head? = some 2))
    ("vault item " ++ binding.itemId ++ " has an unknown envelope format")
  let revision := ofBigEndian ((blob.drop 1).take 8)
  throwUnless (decide (revision ≤ maxSafeInteger))
    ("vault item " ++ binding.itemId ++ " has an out-of-range revision")
  let iv ← decodeBytes encrypted.blobIv
  let ad ← itemAad binding revision
  let text ← (c.unseal vaultEncKey iv ad (blob.drop 9)).mapError fun _ => "vault item " ++
    binding.itemId ++ " failed authentication — it may have been tampered with or moved"
  let plaintext ← orThrow "SyntaxError" (c.parse text)
  pure { plaintext := plaintext, revision := revision, format := .v2 }

/-- The keys of a vault. -/
structure VaultKeys where
  vaultEncKey : CryptoKey
  vaultMacKey : CryptoKey

/-- What an envelope holds, before it is held against its binding and the store. -/
def openEnvelope (encrypted : EncryptedBlob) (binding : ItemBinding) (keys : VaultKeys) :
    Client (DecryptedItem P) :=
  if isLegacyItemBlob encrypted then do
    let plaintext ← decryptItem c encrypted keys.vaultEncKey keys.vaultMacKey
    pure { plaintext := plaintext, revision := 0, format := .v1 }
  else decryptItemV2 c encrypted binding keys.vaultEncKey

/-- `revisions?.v2Only`. -/
def getV2Only : Items Bool := fun s => .ok (s.any (·.legacyClosed)) s

/-- `revisions?.get`. -/
def getRevision (itemId : String) : Items (Option Nat) := fun s =>
  .ok (s.bind (·.revisions itemId)) s

/-- `revisions?.record`. -/
def recordRevision (itemId : String) (revision : Nat) : Items Unit := fun s =>
  .ok () (s.map (·.record itemId revision))

/-- `decryptVaultItem`. -/
def decryptVaultItem (encrypted : EncryptedBlob) (binding : ItemBinding) (keys : VaultKeys) :
    Items (DecryptedItem P) := do
  let v2Only ← getV2Only
  .throwUnless (!(isLegacyItemBlob encrypted && v2Only)) (.legacyItemRejected binding.itemId)
  let result ← liftItem (openEnvelope c encrypted binding keys)
  .throwUnless (decide (c.typeOf result.plaintext = some binding.itemType))
    (.other ("vault item " ++ binding.itemId ++ " type does not match its contents"))
  let highest ← getRevision binding.itemId
  .throwUnless (highest.all (· ≤ result.revision))
    (.itemRollback binding.itemId result.revision (highest.getD 0))
  recordRevision binding.itemId result.revision
  pure result

/-- `encryptVaultItem`: the next revision, above what the store and the replaced blob hold. -/
def encryptVaultItem (plaintext : P) (binding : ItemBinding) (vaultEncKey : CryptoKey)
    (current : Option Nat) (iv : Bytes) : Items (EncryptedBlob × Nat) := do
  let highest ← getRevision binding.itemId
  let revision := max (highest.getD 0) (current.getD 0) + 1
  let encrypted ← liftItem (encryptItemV2 c plaintext binding revision vaultEncKey iv)
  pure (encrypted, revision)

variable {c}

theorem liftItem_eq_ok {α : Type} {x : Client α} {s s' : Option MemoryRevisionStore} {a : α} :
    liftItem x s = .ok a s' ↔ x = .ok a ∧ s' = s := by
  cases x with
  | error e => simp [liftItem]
  | ok b =>
    rw [liftItem, EStateM.pure_eq_ok, Except.ok.injEq]
    exact and_congr_left fun _ => eq_comm

/-- What decryption accepts, and what it records. -/
theorem decryptVaultItem_ok_iff {encrypted : EncryptedBlob} {binding : ItemBinding}
    {keys : VaultKeys} {s s' : Option MemoryRevisionStore} {result : DecryptedItem P} :
    decryptVaultItem c encrypted binding keys s = .ok result s' ↔
      (isLegacyItemBlob encrypted && s.any (·.legacyClosed)) = false ∧
      openEnvelope c encrypted binding keys = .ok result ∧
      c.typeOf result.plaintext = some binding.itemType ∧
      (∀ highest ∈ s.bind (·.revisions binding.itemId), highest ≤ result.revision) ∧
      s' = s.map (·.record binding.itemId result.revision) := by
  simp only [decryptVaultItem, EStateM.bind_eq_ok, EStateM.throwUnless_eq_ok, liftItem_eq_ok,
    EStateM.pure_eq_ok]
  constructor
  · rintro ⟨v2Only, _, hv2, _, _, ⟨hlegacy, rfl⟩, r, _, ⟨hopen, rfl⟩, _, _, ⟨htype, rfl⟩, highest,
      _, hget, _, _, ⟨hhigh, rfl⟩, _, _, hrecord, rfl, rfl⟩
    cases hv2
    cases hget
    cases hrecord
    refine ⟨(Bool.not_eq_true' _).mp hlegacy, hopen, of_decide_eq_true htype, ?_, rfl⟩
    intro highest hh
    rw [Option.mem_def.mp hh] at hhigh
    exact of_decide_eq_true hhigh
  · rintro ⟨hlegacy, hopen, htype, hhigh, rfl⟩
    refine ⟨_, s, rfl, (), s, ⟨(Bool.not_eq_true' _).mpr hlegacy, rfl⟩, result, s, ⟨hopen, rfl⟩, (), s,
      ⟨decide_eq_true htype, rfl⟩, _, s, rfl, (), s, ⟨?_, rfl⟩, (), _, rfl, rfl, rfl⟩
    cases hrev : s.bind (·.revisions binding.itemId) with
    | none => rfl
    | some highest => exact decide_eq_true (hhigh highest hrev)

end Functions

end Nopass
