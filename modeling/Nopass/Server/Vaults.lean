import Mathlib.Data.List.Sort
import Nopass.Core.Text.Base64
import Nopass.Server.Schema

/-!
# Vaults and items

A vault is deleted by one statement that carries its guards: the user has another
vault and none of the vault's items is live. Items reference their vault with
`ON DELETE CASCADE`, so the statement also removes whatever items it finds there.
-/

namespace Nopass

open ReadCommitted

/-- Body of a vault creation. -/
structure CreateVaultRequest where
  nameBlob : String
  nameIv : String

/-- Body of an item update, with the version that the client holds. -/
structure UpdateVaultItemRequest where
  blob : String
  blobIv : String
  blobMac : String
  version : Int

/-- Body of an item creation. The id is optional and then chosen by the database. -/
structure CreateVaultItemRequest where
  id : Option Uuid
  itemType : VaultItemType
  blob : String
  blobIv : String
  blobMac : String

/-- Decode a base64 field or refuse it with `message`. -/
def decodeField (text message : String) : Request Bytes :=
  okOr (.badRequest message) (Base64.decode text)

@[simp] theorem reads_decodeField (text message : String) : (decodeField text message).Reads :=
  reads_okOr ..

namespace DbVaults

/-- Vaults of a user. -/
def isUserVault (userId : Uuid) (_ : Db) (v : Vault) : Bool := v.userId = userId

/-- One vault of a user. -/
def isVault (vaultId userId : Uuid) (_ : Db) (v : Vault) : Bool :=
  decide (v.id = vaultId) && decide (v.userId = userId)

/-- `SELECT COUNT(*) FROM vaults WHERE user_id = …`. -/
def countVaults (userId : Uuid) (d : Db) : Nat := (d.vaults.filter (isUserVault userId d)).length

/-- A live item of the user in the vault. -/
def isLiveIn (vaultId userId : Uuid) (i : VaultItem) : Bool :=
  decide (i.vaultId = vaultId) && decide (i.userId = userId) && i.live

/-- `list_vaults_for_user`. -/
def listVaultsForUser (userId : Uuid) : Request (List Vault) :=
  .select fun d => .ret <|
    (d.vaults.filter (isUserVault userId d)).insertionSort fun a b => a.createdAt ≤ b.createdAt

/-- `get_vault`. -/
def getVault (vaultId userId : Uuid) : Request (Option Vault) := do
  let rows ← Tables.vaults.select (isVault vaultId userId)
  pure rows.head?

@[simp] theorem reads_getVault (vaultId userId : Uuid) : (getVault vaultId userId).Reads :=
  Table.reads_select.bind fun _ => trivial

/-- `count_vaults_for_user`. -/
def countVaultsForUser (userId : Uuid) : Request Nat := .select fun d => .ret (countVaults userId d)

@[simp] theorem reads_countVaultsForUser (userId : Uuid) : (countVaultsForUser userId).Reads :=
  fun _ => trivial

/-- `create_named_vault`; `id` and `now` are chosen by the database. -/
def createNamedVault (id : Uuid) (now : Nat) (userId : Uuid) (nameBlob nameIv : Bytes) :
    Request Unit :=
  autocommit (Tables.vaults.insert
    { id := id, userId := userId, nameBlob := nameBlob, nameIv := nameIv, createdAt := now }
    [userRef userId]) fun _ => .plain

/-- The guards of a vault deletion, with its sub-selects read in `d`: another vault is left and
none of this vault's items is live. -/
def isSafeToDelete (vaultId userId : Uuid) (d : Db) (v : Vault) : Bool :=
  isVault vaultId userId d v && decide (1 < countVaults userId d) &&
    !(d.vaultItems.any (isLiveIn vaultId userId))

/-- `delete_vault_if_safe`. -/
def deleteVaultIfSafe (vaultId userId : Uuid) : Request Bool := do
  let rows ← autocommit (Tables.vaults.deleteCascade Tables.vaultItems
      (fun v i => i.vaultId = v.id) (isSafeToDelete vaultId userId))
    fun rows => if rows.isEmpty then .plain else .deleteVault userId vaultId
  pure (decide (0 < rows.length))

/-- `create_item`: shares the user row with other writers but waits for a key rotation. -/
def createItem (vaultId userId : Uuid) (item : VaultItem) : Request Unit := do
  let _ ← Tables.users.selectFor .share fun _ u => u.id = userId
  Tables.vaultItems.insert item [vaultRef vaultId, userRef userId]
    (refuse (.conflict "item id already exists"))
  .commit .plain (.ret ())

/-- The item in its new vault. -/
def moveTo (vaultId : Uuid) (i : VaultItem) : VaultItem :=
  { i with vaultId := vaultId, version := i.version + 1 }

/-- `move_item`: the destination is checked inside the statement. -/
def moveItem (itemId userId toVaultId : Uuid) : Request Bool := do
  let rows ← autocommit (Tables.vaultItems.update
    (fun d i => decide (i.id = itemId) && decide (i.userId = userId) &&
      d.vaults.any fun v => decide (v.id = toVaultId) && decide (v.userId = userId))
    (moveTo toVaultId)
    fun i => if i.vaultId = toVaultId then [] else [vaultRef toVaultId]) fun _ => .plain
  pure (decide (0 < rows.length))

/-- The row of one item of a user. -/
def isItem (itemId userId : Uuid) (_ : Db) (i : VaultItem) : Bool :=
  decide (i.id = itemId) && decide (i.userId = userId)

/-- The item with a new blob. -/
def setBlob (blob blobIv blobMac : Bytes) (i : VaultItem) : VaultItem :=
  { i with blob := blob, blobIv := blobIv, blobMac := blobMac, version := i.version + 1 }

/-- `update_item`: only at the expected version. The answer is the row as it is stored then. -/
def updateItem (itemId userId : Uuid) (blob blobIv blobMac : Bytes) (expectedVersion : Int) :
    Request (Option VaultItem) := do
  let rows ← autocommit (Tables.vaultItems.update
    (fun d i => isItem itemId userId d i && decide (i.version = expectedVersion))
    (setBlob blob blobIv blobMac)) fun _ => .plain
  pure (rows.head?.map (setBlob blob blobIv blobMac))

/-- `get_current_version`. -/
def getCurrentVersion (itemId userId : Uuid) : Request (Option Int) := do
  let rows ← Tables.vaultItems.select (isItem itemId userId)
  pure (rows.head?.map (·.version))

@[simp] theorem reads_getCurrentVersion (itemId userId : Uuid) :
    (getCurrentVersion itemId userId).Reads :=
  Table.reads_select.bind fun _ => trivial

/-- `soft_delete_item`: a live item becomes a tombstone. -/
def softDeleteItem (now : Nat) (itemId userId : Uuid) : Request Bool := do
  let rows ← autocommit (Tables.vaultItems.update
    (fun d i => isItem itemId userId d i && i.deletedAt.isNone)
    fun i => { i with deletedAt := some now }) fun _ => .plain
  pure (decide (0 < rows.length))

/-- `list_items` of a vault, tombstones included; nothing depends on the order. -/
def listItems (vaultId userId : Uuid) : Request (List VaultItem) :=
  Tables.vaultItems.select fun _ i => decide (i.vaultId = vaultId) && decide (i.userId = userId)

end DbVaults

namespace Vaults

/-- Upper bound on the encrypted blob stored per vault item. -/
def maxItemBlobBytes : Nat := 512 * 1024

/-- Create a vault, up to 32 for each account. -/
def createVault (auth id : Uuid) (now : Nat) (req : CreateVaultRequest) : Request Unit := do
  let nameBlob ← decodeField req.nameBlob "invalid name_blob base64"
  let nameIv ← decodeField req.nameIv "invalid name_iv base64"
  let count ← DbVaults.countVaultsForUser auth
  require (decide (count < 32)) (.badRequest "vault limit reached")
  DbVaults.createNamedVault id now auth nameBlob nameIv

/-- Delete a vault that is empty and not the only one. -/
def deleteVault (auth vaultId : Uuid) : Request Unit := do
  let vault ← DbVaults.getVault vaultId auth
  let _ ← okOr (.notFound "vault not found") vault
  let deleted ← DbVaults.deleteVaultIfSafe vaultId auth
  require deleted (.conflict "vault must be empty and cannot be your only vault")

/-- Move an item to another vault of the caller. -/
def moveItem (auth itemId toVaultId : Uuid) : Request Unit := do
  let moved ← DbVaults.moveItem itemId auth toVaultId
  require moved (.notFound "item or destination vault not found")

/-- What the size checks ask of an item's encrypted fields. -/
def checkBlobs (blob blobIv blobMac : Bytes) : Request Unit := do
  require (decide (blobIv.length = 12)) (.badRequest "blob_iv must be 12 bytes")
  require (decide (blobMac.length = 32) || decide (blobMac.length = 0))
    (.badRequest "blob_mac must be 32 bytes or empty")
  require (!blob.isEmpty) (.badRequest "blob must not be empty")
  require (decide (blob.length ≤ maxItemBlobBytes)) (.badRequest "blob exceeds maximum size")

@[simp] theorem reads_checkBlobs (blob blobIv blobMac : Bytes) :
    (checkBlobs blob blobIv blobMac).Reads :=
  (reads_require ..).bind fun _ => (reads_require ..).bind fun _ => (reads_require ..).bind
    fun _ => reads_require ..

/-- Create an item in a vault of the caller; `fresh` is the id that the database would pick. The
answer is the stored item. -/
def createItem (auth vaultId fresh : Uuid) (req : CreateVaultItemRequest) : Request VaultItem := do
  let vault ← DbVaults.getVault vaultId auth
  let _ ← okOr (.notFound "vault not found") vault
  let blob ← decodeField req.blob "invalid blob"
  let blobIv ← decodeField req.blobIv "invalid blob_iv"
  let blobMac ← decodeField req.blobMac "invalid blob_mac"
  checkBlobs blob blobIv blobMac
  let item : VaultItem :=
    { id := req.id.getD fresh, vaultId := vaultId, userId := auth, itemType := req.itemType.text,
      blob := blob, blobIv := blobIv, blobMac := blobMac }
  DbVaults.createItem vaultId auth item
  pure item

/-- The text of a conflict: the version that the server holds. -/
def conflictText (serverVersion : Int) : String :=
  "\x7b\"conflict\":true,\"serverVersion\":" ++ toString serverVersion ++ "\x7d"

/-- Update an item of the caller at the version that the caller holds. The answer is the new
version. -/
def updateItem (auth itemId : Uuid) (req : UpdateVaultItemRequest) : Request Int := do
  let blob ← decodeField req.blob "invalid blob"
  let blobIv ← decodeField req.blobIv "invalid blob_iv"
  let blobMac ← decodeField req.blobMac "invalid blob_mac"
  checkBlobs blob blobIv blobMac
  match ← DbVaults.updateItem itemId auth blob blobIv blobMac req.version with
  | some item => pure item.version
  | none => do
    match ← DbVaults.getCurrentVersion itemId auth with
    | some version => refuse (.conflict (conflictText version))
    | none => refuse (.notFound "item not found")

/-- Turn an item of the caller into a tombstone. -/
def deleteItem (now : Nat) (auth itemId : Uuid) : Request Unit := do
  let deleted ← DbVaults.softDeleteItem now itemId auth
  require deleted (.notFound "item not found")

end Vaults

end Nopass
