import Nopass.Client.Envelope
import Nopass.Core.Run
import Mathlib.Data.List.Nodup

/-!
# The vault of the web client

After an unlock the client lists its vaults, fetches the items of each and opens its
revision store. One pass for each unlock re-encrypts legacy items; when none is left over
the account is marked as free of them. Requests fail independently, and other clients of
the account write at any time, though never a legacy blob.
-/

namespace Nopass

/-- The vaults and items of an account on the server: ids are unique, and each item is in a vault. -/
structure AccountServer where
  vaults : List String
  items : List EncryptedVaultItem
  ids_nodup : (items.map (·.id)).Nodup
  vault_mem : ∀ i ∈ items, i.vaultId ∈ vaults

/-- A legacy item with this id is among some items. -/
def HasLegacy (items : List EncryptedVaultItem) (id : String) : Prop :=
  ∃ i ∈ items, i.id = id ∧ isLegacyItemBlob i.toEncryptedBlob = true

/-- The answer to a request for the items of a vault, tombstones included. -/
def AccountServer.vaultItems (server : AccountServer) (vaultId : String) :
    List EncryptedVaultItem :=
  server.items.filter fun i => i.vaultId = vaultId

/-- `update_item` on a list of items. -/
def replaceBlob (id : String) (version : Int) (encrypted : EncryptedBlob) (i : EncryptedVaultItem) :
    EncryptedVaultItem :=
  if i.id = id ∧ i.version = version then
    { i with toEncryptedBlob := encrypted, version := i.version + 1 }
  else i

@[simp] theorem id_replaceBlob (id : String) (version : Int) (encrypted : EncryptedBlob)
    (i : EncryptedVaultItem) : (replaceBlob id version encrypted i).id = i.id := by
  rw [replaceBlob]
  split
  · rfl
  · rfl

@[simp] theorem vaultId_replaceBlob (id : String) (version : Int) (encrypted : EncryptedBlob)
    (i : EncryptedVaultItem) : (replaceBlob id version encrypted i).vaultId = i.vaultId := by
  rw [replaceBlob]
  split
  · rfl
  · rfl

/-- `update_item`: replace the blob of an item at an expected version. -/
def AccountServer.update (server : AccountServer) (id : String) (version : Int)
    (encrypted : EncryptedBlob) : Option AccountServer :=
  if server.items.any fun i => decide (i.id = id) && decide (i.version = version) then
    some
      { vaults := server.vaults
        items := server.items.map (replaceBlob id version encrypted)
        ids_nodup := by
          have hids : ((server.items.map (replaceBlob id version encrypted)).map (·.id)) =
              server.items.map (·.id) := by
            rw [List.map_map]
            exact List.map_congr_left fun i _ => id_replaceBlob id version encrypted i
          rw [hids]
          exact server.ids_nodup
        vault_mem := by
          intro i hi
          obtain ⟨i₀, hi₀, rfl⟩ := List.mem_map.mp hi
          rw [vaultId_replaceBlob]
          exact server.vault_mem i₀ hi₀ }
  else none

/-- Clients write current blobs only: whatever is legacy afterwards was legacy before. -/
def OnlyCurrentWrites (server server' : AccountServer) : Prop :=
  ∀ i ∈ server'.items, isLegacyItemBlob i.toEncryptedBlob = true → HasLegacy server.items i.id

/-- No legacy item has come from another vault. -/
def StaysPut (server server' : AccountServer) : Prop :=
  ∀ i ∈ server'.items, isLegacyItemBlob i.toEncryptedBlob = true →
    HasLegacy (server.vaultItems i.vaultId) i.id

instance (items : List EncryptedVaultItem) (id : String) : Decidable (HasLegacy items id) :=
  inferInstanceAs (Decidable (∃ i ∈ items, _))

instance (server server' : AccountServer) : Decidable (OnlyCurrentWrites server server') :=
  inferInstanceAs (Decidable (∀ i ∈ server'.items, _))

instance (server server' : AccountServer) : Decidable (StaysPut server server') :=
  inferInstanceAs (Decidable (∀ i ∈ server'.items, _))

/-- How far the load of an unlock is. -/
inductive VaultLoad where
  | listing
  /-- The listed vaults, each with its items once they were answered. -/
  | fetching (answers : List (String × Option (List EncryptedVaultItem)))
  /-- History: whether every request was answered. -/
  | ended (loaded : Bool)

/-- The pass of `upgradeLegacyItems`: the items still to visit and the failures so far. -/
structure UpgradePass where
  remaining : List EncryptedVaultItem
  failed : Nat

/-- `VaultProvider`: what its effects read and write. -/
structure VaultProvider where
  allItems : List EncryptedVaultItem
  isLoading : Bool
  load : VaultLoad
  revisions : Option MemoryRevisionStore
  legacyUpgradeStarted : Bool
  upgrade : Option UpgradePass
  /-- History: `publishV2Only` was called. -/
  published : Bool

/-- The vaults are listed and their items are on the way. -/
def VaultProvider.isFetching (p : VaultProvider) : Bool :=
  match p.load with
  | .fetching _ => true
  | _ => false

/-- Every request of the load was answered. -/
def VaultProvider.loaded (p : VaultProvider) : Bool :=
  match p.load with
  | .ended loaded => loaded
  | _ => false

/-- The provider once the load effect of an unlock has run: `setLoading(true)`. -/
def VaultProvider.unlocked : VaultProvider where
  allItems := []
  isLoading := true
  load := .listing
  revisions := none
  legacyUpgradeStarted := false
  upgrade := none
  published := false

/-- `upsertItem`. -/
def upsertItem (item : EncryptedVaultItem) (items : List EncryptedVaultItem) :
    List EncryptedVaultItem :=
  if items.any fun i => i.id = item.id then items.map fun i => if i.id = item.id then item else i
  else items ++ [item]

/-- The load goes on: when every vault was answered, `setItems` and `setLoading(false)`. -/
def VaultProvider.settle (p : VaultProvider)
    (answers : List (String × Option (List EncryptedVaultItem))) : VaultProvider :=
  match answers.mapM (·.2) with
  | some perVault =>
    { p with allItems := perVault.flatten, isLoading := false, load := .ended true }
  | none => { p with load := .fetching answers }

/-- The load fails: `setError` and `setLoading(false)`. -/
def VaultProvider.failLoad (p : VaultProvider) : VaultProvider :=
  { p with isLoading := false, load := .ended false }

/-- An answer to the request for a vault's items. -/
def answerVault (server : AccountServer) (vaultId : String)
    (answer : String × Option (List EncryptedVaultItem)) :
    String × Option (List EncryptedVaultItem) :=
  if answer.1 = vaultId then (answer.1, some (answer.2.getD (server.vaultItems vaultId)))
  else answer

/-- What becomes of a write: answered, never received, or received with its answer lost. -/
inductive Delivery where
  | answered
  | lost
  | unanswered
  deriving DecidableEq

/-- The account and the client. -/
structure VaultWorld where
  server : AccountServer
  provider : VaultProvider

/-- What happens in a run. -/
inductive VaultEvent where
  /-- The request for the vaults is answered or fails. -/
  | vaultList (ok : Bool)
  /-- The request for the items of a vault is answered or fails. -/
  | vaultItems (vaultId : String) (ok : Bool)
  /-- `setRevisions`; the store is whatever this device and other tabs recorded. -/
  | openRevisions (store : MemoryRevisionStore)
  /-- The upgrade effect starts its pass. -/
  | startUpgrade
  /-- One turn of the loop of `upgradeLegacyItems`. -/
  | upgradeNext (iv : Bytes) (delivery : Delivery)
  /-- `publishV2Only`; the request succeeds or fails. -/
  | publish (ok : Bool)
  /-- Clients of the account write. -/
  | clientsWrite (server : AccountServer)
  /-- The user saved an item here, and the server has accepted it. -/
  | saved (item : EncryptedVaultItem)
  /-- The user moved or deleted items here. -/
  | relabelled (items : List EncryptedVaultItem)

section Steps

variable {P : Type} (c : ItemCrypto P) (keys : VaultKeys)

/-- The part of a turn before the write: decrypt and encrypt at the next revision. -/
def upgradeItem (item : EncryptedVaultItem) (iv : Bytes) : Items (EncryptedBlob × Nat) := do
  let current ← decryptVaultItem c item.toEncryptedBlob (bindingForItem item) keys
  encryptVaultItem c current.plaintext (bindingForItem item) keys.vaultEncKey
    (some current.revision) iv

/-- One turn of the loop of `upgradeLegacyItems`, with the `write` of the provider. -/
def VaultWorld.upgradeTurn (w : VaultWorld) (item : EncryptedVaultItem)
    (rest : List EncryptedVaultItem) (failed : Nat) (iv : Bytes) (delivery : Delivery) :
    VaultWorld :=
  if !isLegacyItemBlob item.toEncryptedBlob then
    { w with provider := { w.provider with upgrade := some ⟨rest, failed⟩ } }
  else
    match upgradeItem c keys item iv w.provider.revisions with
    | .error _ revisions =>
      { w with provider :=
          { w.provider with revisions := revisions, upgrade := some ⟨rest, failed + 1⟩ } }
    | .ok (encrypted, revision) revisions =>
      let refused := { w.provider with revisions := revisions, upgrade := some ⟨rest, failed + 1⟩ }
      match delivery, w.server.update item.id item.version encrypted with
      | .answered, some server =>
        { server := server
          provider :=
            { w.provider with
              allItems := upsertItem
                { item with toEncryptedBlob := encrypted, version := item.version + 1 }
                w.provider.allItems
              revisions := revisions.map (·.record item.id revision)
              upgrade := some ⟨rest, failed⟩ } }
      | .unanswered, some server => { server := server, provider := refused }
      | _, _ => { w with provider := refused }

/-- The upgrade effect may start: not started before, nothing loading, a store that still takes
legacy items. -/
def VaultProvider.mayUpgrade (p : VaultProvider) : Bool :=
  !p.legacyUpgradeStarted && !p.isLoading && p.revisions.any fun store => !store.legacyClosed

/-- A step of a run. -/
def VaultWorld.step (w : VaultWorld) : VaultEvent → Option VaultWorld
  | .vaultList ok =>
    match w.provider.load with
    | .listing =>
      if ok then
        some { w with provider := w.provider.settle (w.server.vaults.map fun v => (v, none)) }
      else some { w with provider := w.provider.failLoad }
    | _ => none
  | .vaultItems vaultId ok =>
    match w.provider.load with
    | .fetching answers =>
      if ok then
        some { w with provider := w.provider.settle (answers.map (answerVault w.server vaultId)) }
      else some { w with provider := w.provider.failLoad }
    | _ => none
  | .openRevisions store => some { w with provider := { w.provider with revisions := some store } }
  | .startUpgrade =>
    if w.provider.mayUpgrade then
      some { w with provider :=
        { w.provider with
          legacyUpgradeStarted := true
          upgrade := some { remaining := w.provider.allItems, failed := 0 } } }
    else none
  | .upgradeNext iv delivery =>
    match w.provider.upgrade with
    | some ⟨item :: rest, failed⟩ => some (w.upgradeTurn c keys item rest failed iv delivery)
    | _ => none
  | .publish ok =>
    match w.provider.upgrade with
    | some ⟨[], 0⟩ =>
      some { w with provider :=
        { w.provider with
          published := true
          upgrade := none
          revisions := if ok then w.provider.revisions.map (·.markV2Only)
            else w.provider.revisions } }
    | _ => none
  | .clientsWrite server =>
    if OnlyCurrentWrites w.server server then some { w with server := server } else none
  | .saved item =>
    if isLegacyItemBlob item.toEncryptedBlob = false ∧ ¬ HasLegacy w.server.items item.id then
      some { w with provider :=
        { w.provider with allItems := upsertItem item w.provider.allItems } }
    else none
  | .relabelled items =>
    if items.map (fun i => (i.id, i.toEncryptedBlob)) =
        w.provider.allItems.map (fun i => (i.id, i.toEncryptedBlob)) then
      some { w with provider := { w.provider with allItems := items } }
    else none

end Steps

end Nopass
