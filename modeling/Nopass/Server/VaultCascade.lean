import Nopass.Server.Vaults

/-!
# Items and the deletion of their vault

A vault deletion looks for live items in the snapshot of its statement. The foreign
key makes it wait for items that are being created in the vault or moved there, but
waiting does not change the vault's row, so the guards are not read again, and the
cascade then removes the items that have arrived. When the vault holds no live item
at the commit, no live item is lost.
-/

namespace Nopass

open ReadCommitted

/-- A user's requests on vaults and items. -/
inductive ItemRequest where
  | deleteVault (vaultId : Uuid)
  | createItem (vaultId fresh : Uuid) (req : CreateVaultItemRequest)
  | moveItem (itemId toVaultId : Uuid)

/-- The program of a request; a creation is acknowledged with its item. -/
def ItemRequest.run (userId : Uuid) : ItemRequest → Request (Option VaultItem)
  | .deleteVault vaultId => do
    Vaults.deleteVault userId vaultId
    pure none
  | .createItem vaultId fresh req => do
    let item ← Vaults.createItem userId vaultId fresh req
    pure (some item)
  | .moveItem itemId toVaultId => do
    Vaults.moveItem userId itemId toVaultId
    pure none

/-- The user has a live item with this id. -/
def HasLiveItem (userId itemId : Uuid) (d : Db) : Prop :=
  ∃ i ∈ d.vaultItems, i.userId = userId ∧ i.id = itemId ∧ i.live = true

instance (userId itemId : Uuid) (d : Db) : Decidable (HasLiveItem userId itemId d) :=
  inferInstanceAs (Decidable (∃ i ∈ d.vaultItems, _))

/-- `vault_items` has its primary key. -/
def ItemKeysDistinct (d : Db) : Prop := (d.vaultItems.map Tables.vaultItems.key).Nodup

/-- A deletion commits while no live item of its user is in the vault. -/
def StillEmpty : Tag → Db → Prop
  | .deleteVault userId vaultId, d => ∀ i ∈ d.vaultItems, DbVaults.isLiveIn vaultId userId i = false
  | _, _ => True

instance : ∀ tag d, Decidable (StillEmpty tag d)
  | .deleteVault userId vaultId, d => inferInstanceAs
      (Decidable (∀ i ∈ d.vaultItems, DbVaults.isLiveIn vaultId userId i = false))
  | .plain, _ | .rewrap _ _, _ | .handshake _ _, _ | .authorized _ _ _, _ |
    .consumed _, _ | .issued _ _, _ | .replacedKit _ _, _ | .wrote _ _ _, _ |
    .rekeyed _ _, _ | .reencrypted _, _ |
    .published _, _ | .organized _, _ | .owned _ _, _ | .accepted _, _ =>
      inferInstanceAs (Decidable True)

/-- Live items of the user stay; the lock of an item row protects the row. -/
def itemSpec (userId : Uuid) : Spec Db RowId Tag ApiError where
  inv := ItemKeysDistinct
  guar d d' := ∀ itemId, HasLiveItem userId itemId d → HasLiveItem userId itemId d'
  guar_refl _ _ h := h
  guar_trans h h' itemId hi := h' itemId (h itemId hi)
  keeps k m d d' := m = .update → ∀ i ∈ d'.vaultItems, Tables.vaultItems.key i = k →
    i ∈ d.vaultItems
  keeps_refl _ _ _ _ _ hi _ := hi
  keeps_trans h h' hm i hi hk := h hm i (h' hm i hi hk) hk
  allow := StillEmpty
  asserts _ _ _ := True

variable {userId : Uuid} {d d' : Db} {L : List (RowId × LockMode)}

/-- Rows with one key are one row. -/
theorem ItemKeysDistinct.eq (h : ItemKeysDistinct d) {i i' : VaultItem} (hi : i ∈ d.vaultItems)
    (hi' : i' ∈ d.vaultItems) (hk : Tables.vaultItems.key i = Tables.vaultItems.key i') : i = i' :=
  List.inj_on_of_nodup_map h hi hi' hk

/-- A change that keeps keys keeps them distinct. -/
theorem ItemKeysDistinct.edit (h : ItemKeysDistinct d) {keys : List RowId}
    {f : VaultItem → VaultItem}
    (hf : ∀ i, Tables.vaultItems.key (f i) = Tables.vaultItems.key i) :
    ItemKeysDistinct (Tables.vaultItems.edit keys f d) := by
  rw [ItemKeysDistinct]
  exact ((Tables.vaultItems).map_key_edit hf).symm ▸ h

/-- Deleting a vault that still is empty loses no live item. -/
theorem deleteVault_items_wp (vaultId : Uuid) (hd : (itemSpec userId).inv d) :
    (itemSpec userId).wp (fun _ _ _ _ => True) (Vaults.deleteVault userId vaultId) [] id d := by
  refine Spec.wp_reads_bind (DbVaults.reads_getVault vaultId userId) nofun (fun _ d₁ h₁ => ?_) hd
  refine wp_okOr_bind nofun fun _ _ s hs n hn d₂ h₂ ha => ?_
  refine ⟨?_, wp_require nofun fun _ _ => trivial⟩
  have hhit : ∀ r ∈ Tables.vaults.hits (DbVaults.isSafeToDelete vaultId userId) s n,
      r.id = vaultId := by
    intro r hr
    obtain ⟨_, _, hc⟩ := (Tables.vaults.mem_hits).mp hr
    simp only [DbVaults.isSafeToDelete, DbVaults.isVault, Bool.and_eq_true,
      decide_eq_true_eq] at hc
    exact hc.1.1.1
  refine ⟨trivial, ?_, ?_, ?_⟩
  · exact List.Nodup.sublist (List.filter_sublist.map _) h₂.inv
  · rintro itemId ⟨i, hi, hu, hid, hlive⟩
    refine ⟨i, (Tables.vaultItems.mem_drop).mpr ⟨hi, fun hk => ?_⟩, hu, hid, hlive⟩
    -- a removed row was locked in the vault, so it is still there at the commit
    obtain ⟨c, hc, hck⟩ := List.mem_map.mp hk
    obtain ⟨hcn, hcv⟩ := List.mem_filter.mp hc
    obtain ⟨r, hr, hcr⟩ := List.any_eq_true.mp hcv
    have hin := h₂.keeps (Tables.vaultItems.key c, .update) (List.mem_append_right _
      (List.mem_append_right _ (List.mem_map.mpr ⟨c, hc, rfl⟩))) rfl i hi hck.symm
    have hci := hn.inv.eq hcn hin hck
    have hvault : i.vaultId = vaultId := by
      rw [← hci, ← hhit r hr]
      exact of_decide_eq_true hcr
    have hne : (Tables.vaults.hits (DbVaults.isSafeToDelete vaultId userId) s n).isEmpty = false :=
      List.isEmpty_eq_false_iff.mpr (List.ne_nil_of_mem hr)
    dsimp only [id] at ha
    rw [if_neg (by rw [hne]; exact Bool.false_ne_true)] at ha
    have hempty := (show StillEmpty (.deleteVault userId vaultId) d₂ from ha) i hi
    simp [DbVaults.isLiveIn, hvault, hu, hlive] at hempty
  · intro k m _ _ i hi _
    exact ((Tables.vaultItems.mem_drop).mp hi).1

/-- Creating an item loses none and the new one is there. -/
theorem createItem_wp (vaultId fresh : Uuid) (req : CreateVaultItemRequest)
    (hd : (itemSpec userId).inv d) :
    (itemSpec userId).wp (fun item _ _ d => HasLiveItem userId item.id d)
      (Vaults.createItem userId vaultId fresh req) [] id d := by
  refine Spec.wp_reads_bind (DbVaults.reads_getVault vaultId userId) nofun (fun _ d₁ h₁ => ?_) hd
  refine wp_okOr_bind nofun fun _ _ => wp_okOr_bind nofun fun blob _ => ?_
  refine wp_okOr_bind nofun fun blobIv _ => ?_
  refine wp_okOr_bind nofun fun blobMac _ => ?_
  refine Spec.wp_reads_bind (Vaults.reads_checkBlobs blob blobIv blobMac) nofun
    (fun _ d₂ h₂ => ?_) h₁.inv
  simp only [DbVaults.createItem, bind_assoc]
  refine Table.wp_selectFor_bind fun s hs n hn => ?_
  refine Table.wp_insert_bind (fun n₁ hn₁ hv _ d₃ h₃ _ => ?_) nofun
  -- the id is still free when the row appears
  have hfree : ∀ i ∈ d₃.vaultItems,
      Tables.vaultItems.key i ≠ .vaultItem userId (req.id.getD fresh) := by
    intro i hi hk
    have hin := h₃.keeps (.vaultItem userId (req.id.getD fresh), .update)
      (List.mem_append_right _ List.mem_cons_self) rfl i hi hk
    exact of_decide_eq_true (List.all_eq_true.mp hv i hin) hk
  refine ⟨⟨trivial, ?_, ?_, ?_⟩, fun d₄ h₄ => h₄.guar _ ?_⟩
  · change (List.map _ (d₃.vaultItems ++ [_])).Nodup
    rw [List.map_append, List.nodup_append]
    refine ⟨h₃.inv, List.nodup_singleton _, fun x hx y hy => ?_⟩
    obtain ⟨i, hi, rfl⟩ := List.mem_map.mp hx
    rw [List.map_singleton, List.mem_singleton] at hy
    rw [hy]
    exact hfree i hi
  · rintro itemId ⟨i, hi, hu, hid, hlive⟩
    exact ⟨i, (Tables.vaultItems.mem_push).mpr (Or.inl hi), hu, hid, hlive⟩
  · rintro k m hcompat rfl i hi hk
    rcases (Tables.vaultItems.mem_push).mp hi with hi | rfl
    · exact hi
    · simpa using hcompat _ (List.mem_append_right _ List.mem_cons_self) hk
  · exact ⟨_, (Tables.vaultItems.mem_push).mpr (Or.inr rfl), rfl, rfl, rfl⟩

/-- Moving an item loses none. -/
theorem moveItem_wp (itemId toVaultId : Uuid) :
    (itemSpec userId).wp (fun _ _ _ _ => True) (Vaults.moveItem userId itemId toVaultId)
      [] id d := by
  simp only [Vaults.moveItem, DbVaults.moveItem, autocommit, bind_assoc]
  refine Table.wp_update_bind fun s hs n hn _ d₁ h₁ _ => ⟨?_, wp_require id fun _ _ => trivial⟩
  refine ⟨trivial, ?_, ?_, ?_⟩
  · exact h₁.inv.edit fun _ => rfl
  · rintro id ⟨i, hi, hu, hid, hlive⟩
    refine ⟨_, (Tables.vaultItems.mem_edit).mpr ⟨i, hi, rfl⟩, ?_, ?_, ?_⟩
    · split
      · exact hu
      · exact hu
    · split
      · exact hid
      · exact hid
    · split
      · exact hlive
      · exact hlive
  · rintro k m hcompat rfl i hi hk
    obtain ⟨i₀, hi₀, rfl⟩ := (Tables.vaultItems.mem_edit).mp hi
    split at hk
    · -- a moved row is locked, so nobody else holds it
      rename_i hkeys
      obtain ⟨r, hr, hrk⟩ := List.mem_map.mp hkeys
      have hlock := Tables.vaultItems.locked_of_mem_hits hr .noKeyUpdate
      simpa using hcompat _ (List.mem_append_right _ (List.mem_append_left _ hlock)) (hrk.trans hk)
    · rename_i hkeys
      rw [if_neg hkeys]
      exact hi₀

/-- Each request keeps the specification, and an acknowledged item is there. -/
theorem ItemRequest.valid (r : ItemRequest) :
    (itemSpec userId).Valid (r.run userId) fun out d =>
      ∀ item ∈ out, HasLiveItem userId item.id d := by
  intro d hd
  cases r with
  | deleteVault vaultId =>
    refine Spec.wp_bind hd (Spec.wp_mono (fun _ _ _ _ _ _ => ?_) (deleteVault_items_wp vaultId hd))
    exact fun _ _ => nofun
  | createItem vaultId fresh req =>
    refine Spec.wp_bind hd (Spec.wp_mono (fun item _ _ _ h _ => ?_)
      (createItem_wp vaultId fresh req hd))
    rintro d' hr _ ⟨⟩
    exact hr.guar _ h
  | moveItem itemId toVaultId =>
    refine Spec.wp_bind hd (Spec.wp_mono (fun _ _ _ _ _ _ => ?_) (moveItem_wp itemId toVaultId))
    exact fun _ _ => nofun

section Runs

variable {I : Type} [Fintype I] [DecidableEq I]

end Runs

/-- Account 1 with two empty vaults. -/
private def twoEmptyVaults : Db where
  users := [{ id := 1 }]
  vaults := [10, 11].map fun id =>
    { id := id, userId := 1, nameBlob := [], nameIv := [], createdAt := 0 }

/-- A deletion of vault 10, and a creation of item 20 in the given vault. -/
private def deletionAndCreation (vaultId : Uuid) : Fin 2 → ItemRequest
  | 0 => .deleteVault 10
  | 1 => .createItem vaultId 20
      { id := some 20, itemType := .login, blob := "AAAA", blobIv := "AAAAAAAAAAAAAAAA",
        blobMac := "" }

/-- The deletion takes its snapshot, the creation runs to its end. -/
private def creation : List (Fin 2 × Act) := Act.inTurn [(0, 2), (1, 6)]

private def createdIn (vaultId : Uuid) :
    Option (State (Fin 2) Db RowId Tag ApiError (Option VaultItem)) :=
  (State.start twoEmptyVaults fun i => (deletionAndCreation vaultId i).run 1).exec creation

/-- The deletion completes. -/
private def deleted : List (Fin 2 × Act) := Act.inTurn [(0, 2)]

end Nopass
