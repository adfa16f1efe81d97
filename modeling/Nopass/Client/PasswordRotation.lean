import Nopass.Client.AccountKey
import Mathlib.Data.Finset.Card

/-!
# Opening an account after its password was replaced

A rotation replaces the credential and, when the request brings one, the wrap of the
account key; an absent wrap keeps the stored one. A client that predates the account key
re-encrypts every item instead of sending a wrap. If the account has a wrap, that one
stays under the old password and a present wrap always wins: the new password no longer
opens the account.
-/

namespace Nopass

open ReadCommitted

/-- Two databases with the same accounts and items. -/
structure SameAccounts (d d' : Db) : Prop where
  users : d'.users = d.users
  vaultItems : d'.vaultItems = d.vaultItems

/-- An item after its turn in a list of re-encrypted items. -/
def swapped (userId : Uuid) (items : List DbRecovery.ReencryptedItemRow) (i : VaultItem) :
    VaultItem :=
  items.foldl (fun i item => if i.id = item.id ∧ i.userId = userId then item.reencrypt i else i) i

section Alone

variable {O : Type} {w : Db → Db} {d d' : Db} {out : O} {userId : Uuid}

/-- A lone request that consumed its token. -/
theorem alone_consumeToken_bind {authority : DbRecovery.RotationAuthority} {k : Unit → Request O}
    (h : (DbRecovery.consumeToken authority >>= k).alone w d = (.ok out, d')) :
    ∃ w', SameAccounts (w d) (w' d) ∧ (k ()).alone w' d = (.ok out, d') := by
  cases authority with
  | session id => exact ⟨w, ⟨rfl, rfl⟩, h⟩
  | recoveryToken token =>
    rw [DbRecovery.consumeToken, bind_assoc, Table.delete, Prog.stmt_bind, Prog.alone,
      Prog.ret_bind] at h
    split at h
    · cases h
    · refine ⟨_, ?_, h⟩
      exact ⟨rfl, rfl⟩

/-- What the update of one item does to all. -/
theorem edit_item (userId id : Uuid) (f : VaultItem → VaultItem) (d : Db) :
    (Tables.vaultItems.edit ((Tables.vaultItems.hits
        (fun _ i => decide (i.id = id) && decide (i.userId = userId)) d d).map
        Tables.vaultItems.key) f d).vaultItems =
      d.vaultItems.map fun i => if i.id = id ∧ i.userId = userId then f i else i := by
  have hkey : ∀ i i' : VaultItem, Tables.vaultItems.key i = Tables.vaultItems.key i' →
      (decide (i.id = id) && decide (i.userId = userId)) =
        (decide (i'.id = id) && decide (i'.userId = userId)) := by
    intro i i' hk
    obtain ⟨hu, hid⟩ := RowId.vaultItem.inj hk
    rw [hu, hid]
  refine (Tables.vaultItems.get_edit_self f hkey).trans (List.map_congr_left fun i _ => ?_)
  simp only [Bool.and_eq_true, decide_eq_true_eq]

/-- What the update of one account does to all. -/
theorem edit_user (userId : Uuid) (f : User → User) (d : Db) :
    (Tables.users.edit ((Tables.users.hits (DbAuth.isUser userId) d d).map Tables.users.key)
        f d).users = d.users.map fun u => if u.id = userId then f u else u := by
  have hkey : ∀ u u' : User, Tables.users.key u = Tables.users.key u' →
      DbAuth.isUser userId d u = DbAuth.isUser userId d u' := by
    intro u u' hk
    rw [DbAuth.isUser, RowId.user.inj hk, DbAuth.isUser]
  refine (Tables.users.get_edit_self f hkey).trans (List.map_congr_left fun u _ => ?_)
  simp only [DbAuth.isUser, decide_eq_true_eq]

/-- A lone request that swapped in its items: each was there. -/
theorem alone_swapItems_bind {items : List DbRecovery.ReencryptedItemRow} {k : Unit → Request O}
    (h : (DbRecovery.swapItems userId items >>= k).alone w d = (.ok out, d')) :
    ∃ w', (w' d).users = (w d).users ∧
      (w' d).vaultItems = (w d).vaultItems.map (swapped userId items) ∧
      (∀ item ∈ items, ∃ i ∈ (w d).vaultItems, i.id = item.id ∧ i.userId = userId) ∧
      (k ()).alone w' d = (.ok out, d') := by
  induction items generalizing w with
  | nil => exact ⟨w, rfl, (List.map_id _).symm, nofun, h⟩
  | cons item rest ih =>
    rw [DbRecovery.swapItems, bind_assoc] at h
    obtain ⟨_, h⟩ := Table.alone_update_bind h
    split at h
    · cases h
    · rename_i hrows
      obtain ⟨w', husers, hitems, hrest, h⟩ := ih h
      have hedit := edit_item userId item.id item.reencrypt (w d)
      refine ⟨w', husers, ?_, ?_, h⟩
      · rw [hitems]
        refine (congrArg (List.map _) hedit).trans ?_
        rw [List.map_map]
        rfl
      · intro item' hitem'
        rcases List.mem_cons.mp hitem' with rfl | hitem'
        · have hne := List.isEmpty_eq_false_iff.mp (Bool.eq_false_iff.mpr hrows)
          obtain ⟨i, hi⟩ := List.exists_mem_of_ne_nil _ hne
          rw [Table.hits_self] at hi
          obtain ⟨hi, hcond⟩ := List.mem_filter.mp hi
          rw [Bool.and_eq_true, decide_eq_true_eq, decide_eq_true_eq] at hcond
          exact ⟨i, hi, hcond⟩
        · obtain ⟨i, hi, hid⟩ := hrest item' hitem'
          have hi : i ∈ (w d).vaultItems.map _ := hedit ▸ hi
          obtain ⟨i₀, hi₀, rfl⟩ := List.mem_map.mp hi
          refine ⟨i₀, hi₀, ?_⟩
          split at hid
          · exact hid
          · exact hid

/-- The items that a lone request swapped in, when it brought any: one for each item of the
account. -/
def SwappedAll (userId : Uuid) (before after : List VaultItem) :
    Option (List DbRecovery.ReencryptedItemRow) → Prop
  | none => after = before
  | some items => after = before.map (swapped userId items) ∧
      (∀ item ∈ items, ∃ i ∈ before, i.id = item.id ∧ i.userId = userId) ∧
      (after.filter fun i => i.userId = userId).length = items.length

/-- A lone request that went through the re-encryption. -/
theorem alone_reencryptItems_bind {items : Option (List DbRecovery.ReencryptedItemRow)}
    {k : Unit → Request O}
    (h : (DbRecovery.reencryptItems userId items >>= k).alone w d = (.ok out, d')) :
    ∃ w', (w' d).users = (w d).users ∧
      SwappedAll userId (w d).vaultItems (w' d).vaultItems items ∧
      (k ()).alone w' d = (.ok out, d') := by
  cases items with
  | none => exact ⟨w, rfl, rfl, h⟩
  | some items =>
    rw [DbRecovery.reencryptItems, bind_assoc] at h
    obtain ⟨w', husers, hitems, hthere, h⟩ := alone_swapItems_bind h
    rw [bind_assoc, Prog.select_bind, Prog.alone, Prog.ret_bind] at h
    split at h
    · cases h
    · rename_i htotal
      exact ⟨w', husers, ⟨hitems, hthere, not_not.mp htotal⟩, h⟩

/-- What a rotation that went through alone has done. -/
theorem alone_rotateMasterPassword {tag : Tag} {authority : DbRecovery.RotationAuthority}
    {rotation : DbRecovery.PasswordRotation} {out : Unit}
    (h : (DbRecovery.rotateMasterPassword tag authority userId rotation).alone id d =
      (.ok out, d')) :
    (∀ u ∈ d.users, u.id = userId →
        Tables.users.check (rotation.rotated authority.keepSession u) = true) ∧
      d'.users = d.users.map (fun u =>
        if u.id = userId then rotation.rotated authority.keepSession u else u) ∧
      SwappedAll userId d.vaultItems d'.vaultItems rotation.reencryptedItems := by
  rw [DbRecovery.rotateMasterPassword, Table.selectFor, Prog.stmt_bind, Prog.alone,
    Prog.ret_bind] at h
  obtain ⟨w₁, hsame, h⟩ := alone_consumeToken_bind h
  obtain ⟨hcheck, h⟩ := Table.alone_update_bind h
  obtain ⟨w₂, husers, hitems, h⟩ := alone_reencryptItems_bind h
  have hd' : d'.users = (w₂ d).users ∧ d'.vaultItems = (w₂ d).vaultItems := by
    rw [DbAuth.dropPendingLogins, bind_assoc] at h
    cases h
    exact ⟨rfl, rfl⟩
  have hw₁ : (w₁ d).users = d.users := hsame.users
  have hedit := edit_user userId (rotation.rotated authority.keepSession) (w₁ d)
  rw [hw₁] at hedit
  refine ⟨fun u hu hid => hcheck u ?_, hd'.1.trans (husers.trans hedit), ?_⟩
  · have hu₁ : u ∈ (w₁ d).users := by rwa [hw₁]
    rw [Table.hits_self]
    exact List.mem_filter.mpr ⟨hu₁, decide_eq_true hid⟩
  · rw [hd'.2]
    have hitems₁ : (w₁ d).vaultItems = d.vaultItems := hsame.vaultItems
    exact hitems₁ ▸ hitems

/-- A recovery that went through alone. -/
theorem alone_recoveryComplete {o : Opaque} {now : Nat} {req : Recovery.RecoveryCompleteRequest}
    {out : Unit} (h : (Recovery.recoveryComplete o now req).alone id d = (.ok out, d')) :
    ∃ session ∈ d.pendingRecoverySessions, req.recoveryToken = some session.token ∧
      ∃ rotation : DbRecovery.PasswordRotation,
        (Recovery.credentialOf o req).alone id d = (.ok rotation.credential, d) ∧
        (Recovery.wrapOf req).alone id d = (.ok rotation.wrappedAccountKey, d) ∧
        (Recovery.itemsOf session.userId rotation.wrappedAccountKey req.items).alone id d =
          (.ok rotation.reencryptedItems, d) ∧
        (rotation.protectedPrivateKey = req.protectedPrivateKey.bind fun k =>
          req.protectedPrivateKeyIv.map fun iv => (k, iv)) ∧
        (DbRecovery.rotateMasterPassword (.consumed (some (.recovery session)))
          (.recoveryToken session.token) session.userId rotation).alone id d = (.ok out, d') := by
  obtain ⟨session, hsession, h⟩ := Prog.alone_reads_bind (Recovery.reads_liveRecoverySession _ _) h
  obtain ⟨credential, hcredential, h⟩ := Prog.alone_reads_bind (Recovery.reads_credentialOf _ _) h
  obtain ⟨protectedKey, _, h⟩ := alone_okOr_bind h
  obtain ⟨protectedKeyIv, _, h⟩ := alone_okOr_bind h
  obtain ⟨newAuthKey, _, h⟩ := alone_okOr_bind h
  obtain ⟨newBlob, _, h⟩ := alone_okOr_bind h
  obtain ⟨newBlobIv, _, h⟩ := alone_okOr_bind h
  obtain ⟨_, h⟩ := alone_require_bind h
  obtain ⟨wrapped, hwrapped, h⟩ := Prog.alone_reads_bind (Recovery.reads_wrapOf _) h
  obtain ⟨items, hitems, h⟩ := Prog.alone_reads_bind (Recovery.reads_itemsOf _ _ _) h
  obtain ⟨token, htoken, hsession⟩ := alone_okOr_bind hsession
  obtain ⟨_, hrows, hsession⟩ := alone_okOr_bind hsession
  obtain ⟨_, hsession⟩ := alone_require_bind hsession
  cases hsession
  obtain ⟨hmem, heq⟩ := List.mem_filter.mp (List.mem_of_head? hrows)
  refine ⟨session, hmem, ?_, _, hcredential, hwrapped, hitems, rfl, h⟩
  rw [of_decide_eq_true heq]
  exact htoken

/-- Decoding keeps the ids. -/
theorem ids_of_decodeReencryptedItems {items : List Recovery.ReencryptedItem}
    {rows : List DbRecovery.ReencryptedItemRow}
    (h : (Recovery.decodeReencryptedItems items).alone w d = (.ok rows, d')) :
    rows.map (·.id) = items.map (·.id) := by
  induction items generalizing rows with
  | nil =>
    cases h
    rfl
  | cons item rest ih =>
    obtain ⟨blob, _, h⟩ := alone_okOr_bind h
    obtain ⟨blobIv, _, h⟩ := alone_okOr_bind h
    obtain ⟨blobMac, _, h⟩ := alone_okOr_bind h
    obtain ⟨tail, htail, h⟩ :=
      Prog.alone_reads_bind (Recovery.reads_decodeReencryptedItems rest) h
    cases h
    rw [List.map_cons, List.map_cons, ih htail]

/-- The re-encrypted items of a request without a wrap have distinct ids. -/
theorem alone_itemsOf_none {items : List Recovery.ReencryptedItem}
    {rows : Option (List DbRecovery.ReencryptedItemRow)}
    (h : (Recovery.itemsOf userId none items).alone id d = (.ok rows, d)) :
    ∃ decoded, rows = some decoded ∧ (decoded.map (·.id)).Nodup ∧
      (Recovery.decodeReencryptedItems items).alone id d = (.ok decoded, d) := by
  obtain ⟨hnodup, h⟩ := alone_require_bind h
  obtain ⟨_, h⟩ := alone_require_bind h
  obtain ⟨decoded, hdecoded, h⟩ :=
    Prog.alone_reads_bind (Recovery.reads_decodeReencryptedItems items) h
  cases h
  refine ⟨decoded, rfl, ?_, hdecoded⟩
  rw [ids_of_decodeReencryptedItems hdecoded]
  exact of_decide_eq_true hnodup

/-- A password change that went through alone; redeeming the proof touches no account. -/
theorem alone_passwordFinish {o : Opaque} {now : Nat} {auth : AuthUser}
    {req : Password.PasswordChangeFinishRequest} {out : Unit}
    (h : (Password.finish o now auth req).alone id d = (.ok out, d')) :
    ∃ tag sessionId d₁ upload record wrapped wrappedIv, SameAccounts d d₁ ∧
      Base64.decodeUrl req.registrationRecord = some upload ∧
      o.registrationFinish upload = some record ∧
      Base64.decode req.wrappedAccountKey = some wrapped ∧
      Base64.decode req.wrappedAccountKeyIv = some wrappedIv ∧
      (DbRecovery.rotateMasterPassword tag (.session sessionId) auth.userId
        { credential := .opaqueRecord record, protectedSymmetricKey := none
          protectedPrivateKey := none, wrappedAccountKey := some (wrapped, wrappedIv)
          recoveryKit := none, reencryptedItems := none }).alone id d₁ = (.ok out, d') := by
  obtain ⟨sessionId, _, h⟩ := Prog.alone_reads_bind (Proof.reads_requireRecentSession _ _ _ _) h
  obtain ⟨upload, hupload, h⟩ := alone_okOr_bind h
  obtain ⟨record, hrecord, h⟩ := alone_okOr_bind h
  obtain ⟨wrapped, hwrapped, h⟩ := alone_okOr_bind h
  obtain ⟨wrappedIv, hwrappedIv, h⟩ := alone_okOr_bind h
  rw [Proof.verifyPasswordProof, bind_assoc] at h
  obtain ⟨finalization, _, h⟩ := alone_okOr_bind h
  rw [DbPending.takeOpaqueLogin, autocommit, bind_assoc, bind_assoc, Prog.stmt_bind, Prog.alone,
    Prog.ret_bind, Prog.commit_bind, Prog.alone, Prog.ret_bind, bind_assoc] at h
  obtain ⟨taken, _, h⟩ := alone_okOr_bind h
  rw [bind_assoc] at h
  obtain ⟨_, h⟩ := alone_require_bind h
  rw [bind_assoc] at h
  obtain ⟨_, h⟩ := alone_require_bind h
  refine ⟨_, sessionId, _, upload, record, wrapped, wrappedIv, ?_, hupload, hrecord, hwrapped,
    hwrappedIv, h⟩
  exact ⟨rfl, rfl⟩

end Alone

/-- Swapping keeps ids and owners. -/
theorem swapped_fields (userId : Uuid) (items : List DbRecovery.ReencryptedItemRow)
    (i : VaultItem) :
    (swapped userId items i).id = i.id ∧ (swapped userId items i).userId = i.userId := by
  induction items generalizing i with
  | nil => exact ⟨rfl, rfl⟩
  | cons first rest ih =>
    obtain ⟨hid, hu⟩ := ih (if i.id = first.id ∧ i.userId = userId then first.reencrypt i else i)
    rw [swapped, List.foldl_cons]
    refine ⟨hid.trans ?_, hu.trans ?_⟩
    · split
      · rfl
      · rfl
    · split
      · rfl
      · rfl

/-- One of several re-encrypted items with distinct ids is the one of its item. -/
theorem swapped_eq {userId : Uuid} {items : List DbRecovery.ReencryptedItemRow}
    (hn : (items.map (·.id)).Nodup) {item : DbRecovery.ReencryptedItemRow} (hitem : item ∈ items)
    {i : VaultItem} (hid : i.id = item.id) (hu : i.userId = userId) :
    swapped userId items i = item.reencrypt i := by
  induction items generalizing i with
  | nil => cases hitem
  | cons first rest ih =>
    rw [List.map_cons, List.nodup_cons] at hn
    rw [swapped, List.foldl_cons]
    rcases List.mem_cons.mp hitem with rfl | hrest
    · have hother : ∀ (rest : List DbRecovery.ReencryptedItemRow) (i' : VaultItem),
          i'.id ∉ rest.map (·.id) → swapped userId rest i' = i' := by
        intro rest
        induction rest with
        | nil => exact fun _ _ => rfl
        | cons x rest ihr =>
          intro i' hi'
          rw [List.map_cons, List.mem_cons, not_or] at hi'
          rw [swapped, List.foldl_cons, if_neg (fun h => hi'.1 h.1)]
          exact ihr i' hi'.2
      rw [if_pos ⟨hid, hu⟩]
      exact hother rest _ (hid ▸ hn.1)
    · have hne : i.id ≠ first.id := by
        intro heq
        exact hn.1 (List.mem_map.mpr ⟨item, hrest, hid.symm.trans heq⟩)
      rw [if_neg (fun h => hne h.1)]
      exact ih hn.2 hrest hid hu

/-- When every item was swapped, each stands as one of the re-encrypted items. -/
theorem SwappedAll.exists_row {userId : Uuid} {before after : List VaultItem}
    {items : List DbRecovery.ReencryptedItemRow}
    (h : SwappedAll userId before after (some items)) (hn : (items.map (·.id)).Nodup)
    {i : VaultItem} (hi : i ∈ after) (hu : i.userId = userId) :
    ∃ i₀ ∈ before, i₀.userId = userId ∧ ∃ item ∈ items, item.id = i₀.id ∧
      i = item.reencrypt i₀ := by
  obtain ⟨hafter, hthere, hlen⟩ := h
  have hsub : (items.map (·.id)).toFinset ⊆
      ((after.filter fun i => i.userId = userId).map (·.id)).toFinset := by
    intro id hid
    obtain ⟨item, hitem, rfl⟩ := List.mem_map.mp (List.mem_toFinset.mp hid)
    obtain ⟨i₀, hi₀, hid₀, hu₀⟩ := hthere item hitem
    obtain ⟨hfid, hfu⟩ := swapped_fields userId items i₀
    refine List.mem_toFinset.mpr (List.mem_map.mpr ⟨swapped userId items i₀, ?_, ?_⟩)
    · rw [hafter]
      exact List.mem_filter.mpr
        ⟨List.mem_map.mpr ⟨i₀, hi₀, rfl⟩, decide_eq_true (hfu.trans hu₀)⟩
    · exact hfid.trans hid₀
  have hcard : ((after.filter fun i => i.userId = userId).map (·.id)).toFinset.card ≤
      (items.map (·.id)).toFinset.card := by
    calc _ ≤ ((after.filter fun i => i.userId = userId).map (·.id)).length :=
          List.toFinset_card_le _
      _ = (items.map (·.id)).length := by rw [List.length_map, List.length_map, hlen]
      _ = _ := (List.toFinset_card_of_nodup hn).symm
  -- as many distinct ids were swapped as there are items, so no item was left out
  have hall := Finset.eq_of_subset_of_card_le hsub hcard
  have hid : i.id ∈ (items.map (·.id)).toFinset := by
    rw [hall]
    exact List.mem_toFinset.mpr
      (List.mem_map.mpr ⟨i, List.mem_filter.mpr ⟨hi, decide_eq_true hu⟩, rfl⟩)
  obtain ⟨item, hitem, hitemid⟩ := List.mem_map.mp (List.mem_toFinset.mp hid)
  rw [hafter] at hi
  obtain ⟨i₀, hi₀, rfl⟩ := List.mem_map.mp hi
  obtain ⟨hfid, hfu⟩ := swapped_fields userId items i₀
  have hu₀ : i₀.userId = userId := hfu.symm.trans hu
  have hid₀ : item.id = i₀.id := hitemid.trans hfid
  exact ⟨i₀, hi₀, hu₀, item, hitem, hid₀, swapped_eq hn hitem hid₀.symm hu₀⟩

/-- Swapping leaves the account the same items, re-encrypted. -/
theorem SwappedAll.filter_eq {userId : Uuid} {before after : List VaultItem}
    {items : List DbRecovery.ReencryptedItemRow}
    (h : SwappedAll userId before after (some items)) :
    (after.filter fun i => i.userId = userId) =
      (before.filter fun i => i.userId = userId).map (swapped userId items) := by
  rw [h.1, List.filter_map]
  refine congrArg _ (List.filter_congr fun i _ => ?_)
  rw [Function.comp_apply, (swapped_fields userId items i).2]

/-- What an account's row is in every database: the only one with its id, within the checks of the
table, and with ciphertexts for wraps. -/
structure AccountRow (userId : Uuid) (u : User) (d : Db) : Prop where
  row : userOf userId d = some u
  unique : (d.users.map (·.id)).Nodup
  check : Tables.users.check u = true
  wrap_ne_nil : ∀ k ∈ u.wrappedAccountKey, k ≠ []
  iv_ne_nil : ∀ iv ∈ u.wrappedAccountKeyIv, iv ≠ []

/-- A condition that only the account's row satisfies finds this row. -/
theorem AccountRow.filter_eq {userId : Uuid} {u : User} {d : Db} (h : AccountRow userId u d)
    (cond : User → Bool) (hid : ∀ u', cond u' = true → u'.id = userId) (hu : cond u = true) :
    d.users.filter cond = [u] := by
  have hmem : u ∈ d.users.filter cond :=
    List.mem_filter.mpr ⟨List.mem_of_find?_eq_some h.row, hu⟩
  have hall : ∀ u' ∈ d.users.filter cond, u' = u := by
    intro u' hu'
    obtain ⟨hin, hcond⟩ := List.mem_filter.mp hu'
    exact List.inj_on_of_nodup_map h.unique hin (List.mem_of_find?_eq_some h.row)
      ((hid u' hcond).trans (hid u hu).symm)
  have hnodup : (d.users.filter cond).Nodup := (List.Nodup.of_map _ h.unique).filter _
  match hl : d.users.filter cond with
  | [] => simp [hl] at hmem
  | [x] =>
    rw [hl] at hall
    rw [hall x List.mem_cons_self]
  | x :: y :: rest =>
    rw [hl] at hall hnodup
    have hx := hall x List.mem_cons_self
    have hy := hall y (List.mem_cons_of_mem x List.mem_cons_self)
    simp [hx, hy] at hnodup

/-- The server takes the account key of an account without one. -/
theorem uploaded_setAccountKey {userId : Uuid} {u : User} {d : Db} (h : AccountRow userId u d)
    (hnone : u.wrappedAccountKey = none) (wrapped : Bytes × Bytes)
    (privateKey : Option (String × String)) :
    uploaded (DbAuth.setAccountKey .plain userId wrapped privateKey) d = .ok () := by
  have hid := id_of_mem_userOf (Option.mem_def.mpr h.row)
  have hrows := h.filter_eq (fun u => DbAuth.isUser userId d u && u.wrappedAccountKey.isNone)
    (fun u' hu' => of_decide_eq_true (Bool.and_eq_true_iff.mp hu').1)
    (by simp [DbAuth.isUser, hid, hnone])
  have hcheck : Tables.users.check (DbAuth.setKeys wrapped privateKey u) = true := by
    have hu := h.check
    simp only [Tables.users, Bool.and_eq_true] at hu ⊢
    exact ⟨hu.1, rfl⟩
  have hget : (Tables.users.get (id d)).filter
      (fun u => DbAuth.isUser userId (id d) u && u.wrappedAccountKey.isNone) = [u] := hrows
  rw [uploaded, DbAuth.setAccountKey, autocommit, bind_assoc, Table.alone_update_eq]
  · rw [hget]
    rfl
  · intro r hr
    rw [hget, List.mem_singleton] at hr
    rw [hr]
    exact hcheck

/-- The server upgrades an account that is on SRP. -/
theorem uploaded_completeSrpUpgrade {userId : Uuid} {u : User} {d : Db}
    (h : AccountRow userId u d) (hsrp : u.srpVerifier.isSome) (keepSession : Uuid)
    (record : Bytes) (wrapped : Bytes × Bytes) (privateKey : Option (String × String)) :
    uploaded (DbAuth.completeSrpUpgrade userId keepSession record wrapped privateKey) d =
      .ok () := by
  have hid := id_of_mem_userOf (Option.mem_def.mpr h.row)
  have hrows := h.filter_eq (fun u => DbAuth.isUser userId d u && u.srpVerifier.isSome)
    (fun u' hu' => of_decide_eq_true (Bool.and_eq_true_iff.mp hu').1)
    (by simp [DbAuth.isUser, hid, hsrp])
  have hget : (Tables.users.get (id d)).filter
      (fun u => DbAuth.isUser userId (id d) u && u.srpVerifier.isSome) = [u] := hrows
  rw [uploaded, DbAuth.completeSrpUpgrade, Table.alone_update_eq]
  · rw [hget]
    rfl
  · intro r hr
    rw [hget, List.mem_singleton] at hr
    rw [hr]
    rfl

/-- What a login adds to the account: the session and the random choices of the client. -/
structure LoginChoice where
  rawToken : String
  sessionId : Uuid
  vaultId : Uuid
  ivs : UnlockIvs

/-- Log in with a password that matches the stored credential and unlock the account with the
response. -/
def unlocked (c : AccountCrypto) (o : Opaque) (email : String) (choice : LoginChoice)
    (state : AccountState) (userId : Uuid) (password : String) (d : Db) :
    Client (UnlockedAccount × AccountState) := do
  let user ← orThrow "authentication failed"
    ((userOf userId d).filter (c.matchesCredential email password))
  unlockAccount c (serverApi c o email userId choice.sessionId d) choice.ivs email password
    (Auth.loginResponse choice.rawToken user choice.vaultId) (loginMethod user) state

/-- The password opens the account with this key: unlocking returns it and it opens every item. -/
structure Opens (c : AccountCrypto) (o : Opaque) (email : String) (choice : LoginChoice)
    (state : AccountState) (userId : Uuid) (password : String) (key : AccountKey) (d : Db) :
    Prop where
  unlocks : ∃ r, unlocked c o email choice state userId password d = .ok r ∧ r.1.key = key
  isKey : key.IsKey
  opensItems : ∀ i ∈ DbRecovery.itemsOf userId d, c.opensItem key i = true

/-- Ideal cryptography: a wrap opens only with the key of the password it was made under, an item
only with the key it was encrypted with. -/
structure AccountCrypto.Ideal (c : AccountCrypto) (o : Opaque) : Prop where
  aes_correct : c.aes.Correct
  aes_committing : c.aes.Committing
  kek_inj : ∀ email password password', c.kek (c.deriveMasterKey password email) email =
    c.kek (c.deriveMasterKey password' email) email → password = password'
  legacy_isKey : ∀ password email, (c.legacyKeys password email).account.IsKey
  item_key : ∀ key key' i, c.opensItem key i = true → c.opensItem key' i = true → key = key'
  registers : ∀ password, (o.registrationFinish (c.registrationRecord password)).isSome

/-- The private key of a row, when it has one, opens with a key. -/
def PrivateKeyOpens (c : AccountCrypto) (smk : Bytes) (key iv : Option String) : Prop :=
  ∀ pair ∈ truthyPair key iv, ∃ iv ciphertext, Base64.atob pair.2 = some iv ∧
    Base64.atob pair.1 = some ciphertext ∧ (c.aes.decrypt smk iv [] ciphertext).isSome

section Unlock

variable {c : AccountCrypto} {o : Opaque} {email password : String} {choice : LoginChoice}
  {state : AccountState} {userId : Uuid} {u : User} {d : Db}

/-- A stored wrap is served as it was stored. -/
theorem truthyPair_encode {k iv : Bytes} (hk : k ≠ []) (hiv : iv ≠ []) :
    truthyPair (some (Base64.encode k)) (some (Base64.encode iv)) =
      some (Base64.encode k, Base64.encode iv) := by
  have htruthy : ∀ bytes : Bytes, bytes ≠ [] →
      truthy (some (Base64.encode bytes)) = some (Base64.encode bytes) := by
    intro bytes hne
    unfold truthy
    split
    · rename_i h
      exact absurd (Base64.encode_eq_empty.mp (Option.some.inj h)) hne
    · rfl
  rw [truthyPair, htruthy k hk, htruthy iv hiv]
  rfl

/-- Opening the encoded form of a wrap. -/
theorem unwrapAccountKey_encode (masterKey k iv : Bytes) :
    unwrapAccountKey c ⟨Base64.encode k, Base64.encode iv⟩ masterKey email =
      match c.aes.decrypt (c.kek masterKey email) iv (aad c email) k with
      | some text => .ok { encKeyBytes := text.take 32, macKeyBytes := (text.drop 32).take 32 }
      | none => .error "The account key could not be opened with this password." := by
  rw [unwrapAccountKey]
  simp only [Base64.atob_encode, Option.bind_eq_bind, Option.bind_some]
  cases c.aes.decrypt (c.kek masterKey email) iv (aad c email) k with
  | none => rfl
  | some text => rfl

/-- Unlocking starts from the account's row, and only with its password. -/
theorem unlocked_eq (hrow : userOf userId d = some u)
    (hm : c.matchesCredential email password u = true) :
    unlocked c o email choice state userId password d =
      unlockAccount c (serverApi c o email userId choice.sessionId d) choice.ivs email password
        (Auth.loginResponse choice.rawToken u choice.vaultId) (loginMethod u) state := by
  rw [unlocked, hrow, Option.filter_some, if_pos hm]
  rfl

/-- A password that unlocks the account matches its credential. -/
theorem matches_of_unlocked {r : UnlockedAccount × AccountState} (hrow : userOf userId d = some u)
    (h : unlocked c o email choice state userId password d = .ok r) :
    c.matchesCredential email password u = true := by
  by_contra hm
  rw [unlocked, hrow, Option.filter_some, if_neg hm] at h
  cases h

/-- An account with a wrap is unlocked by opening the wrap. -/
theorem unlocks_wrapped_iff (h : AccountRow userId u d)
    (hm : c.matchesCredential email password u = true) {k iv : Bytes} {key : AccountKey}
    (hk : u.wrappedAccountKey = some k) (hiv : u.wrappedAccountKeyIv = some iv) :
    (∃ r, unlocked c o email choice state userId password d = .ok r ∧ r.1.key = key) ↔
      ∃ text, c.aes.decrypt (c.kek (c.deriveMasterKey password email) email) iv (aad c email) k =
          some text ∧
        key = { encKeyBytes := text.take 32, macKeyBytes := (text.drop 32).take 32 } := by
  have hserved := truthyPair_encode (h.wrap_ne_nil k hk) (h.iv_ne_nil iv hiv)
  rw [unlocked_eq h.row hm, unlockAccount]
  simp only [Auth.loginResponse, hk, hiv, Option.map_some, hserved, unwrapAccountKey_encode]
  cases c.aes.decrypt (c.kek (c.deriveMasterKey password email) email) iv (aad c email) k with
  | none =>
    constructor
    · rintro ⟨r, hr, _⟩
      cases hr
    · rintro ⟨text, ht, _⟩
      cases ht
  | some text =>
    constructor
    · rintro ⟨r, hr, hkey⟩
      cases hr
      exact ⟨text, rfl, hkey.symm⟩
    · rintro ⟨_, ht, hkey⟩
      cases ht
      exact ⟨_, rfl, hkey.symm⟩

/-- Keys of a legacy account are those that the password derives. -/
theorem key_of_unlockLegacy {api : AccountKeyApi} {ivs : UnlockIvs} {session : LoginResponse}
    {method : LoginMethod} {r : UnlockedAccount × AccountState}
    (h : unlockLegacy c api ivs email password session method state = .ok r) :
    r.1.key = (c.legacyKeys password email).account := by
  simp only [unlockLegacy, bind, Except.bind] at h
  split at h
  · cases h
  · split at h
    · cases h
    · cases h
      rfl

/-- Unlocking an account without a wrap, on a device that knows of none. -/
theorem unlocked_legacy_eq (h : AccountRow userId u d)
    (hm : c.matchesCredential email password u = true) (hnone : u.wrappedAccountKey = none) :
    unlocked c o email choice state userId password d =
      if state.accountKey then
        .error "The server didn't return this account's key. Not unlocking."
      else unlockLegacy c (serverApi c o email userId choice.sessionId d) choice.ivs email password
        (Auth.loginResponse choice.rawToken u choice.vaultId) (loginMethod u) state := by
  rw [unlocked_eq h.row hm, unlockAccount]
  simp only [Auth.loginResponse, hnone, Option.map_none, truthyPair, truthy, Option.bind_eq_bind,
    Option.bind_none]

/-- What unlocking an account without a wrap needs, and the keys that it returns. -/
theorem legacy_of_unlocked {r : UnlockedAccount × AccountState} (h : AccountRow userId u d)
    (hnone : u.wrappedAccountKey = none)
    (hr : unlocked c o email choice state userId password d = .ok r) :
    state.accountKey = false ∧ r.1.key = (c.legacyKeys password email).account := by
  rw [unlocked_legacy_eq h (matches_of_unlocked h.row hr) hnone] at hr
  split at hr
  · cases hr
  · rename_i hstate
    exact ⟨Bool.eq_false_iff.mpr hstate, key_of_unlockLegacy hr⟩

/-- The private key of the account is moved to its new wrap. -/
theorem rewrapPrivateKey_ok (choice : LoginChoice) {smk : Bytes}
    (h : PrivateKeyOpens c smk u.protectedPrivateKey u.protectedPrivateKeyIv) (newKey iv : Bytes) :
    ∃ pair, rewrapPrivateKey c (Auth.loginResponse choice.rawToken u choice.vaultId) smk newKey iv =
      .ok pair := by
  rw [rewrapPrivateKey]
  simp only [Auth.loginResponse]
  cases hp : truthyPair u.protectedPrivateKey u.protectedPrivateKeyIv with
  | none => exact ⟨none, rfl⟩
  | some pair =>
    obtain ⟨iv₀, ciphertext, hiv, hcipher, hopen⟩ := h pair hp
    obtain ⟨pkcs8, hdecrypt⟩ := Option.isSome_iff_exists.mp hopen
    simp only [hiv, hcipher, hdecrypt, Option.bind_eq_bind, Option.bind_some]
    exact ⟨_, rfl⟩

/-- The server lets an account without a wrap migrate. -/
theorem migrate_ok (choice : LoginChoice) (state : AccountState) (hc : c.Ideal o) (h : AccountRow userId u d)
    (hm : c.matchesCredential email password u = true) (hnone : u.wrappedAccountKey = none)
    (key : AccountKey) (masterKey iv : Bytes) (privateKey : Option (String × String)) :
    ∃ state', migrate (serverApi c o email userId choice.sessionId d) password
      (wrapAccountKey c key masterKey email iv) privateKey state (loginMethod u) = .ok state' := by
  rw [loginMethod]
  cases hrecord : u.opaqueRecord with
  | some record =>
    have hopens : c.opensRecord password record = true := by
      simpa [AccountCrypto.matchesCredential, hrecord] using hm
    simp only [migrate, serverApi, h.row, orThrow, throwUnless, hrecord, Option.any_some, hopens,
      wrapAccountKey, Base64.decode_encode, uploaded_setAccountKey h hnone, bind, Except.bind,
      Option.isSome_some, if_true]
    exact ⟨_, rfl⟩
  | none =>
    obtain ⟨record, hfinish⟩ := Option.isSome_iff_exists.mp (hc.registers password)
    have hsrp : u.srpVerifier.isSome := by
      have hcheck := h.check
      simp only [Tables.users, hrecord, Option.isSome_none, Bool.false_or, Bool.and_eq_true]
        at hcheck
      exact hcheck.1.2
    simp only [migrate, serverApi, h.row, orThrow, throwUnless, hm, hfinish, wrapAccountKey,
      Base64.decode_encode, uploaded_completeSrpUpgrade h hsrp, bind, Except.bind,
      Option.isSome_none, Bool.false_eq_true, if_true, if_false]
    exact ⟨_, rfl⟩

/-- A matching password unlocks an account without a wrap. -/
theorem unlocks_legacy (hc : c.Ideal o) (h : AccountRow userId u d)
    (hm : c.matchesCredential email password u = true) (hnone : u.wrappedAccountKey = none)
    (hstate : state.accountKey = false)
    (hp : PrivateKeyOpens c (c.legacyKeys password email).smkBytes u.protectedPrivateKey
      u.protectedPrivateKeyIv) :
    ∃ r, unlocked c o email choice state userId password d = .ok r ∧
      r.1.key = (c.legacyKeys password email).account := by
  obtain ⟨pair, hpair⟩ := rewrapPrivateKey_ok choice hp
    (c.accountSmkBytes (c.legacyKeys password email).account) choice.ivs.privateKeyIv
  obtain ⟨state', hmigrate⟩ := migrate_ok choice state hc h hm hnone
    (c.legacyKeys password email).account (c.deriveMasterKey password email) choice.ivs.wrapIv pair
  have hok : ∃ r, unlocked c o email choice state userId password d = .ok r := by
    rw [unlocked_legacy_eq h hm hnone, hstate, if_neg Bool.false_ne_true, unlockLegacy]
    simp only [hpair, bind, Except.bind, hmigrate]
    exact ⟨_, rfl⟩
  obtain ⟨r, hr⟩ := hok
  exact ⟨r, hr, (legacy_of_unlocked h hnone hr).2⟩

end Unlock

/-- A request that replaces the password of an account. -/
inductive RotationRequest where
  | recovery (now : Nat) (req : Recovery.RecoveryCompleteRequest)
  | change (now : Nat) (auth : AuthUser) (req : Password.PasswordChangeFinishRequest)

/-- The program of a request. -/
def RotationRequest.run (o : Opaque) : RotationRequest → Request Unit
  | .recovery now req => Recovery.recoveryComplete o now req
  | .change now auth req => Password.finish o now auth req

/-- The request brings a wrap of the account key. -/
def RotationRequest.carriesWrap : RotationRequest → Bool
  | .recovery _ req => req.wrappedAccountKey.isSome
  | .change _ _ _ => true

/-- A credential that was made for a password. -/
def CredentialFor (c : AccountCrypto) (email password : String) : DbRecovery.NewCredential → Prop
  | .opaqueRecord record => c.opensRecord password record = true
  | .srp salt verifier => c.opensVerifier email password salt verifier = true

/-- A wrap of the account key that was made under a password. -/
def WrapFor (c : AccountCrypto) (email password : String) (key : AccountKey)
    (wrapped wrappedIv : String) : Prop :=
  ∃ iv, iv ≠ [] ∧ (⟨wrapped, wrappedIv⟩ : WrappedAccountKey) =
    wrapAccountKey c key (c.deriveMasterKey password email) email iv

/-- The private key of a request, moved under a key; a request without one is for an account
without one. -/
def PrivateKeyFor (c : AccountCrypto) (smk : Bytes) (u : User) : Option String → Option String → Prop
  | some k, some iv => PrivateKeyOpens c smk (some k) (some iv)
  | _, _ => truthyPair u.protectedPrivateKey u.protectedPrivateKeyIv = none

/-- A request that a correct client sends for the account `u` with the account key `key`, to make
`password` its password. Current clients wrap the account key; those that predate it re-encrypt
every item and move the private key, under the keys that the password derives. -/
inductive CorrectRequest (c : AccountCrypto) (o : Opaque) (email : String) (userId : Uuid)
    (key : AccountKey) (password : String) (u : User) (d : Db) : RotationRequest → Prop where
  | change (now : Nat) (auth : AuthUser) (req : Password.PasswordChangeFinishRequest)
      (hauth : auth.userId = userId)
      (hcredential : ∀ upload record, Base64.decodeUrl req.registrationRecord = some upload →
        o.registrationFinish upload = some record → c.opensRecord password record = true)
      (hwrap : WrapFor c email password key req.wrappedAccountKey req.wrappedAccountKeyIv) :
      CorrectRequest c o email userId key password u d (.change now auth req)
  | recovery (now : Nat) (req : Recovery.RecoveryCompleteRequest) (k iv : String)
      (htoken : ∀ p ∈ d.pendingRecoverySessions, req.recoveryToken = some p.token →
        p.userId = userId)
      (hcredential : ∀ cred, (Recovery.credentialOf o req).alone id d = (.ok cred, d) →
        CredentialFor c email password cred)
      (hk : req.wrappedAccountKey = some k) (hiv : req.wrappedAccountKeyIv = some iv)
      (hwrap : WrapFor c email password key k iv) :
      CorrectRequest c o email userId key password u d (.recovery now req)
  | legacyRecovery (now : Nat) (req : Recovery.RecoveryCompleteRequest)
      (htoken : ∀ p ∈ d.pendingRecoverySessions, req.recoveryToken = some p.token →
        p.userId = userId)
      (hcredential : ∀ cred, (Recovery.credentialOf o req).alone id d = (.ok cred, d) →
        CredentialFor c email password cred)
      (hk : req.wrappedAccountKey = none) (hiv : req.wrappedAccountKeyIv = none)
      (hitems : ∀ rows, (Recovery.decodeReencryptedItems req.items).alone id d = (.ok rows, d) →
        ∀ i ∈ DbRecovery.itemsOf userId d, ∀ row ∈ rows, row.id = i.id →
          c.opensItem (c.legacyKeys password email).account (row.reencrypt i) = true)
      (hprivate : PrivateKeyFor c (c.legacyKeys password email).smkBytes u req.protectedPrivateKey
        req.protectedPrivateKeyIv) :
      CorrectRequest c o email userId key password u d (.recovery now req)

section Rotated

variable {c : AccountCrypto} {o : Opaque} {email password : String} {choice : LoginChoice}
  {state : AccountState} {userId : Uuid} {u : User} {d d' : Db} {key : AccountKey}
  {tag : Tag} {authority : DbRecovery.RotationAuthority} {rotation : DbRecovery.PasswordRotation}
  {out : Unit}

/-- The row of an account depends on the accounts alone. -/
theorem AccountRow.congr (h : AccountRow userId u d) (hsame : SameAccounts d d') :
    AccountRow userId u d' where
  row := (userOf_congr hsame.users userId).trans h.row
  unique := by
    rw [hsame.users]
    exact h.unique
  check := h.check
  wrap_ne_nil := h.wrap_ne_nil
  iv_ne_nil := h.iv_ne_nil

/-- The row of the account after a rotation. -/
theorem AccountRow.rotated (h : AccountRow userId u d)
    (hrun : (DbRecovery.rotateMasterPassword tag authority userId rotation).alone id d =
      (.ok out, d'))
    (hw : ∀ w ∈ rotation.wrappedAccountKey, w.1 ≠ [] ∧ w.2 ≠ []) :
    AccountRow userId (rotation.rotated authority.keepSession u) d' := by
  obtain ⟨hcheck, husers, _⟩ := alone_rotateMasterPassword hrun
  have hid : ∀ u : User, (if u.id = userId then rotation.rotated authority.keepSession u
      else u).id = u.id := by
    intro u
    split
    · rfl
    · rfl
  have hu := id_of_mem_userOf (Option.mem_def.mpr h.row)
  constructor
  · have hfind : d'.users.find? (fun u => decide (u.id = userId)) = (userOf userId d).map fun u =>
        if u.id = userId then rotation.rotated authority.keepSession u else u := by
      rw [husers, List.find?_map]
      refine congrArg (Option.map _) (congrArg (List.find? · _) (funext fun u => ?_))
      exact congrArg (fun id => decide (id = userId)) (hid u)
    rw [userOf, hfind, h.row, Option.map_some, if_pos hu]
  · have hids : d'.users.map (·.id) = d.users.map (·.id) := by
      rw [husers, List.map_map]
      exact List.map_congr_left fun u _ => hid u
    rw [hids]
    exact h.unique
  · exact hcheck u (List.mem_of_find?_eq_some h.row) hu
  · intro k hk
    cases hwrap : rotation.wrappedAccountKey with
    | none =>
      refine h.wrap_ne_nil k ?_
      simpa [DbRecovery.PasswordRotation.rotated, hwrap] using hk
    | some w =>
      have hkw : w.1 = k := by simpa [DbRecovery.PasswordRotation.rotated, hwrap] using hk
      rw [← hkw]
      exact (hw w hwrap).1
  · intro iv hiv
    cases hwrap : rotation.wrappedAccountKey with
    | none =>
      refine h.iv_ne_nil iv ?_
      simpa [DbRecovery.PasswordRotation.rotated, hwrap] using hiv
    | some w =>
      have hivw : w.2 = iv := by simpa [DbRecovery.PasswordRotation.rotated, hwrap] using hiv
      rw [← hivw]
      exact (hw w hwrap).2

/-- The new password matches the new credential. -/
theorem matches_rotated {keep : Option Uuid} (h : CredentialFor c email password rotation.credential) :
    c.matchesCredential email password (rotation.rotated keep u) = true := by
  cases hcred : rotation.credential with
  | opaqueRecord record =>
    rw [hcred] at h
    simpa [AccountCrypto.matchesCredential, DbRecovery.PasswordRotation.rotated, hcred,
      DbRecovery.NewCredential.record, CredentialFor] using h
  | srp salt verifier =>
    rw [hcred] at h
    simpa [AccountCrypto.matchesCredential, DbRecovery.PasswordRotation.rotated, hcred,
      DbRecovery.NewCredential.record, DbRecovery.NewCredential.srpPair, CredentialFor] using h

/-- The keys are read back from the text that a wrap encrypts. -/
theorem key_of_plaintext (hkey : key.IsKey) :
    ({ encKeyBytes := key.plaintext.take 32
       macKeyBytes := (key.plaintext.drop 32).take 32 } : AccountKey) = key := by
  obtain ⟨henc, hmac⟩ := hkey
  have htake : ∀ bytes : Bytes, bytes.length = 32 →
      (bytes ++ List.replicate 32 0).take 32 = bytes := fun bytes h => by
    rw [← h, List.take_left]
  rw [AccountKey.plaintext, htake _ henc, htake _ hmac]
  rw [← henc, List.take_left, List.drop_left, henc, ← hmac, List.take_length]

/-- A rotation that brings a wrap of the account key and leaves the items alone is followed by an
account that opens with the new password. -/
theorem opens_of_wrap (hc : c.Ideal o) (h : AccountRow userId u d) (hkey : key.IsKey)
    (hitems : ∀ i ∈ DbRecovery.itemsOf userId d, c.opensItem key i = true)
    (hrun : (DbRecovery.rotateMasterPassword tag authority userId rotation).alone id d =
      (.ok out, d'))
    (hcred : CredentialFor c email password rotation.credential) {iv : Bytes} (hiv : iv ≠ [])
    (hwrap : rotation.wrappedAccountKey = some (c.aes.encrypt
      (c.kek (c.deriveMasterKey password email) email) iv (aad c email) key.plaintext, iv))
    (hnone : rotation.reencryptedItems = none) :
    Opens c o email choice state userId password key d' := by
  have hrow := h.rotated hrun fun w hw => by
    rw [hwrap] at hw
    cases hw
    exact ⟨hc.aes_correct.encrypt_ne_nil _ _ _ _, hiv⟩
  obtain ⟨_, _, hswapped⟩ := alone_rotateMasterPassword hrun
  rw [hnone] at hswapped
  refine ⟨?_, hkey, fun i hi => hitems i ?_⟩
  · refine (unlocks_wrapped_iff hrow (matches_rotated hcred)
      (by simp [DbRecovery.PasswordRotation.rotated, hwrap]; rfl)
      (by simp [DbRecovery.PasswordRotation.rotated, hwrap]; rfl)).mpr ?_
    exact ⟨_, hc.aes_correct.decrypt_encrypt _ _ _ _, (key_of_plaintext hkey).symm⟩
  · rw [DbRecovery.itemsOf, show d'.vaultItems = d.vaultItems from hswapped] at hi
    exact hi

/-- With no wrap before or in the request, re-encrypting every item leaves an account that opens
with the new password. -/
theorem opens_of_legacy (hc : c.Ideal o) (h : AccountRow userId u d)
    (hnone : u.wrappedAccountKey = none) (hstate : state.accountKey = false)
    (hrun : (DbRecovery.rotateMasterPassword tag authority userId rotation).alone id d =
      (.ok out, d'))
    (hcred : CredentialFor c email password rotation.credential)
    (hwrap : rotation.wrappedAccountKey = none)
    (hp : PrivateKeyOpens c (c.legacyKeys password email).smkBytes
      (rotation.rotated authority.keepSession u).protectedPrivateKey
      (rotation.rotated authority.keepSession u).protectedPrivateKeyIv)
    (hitems : ∀ i ∈ DbRecovery.itemsOf userId d',
      c.opensItem (c.legacyKeys password email).account i = true) :
    Opens c o email choice state userId password (c.legacyKeys password email).account d' := by
  have hrow := h.rotated hrun fun w hw => by
    rw [hwrap] at hw
    cases hw
  have hnone' : (rotation.rotated authority.keepSession u).wrappedAccountKey = none := by
    simp [DbRecovery.PasswordRotation.rotated, hwrap, hnone]
  refine ⟨?_, hc.legacy_isKey password email, hitems⟩
  exact unlocks_legacy hc hrow (matches_rotated hcred) hnone' hstate hp

/-- A wrap that the rotation left in place opens with the new password exactly when that is the old
one, and then to the same key. -/
theorem unlocks_kept_wrap_iff (choice : LoginChoice) (hc : c.Ideal o) (h : AccountRow userId u d) {old : String}
    (hold : ∃ r, unlocked c o email choice state userId old d = .ok r ∧ r.1.key = key)
    {k : Bytes} (hk : u.wrappedAccountKey = some k)
    (hrun : (DbRecovery.rotateMasterPassword tag authority userId rotation).alone id d =
      (.ok out, d'))
    (hcred : CredentialFor c email password rotation.credential)
    (hwrap : rotation.wrappedAccountKey = none) (key' : AccountKey) :
    (∃ r, unlocked c o email choice state userId password d' = .ok r ∧ r.1.key = key') ↔
      password = old ∧ key' = key := by
  obtain ⟨iv, hiv⟩ : ∃ iv, u.wrappedAccountKeyIv = some iv := by
    have hcheck := h.check
    simp only [Tables.users, hk, Option.isNone_some, Bool.and_eq_true] at hcheck
    cases hiv : u.wrappedAccountKeyIv with
    | none => simp [hiv] at hcheck
    | some iv => exact ⟨iv, rfl⟩
  obtain ⟨r, hr, hrkey⟩ := hold
  have hopen := (unlocks_wrapped_iff h (matches_of_unlocked h.row hr) hk hiv).mp ⟨r, hr, hrkey⟩
  obtain ⟨text, htext, hkey⟩ := hopen
  have hrow := h.rotated hrun fun w hw => by
    rw [hwrap] at hw
    cases hw
  have hk' : (rotation.rotated authority.keepSession u).wrappedAccountKey = some k := by
    simp [DbRecovery.PasswordRotation.rotated, hwrap, hk]
  have hiv' : (rotation.rotated authority.keepSession u).wrappedAccountKeyIv = some iv := by
    simp [DbRecovery.PasswordRotation.rotated, hwrap, hiv]
  rw [unlocks_wrapped_iff hrow (matches_rotated hcred) hk' hiv']
  constructor
  · rintro ⟨text', htext', hkey'⟩
    have hsame := (hc.aes_committing _ _ _ _ _ _ _ (Option.isSome_of_mem htext')
      (Option.isSome_of_mem htext)).1
    have hpassword := hc.kek_inj email password old hsame
    subst hpassword
    rw [htext] at htext'
    cases htext'
    exact ⟨rfl, hkey'.trans hkey.symm⟩
  · rintro ⟨rfl, rfl⟩
    exact ⟨text, htext, hkey⟩

/-- The private key that a legacy client leaves opens with the keys of the new password. -/
theorem privateKeyOpens_rotated {keep : Option Uuid} {smk : Bytes} {k iv : Option String}
    (h : PrivateKeyFor c smk u k iv)
    (hpair : rotation.protectedPrivateKey = k.bind fun k => iv.map fun iv => (k, iv)) :
    PrivateKeyOpens c smk (rotation.rotated keep u).protectedPrivateKey
      (rotation.rotated keep u).protectedPrivateKeyIv := by
  have hkeep : rotation.protectedPrivateKey = none →
      truthyPair u.protectedPrivateKey u.protectedPrivateKeyIv = none →
      PrivateKeyOpens c smk (rotation.rotated keep u).protectedPrivateKey
        (rotation.rotated keep u).protectedPrivateKeyIv := by
    intro hnone hu pair hp
    simp [DbRecovery.PasswordRotation.rotated, hnone, hu] at hp
  cases k with
  | none => exact hkeep hpair h
  | some k =>
    cases iv with
    | none => exact hkeep hpair h
    | some iv =>
      intro pair hp
      refine h pair ?_
      simpa [DbRecovery.PasswordRotation.rotated, hpair] using hp

end Rotated

/-- After a password change or a recovery by a correct client of either generation, the new password
opens the account exactly when the request brought a wrap, or the account had none, or the old
password was kept and the wrapped key is the one that it derives or there are no items. -/
theorem opens_iff_of_rotation {c : AccountCrypto} {o : Opaque} {email old password : String}
    {choice : LoginChoice} {state : AccountState} {userId : Uuid} {u : User} {d d' : Db}
    {key : AccountKey} {r : RotationRequest} {out : Unit} (hc : c.Ideal o)
    (hrow : AccountRow userId u d) (hopen : Opens c o email choice state userId old key d)
    (hr : CorrectRequest c o email userId key password u d r)
    (hrun : (r.run o).alone id d = (.ok out, d')) :
    (∃ key', Opens c o email choice state userId password key' d') ↔
      r.carriesWrap = true ∨ u.wrappedAccountKey = none ∨
        password = old ∧ (DbRecovery.itemsOf userId d = [] ∨
          key = (c.legacyKeys password email).account) := by
  cases hr with
  | change now auth req hauth hcredential hwrap =>
    subst hauth
    obtain ⟨tag, sessionId, d₁, upload, record, k, iv, hsame, hupload, hrecord, hk, hiv, hrun⟩ :=
      alone_passwordFinish hrun
    obtain ⟨iv', hiv', hmade⟩ := hwrap
    obtain ⟨hmadeKey, hmadeIv⟩ := WrappedAccountKey.mk.inj hmade
    rw [hmadeKey, Base64.decode_encode, Option.some_inj] at hk
    rw [hmadeIv, Base64.decode_encode, Option.some_inj] at hiv
    subst hk hiv
    have hitems : ∀ i ∈ DbRecovery.itemsOf auth.userId d₁, c.opensItem key i = true := by
      rw [DbRecovery.itemsOf, hsame.vaultItems]
      exact hopen.opensItems
    refine iff_of_true ⟨key, ?_⟩ (Or.inl rfl)
    exact opens_of_wrap hc (hrow.congr hsame) hopen.isKey hitems hrun
      (hcredential upload record hupload hrecord) hiv' rfl rfl
  | recovery now req k iv htoken hcredential hk hiv hwrap =>
    obtain ⟨session, hsession, htok, rotation, hcred, hwrapOf, hitemsOf, _, hrun⟩ :=
      alone_recoveryComplete hrun
    have huser := htoken session hsession htok
    subst huser
    obtain ⟨iv', hiv', hmade⟩ := hwrap
    obtain ⟨rfl, rfl⟩ := WrappedAccountKey.mk.inj hmade
    rw [Recovery.wrapOf, hk, hiv] at hwrapOf
    simp only [Recovery.decodeB64, decodeField, Base64.decode_encode] at hwrapOf
    have hwrapped := (Except.ok.inj (congrArg Prod.fst hwrapOf)).symm
    rw [hwrapped] at hitemsOf
    obtain ⟨_, hitemsOf⟩ := alone_require_bind hitemsOf
    have hnone := (Except.ok.inj (congrArg Prod.fst hitemsOf)).symm
    have hcarries : (RotationRequest.recovery now req).carriesWrap = true := by
      rw [RotationRequest.carriesWrap, hk]
      rfl
    refine iff_of_true ⟨key, ?_⟩ (Or.inl hcarries)
    exact opens_of_wrap hc hrow hopen.isKey hopen.opensItems hrun (hcredential _ hcred) hiv'
      hwrapped hnone
  | legacyRecovery now req htoken hcredential hk hiv hitems hprivate =>
    obtain ⟨session, hsession, htok, rotation, hcred, hwrapOf, hitemsOf, hpair, hrun⟩ :=
      alone_recoveryComplete hrun
    have huser := htoken session hsession htok
    subst huser
    have hcarries : ¬ (RotationRequest.recovery now req).carriesWrap = true := by
      rw [RotationRequest.carriesWrap, hk]
      exact Bool.false_ne_true
    rw [Recovery.wrapOf, hk, hiv] at hwrapOf
    have hwrapped := (Except.ok.inj (congrArg Prod.fst hwrapOf)).symm
    rw [hwrapped] at hitemsOf
    obtain ⟨rows, hrows, hnodup, hdecoded⟩ := alone_itemsOf_none hitemsOf
    obtain ⟨_, _, hswapped⟩ := alone_rotateMasterPassword hrun
    rw [hrows] at hswapped
    -- every item now stands under the keys that the new password derives
    have hlegacy : ∀ i ∈ DbRecovery.itemsOf session.userId d',
        c.opensItem (c.legacyKeys password email).account i = true := by
      intro i hi
      obtain ⟨hin, hu⟩ := List.mem_filter.mp hi
      obtain ⟨i₀, hi₀, hu₀, row, hrowmem, hid, rfl⟩ :=
        hswapped.exists_row hnodup hin (of_decide_eq_true hu)
      exact hitems rows hdecoded i₀ (List.mem_filter.mpr ⟨hi₀, decide_eq_true hu₀⟩) row hrowmem hid
    have hempty : DbRecovery.itemsOf session.userId d' = [] ↔
        DbRecovery.itemsOf session.userId d = [] := by
      rw [DbRecovery.itemsOf, hswapped.filter_eq, List.map_eq_nil_iff, DbRecovery.itemsOf]
    cases hwrap : u.wrappedAccountKey with
    | none =>
      obtain ⟨r, hr, hrkey⟩ := hopen.unlocks
      have hstate := (legacy_of_unlocked hrow hwrap hr).1
      refine iff_of_true ⟨_, opens_of_legacy hc hrow hwrap hstate hrun (hcredential _ hcred)
        hwrapped (privateKeyOpens_rotated hprivate hpair) hlegacy⟩ (Or.inr (Or.inl rfl))
    | some k =>
      have hkept := unlocks_kept_wrap_iff choice hc hrow hopen.unlocks hwrap hrun
        (hcredential _ hcred) hwrapped
      constructor
      · rintro ⟨key', hopens⟩
        obtain ⟨hsame, rfl⟩ := (hkept key').mp hopens.unlocks
        refine Or.inr (Or.inr ⟨hsame, ?_⟩)
        by_cases hnil : DbRecovery.itemsOf session.userId d = []
        · exact Or.inl hnil
        · obtain ⟨i, hi⟩ := List.exists_mem_of_ne_nil _ (hempty.not.mpr hnil)
          exact Or.inr (hc.item_key _ _ i (hopens.opensItems i hi) (hlegacy i hi))
      · rintro (hc' | hc' | ⟨hsame, hitems'⟩)
        · exact absurd hc' hcarries
        · cases hc'
        · refine ⟨key, (hkept key).mpr ⟨hsame, rfl⟩, hopen.isKey, fun i hi => ?_⟩
          rcases hitems' with hnil | hkey
          · rw [hempty.mpr hnil] at hi
            cases hi
          · rw [hkey]
            exact hlegacy i hi

/-- Cryptography in the clear: a password stands for its keys, and an item for the key that opens
it. -/
def clearCrypto : AccountCrypto where
  aes := Aead.transparent
  computeEmailHash email := email
  deriveMasterKey password _ := utf8 password
  stretchMasterKeyAllRaw masterKey _ :=
    { smkBytes := masterKey
      encKeyBytes := (masterKey ++ List.replicate 32 0).take 32
      macKeyBytes := (masterKey ++ List.replicate 32 1).take 32 }
  kek masterKey _ := masterKey
  accountSmkBytes key := key.encKeyBytes
  opensRecord password record := decide (utf8 password = record)
  opensVerifier _ password _ verifier := decide (utf8 password = verifier)
  registrationRecord := utf8
  opensItem key i := decide (i.blob = key.encKeyBytes) && decide (i.blobMac = key.macKeyBytes)

/-- OPAQUE in the clear: a record is its upload. -/
def clearOpaque : Opaque where
  validRequest _ := true
  registrationStart request _ := some request
  registrationFinish := some
  proves finalization record _ := decide (finalization = record)
  srpVerify _ _ _ _ := false
  hashToken := id
  hashAuthKey := id

/-- What is asked of the cryptography can be met. -/
theorem clearCrypto_ideal : clearCrypto.Ideal clearOpaque where
  aes_correct := Aead.transparent_correct
  aes_committing := Aead.transparent_committing
  kek_inj _ _ _ h := utf8_injective h
  legacy_isKey password _ := by
    have hlen : ∀ b : UInt8, ((utf8 password ++ List.replicate 32 b).take 32).length = 32 := by
      intro b
      rw [List.length_take, List.length_append, List.length_replicate]
      omega
    exact ⟨hlen 0, hlen 1⟩
  item_key key key' i h h' := by
    obtain ⟨henc, hmac⟩ := Bool.and_eq_true_iff.mp h
    obtain ⟨henc', hmac'⟩ := Bool.and_eq_true_iff.mp h'
    have hsame : key.encKeyBytes = key'.encKeyBytes :=
      (of_decide_eq_true henc).symm.trans (of_decide_eq_true henc')
    have hsame' : key.macKeyBytes = key'.macKeyBytes :=
      (of_decide_eq_true hmac).symm.trans (of_decide_eq_true hmac')
    cases key
    cases key'
    subst hsame hsame'
    rfl
  registers _ := rfl

/-- The account key of an account that has moved to a wrap with the password "old". -/
private def migratedKey : AccountKey := (clearCrypto.legacyKeys "old" "a@b").account

/-- Account 1 with a wrap of this key under "old", one item and a recovery under way. -/
private def migratedUser : User where
  id := 1
  opaqueRecord := some (utf8 "old")
  wrappedAccountKey :=
    some (clearCrypto.aes.encrypt (utf8 "old") [1] (aad clearCrypto "a@b") migratedKey.plaintext)
  wrappedAccountKeyIv := some [1]

private def migrated : Db where
  users := [migratedUser]
  vaultItems := [{ id := 20, vaultId := 10, userId := 1, itemType := "login"
                   blob := migratedKey.encKeyBytes, blobIv := [1]
                   blobMac := migratedKey.macKeyBytes }]
  pendingRecoverySessions := [{ token := 7, userId := 1, createdAt := 0 }]

/-- What this device knows and chooses when it logs in. -/
private def freshLogin : LoginChoice where
  rawToken := "t"
  sessionId := 30
  vaultId := 10
  ivs := { wrapIv := [2], privateKeyIv := [3] }

/-- A recovery to the password "new" with the given wrap and items. -/
private def recoverTo (wrapped : Option WrappedAccountKey) (items : List Recovery.ReencryptedItem) :
    Recovery.RecoveryCompleteRequest where
  recoveryToken := some 7
  registrationRecord := some "bmV3"
  srpSalt := none
  srpVerifier := none
  protectedSymmetricKey := ""
  protectedSymmetricKeyIv := ""
  protectedPrivateKey := none
  protectedPrivateKeyIv := none
  wrappedAccountKey := wrapped.map (·.wrappedAccountKey)
  wrappedAccountKeyIv := wrapped.map (·.wrappedAccountKeyIv)
  items := items
  recoveryAuthKey := "AAAAAAAAAAAAAAAAAAAAAAAAAAAAAAAAAAAAAAAAAAA="
  recoveryBlob := ""
  recoveryBlobIv := ""

/-- The recovery of a current client. -/
private def wrappedRecovery : Recovery.RecoveryCompleteRequest :=
  recoverTo (some (wrapAccountKey clearCrypto migratedKey (utf8 "new") "a@b" [4])) []

/-- The recovery of a client that predates the account key. -/
private def unwrappedRecovery : Recovery.RecoveryCompleteRequest :=
  recoverTo none [{ id := 20, blobIv := "AQ=="
                    blob := Base64.encode (clearCrypto.legacyKeys "new" "a@b").encKeyBytes
                    blobMac := Base64.encode (clearCrypto.legacyKeys "new" "a@b").macKeyBytes }]

private theorem migratedRow : AccountRow 1 migratedUser migrated where
  row := rfl
  unique := by decide
  check := rfl
  wrap_ne_nil k hk := by
    cases hk
    exact Aead.transparent_correct.encrypt_ne_nil _ _ _ _
  iv_ne_nil iv hiv := by
    cases hiv
    exact List.cons_ne_nil _ _

private theorem opensMigrated :
    Opens clearCrypto clearOpaque "a@b" freshLogin {} 1 "old" migratedKey migrated where
  unlocks := by
    have hkey : (unlocked clearCrypto clearOpaque "a@b" freshLogin {} 1 "old" migrated).toOption.map
        (·.1.key) = some migratedKey := by decide +kernel
    obtain ⟨r, hr, hrkey⟩ := Option.map_eq_some_iff.mp hkey
    cases hu : unlocked clearCrypto clearOpaque "a@b" freshLogin {} 1 "old" migrated with
    | error e =>
      rw [hu] at hr
      cases hr
    | ok r' =>
      rw [hu] at hr
      cases hr
      exact ⟨r, rfl, hrkey⟩
  isKey := by decide
  opensItems := by decide

/-- The new credential is for the password "new". -/
private theorem credentialForNew (wrapped : Option WrappedAccountKey)
    (items : List Recovery.ReencryptedItem) {cred : DbRecovery.NewCredential}
    (h : (Recovery.credentialOf clearOpaque (recoverTo wrapped items)).alone id migrated =
      (.ok cred, migrated)) : CredentialFor clearCrypto "a@b" "new" cred := by
  have hcred : (Recovery.credentialOf clearOpaque (recoverTo none [])).alone id migrated =
      (.ok (.opaqueRecord (utf8 "new")), migrated) := by decide
  have hsame : (Recovery.credentialOf clearOpaque (recoverTo wrapped items)).alone id migrated =
      (Recovery.credentialOf clearOpaque (recoverTo none [])).alone id migrated := rfl
  rw [hsame, hcred] at h
  cases h
  exact decide_eq_true (Eq.refl (utf8 "new"))

/-- The database after a recovery. -/
private def afterRecovery (req : Recovery.RecoveryCompleteRequest) : Db :=
  ((Recovery.recoveryComplete clearOpaque 0 req).alone id migrated).2

private theorem recovers (req : Recovery.RecoveryCompleteRequest)
    (h : ((Recovery.recoveryComplete clearOpaque 0 req).alone id migrated).1 = .ok ()) :
    (Recovery.recoveryComplete clearOpaque 0 req).alone id migrated =
      (.ok (), afterRecovery req) := by
  rw [← h, afterRecovery]

/-- The token of the recovery is the account's. -/
private theorem recoversMigrated (wrapped : Option WrappedAccountKey)
    (items : List Recovery.ReencryptedItem) : ∀ p ∈ migrated.pendingRecoverySessions,
      (recoverTo wrapped items).recoveryToken = some p.token → p.userId = 1 := by
  intro p hp _
  rw [List.mem_singleton.mp hp]

/-- A recovery with a wrap is followed by an account that opens with the new password. -/
theorem opens_iff_of_rotation_wrapped :
    (Recovery.recoveryComplete clearOpaque 0 wrappedRecovery).alone id migrated =
        (.ok (), afterRecovery wrappedRecovery) ∧
      ∃ key', Opens clearCrypto clearOpaque "a@b" freshLogin {} 1 "new" key'
        (afterRecovery wrappedRecovery) := by
  have hrun := recovers wrappedRecovery (by decide +kernel)
  refine ⟨hrun, ?_⟩
  exact (opens_iff_of_rotation (r := .recovery 0 wrappedRecovery) clearCrypto_ideal migratedRow
    opensMigrated (.recovery 0 wrappedRecovery _ _ (recoversMigrated _ _)
      (fun _ => credentialForNew _ _) rfl rfl ⟨[4], by decide, rfl⟩) hrun).mpr (Or.inl rfl)

/-- A client that predates the account key recovers an account that has a wrap: the old password
opened it, and the new one does not. -/
theorem not_opens_of_unwrapped_recovery :
    Opens clearCrypto clearOpaque "a@b" freshLogin {} 1 "old" migratedKey migrated ∧
      CorrectRequest clearCrypto clearOpaque "a@b" 1 migratedKey "new" migratedUser migrated
        (.recovery 0 unwrappedRecovery) ∧
      (Recovery.recoveryComplete clearOpaque 0 unwrappedRecovery).alone id migrated =
        (.ok (), afterRecovery unwrappedRecovery) ∧
      ∀ key', ¬ Opens clearCrypto clearOpaque "a@b" freshLogin {} 1 "new" key'
        (afterRecovery unwrappedRecovery) := by
  refine ⟨opensMigrated, ?_, recovers _ (by decide), ?_⟩
  · refine .legacyRecovery 0 unwrappedRecovery (recoversMigrated _ _)
      (fun _ => credentialForNew _ _) rfl rfl ?_ rfl
    intro rows hrows
    have hdecoded : ((Recovery.decodeReencryptedItems unwrappedRecovery.items).alone id
        migrated).1.toOption.all (fun rows =>
          (DbRecovery.itemsOf 1 migrated).all fun i => rows.all fun row =>
            clearCrypto.opensItem (clearCrypto.legacyKeys "new" "a@b").account
              (row.reencrypt i)) = true := by decide
    rw [hrows] at hdecoded
    intro i hi row hrow _
    exact List.all_eq_true.mp (List.all_eq_true.mp hdecoded i hi) row hrow
  · intro key' hopens
    obtain ⟨r, hr, _⟩ := hopens.unlocks
    have hclosed : (unlocked clearCrypto clearOpaque "a@b" freshLogin {} 1 "new"
        (afterRecovery unwrappedRecovery)).toOption = none := by decide +kernel
    rw [hr] at hclosed
    cases hclosed

end Nopass
