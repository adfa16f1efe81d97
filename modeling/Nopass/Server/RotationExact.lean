import Nopass.Core.Sql.Batch
import Nopass.Server.Orgs

/-!
# What a rotation does to the database

A rotation compares sets of ids: those that the request covers with those of the
organization's rows. Its writes go by organization and id. A row's key is its user and
its id, so two members' rows in one organization may share an id; then one submitted
item is written into both. When no two rows that the request re-encrypts share an id,
each row of the organization is rewritten by its own item or deleted, each remaining
member has the submitted wrap, and nothing else changes.
-/

namespace Nopass

open ReadCommitted DbOrgs

/-- What the schema asks of the rows that a rotation looks at. -/
structure OrgSchema (d : Db) : Prop where
  items : (d.vaultItems.map Tables.vaultItems.key).Nodup
  members : (d.organizationMembers.map Tables.organizationMembers.key).Nodup
  organizations : (d.organizations.map Tables.organizations.key).Nodup
  /-- Members are accounts. -/
  users : ∀ m ∈ d.organizationMembers, (userRef m.userId).live d = true
  /-- `key_epoch` is a positive 32-bit integer. -/
  epochs : ∀ o ∈ d.organizations, 1 ≤ o.keyEpoch ∧ o.keyEpoch < 2 ^ 31

/-- An item under the new key. -/
def ReencryptedItem.rewrite (item : ReencryptedItem) (i : VaultItem) : VaultItem :=
  { i with blob := item.blob, blobIv := item.blobIv, blobMac := item.blobMac
           version := i.version + 1 }

/-- The submitted items go by id into the rows of the organization. -/
def itemBatch (orgId : Uuid) : Batch Db RowId VaultItem ReencryptedItem Uuid where
  table := Tables.vaultItems
  scope i := i.orgId = some orgId
  rowKey := VaultItem.id
  entryKey := ReencryptedItem.id
  write := ReencryptedItem.rewrite
  refs _ _ := []
  key_write _ _ := rfl
  scope_write _ _ := rfl
  rowKey_write _ _ := rfl
  live_set _ _ _ href := (List.not_mem_nil href).elim

/-- The submitted wraps go by user into the rows of the organization. -/
def wrapBatch (orgId ownerId : Uuid) : Batch Db RowId OrganizationMember RewrapEntry Uuid where
  table := Tables.organizationMembers
  scope m := m.orgId = orgId
  rowKey := OrganizationMember.userId
  entryKey := RewrapEntry.userId
  write := setWrap ownerId
  refs _ m := if m.userId = ownerId ∨ m.invitedBy = some ownerId then [] else [userRef ownerId]
  key_write _ _ := rfl
  scope_write _ _ := rfl
  rowKey_write _ _ := rfl
  live_set _ m ref href rows d := by
    split at href
    · exact (List.not_mem_nil href).elim
    · cases List.mem_singleton.mp href
      rfl

/-- The row that the removal takes away. -/
def isRemoved (orgId : Uuid) (removeUserId : Option Uuid) (m : OrganizationMember) : Bool :=
  removeUserId.any fun removed =>
    decide (m.orgId = orgId) && decide (m.userId = removed) && decide (m.role ≠ .owner)

/-- The database after the removal. -/
def withoutRemoved (orgId : Uuid) (removeUserId : Option Uuid) (d : Db) : Db :=
  { d with organizationMembers := d.organizationMembers.filter (!isRemoved orgId removeUserId ·) }

/-- The database after the deletion of items. -/
def withoutItems (orgId : Uuid) (ids : List Uuid) (d : Db) : Db :=
  { d with vaultItems := d.vaultItems.filter fun i =>
      !(decide (i.orgId = some orgId) && decide (i.id ∈ ids)) }

/-- The database at the new epoch. -/
def withEpoch (orgId : Uuid) (epoch : Int) (d : Db) : Db :=
  { d with organizations := d.organizations.map fun o =>
      if o.id = orgId then setEpoch epoch o else o }

/-- The database after a rotation. -/
def rotatedDb (orgId ownerId : Uuid) (r : Rotation) (d : Db) : Db :=
  withEpoch orgId r.newEpoch ((wrapBatch orgId ownerId).apply r.wraps
    ((itemBatch orgId).apply r.items
      (withoutItems orgId r.deleteItemIds (withoutRemoved orgId r.removeUserId d))))

/-- A member to be removed who is there and is no owner. -/
def CanRemove (orgId : Uuid) (removeUserId : Option Uuid) (d : Db) : Prop :=
  ∀ removed ∈ removeUserId, ∃ m ∈ d.organizationMembers,
    isMember orgId removed d m = true ∧ m.role ≠ .owner

section Phases

variable {O : Type} {d d' x : Db} {out : O} {orgId ownerId : Uuid}

/-- Nothing is removed when nobody is named. -/
theorem withoutRemoved_none (orgId : Uuid) (d : Db) : withoutRemoved orgId none d = d := by
  rw [withoutRemoved]
  congr 1
  exact List.filter_eq_self.mpr fun m _ => rfl

/-- Members with the same key are one row. -/
theorem member_unique (hk : (x.organizationMembers.map Tables.organizationMembers.key).Nodup)
    (orgId userId : Uuid) : ∀ a ∈ x.organizationMembers, ∀ b ∈ x.organizationMembers,
      isMember orgId userId x a = true → isMember orgId userId x b = true → a = b := by
  intro a ha b hb hpa hpb
  rw [isMember, Bool.and_eq_true, decide_eq_true_eq, decide_eq_true_eq] at hpa hpb
  have hkey := congrArg₂ RowId.organizationMember (hpa.1.trans hpb.1.symm)
    (hpa.2.trans hpb.2.symm)
  exact List.inj_on_of_nodup_map hk ha hb hkey

/-- One row at most belongs to a member. -/
theorem length_member_le (hk : (x.organizationMembers.map Tables.organizationMembers.key).Nodup)
    (orgId userId : Uuid) (c : OrganizationMember → Bool) :
    (x.organizationMembers.filter fun m => isMember orgId userId x m && c m).length ≤ 1 := by
  rw [filter_unique hk.of_map (member_unique hk orgId userId)]
  cases (x.organizationMembers.find? (isMember orgId userId x)).filter c <;> simp

/-- A lone rotation goes on after the removal exactly when the member can be removed. -/
theorem alone_removeMember_iff
    (hk : (x.organizationMembers.map Tables.organizationMembers.key).Nodup)
    (removeUserId : Option Uuid) {o : O} (ho : o ≠ out) {k : Request O} :
    (removeMember orgId removeUserId >>= fun removed =>
        if !removed then .rollback (.ret o) else k).alone (fun _ => x) d = (.ok out, d') ↔
      CanRemove orgId removeUserId x ∧
        k.alone (fun _ => withoutRemoved orgId removeUserId x) d = (.ok out, d') := by
  cases removeUserId with
  | none =>
    rw [withoutRemoved_none]
    constructor
    · intro h
      exact ⟨fun removed hr => (Option.not_mem_none removed hr).elim, h⟩
    · intro h
      exact h.2
  | some removed =>
    have hcan : CanRemove orgId (some removed) x ↔
        (x.organizationMembers.filter fun m =>
          isMember orgId removed x m && decide (m.role ≠ .owner)).length = 1 := by
      have hle := length_member_le hk orgId removed fun m => decide (m.role ≠ .owner)
      constructor
      · intro h
        obtain ⟨m, hm, hmember, hrole⟩ := h removed rfl
        have hmem : m ∈ x.organizationMembers.filter fun m =>
            isMember orgId removed x m && decide (m.role ≠ .owner) := by
          rw [List.mem_filter, hmember, decide_eq_true hrole]
          exact ⟨hm, rfl⟩
        have hpos := List.length_pos_of_mem hmem
        omega
      · rintro h removed' ⟨⟩
        obtain ⟨m, hm⟩ := List.length_eq_one_iff.mp h
        have hmem := List.mem_filter.mp (hm ▸ List.mem_singleton_self m)
        exact ⟨m, hmem.1, (Bool.and_eq_true_iff.mp hmem.2).1,
          of_decide_eq_true (Bool.and_eq_true_iff.mp hmem.2).2⟩
    have hdrop : Tables.organizationMembers.drop
        ((x.organizationMembers.filter fun m =>
          isMember orgId removed x m && decide (m.role ≠ .owner)).map
            Tables.organizationMembers.key) x = withoutRemoved orgId (some removed) x :=
      Tables.organizationMembers.drop_filter hk
    rw [removeMember, Prog.bind_bind, Table.alone_delete_bind]
    change ((if _ then _ else k).alone (fun _ => Tables.organizationMembers.drop _ x) d = _) ↔ _
    rw [Prog.alone_ite_rollback ho, hcan]
    change (¬(!decide ((x.organizationMembers.filter _).length = 1)) = true ∧ _) ↔ _
    rw [Bool.not_eq_true', decide_eq_false_iff_not, not_not, ← hdrop]
    rfl

/-- The submitted items are stored as a batch. -/
theorem reencryptItems_eq (orgId : Uuid) (items : List ReencryptedItem) :
    reencryptItems orgId items = (itemBatch orgId).run items := by
  induction items with
  | nil => rfl
  | cons item items ih =>
    rw [reencryptItems, ih]
    rfl

/-- The submitted wraps are stored as a batch. -/
theorem wrapMembers_eq (orgId ownerId : Uuid) (wraps : List RewrapEntry) :
    wrapMembers orgId ownerId wraps = (wrapBatch orgId ownerId).run wraps := by
  induction wraps with
  | nil => rfl
  | cons w wraps ih =>
    rw [wrapMembers, ih]
    rfl

/-- Deleting items removes the rows of the organization that have their ids. -/
theorem drop_eq_withoutItems (hk : (x.vaultItems.map Tables.vaultItems.key).Nodup)
    (ids : List Uuid) : Tables.vaultItems.drop ((x.vaultItems.filter fun i =>
      isOrgItem orgId x i && decide (i.id ∈ ids)).map Tables.vaultItems.key) x =
        withoutItems orgId ids x :=
  Tables.vaultItems.drop_filter hk

/-- Storing the new epoch changes the row of the organization. -/
theorem edit_eq_withEpoch (hk : (x.organizations.map Tables.organizations.key).Nodup)
    (orgId : Uuid) (epoch : Int) : Tables.organizations.edit ((x.organizations.filter (isOrg orgId x)).map
      Tables.organizations.key) (setEpoch epoch) x = withEpoch orgId epoch x := by
  have hset : _ = _ := Tables.organizations.edit_filter (setEpoch epoch) hk (c := isOrg orgId x)
  refine hset.trans (congrArg (Tables.organizations.set · x) ?_)
  apply List.map_congr_left
  intro o _
  rw [isOrg]
  simp only [decide_eq_true_eq]

end Phases

/-- When a rotation goes through. -/
structure Accepts (orgId ownerId : Uuid) (r : Rotation) (d : Db) : Prop where
  /-- The organization is at the epoch before. -/
  epoch : ∃ o ∈ d.organizations, o.id = orgId ∧ r.newEpoch = nextEpoch o.keyEpoch
  positive : 1 ≤ r.newEpoch
  removal : CanRemove orgId r.removeUserId d
  members : coversMembers r ((withoutRemoved orgId r.removeUserId d).organizationMembers.filter
    (inOrg orgId d)) = true
  items : coversItems r (d.vaultItems.filter (isOrgItem orgId d)) = true
  /-- No version that goes up is at the end of its range. -/
  versions : (itemBatch orgId).Fits r.items d

section Accepts

variable {d d' : Db} {orgId ownerId : Uuid} {r : Rotation}

/-- A rotation finds its organization. -/
theorem head?_org_iff (hk : (d.organizations.map Tables.organizations.key).Nodup)
    {o : Organization} : (d.organizations.filter (isOrg orgId d)).head? = some o ↔
      o ∈ d.organizations ∧ o.id = orgId := by
  have hunique : ∀ a ∈ d.organizations, ∀ b ∈ d.organizations,
      isOrg orgId d a = true → isOrg orgId d b = true → a = b := by
    intro a ha b hb ha' hb'
    have hid := (of_decide_eq_true ha').trans (of_decide_eq_true hb').symm
    exact List.inj_on_of_nodup_map hk ha hb (congrArg RowId.organization hid)
  rw [head?_filter_iff hunique, isOrg, decide_eq_true_eq]

/-- The deletions leave the rows that the items are written into. -/
theorem fits_withoutItems (hids : (r.items.map (·.id) ++ r.deleteItemIds).Nodup) :
    (itemBatch orgId).Fits r.items
        (withoutItems orgId r.deleteItemIds (withoutRemoved orgId r.removeUserId d)) ↔
      (itemBatch orgId).Fits r.items d := by
  have hdisjoint := (List.nodup_append.mp hids).2.2
  constructor
  · intro h i hi ho item hitem heq
    refine ⟨(h i ?_ ho item hitem heq).1, fun ref href => (List.not_mem_nil href).elim⟩
    have hnot : i.id ∉ r.deleteItemIds := fun hdel =>
      hdisjoint _ (List.mem_map_of_mem hitem) _ hdel heq
    change i ∈ d.vaultItems.filter _
    rw [List.mem_filter, decide_eq_false hnot, Bool.and_false]
    exact ⟨hi, rfl⟩
  · intro h i hi ho item hitem heq
    have hi' : i ∈ d.vaultItems := (List.mem_filter.mp hi).1
    exact ⟨(h i hi' ho item hitem heq).1, fun ref href => (List.not_mem_nil href).elim⟩

/-- The wraps of a rotation are at its epoch. -/
theorem fits_wraps {x : Db} (hepoch : ∀ w ∈ r.wraps, w.keyEpoch = r.newEpoch)
    (hpos : 1 ≤ r.newEpoch) (howner : (userRef ownerId).live x = true) :
    (wrapBatch orgId ownerId).Fits r.wraps x := by
  intro m _ _ w hw _
  constructor
  · change (some w.keyEpoch).all (1 ≤ ·) = true
    rw [hepoch w hw]
    exact decide_eq_true hpos
  · intro ref href
    change ref ∈ (if m.userId = ownerId ∨ m.invitedBy = some ownerId then []
      else [userRef ownerId]) at href
    split at href
    · exact (List.not_mem_nil href).elim
    · cases List.mem_singleton.mp href
      exact howner

/-- What a lone rotation writes once its request covers everything. -/
theorem alone_writes_iff {x : Db} (hx : OrgSchema x) (howner : (userRef ownerId).live x = true)
    (hids : (r.items.map (·.id) ++ r.deleteItemIds).Nodup)
    (husers : (r.wraps.map (·.userId)).Nodup)
    (hepoch : ∀ w ∈ r.wraps, w.keyEpoch = r.newEpoch) (horg : ∃ o ∈ x.organizations, o.id = orgId) :
    (Prog.alone (do
        let _ ← Tables.vaultItems.delete fun d i =>
          isOrgItem orgId d i && decide (i.id ∈ r.deleteItemIds)
        DbOrgs.reencryptItems orgId r.items
        wrapMembers orgId ownerId r.wraps
        let _ ← Tables.organizations.update (isOrg orgId) (setEpoch r.newEpoch)
        .commit .plain (.ret .rotated) : Request RotationOutcome) (fun _ => x) d =
          (.ok .rotated, d')) ↔
      (itemBatch orgId).Fits r.items (withoutItems orgId r.deleteItemIds x) ∧ 1 ≤ r.newEpoch ∧
        d' = withEpoch orgId r.newEpoch ((wrapBatch orgId ownerId).apply r.wraps
          ((itemBatch orgId).apply r.items (withoutItems orgId r.deleteItemIds x))) := by
  have hkeys : ((withoutItems orgId r.deleteItemIds x).vaultItems.map
      Tables.vaultItems.key).Nodup := hx.items.sublist (List.filter_sublist.map _)
  have horgs : (((wrapBatch orgId ownerId).apply r.wraps ((itemBatch orgId).apply r.items
      (withoutItems orgId r.deleteItemIds x))).organizations.map Tables.organizations.key).Nodup :=
    hx.organizations
  rw [Table.alone_delete_bind, reencryptItems_eq, wrapMembers_eq]
  change Prog.alone _ (fun _ => Tables.vaultItems.drop
    ((x.vaultItems.filter fun i => isOrgItem orgId x i && decide (i.id ∈ r.deleteItemIds)).map
      Tables.vaultItems.key) x) d = _ ↔ _
  rw [drop_eq_withoutItems hx.items,
    Batch.alone_run_iff hkeys (List.nodup_append.mp hids).1,
    Batch.alone_run_iff hx.members husers, Table.alone_update_iff]
  have hcommit : (Prog.commit .plain (.ret .rotated) : Request RotationOutcome).alone
      (fun _ => Tables.organizations.edit ((x.organizations.filter (isOrg orgId x)).map
        Tables.organizations.key) (setEpoch r.newEpoch) ((wrapBatch orgId ownerId).apply r.wraps
          ((itemBatch orgId).apply r.items (withoutItems orgId r.deleteItemIds x)))) d =
        (.ok .rotated, d') ↔
      d' = withEpoch orgId r.newEpoch ((wrapBatch orgId ownerId).apply r.wraps
        ((itemBatch orgId).apply r.items (withoutItems orgId r.deleteItemIds x))) := by
    have hedit : _ = _ := edit_eq_withEpoch horgs orgId r.newEpoch
    rw [← hedit, Prog.alone, Prog.alone]
    constructor
    · intro h
      exact (congrArg Prod.snd h).symm
    · intro h
      rw [h]
      rfl
  constructor
  · rintro ⟨hitems, -, hcheck, hrest⟩
    obtain ⟨o, ho, hid⟩ := horg
    have hpos := (hcheck o (List.mem_filter.mpr ⟨ho, decide_eq_true hid⟩)).1
    exact ⟨hitems, of_decide_eq_true hpos, hcommit.mp hrest⟩
  · rintro ⟨hitems, hpos, hrest⟩
    refine ⟨hitems, fits_wraps hepoch hpos howner, ?_, hcommit.mpr hrest⟩
    intro o _
    exact ⟨decide_eq_true hpos, fun ref href => (List.not_mem_nil href).elim⟩

/-- What a lone rotation does to the database, and when. -/
theorem alone_rotateKey_iff (hd : OrgSchema d) (howner : (userRef ownerId).live d = true) :
    (DbOrgs.rotateKey orgId ownerId r).alone id d = (.ok .rotated, d') ↔
      Accepts orgId ownerId r d ∧ d' = rotatedDb orgId ownerId r d := by
  have hx : OrgSchema (withoutRemoved orgId r.removeUserId d) := by
    constructor
    · exact hd.items
    · exact hd.members.sublist (List.filter_sublist.map _)
    · exact hd.organizations
    · intro m hm
      exact hd.users m (List.mem_filter.mp hm).1
    · exact hd.epochs
  have hrest (k : Request RotationOutcome) :
      (DbOrgs.removeMember orgId r.removeUserId >>= fun removed =>
        if !removed then .rollback (.ret .badRemoval) else k).alone (fun _ => d) d =
          (.ok .rotated, d') ↔ _ :=
    alone_removeMember_iff hd.members r.removeUserId (by decide)
  rw [Prog.alone_const, DbOrgs.rotateKey, Table.alone_selectFor_bind, alone_fetchOne_iff]
  constructor
  · rintro ⟨o, ho, h⟩
    obtain ⟨ho, hid⟩ := (head?_org_iff hd.organizations).mp ho
    obtain ⟨hepoch, h⟩ := (Prog.alone_ite_rollback (by decide)).mp h
    obtain ⟨hremove, h⟩ := (hrest _).mp h
    rw [Table.alone_selectFor_bind] at h
    obtain ⟨hmembers, h⟩ := (Prog.alone_ite_rollback (by decide)).mp h
    rw [Table.alone_selectFor_bind] at h
    obtain ⟨hitems, h⟩ := (Prog.alone_ite_rollback (by decide)).mp h
    rw [Bool.not_eq_true', Bool.not_eq_false] at hmembers hitems
    obtain ⟨husers, -, hepochs⟩ := coversMembers_iff.mp hmembers
    obtain ⟨hids, -⟩ := coversItems_iff.mp hitems
    obtain ⟨hfits, hpos, rfl⟩ :=
      (alone_writes_iff hx howner hids husers hepochs ⟨o, ho, hid⟩).mp h
    exact ⟨⟨⟨o, ho, hid, not_not.mp hepoch⟩, hpos, hremove, hmembers, hitems,
      (fits_withoutItems hids).mp hfits⟩, rfl⟩
  · rintro ⟨ha, rfl⟩
    obtain ⟨o, ho, hid, hepoch⟩ := ha.epoch
    obtain ⟨husers, -, hepochs⟩ := coversMembers_iff.mp ha.members
    obtain ⟨hids, -⟩ := coversItems_iff.mp ha.items
    refine ⟨o, (head?_org_iff hd.organizations).mpr ⟨ho, hid⟩, ?_⟩
    rw [Prog.alone_ite_rollback (by decide)]
    refine ⟨not_not.mpr hepoch, (hrest _).mpr ⟨ha.removal, ?_⟩⟩
    rw [Table.alone_selectFor_bind, Prog.alone_ite_rollback (by decide)]
    refine ⟨?_, ?_⟩
    · rw [Bool.not_eq_true', Bool.not_eq_false]
      exact ha.members
    rw [Table.alone_selectFor_bind, Prog.alone_ite_rollback (by decide)]
    refine ⟨?_, ?_⟩
    · rw [Bool.not_eq_true', Bool.not_eq_false]
      exact ha.items
    exact (alone_writes_iff hx howner hids husers hepochs ⟨o, ho, hid⟩).mpr
      ⟨(fits_withoutItems hids).mpr ha.versions, ha.positive, rfl⟩

end Accepts

/-- What the route hands on. -/
def RotateKeyBody.rotation (body : RotateKeyBody) (items : List ReencryptedItem) : Rotation :=
  { newEpoch := body.newEpoch, removeUserId := body.removeUserId, wraps := body.wraps,
    items := items, deleteItemIds := body.deleteItemIds }

/-- What the route asks of its caller and of the request's form. -/
structure PassesRoute (orgId auth : Uuid) (body : RotateKeyBody) (items : List ReencryptedItem)
    (d : Db) : Prop where
  owner : ∃ m ∈ d.organizationMembers, isMember orgId auth d m = true ∧ m.status = .active ∧
    m.role = .owner
  staysOwner : body.removeUserId ≠ some auth
  signatures : ∀ w ∈ body.wraps, Orgs.isSignature w.wrapSignature = true
  decoded : body.items.mapM Orgs.decodeItem = .ok items

section Route

variable {d d' : Db} {orgId auth : Uuid} {body : RotateKeyBody}

/-- Only the owner goes on. -/
theorem alone_requireOwner_iff {O : Type} {out : O} {k : Unit → Request O} (hd : OrgSchema d) :
    (Orgs.requireOwner orgId auth >>= k).alone id d = (.ok out, d') ↔
      (∃ m ∈ d.organizationMembers, isMember orgId auth d m = true ∧ m.status = .active ∧
        m.role = .owner) ∧ (k ()).alone id d = (.ok out, d') := by
  have hmember (m : OrganizationMember) := head?_filter_iff (r := m)
    (member_unique hd.members orgId auth)
  have hstart : (Orgs.requireOwner orgId auth >>= k).alone id d =
      (okOr (.forbidden "not a member of this org")
          (d.organizationMembers.filter (isMember orgId auth d)).head? >>= fun caller =>
        require (decide (caller.status = .active) && decide (caller.role = .owner))
          (.forbidden "only the owner can do this") >>= k).alone id d := by
    rw [Orgs.requireOwner, Prog.bind_bind]
    simp only [Prog.bind_bind]
    rfl
  rw [hstart, alone_okOr_iff]
  constructor
  · rintro ⟨m, hm, h⟩
    obtain ⟨hm, hauth⟩ := (hmember m).mp hm
    obtain ⟨hrole, h⟩ := alone_require_iff.mp h
    rw [Bool.and_eq_true, decide_eq_true_eq, decide_eq_true_eq] at hrole
    exact ⟨⟨m, hm, hauth, hrole⟩, h⟩
  · rintro ⟨⟨m, hm, hauth, hstatus, hrole⟩, h⟩
    refine ⟨m, (hmember m).mpr ⟨hm, hauth⟩, alone_require_iff.mpr ⟨?_, h⟩⟩
    rw [decide_eq_true hstatus, decide_eq_true hrole]
    rfl

/-- The answer of the route to an outcome. -/
def outcomeAnswer (outcome : RotationOutcome) : Except (Option ApiError) Unit :=
  match Orgs.outcomeError outcome with
  | none => .ok ()
  | some e => .error (some e)

/-- The route is done exactly when the key was rotated. -/
theorem alone_outcome_iff {prog : Request RotationOutcome} :
    (prog >>= fun outcome =>
      match Orgs.outcomeError outcome with
      | none => pure ()
      | some e => refuse e).alone id d = (.ok (), d') ↔
        prog.alone id d = (.ok .rotated, d') := by
  rw [Prog.alone_bind_of_answers (g := outcomeAnswer)]
  · constructor
    · intro h
      obtain ⟨hanswer, hdb⟩ := Prod.mk.inj h
      refine Prod.ext ?_ hdb
      cases hout : (prog.alone id d).1 with
      | error e =>
        rw [hout] at hanswer
        cases hanswer
      | ok outcome =>
        rw [hout] at hanswer
        cases outcome with
        | rotated => rfl
        | staleEpoch => cases hanswer
        | badRemoval => cases hanswer
        | incompleteWraps => cases hanswer
        | incompleteItems => cases hanswer
    · intro h
      rw [h]
      rfl
  · intro outcome w d
    rw [outcomeAnswer]
    split
    · rfl
    · rfl

/-- What a lone rotation request does to the database, and when. -/
theorem alone_route_iff (hd : OrgSchema d) :
    (Orgs.rotateKey orgId auth body).alone id d = (.ok (), d') ↔
      ∃ items, PassesRoute orgId auth body items d ∧ Accepts orgId auth (body.rotation items) d ∧
        d' = rotatedDb orgId auth (body.rotation items) d := by
  have howner {m : OrganizationMember} (hm : m ∈ d.organizationMembers)
      (hauth : isMember orgId auth d m = true) : (userRef auth).live d = true := by
    have hlive := hd.users m hm
    rwa [of_decide_eq_true (Bool.and_eq_true_iff.mp hauth).2] at hlive
  rw [Orgs.rotateKey, alone_requireOwner_iff hd, alone_require_iff, alone_require_iff,
    decide_eq_true_eq, List.all_eq_true]
  constructor
  · rintro ⟨⟨m, hm, hauth, hrole⟩, hself, hsignatures, h⟩
    split at h
    · cases h
    · rename_i items hitems
      obtain ⟨haccepts, hdb⟩ :=
        (alone_rotateKey_iff hd (howner hm hauth)).mp (alone_outcome_iff.mp h)
      exact ⟨items, ⟨⟨m, hm, hauth, hrole⟩, hself, hsignatures, hitems⟩, haccepts, hdb⟩
  · rintro ⟨items, hpasses, haccepts, hdb⟩
    obtain ⟨m, hm, hauth, hrole⟩ := hpasses.owner
    refine ⟨⟨m, hm, hauth, hrole⟩, hpasses.staysOwner, hpasses.signatures, ?_⟩
    rw [hpasses.decoded]
    exact alone_outcome_iff.mpr
      ((alone_rotateKey_iff hd (howner hm hauth)).mpr ⟨haccepts, hdb⟩)

end Route

/-- An exact rotation: every row of the organization has its item or its deletion, every item
its row, every remaining member the submitted wrap, and the epoch went up by one. -/
structure ExactRotation (orgId ownerId : Uuid) (r : Rotation) (d d' : Db) : Prop where
  rows : ∀ i ∈ d.vaultItems, i.orgId = some orgId →
    (∃ item, r.items.filter (fun item => item.id = i.id) = [item] ∧ i.id ∉ r.deleteItemIds ∧
      item.rewrite i ∈ d'.vaultItems) ∨
    ((∀ item ∈ r.items, item.id ≠ i.id) ∧ r.deleteItemIds.count i.id = 1 ∧
      Tables.vaultItems.key i ∉ d'.vaultItems.map Tables.vaultItems.key)
  items : ∀ item ∈ r.items, ∃ i, d.vaultItems.filter (fun i =>
      decide (i.orgId = some orgId) && decide (i.id = item.id)) = [i] ∧
    item.rewrite i ∈ d'.vaultItems
  removed : ∀ removed ∈ r.removeUserId, ∀ m ∈ d'.organizationMembers,
    isMember orgId removed d' m = false
  owner : ∃ m ∈ d'.organizationMembers, isMember orgId ownerId d' m = true ∧
    m.status = .active ∧ m.role = .owner
  /-- Who was not removed remains, -/
  remaining : ∀ m ∈ d.organizationMembers, m.orgId = orgId → r.removeUserId ≠ some m.userId →
    ∃ m' ∈ d'.organizationMembers, isMember orgId m.userId d' m' = true
  /-- with the submitted wrap. -/
  wraps : ∀ m ∈ d'.organizationMembers, m.orgId = orgId →
    ∃ w, r.wraps.filter (fun w => w.userId = m.userId) = [w] ∧
      m.encryptedOrgKey = some w.encryptedOrgKey ∧ m.wrapSignature = some w.wrapSignature ∧
      m.keyEpoch = some r.newEpoch ∧
      m.invitedBy = if m.userId = ownerId then none else some ownerId
  epoch : ∃ o ∈ d.organizations, o.id = orgId ∧ r.newEpoch = o.keyEpoch + 1 ∧
    d'.organizations.filter (isOrg orgId d') = [setEpoch r.newEpoch o]

/-- What does not belong to the organization is the same in both databases. -/
structure SameElsewhere (orgId : Uuid) (d d' : Db) : Prop where
  items : d'.vaultItems.filter (!isOrgItem orgId d' ·) = d.vaultItems.filter (!isOrgItem orgId d ·)
  members : d'.organizationMembers.filter (!inOrg orgId d' ·) =
    d.organizationMembers.filter (!inOrg orgId d ·)
  organizations : d'.organizations.filter (!isOrg orgId d' ·) =
    d.organizations.filter (!isOrg orgId d ·)
  tables : { d' with vaultItems := d.vaultItems, organizationMembers := d.organizationMembers,
                     organizations := d.organizations } = d

/-- A rotation request is done as a whole and exactly, or changes nothing; wherever it is cut
off, it has changed nothing or everything. -/
structure AtomicAndExact (orgId auth : Uuid) (body : RotateKeyBody) (d : Db) : Prop where
  atomic : ∀ n, (Orgs.rotateKey orgId auth body).cutOff n id d = d ∨
    (Orgs.rotateKey orgId auth body).cutOff n id d =
      ((Orgs.rotateKey orgId auth body).alone id d).2
  rotated : ∀ d', (Orgs.rotateKey orgId auth body).alone id d = (.ok (), d') →
    ∃ items, body.items.mapM Orgs.decodeItem = .ok items ∧
      ExactRotation orgId auth (body.rotation items) d d'
  unchanged : ∀ e d', (Orgs.rotateKey orgId auth body).alone id d = (.error e, d') → d' = d
  elsewhere : SameElsewhere orgId d ((Orgs.rotateKey orgId auth body).alone id d).2

/-- No two rows of the organization that a rotation is going to re-encrypt share an id. -/
def RewritesApart (orgId auth : Uuid) (body : RotateKeyBody) (d : Db) : Prop :=
  ∀ items, PassesRoute orgId auth body items d → Accepts orgId auth (body.rotation items) d →
    ∀ i ∈ d.vaultItems, ∀ j ∈ d.vaultItems, i.orgId = some orgId → j.orgId = some orgId →
      i.id ∈ items.map (·.id) → i.id = j.id → i = j

/-- Removing a member commits nothing by itself. -/
theorem neverCommits_removeMember (orgId : Uuid) (removeUserId : Option Uuid) :
    (removeMember orgId removeUserId).NeverCommits := by
  cases removeUserId with
  | none => trivial
  | some removed => exact (neverCommits_delete _).bind fun _ => trivial

/-- A rotation commits last, with the answer that it was done. -/
theorem commitsLast_rotateKey (orgId ownerId : Uuid) (r : Rotation) :
    (DbOrgs.rotateKey orgId ownerId r).CommitsLast (· = .rotated) := by
  refine (neverCommits_selectFor _ _).bind_last fun rows => ?_
  refine (neverCommits_fetchOne rows).bind_last fun org => Prog.CommitsLast.ite_rollback ?_
  refine (neverCommits_removeMember _ _).bind_last fun removed => Prog.CommitsLast.ite_rollback ?_
  refine (neverCommits_selectFor _ _).bind_last fun members => Prog.CommitsLast.ite_rollback ?_
  refine (neverCommits_selectFor _ _).bind_last fun existing => Prog.CommitsLast.ite_rollback ?_
  refine (neverCommits_delete _).bind_last fun _ => ?_
  rw [reencryptItems_eq, wrapMembers_eq]
  refine (Batch.neverCommits_run _).bind_last fun _ => ?_
  refine (Batch.neverCommits_run _).bind_last fun _ => ?_
  refine (neverCommits_update _ _ _).bind_last fun _ => ?_
  exact ⟨.rotated, rfl, rfl⟩

/-- A rotation request commits last. -/
theorem commitsLast_route (orgId auth : Uuid) (body : RotateKeyBody) :
    (Orgs.rotateKey orgId auth body).CommitsLast fun _ => True := by
  refine (Orgs.reads_requireOwner orgId auth).neverCommits.bind_last fun _ => ?_
  refine (reads_require _ _).neverCommits.bind_last fun _ => ?_
  refine (reads_require _ _).neverCommits.bind_last fun _ => ?_
  split
  · trivial
  · apply (commitsLast_rotateKey _ _ _).bind
    · rintro _ rfl
      exact ⟨(), trivial, rfl⟩
    · intro outcome
      split
      · trivial
      · trivial

section Rotated

variable {d : Db} {orgId ownerId : Uuid} {r : Rotation}

/-- A change of rows with a property that keeps the property leaves the other rows. -/
theorem filter_not_map {R : Type} (rows : List R) (p : R → Bool) (f : R → R)
    (hf : ∀ r ∈ rows, p (f r) = p r) (hsame : ∀ r ∈ rows, p r = false → f r = r) :
    (rows.map f).filter (!p ·) = rows.filter (!p ·) := by
  induction rows with
  | nil => rfl
  | cons r rows ih =>
    have hrows := ih (fun x hx => hf x (List.mem_cons_of_mem _ hx))
      fun x hx => hsame x (List.mem_cons_of_mem _ hx)
    have hr := hf r List.mem_cons_self
    rw [List.map_cons, List.filter_cons, List.filter_cons, hr, hrows]
    cases hp : p r with
    | true => rfl
    | false => rw [hsame r List.mem_cons_self hp]

/-- The items after a rotation. -/
theorem rotatedDb_vaultItems : (rotatedDb orgId ownerId r d).vaultItems =
    (d.vaultItems.filter fun i => !(decide (i.orgId = some orgId) &&
      decide (i.id ∈ r.deleteItemIds))).map fun i =>
        if decide (i.orgId = some orgId) then (itemBatch orgId).after r.items i else i := rfl

/-- The members after a rotation. -/
theorem rotatedDb_members : (rotatedDb orgId ownerId r d).organizationMembers =
    (d.organizationMembers.filter (!isRemoved orgId r.removeUserId ·)).map fun m =>
      if decide (m.orgId = orgId) then (wrapBatch orgId ownerId).after r.wraps m else m := rfl

/-- The organizations after a rotation. -/
theorem rotatedDb_organizations : (rotatedDb orgId ownerId r d).organizations =
    d.organizations.map fun o => if o.id = orgId then setEpoch r.newEpoch o else o := rfl

/-- Only rows of the organization change in a rotation. -/
theorem sameElsewhere_rotatedDb : SameElsewhere orgId d (rotatedDb orgId ownerId r d) := by
  constructor
  · rw [rotatedDb_vaultItems]
    have hmap := filter_not_map (d.vaultItems.filter fun i =>
        !(decide (i.orgId = some orgId) && decide (i.id ∈ r.deleteItemIds)))
      (fun i => decide (i.orgId = some orgId))
      (fun i => if decide (i.orgId = some orgId) then (itemBatch orgId).after r.items i else i)
      ?_ ?_
    · refine hmap.trans ?_
      rw [List.filter_filter]
      apply List.filter_congr
      intro i _
      rw [isOrgItem]
      cases decide (i.orgId = some orgId) <;> rfl
    · intro i _
      split
      · exact Batch.after_keeps (itemBatch orgId).scope_write r.items i
      · rfl
    · intro i _ hi
      rw [hi, if_neg Bool.false_ne_true]
  · rw [rotatedDb_members]
    have hmap := filter_not_map (d.organizationMembers.filter
        (!isRemoved orgId r.removeUserId ·)) (fun m => decide (m.orgId = orgId))
      (fun m =>
        if decide (m.orgId = orgId) then (wrapBatch orgId ownerId).after r.wraps m else m) ?_ ?_
    · refine hmap.trans ?_
      rw [List.filter_filter]
      apply List.filter_congr
      intro m _
      rw [isRemoved, inOrg]
      cases r.removeUserId <;> cases decide (m.orgId = orgId) <;> rfl
    · intro m _
      split
      · exact Batch.after_keeps (wrapBatch orgId ownerId).scope_write r.wraps m
      · rfl
    · intro m _ hm
      rw [hm, if_neg Bool.false_ne_true]
  · rw [rotatedDb_organizations]
    apply filter_not_map
    · intro o _
      split
      · rfl
      · rfl
    · intro o _ ho
      rw [if_neg (of_decide_eq_false ho)]
  · rfl

/-- The only row with a property. -/
theorem filter_eq_singleton {R : Type} {rows : List R} {p : R → Bool} (hnodup : rows.Nodup) {r : R}
    (hr : r ∈ rows) (hp : p r = true) (hunique : ∀ x ∈ rows, p x = true → x = r) :
    rows.filter p = [r] := by
  have hperm : (rows.filter p).Perm [r] := by
    rw [List.perm_ext_iff_of_nodup (hnodup.filter p) (List.nodup_singleton r)]
    intro x
    rw [List.mem_filter, List.mem_singleton]
    constructor
    · rintro ⟨hx, hpx⟩
      exact hunique x hx hpx
    · rintro rfl
      exact ⟨hr, hp⟩
  exact List.perm_singleton.mp hperm

/-- A row whose id is submitted is stored as its item has it. -/
theorem rewrite_mem_rotatedDb (hids : (r.items.map (·.id) ++ r.deleteItemIds).Nodup)
    {item : ReencryptedItem} (hitem : item ∈ r.items) {i : VaultItem} (hi : i ∈ d.vaultItems)
    (ho : i.orgId = some orgId) (hid : item.id = i.id) :
    item.rewrite i ∈ (rotatedDb orgId ownerId r d).vaultItems := by
  obtain ⟨hkeys, -, hdisjoint⟩ := List.nodup_append.mp hids
  have hnot : i.id ∉ r.deleteItemIds := fun hdel =>
    hdisjoint _ (List.mem_map_of_mem hitem) _ hdel hid
  have hafter : (itemBatch orgId).after r.items i = item.rewrite i :=
    Batch.after_of_mem hkeys hitem hid
  rw [rotatedDb_vaultItems, List.mem_map]
  refine ⟨i, List.mem_filter.mpr ⟨hi, ?_⟩, ?_⟩
  · rw [decide_eq_false hnot, Bool.and_false]
    rfl
  · rw [if_pos (decide_eq_true ho), hafter]

/-- The rows of the members that a rotation leaves. -/
theorem mem_rotatedDb_members {m : OrganizationMember} :
    m ∈ (rotatedDb orgId ownerId r d).organizationMembers ↔ ∃ m₀ ∈ d.organizationMembers,
      isRemoved orgId r.removeUserId m₀ = false ∧
      (if m₀.orgId = orgId then (wrapBatch orgId ownerId).after r.wraps m₀ else m₀) = m := by
  rw [rotatedDb_members, List.mem_map]
  simp only [List.mem_filter, Bool.not_eq_true', decide_eq_true_eq, and_assoc]

/-- A wrap leaves who the member is. -/
theorem after_wraps_keeps {C : Type} {f : OrganizationMember → C}
    (hf : ∀ w m, f (setWrap ownerId w m) = f m) (m : OrganizationMember) :
    f (if m.orgId = orgId then (wrapBatch orgId ownerId).after r.wraps m else m) = f m := by
  split
  · exact Batch.after_keeps hf r.wraps m
  · rfl

/-- The successor of an epoch, where it is positive. -/
theorem nextEpoch_eq {epoch : Int} (hmin : 1 ≤ epoch) (hmax : epoch < 2 ^ 31)
    (hpos : 1 ≤ nextEpoch epoch) : nextEpoch epoch = epoch + 1 := by
  rw [nextEpoch, Int.bmod_def] at hpos ⊢
  split at hpos
  · omega
  · omega

/-- A rotation that goes through and whose items have a row each is exact. -/
theorem exactRotation_of_accepts (hd : OrgSchema d) (ha : Accepts orgId ownerId r d)
    (howner : ∃ m ∈ d.organizationMembers, isMember orgId ownerId d m = true ∧
      m.status = .active ∧ m.role = .owner)
    (hapart : ∀ i ∈ d.vaultItems, ∀ j ∈ d.vaultItems, i.orgId = some orgId →
      j.orgId = some orgId → i.id ∈ r.items.map (·.id) → i.id = j.id → i = j) :
    ExactRotation orgId ownerId r d (rotatedDb orgId ownerId r d) := by
  obtain ⟨husers, hcovers, hepochs⟩ := coversMembers_iff.mp ha.members
  obtain ⟨hids, hcovered⟩ := coversItems_iff.mp ha.items
  have hexisting {i : VaultItem} : i ∈ d.vaultItems.filter (isOrgItem orgId d) ↔
      i ∈ d.vaultItems ∧ i.orgId = some orgId := by
    rw [List.mem_filter, isOrgItem, decide_eq_true_eq]
  have hitems := (List.nodup_append.mp hids).1
  constructor
  · intro i hi ho
    have hsubmitted := (hcovered i.id).mpr (List.mem_map_of_mem (hexisting.mpr ⟨hi, ho⟩))
    rcases List.mem_append.mp hsubmitted with hmem | hdel
    · obtain ⟨item, hitem, hid⟩ := List.mem_map.mp hmem
      refine .inl ⟨item, filter_eq_singleton hitems.of_map hitem (decide_eq_true hid) ?_,
        fun hdel => (List.nodup_append.mp hids).2.2 _ hmem _ hdel rfl,
        rewrite_mem_rotatedDb hids hitem hi ho hid⟩
      intro item' hitem' hid'
      exact List.inj_on_of_nodup_map hitems hitem' hitem
        ((of_decide_eq_true hid').trans hid.symm)
    · refine .inr ⟨?_, List.count_eq_one_of_mem (List.nodup_append.mp hids).2.1 hdel, ?_⟩
      · intro item hitem hid
        exact (List.nodup_append.mp hids).2.2 _ (List.mem_map_of_mem hitem) _ hdel hid
      · intro hkey
        have hmap := Batch.map_apply (itemBatch orgId).key_write r.items
          (withoutItems orgId r.deleteItemIds d)
        have hkey' : Tables.vaultItems.key i ∈ (d.vaultItems.filter fun i =>
            !(decide (i.orgId = some orgId) && decide (i.id ∈ r.deleteItemIds))).map
              Tables.vaultItems.key := hmap ▸ hkey
        rw [Tables.vaultItems.mem_map_key_filter hd.items hi, decide_eq_true ho,
          decide_eq_true hdel] at hkey'
        cases hkey'
  · intro item hitem
    have hsubmitted := List.mem_append_left r.deleteItemIds
      (List.mem_map_of_mem (f := ReencryptedItem.id) hitem)
    obtain ⟨i, hi, hid⟩ := List.mem_map.mp ((hcovered item.id).mp hsubmitted)
    obtain ⟨hi, ho⟩ := hexisting.mp hi
    refine ⟨i, filter_eq_singleton hd.items.of_map hi ?_ ?_,
      rewrite_mem_rotatedDb hids hitem hi ho hid.symm⟩
    · rw [decide_eq_true ho, decide_eq_true hid]
      rfl
    · intro j hj hjp
      rw [Bool.and_eq_true, decide_eq_true_eq, decide_eq_true_eq] at hjp
      have hjid : j.id ∈ r.items.map (·.id) := hjp.2 ▸ List.mem_map_of_mem hitem
      exact hapart j hj i hi hjp.1 ho hjid (hjp.2.trans hid.symm)
  · intro removed hremoved m hm
    obtain ⟨m₀, hm₀, hkept, rfl⟩ := mem_rotatedDb_members.mp hm
    rw [Bool.eq_false_iff]
    intro hmember
    rw [isMember, after_wraps_keeps (f := OrganizationMember.orgId) fun _ _ => rfl,
      after_wraps_keeps (f := OrganizationMember.userId) fun _ _ => rfl] at hmember
    obtain ⟨m₁, hm₁, hmember₁, hrole⟩ := ha.removal removed hremoved
    cases member_unique hd.members orgId removed m₀ hm₀ m₁ hm₁ hmember hmember₁
    rw [isRemoved, Option.mem_def.mp hremoved, Option.any_some, decide_eq_true hrole,
      Bool.and_true] at hkept
    exact Bool.false_ne_true (hkept.symm.trans hmember)
  · obtain ⟨m, hm, hmember, hstatus, hrole⟩ := howner
    have hkept : isRemoved orgId r.removeUserId m = false := by
      rw [isRemoved]
      cases r.removeUserId with
      | none => rfl
      | some removed =>
        rw [Option.any_some, hrole, Bool.and_eq_false_iff]
        exact .inr rfl
    refine ⟨_, mem_rotatedDb_members.mpr ⟨m, hm, hkept, rfl⟩, ?_, ?_, ?_⟩
    · rw [isMember, after_wraps_keeps (f := OrganizationMember.orgId) fun _ _ => rfl,
        after_wraps_keeps (f := OrganizationMember.userId) fun _ _ => rfl]
      exact hmember
    · rw [after_wraps_keeps (f := OrganizationMember.status) fun _ _ => rfl, hstatus]
    · rw [after_wraps_keeps (f := OrganizationMember.role) fun _ _ => rfl, hrole]
  · intro m hm ho hnot
    have hkept : isRemoved orgId r.removeUserId m = false := by
      rw [isRemoved]
      cases hremoved : r.removeUserId with
      | none => rfl
      | some removed =>
        have hne : m.userId ≠ removed := fun h => hnot (hremoved.trans (congrArg some h.symm))
        rw [Option.any_some, decide_eq_false hne, Bool.and_false, Bool.false_and]
    refine ⟨_, mem_rotatedDb_members.mpr ⟨m, hm, hkept, rfl⟩, ?_⟩
    rw [isMember, after_wraps_keeps (f := OrganizationMember.orgId) fun _ _ => rfl,
      after_wraps_keeps (f := OrganizationMember.userId) fun _ _ => rfl, decide_eq_true ho,
      decide_eq_true rfl]
    rfl
  · intro m hm ho
    obtain ⟨m₀, hm₀, hkept, rfl⟩ := mem_rotatedDb_members.mp hm
    rw [after_wraps_keeps (f := OrganizationMember.orgId) fun _ _ => rfl] at ho
    have hrest : m₀ ∈ (withoutRemoved orgId r.removeUserId d).organizationMembers.filter
        (inOrg orgId d) := by
      rw [List.mem_filter, inOrg, decide_eq_true_eq, withoutRemoved, List.mem_filter, hkept]
      exact ⟨⟨hm₀, rfl⟩, ho⟩
    obtain ⟨w, hw, hwid⟩ := List.mem_map.mp
      ((hcovers m₀.userId).mpr (List.mem_map_of_mem hrest))
    have hafter : (wrapBatch orgId ownerId).after r.wraps m₀ = setWrap ownerId w m₀ :=
      Batch.after_of_mem husers hw hwid
    rw [if_pos ho, hafter]
    refine ⟨w, filter_eq_singleton husers.of_map hw (decide_eq_true hwid) ?_, rfl, rfl,
      congrArg some (hepochs w hw), rfl⟩
    intro w' hw' hwid'
    exact List.inj_on_of_nodup_map husers hw' hw ((of_decide_eq_true hwid').trans hwid.symm)
  · obtain ⟨o, ho, hid, hepoch⟩ := ha.epoch
    obtain ⟨hmin, hmax⟩ := hd.epochs o ho
    have hpos := ha.positive
    rw [hepoch] at hpos
    refine ⟨o, ho, hid, hepoch.trans (nextEpoch_eq hmin hmax hpos), ?_⟩
    have hkeys : (rotatedDb orgId ownerId r d).organizations.map Tables.organizations.key =
        d.organizations.map Tables.organizations.key := by
      rw [rotatedDb_organizations, List.map_map]
      apply List.map_congr_left
      intro o' _
      rw [Function.comp_apply]
      split
      · rfl
      · rfl
    have hmem : setEpoch r.newEpoch o ∈ (rotatedDb orgId ownerId r d).organizations := by
      rw [rotatedDb_organizations, List.mem_map]
      exact ⟨o, ho, if_pos hid⟩
    have hnodup := hkeys ▸ hd.organizations
    apply filter_eq_singleton hnodup.of_map hmem (decide_eq_true hid)
    intro o' ho' hid'
    exact List.inj_on_of_nodup_map hnodup ho' hmem
      (congrArg RowId.organization ((of_decide_eq_true hid').trans hid.symm))

end Rotated

/-- A rotation request is done as a whole and exactly, or changes nothing, if and only if it is not
going to re-encrypt two rows of the organization that share an id. -/
theorem atomicAndExact_iff (orgId auth : Uuid) (body : RotateKeyBody) {d : Db} (hd : OrgSchema d) :
    AtomicAndExact orgId auth body d ↔ RewritesApart orgId auth body d := by
  constructor
  · intro h items hpasses haccepts i hi j hj hio hjo hid hij
    obtain ⟨items', hdecoded, hexact⟩ := h.rotated _
      ((alone_route_iff hd).mpr ⟨items, hpasses, haccepts, rfl⟩)
    cases hpasses.decoded.symm.trans hdecoded
    obtain ⟨item, hitem, hitemid⟩ := List.mem_map.mp hid
    obtain ⟨i₀, hrow, -⟩ := hexact.items item hitem
    have hmem {k : VaultItem} (hk : k ∈ d.vaultItems) (hko : k.orgId = some orgId)
        (hkid : k.id = i.id) : k = i₀ := by
      rw [← List.mem_singleton, ← hrow, List.mem_filter, decide_eq_true hko, Bool.true_and,
        decide_eq_true_eq]
      exact ⟨hk, hkid.trans hitemid.symm⟩
    rw [hmem hi hio rfl, hmem hj hjo hij.symm]
  · intro h
    have hlast := commitsLast_route orgId auth body
    constructor
    · intro n
      exact hlast.cutOff n id d
    · intro d' hok
      obtain ⟨items, hpasses, haccepts, rfl⟩ := (alone_route_iff hd).mp hok
      exact ⟨items, hpasses.decoded, exactRotation_of_accepts hd haccepts hpasses.owner
        (h items hpasses haccepts)⟩
    · intro e d' herror
      rcases hlast.alone id d with hsame | ⟨out, -, hout⟩
      · rw [← hsame, herror]
      · rw [herror] at hout
        cases hout
    · rcases hlast.alone id d with hsame | ⟨out, -, hout⟩
      · rw [hsame]
        exact ⟨rfl, rfl, rfl, rfl⟩
      · obtain ⟨items, -, -, hdb⟩ := (alone_route_iff hd).mp (Prod.ext hout rfl)
        have hrotated : ((Orgs.rotateKey orgId auth body).alone id d).2 = _ := hdb
        rw [hrotated]
        exact sameElsewhere_rotatedDb

/-- Organization 2 with its owner 1 and member 3, who share one item each. -/
private def sharedItems (ids : Uuid × Uuid) : Db where
  users := [{ id := 1, opaqueRecord := some [1] }, { id := 3, opaqueRecord := some [3] }]
  organizations := [{ id := 2, name := "org", createdBy := 1 }]
  organizationMembers := [
    { orgId := 2, userId := 1, role := .owner, status := .active, encryptedOrgKey := none,
      wrapSignature := none, keyEpoch := some 1, invitedBy := none },
    { orgId := 2, userId := 3, role := .member, status := .active, encryptedOrgKey := none,
      wrapSignature := none, keyEpoch := some 1, invitedBy := some 1 }]
  vaultItems := [
    { id := ids.1, vaultId := 10, userId := 1, orgId := some 2, itemType := "login", blob := [1],
      blobIv := [], blobMac := [] },
    { id := ids.2, vaultId := 11, userId := 3, orgId := some 2, itemType := "login", blob := [2],
      blobIv := [], blobMac := [] }]

/-- The schema admits the items under any ids. -/
private theorem sharedItems_schema (ids : Uuid × Uuid) : OrgSchema (sharedItems ids) := by
  constructor
  · have hkeys : RowId.vaultItem 1 ids.1 ≠ RowId.vaultItem 3 ids.2 := by
      intro h
      injection h with husers
      revert husers
      decide
    exact List.nodup_cons.mpr ⟨fun h => hkeys (List.mem_singleton.mp h), List.nodup_singleton _⟩
  · change ([RowId.organizationMember 2 1, RowId.organizationMember 2 3] : List RowId).Nodup
    decide
  · exact List.nodup_singleton _
  · change ∀ m ∈ (sharedItems (0, 0)).organizationMembers,
      (userRef m.userId).live (sharedItems (0, 0)) = true
    decide
  · change ∀ o ∈ (sharedItems (0, 0)).organizations, 1 ≤ o.keyEpoch ∧ o.keyEpoch < 2 ^ 31
    decide

/-- A rotation to epoch 2 that removes nobody and re-encrypts items. -/
private def rotateItems (ids : List Uuid) : RotateKeyBody where
  newEpoch := 2
  wraps := [1, 3].map fun userId =>
    { encryptedOrgKey := "key", wrapSignature := Base64.encode (List.replicate 64 0), keyEpoch := 2,
      userId := userId }
  items := ids.map fun id => { id := id, blob := "AAAA", blobIv := "AAAAAAAAAAAAAAAA", blobMac := "" }

/-- Items with ids of their own are rotated exactly. -/
theorem atomicAndExact_of_two_ids : AtomicAndExact 2 1 (rotateItems [20, 21]) (sharedItems (20, 21)) := by
  rw [atomicAndExact_iff 2 1 _ (sharedItems_schema (20, 21))]
  intro items _ _ i hi j hj _ _ _ hij
  have hids : ((sharedItems (20, 21)).vaultItems.map VaultItem.id).Nodup := by decide
  exact List.inj_on_of_nodup_map hids hi hj hij

/-- Two members' items with one id are both overwritten by the one item that is submitted. -/
theorem not_atomicAndExact_of_shared_id :
    ¬ ∀ orgId auth body d, OrgSchema d → AtomicAndExact orgId auth body d := by
  intro h
  have hexact := h 2 1 (rotateItems [20]) (sharedItems (20, 20)) (sharedItems_schema (20, 20))
  have hok : ((Orgs.rotateKey 2 1 (rotateItems [20])).alone id (sharedItems (20, 20))).1 =
      .ok () := by
    decide
  obtain ⟨items, hitems, hrotation⟩ := hexact.rotated _ (Prod.ext hok rfl)
  have hids : ((rotateItems [20]).items.mapM Orgs.decodeItem).map (List.map (·.id)) =
      .ok [20] := by
    decide
  rw [hitems] at hids
  obtain ⟨item, hitem, hid⟩ := List.mem_map.mp
    (Except.ok.inj hids ▸ List.mem_singleton_self 20 : (20 : Uuid) ∈ items.map (·.id))
  obtain ⟨i, hrows, -⟩ := hrotation.items item hitem
  have htwo := congrArg List.length hrows
  rw [hid] at htwo
  cases htwo

end Nopass
