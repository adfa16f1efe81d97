import Mathlib.Data.List.DropRight
import Mathlib.Data.List.Sort
import Nopass.Core.Text.Base64
import Nopass.Server.Schema

/-!
# Organizations

Members hold the organization's key wrapped for them, with the epoch it belongs to.
An invite and a rotation lock the organization row before they look at the epoch; a
re-wrap looks at it in the route, before its transaction.
-/

namespace Nopass

open ReadCommitted

/-- What the routes take from the server's configuration. -/
structure Config where
  /-- The keyed email hash of a client's email hash. -/
  accountKey : String → String

/-- An org key wrapped for one member, with the signature over it. -/
structure SignedWrap where
  encryptedOrgKey : String
  wrapSignature : String
  keyEpoch : Int

/-- Body of an invite. -/
structure InviteMemberBody extends SignedWrap where
  emailHash : String
  role : String

/-- One member's new wrap. -/
structure RewrapEntry extends SignedWrap where
  userId : Uuid

/-- Body of a re-wrap. -/
structure RewrapBody where
  wraps : List RewrapEntry

/-- Body of a creation. -/
structure CreateOrgBody where
  id : Option Uuid := none
  name : String
  publicKey : String
  protectedPrivateKey : String
  protectedPrivateKeyIv : String
  encryptedOrgKey : String
  wrapSignature : Option String := none
  keyEpoch : Option Int := none

/-- One org item re-encrypted under the new key, in base64. -/
structure ReencryptedOrgItem where
  id : Uuid
  blob : String
  blobIv : String
  blobMac : String

/-- Body of a rotation. -/
structure RotateKeyBody where
  newEpoch : Int
  removeUserId : Option Uuid := none
  wraps : List RewrapEntry
  items : List ReencryptedOrgItem
  deleteItemIds : List Uuid := []

/-- One org item re-encrypted under the new key, decoded. -/
structure ReencryptedItem where
  id : Uuid
  blob : Bytes
  blobIv : Bytes
  blobMac : Bytes

/-- Decoded rotation payload, validated for shape by the route. -/
structure Rotation where
  newEpoch : Int
  removeUserId : Option Uuid
  wraps : List RewrapEntry
  items : List ReencryptedItem
  deleteItemIds : List Uuid

/-- How a rotation ended. -/
inductive RotationOutcome where
  | rotated
  | staleEpoch
  | badRemoval
  | incompleteWraps
  | incompleteItems
  deriving DecidableEq, Repr

/-- `current + 1` on 32-bit integers, as a release build computes it. -/
def nextEpoch (current : Int) : Int := (current + 1).bmod (2 ^ 32)

/-- A member as the member list shows it, with the published keys. -/
structure OrgMemberResponse where
  userId : Uuid
  role : Role
  status : MemberStatus
  publicKey : Option String
  identityPublicKey : Option String
  publicKeySignature : Option String
  deriving DecidableEq, Repr

/-- A text without a NUL character. -/
@[irreducible] def isSqlText (text : String) : Bool := !text.toList.contains '\x00'

/-- Texts bound to a statement: PostgreSQL has no text with a NUL character. -/
def bindTexts (texts : List String) : Request Unit :=
  if texts.all isSqlText then .ret () else .error none

@[simp] theorem reads_bindTexts (texts : List String) : (bindTexts texts).Reads := by
  unfold bindTexts
  split <;> trivial

namespace DbOrgs

/-- Rows of one organization. -/
def inOrg (orgId : Uuid) (_ : Db) (m : OrganizationMember) : Bool := m.orgId = orgId

/-- The row of one member. -/
def isMember (orgId userId : Uuid) (_ : Db) (m : OrganizationMember) : Bool :=
  decide (m.orgId = orgId) && decide (m.userId = userId)

/-- The row of the organization. -/
def isOrg (orgId : Uuid) (_ : Db) (o : Organization) : Bool := o.id = orgId

/-- Items shared with the organization. -/
def isOrgItem (orgId : Uuid) (_ : Db) (i : VaultItem) : Bool := i.orgId = some orgId

/-- Create an organization with its owner: two statements, each on its own. -/
def createOrg (id : Uuid) (name : String) (createdBy : Uuid) (encryptedOrgKey : String)
    (wrapSignature : Option String) (keyEpoch : Option Int) : Request Unit := do
  bindTexts [name]
  autocommit (Tables.organizations.insert { id := id, name := name, createdBy := createdBy }
    [userRef createdBy]) fun _ => .organized id
  bindTexts (encryptedOrgKey :: wrapSignature.toList)
  autocommit (Tables.organizationMembers.insert
    { orgId := id, userId := createdBy, role := .owner, status := .active,
      encryptedOrgKey := some encryptedOrgKey, wrapSignature := wrapSignature,
      keyEpoch := keyEpoch, invitedBy := none }
    [organizationRef id, userRef createdBy]) fun _ => .owned id createdBy

/-- `get_org_member`. -/
def getOrgMember (orgId userId : Uuid) : Request (Option OrganizationMember) := do
  let rows ← Tables.organizationMembers.select (isMember orgId userId)
  pure rows.head?

/-- The member list: rows of the organization in order of creation, joined with their users. -/
def membersOf (orgId : Uuid) (d : Db) : List OrgMemberResponse :=
  ((d.organizationMembers.filter (inOrg orgId d)).insertionSort
      fun a b => a.createdAt ≤ b.createdAt).filterMap fun m =>
    (d.users.find? fun u => u.id = m.userId).map fun u =>
      { userId := m.userId, role := m.role, status := m.status, publicKey := u.publicKey,
        identityPublicKey := u.identityPublicKey, publicKeySignature := u.publicKeySignature }

/-- `list_members`. -/
def listMembers (orgId : Uuid) : Request (List OrgMemberResponse) :=
  .select fun d => .ret (membersOf orgId d)

@[simp] theorem reads_getOrgMember (orgId userId : Uuid) : (getOrgMember orgId userId).Reads :=
  Table.reads_select.bind fun _ => trivial

@[simp] theorem reads_listMembers (orgId : Uuid) : (listMembers orgId).Reads := fun _ => trivial

/-- `current_key_epoch`. -/
def currentKeyEpoch (orgId : Uuid) : Request (Option Int) := do
  let rows ← Tables.organizations.select (isOrg orgId)
  pure (rows.head?.map (·.keyEpoch))

@[simp] theorem reads_currentKeyEpoch (orgId : Uuid) : (currentKeyEpoch orgId).Reads :=
  Table.reads_select.bind fun _ => trivial

/-- Add a pending member under the current epoch. The org row is locked, so that no rotation
retires the epoch between the check and the insert. -/
def inviteMember (orgId userId : Uuid) (role : String) (wrap : SignedWrap) (invitedBy : Uuid) :
    Request Bool := do
  let rows ← Tables.organizations.selectFor .update (isOrg orgId)
  let org ← fetchOne rows
  if org.keyEpoch ≠ wrap.keyEpoch then .rollback (.ret false) else
  match Role.parse role with
  | none => .rollback (.error none)
  | some role => do
    let _ ← Tables.organizationMembers.insertOrIgnore
      { orgId := orgId, userId := userId, role := role, status := .pending,
        encryptedOrgKey := some wrap.encryptedOrgKey, wrapSignature := some wrap.wrapSignature,
        keyEpoch := some wrap.keyEpoch, invitedBy := some invitedBy }
      [organizationRef orgId, userRef userId, userRef invitedBy]
    .commit .plain (.ret true)

/-- The new wrap in a member's row; the owner's own row stays self-signed. -/
def setWrap (ownerId : Uuid) (w : RewrapEntry) (m : OrganizationMember) : OrganizationMember :=
  { m with encryptedOrgKey := some w.encryptedOrgKey, wrapSignature := some w.wrapSignature,
           keyEpoch := some w.keyEpoch,
           invitedBy := if m.userId = ownerId then none else some ownerId }

/-- Store one member's new wrap. -/
def rewrapMember (orgId ownerId : Uuid) (w : RewrapEntry) : Request (List OrganizationMember) :=
  Tables.organizationMembers.update (isMember orgId w.userId) (setWrap ownerId w) fun m =>
    if m.userId = ownerId ∨ m.invitedBy = some ownerId then [] else [userRef ownerId]

/-- Replace members' wraps, all or none. `tag` labels the commit. -/
def rewrapMembers (orgId ownerId : Uuid) (tag : Tag) : List RewrapEntry → Request Bool
  | [] => .commit tag (.ret true)
  | w :: wraps => do
    let updated ← rewrapMember orgId ownerId w
    if updated.length ≠ 1 then .rollback (.ret false) else rewrapMembers orgId ownerId tag wraps

/-- The row of a member who accepted. -/
def activate (m : OrganizationMember) : OrganizationMember := { m with status := .active }

/-- Accept a pending invite. -/
def acceptInvite (orgId userId : Uuid) : Request Bool := do
  let rows ← autocommit (Tables.organizationMembers.update
    (fun d m => isMember orgId userId d m && decide (m.status = .pending)) activate)
    fun rows => if rows.isEmpty then .plain else .accepted orgId
  pure (decide (0 < rows.length))

/-- Remove the member to be removed, unless that is an owner. -/
def removeMember (orgId : Uuid) : Option Uuid → Request Bool
  | none => .ret true
  | some removed => do
    let deleted ← Tables.organizationMembers.delete fun d m =>
      isMember orgId removed d m && decide (m.role ≠ .owner)
    pure (decide (deleted.length = 1))

/-- Two lists hold the same elements. -/
def sameSet (a b : List Uuid) : Bool := a.all (· ∈ b) && b.all (· ∈ a)

/-- The wraps cover exactly the remaining members, at the new epoch. -/
def coversMembers (r : Rotation) (members : List OrganizationMember) : Bool :=
  decide (r.wraps.map (·.userId)).Nodup &&
    sameSet (r.wraps.map (·.userId)) (members.map (·.userId)) &&
    r.wraps.all fun w => w.keyEpoch = r.newEpoch

/-- Every org item is either re-encrypted or deleted, exactly once. -/
def coversItems (r : Rotation) (existing : List VaultItem) : Bool :=
  decide (r.items.map (·.id) ++ r.deleteItemIds).Nodup &&
    sameSet (r.items.map (·.id) ++ r.deleteItemIds) (existing.map (·.id))

/-- Lists with the same elements. -/
theorem sameSet_iff {a b : List Uuid} : sameSet a b = true ↔ ∀ id, id ∈ a ↔ id ∈ b := by
  rw [sameSet, Bool.and_eq_true, List.all_eq_true, List.all_eq_true]
  simp only [decide_eq_true_eq]
  exact ⟨fun h id => ⟨h.1 id, h.2 id⟩, fun h => ⟨fun id => (h id).mp, fun id => (h id).mpr⟩⟩

/-- What a rotation asks of its wraps. -/
theorem coversMembers_iff {r : Rotation} {members : List OrganizationMember} :
    coversMembers r members = true ↔ (r.wraps.map (·.userId)).Nodup ∧
      (∀ userId, userId ∈ r.wraps.map (·.userId) ↔ userId ∈ members.map (·.userId)) ∧
      ∀ w ∈ r.wraps, w.keyEpoch = r.newEpoch := by
  rw [coversMembers, Bool.and_eq_true, Bool.and_eq_true, decide_eq_true_eq, sameSet_iff,
    List.all_eq_true, and_assoc]
  simp only [decide_eq_true_eq]

/-- What a rotation asks of its items and deletions. -/
theorem coversItems_iff {r : Rotation} {existing : List VaultItem} :
    coversItems r existing = true ↔ (r.items.map (·.id) ++ r.deleteItemIds).Nodup ∧
      ∀ id, id ∈ r.items.map (·.id) ++ r.deleteItemIds ↔ id ∈ existing.map (·.id) := by
  rw [coversItems, Bool.and_eq_true, decide_eq_true_eq, sameSet_iff]

/-- Store the re-encrypted items. -/
def reencryptItems (orgId : Uuid) : List ReencryptedItem → Request Unit
  | [] => .ret ()
  | item :: items => do
    let _ ← Tables.vaultItems.update (fun d i => isOrgItem orgId d i && decide (i.id = item.id))
      fun i => { i with blob := item.blob, blobIv := item.blobIv, blobMac := item.blobMac,
                        version := i.version + 1 }
    reencryptItems orgId items

/-- Store the remaining members' wraps. -/
def wrapMembers (orgId ownerId : Uuid) : List RewrapEntry → Request Unit
  | [] => .ret ()
  | w :: wraps => do
    let _ ← rewrapMember orgId ownerId w
    wrapMembers orgId ownerId wraps

/-- The organization at its new epoch. -/
def setEpoch (epoch : Int) (o : Organization) : Organization := { o with keyEpoch := epoch }

/-- Apply a rotation: the org row and every member and item row are locked, and the request
must cover exactly the remaining members and all org items, or nothing changes. -/
def rotateKey (orgId ownerId : Uuid) (r : Rotation) : Request RotationOutcome := do
  let rows ← Tables.organizations.selectFor .update (isOrg orgId)
  let org ← fetchOne rows
  if r.newEpoch ≠ nextEpoch org.keyEpoch then .rollback (.ret .staleEpoch) else do
  let removed ← removeMember orgId r.removeUserId
  if !removed then .rollback (.ret .badRemoval) else do
  let members ← Tables.organizationMembers.selectFor .update (inOrg orgId)
  if !coversMembers r members then .rollback (.ret .incompleteWraps) else do
  let existing ← Tables.vaultItems.selectFor .update (isOrgItem orgId)
  if !coversItems r existing then .rollback (.ret .incompleteItems) else do
  let _ ← Tables.vaultItems.delete fun d i => isOrgItem orgId d i && decide (i.id ∈ r.deleteItemIds)
  reencryptItems orgId r.items
  wrapMembers orgId ownerId r.wraps
  let _ ← Tables.organizations.update (isOrg orgId) (setEpoch r.newEpoch)
  .commit .plain (.ret .rotated)

end DbOrgs

/-- The plan an account has access to. -/
def effectivePlan (userId : Uuid) : Request SubscriptionPlan :=
  .select fun d => .ret <|
    match d.subscriptions.find? fun s => s.userId = userId with
    | some s => if s.status = .active ∨ s.status = .trialing then s.plan else .free
    | none => .free

@[simp] theorem reads_effectivePlan (userId : Uuid) : (effectivePlan userId).Reads :=
  fun _ => trivial

/-- Most active members of an organization on a plan. -/
def orgMemberLimit : SubscriptionPlan → Option Nat
  | .free => some 3
  | .pro | .teams | .enterprise => none

/-- The account with a keyed email hash and a public key. -/
def getPublicKeyByAccountKey (accountKey : String) : Request (Option Uuid) :=
  .select fun d => .ret <|
    (d.users.find? fun u => decide (u.emailHash = accountKey) && u.emailHashKeyed).bind fun u =>
      u.publicKey.map fun _ => u.id

@[simp] theorem reads_getPublicKeyByAccountKey (accountKey : String) :
    (getPublicKeyByAccountKey accountKey).Reads := fun _ => trivial

/-- `char::is_whitespace`: the Unicode property `White_Space`. -/
def isWhitespace (c : Char) : Bool :=
  decide (0x09 ≤ c.toNat ∧ c.toNat ≤ 0x0D) || decide (0x2000 ≤ c.toNat ∧ c.toNat ≤ 0x200A) ||
    decide (c.toNat ∈ [0x20, 0x85, 0xA0, 0x1680, 0x2028, 0x2029, 0x202F, 0x205F, 0x3000])

/-- `str::trim`. -/
def trim (text : String) : String :=
  String.ofList ((text.toList.dropWhile isWhitespace).rdropWhile isWhitespace)

namespace Orgs

/-- The caller's key pair where the account has none. -/
def publishKeys (body : CreateOrgBody) (u : User) : User :=
  { u with publicKey := u.publicKey.or (some body.publicKey),
           protectedPrivateKey := u.protectedPrivateKey.or (some body.protectedPrivateKey),
           protectedPrivateKeyIv := u.protectedPrivateKeyIv.or (some body.protectedPrivateKeyIv) }

/-- Create an organization: the caller's keys, the organization and its owner are stored one after
the other, each for good. `fresh` is the id that the database draws when the body has none. -/
def createOrg (fresh auth : Uuid) (body : CreateOrgBody) : Request Unit := do
  require (decide (trim body.name ≠ "")) (.badRequest "org name must not be empty")
  bindTexts [body.publicKey, body.protectedPrivateKey, body.protectedPrivateKeyIv]
  let _ ← autocommit (Tables.users.update (fun _ u => decide (u.id = auth)) (publishKeys body))
    fun _ => .published auth
  DbOrgs.createOrg (body.id.getD fresh) (trim body.name) auth body.encryptedOrgKey
    body.wrapSignature body.keyEpoch

/-- A base64 text of 64 bytes. -/
def isSignature (text : String) : Bool := (Base64.decode text).map List.length = some 64

/-- Only the owner goes on. -/
def requireOwner (orgId userId : Uuid) : Request Unit := do
  let caller ← DbOrgs.getOrgMember orgId userId
  let caller ← okOr (.forbidden "not a member of this org") caller
  require (decide (caller.status = .active) && decide (caller.role = .owner))
    (.forbidden "only the owner can do this")

@[simp] theorem reads_requireOwner (orgId userId : Uuid) : (requireOwner orgId userId).Reads :=
  (DbOrgs.reads_getOrgMember orgId userId).bind fun caller =>
    (reads_okOr _ caller).bind fun _ => reads_require _ _

/-- The member limit of the caller's plan. -/
def requireSeat (orgId caller : Uuid) : Request Unit := do
  match orgMemberLimit (← effectivePlan caller) with
  | none => pure ()
  | some limit =>
    let members ← DbOrgs.listMembers orgId
    require (decide ((members.filter fun m => decide (m.status = .active)).length < limit))
      (.forbidden ("org member limit of " ++ toString limit ++
        " reached on your current plan — upgrade to Pro to add more"))

@[simp] theorem reads_requireSeat (orgId caller : Uuid) : (requireSeat orgId caller).Reads := by
  refine Prog.Reads.bind (reads_effectivePlan caller) fun plan => ?_
  cases orgMemberLimit plan with
  | none => trivial
  | some limit => exact (DbOrgs.reads_listMembers orgId).bind fun _ => reads_require _ _

/-- Invite an account as an owner or admin. -/
def inviteMember (config : Config) (orgId auth : Uuid) (body : InviteMemberBody) :
    Request Unit := do
  let caller ← DbOrgs.getOrgMember orgId auth
  let caller ← okOr (.forbidden "not a member of this org") caller
  require (decide (caller.status = .active) &&
      (decide (caller.role = .owner) || decide (caller.role = .admin)))
    (.forbidden "must be an admin to invite members")
  require (decide (body.role ≠ "owner")) (.badRequest "cannot invite as owner")
  requireSeat orgId auth
  let invitee ← getPublicKeyByAccountKey (config.accountKey body.emailHash)
  let invitee ← okOr (.notFound "user not found or has no public key") invitee
  require (isSignature body.wrapSignature) (.badRequest "wrapSignature must be 64 bytes of base64")
  let invited ← DbOrgs.inviteMember orgId invitee body.role body.toSignedWrap auth
  require invited (.conflict "keyEpoch is not the org's current key epoch")

/-- Replace members' org-key wraps with owner-signed ones. The epoch is read here, before the
transaction that writes the wraps. -/
def rewrapMembers (orgId auth : Uuid) (body : RewrapBody) : Request Unit := do
  requireOwner orgId auth
  let epoch := (← DbOrgs.currentKeyEpoch orgId).getD 1
  require (body.wraps.all fun w => isSignature w.wrapSignature && decide (w.keyEpoch = epoch))
    (.badRequest "each wrap needs a 64-byte signature at the current key epoch")
  let tag := if body.wraps.isEmpty then .plain else .rewrap orgId epoch
  let done ← DbOrgs.rewrapMembers orgId auth tag body.wraps
  require done (.badRequest "every wrap must be for a member of this org")

/-- Accept the caller's pending invite. -/
def acceptInvite (orgId auth : Uuid) : Request Unit := do
  let accepted ← DbOrgs.acceptInvite orgId auth
  require accepted (.notFound "no pending invite found")

/-- Members are not removed by themselves. -/
def removeMember : Request Unit :=
  refuse (.conflict ("members are removed by rotating the org key: " ++
    "POST /organizations/\x7bid\x7d/rotate with removeUserId"))

/-- Decode one re-encrypted item. -/
def decodeItem (i : ReencryptedOrgItem) : Except ApiError ReencryptedItem := do
  let decode (text what : String) : Except ApiError Bytes :=
    match Base64.decode text with
    | some bytes => .ok bytes
    | none => .error (.badRequest ("invalid " ++ what))
  let blob ← decode i.blob "blob"
  let blobIv ← decode i.blobIv "blob_iv"
  let blobMac ← decode i.blobMac "blob_mac"
  if blobIv.length ≠ 12 ∨ blob = [] ∨ ¬(blobMac = [] ∨ blobMac.length = 32) then
    .error (.badRequest "malformed re-encrypted item")
  else .ok { id := i.id, blob := blob, blobIv := blobIv, blobMac := blobMac }

/-- The answer to a rotation that did not happen. -/
def outcomeError : RotationOutcome → Option ApiError
  | .rotated => none
  | .staleEpoch => some (.conflict "newEpoch must be the current key epoch + 1")
  | .badRemoval => some (.badRequest "member to remove not found, or is the owner")
  | .incompleteWraps =>
      some (.badRequest "wraps must cover every remaining member exactly once, at newEpoch")
  | .incompleteItems => some (.badRequest "items must cover every org item exactly once")

/-- Rotate the key, optionally removing a member, in one transaction. -/
def rotateKey (orgId auth : Uuid) (body : RotateKeyBody) : Request Unit := do
  requireOwner orgId auth
  require (decide (body.removeUserId ≠ some auth)) (.badRequest "the owner cannot remove themselves")
  require (body.wraps.all fun w => isSignature w.wrapSignature)
    (.badRequest "each wrap needs a 64-byte signature")
  match body.items.mapM decodeItem with
  | .error e => refuse e
  | .ok items =>
    let outcome ← DbOrgs.rotateKey orgId auth
      { newEpoch := body.newEpoch, removeUserId := body.removeUserId, wraps := body.wraps,
        items := items, deleteItemIds := body.deleteItemIds }
    match outcomeError outcome with
    | none => pure ()
    | some e => refuse e

end Orgs

end Nopass
