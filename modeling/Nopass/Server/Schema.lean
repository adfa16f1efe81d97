import Nopass.Core.Sql.OneTime
import Nopass.Core.Text.Uuid

/-!
# The server's database

The tables that the modelled requests read and write, with the columns they use.
Timestamps are numbers. The throttle and activity tables are left out: a throttled
request is one that is cut off. Four columns are history that no statement reads:
what a session was created on, which session the last rotation kept, what started an
SRP handshake, and which kit authorized a recovery token.
-/

namespace Nopass

/-- A byte string. -/
abbrev Bytes := List UInt8

/-- Errors of the API, with their messages. -/
inductive ApiError where
  | notFound (message : String)
  | unauthorized (message : String)
  | forbidden (message : String)
  | badRequest (message : String)
  | conflict (message : String)
  | internal (message : String)
  deriving DecidableEq, Repr

/-- Organization roles. -/
inductive Role where
  | owner
  | admin
  | member
  deriving DecidableEq, Repr

/-- The text of a role in the database and on the wire. -/
def Role.text : Role → String
  | .owner => "owner"
  | .admin => "admin"
  | .member => "member"

/-- The role of a text; other texts break the column's check. -/
def Role.parse (text : String) : Option Role :=
  if text = "owner" then some .owner
  else if text = "admin" then some .admin
  else if text = "member" then some .member
  else none

/-- Every role is read back from its text. -/
@[simp] theorem Role.parse_text (role : Role) : Role.parse role.text = some role := by
  cases role <;> decide

/-- Whether an invite was accepted. -/
inductive MemberStatus where
  | pending
  | active
  deriving DecidableEq, Repr

/-- What finishing an OPAQUE handshake authorizes. -/
inductive Purpose where
  | login
  | accountKey
  | identityKey
  | passwordChange
  deriving DecidableEq, Repr

/-- Kinds of items. -/
inductive VaultItemType where
  | login
  | note
  | card
  | identity
  | sshKey
  deriving DecidableEq, Repr

/-- The text of a kind in the database, on the wire and in envelopes. -/
def VaultItemType.text : VaultItemType → String
  | .login => "login"
  | .note => "note"
  | .card => "card"
  | .identity => "identity"
  | .sshKey => "ssh_key"

/-- A row of `users`. -/
structure User where
  id : Uuid
  emailHash : String := ""
  emailHashKeyed : Bool := true
  srpSalt : Option Bytes := none
  srpVerifier : Option Bytes := none
  opaqueRecord : Option Bytes := none
  /-- Account salt material wrapped by clients that predate the account key. -/
  protectedSymmetricKey : Bytes := []
  protectedSymmetricKeyIv : Bytes := []
  publicKey : Option String := none
  protectedPrivateKey : Option String := none
  protectedPrivateKeyIv : Option String := none
  identityPublicKey : Option String := none
  publicKeySignature : Option String := none
  wrappedAccountKey : Option Bytes := none
  wrappedAccountKeyIv : Option Bytes := none
  recoveryAuthHash : Option Bytes := none
  recoveryBlob : Option Bytes := none
  recoveryBlobIv : Option Bytes := none
  /-- History: the session that the last password change kept. -/
  keptSession : Option Uuid := none
  deriving DecidableEq, Repr

/-- A row of `sessions`. -/
structure Session where
  id : Uuid
  userId : Uuid
  deviceId : Option Uuid := none
  tokenHash : String
  createdAt : Nat
  expiresAt : Nat
  /-- History: the OPAQUE record whose password was proved for it. -/
  provedRecord : Option Bytes := none
  deriving DecidableEq, Repr

/-- A row of `devices`. -/
structure Device where
  id : Uuid
  userId : Uuid
  lastSeenAt : Option Nat := none
  deriving DecidableEq, Repr

/-- A row of `vaults`. -/
structure Vault where
  id : Uuid
  userId : Uuid
  nameBlob : Bytes
  nameIv : Bytes
  createdAt : Nat
  deriving DecidableEq, Repr

/-- A row of `vault_items`. -/
structure VaultItem where
  /-- With `userId`, the primary key. -/
  id : Uuid
  vaultId : Uuid
  userId : Uuid
  orgId : Option Uuid := none
  itemType : String
  blob : Bytes
  blobIv : Bytes
  blobMac : Bytes
  version : Int := 1
  /-- Set on tombstones. -/
  deletedAt : Option Nat := none
  deriving DecidableEq, Repr

/-- An item that was not soft-deleted. -/
def VaultItem.live (i : VaultItem) : Bool := i.deletedAt.isNone

/-- A row of `organizations`. -/
structure Organization where
  id : Uuid
  name : String
  createdBy : Uuid
  keyEpoch : Int := 1
  deriving DecidableEq, Repr

/-- A row of `organization_members`. -/
structure OrganizationMember where
  /-- With `userId`, the primary key. -/
  orgId : Uuid
  userId : Uuid
  role : Role
  status : MemberStatus
  encryptedOrgKey : Option String
  wrapSignature : Option String
  keyEpoch : Option Int
  /-- Who signed the wrap; none for a self-signed one. -/
  invitedBy : Option Uuid
  createdAt : Nat := 0
  deriving DecidableEq, Repr

/-- Subscription plans. -/
inductive SubscriptionPlan where
  | free
  | pro
  | teams
  | enterprise
  deriving DecidableEq, Repr

/-- Payment states. -/
inductive SubscriptionStatus where
  | active
  | pastDue
  | canceled
  | trialing
  deriving DecidableEq, Repr

/-- A row of `subscriptions`. -/
structure Subscription where
  id : Uuid
  userId : Uuid
  plan : SubscriptionPlan
  status : SubscriptionStatus
  stripeCustomerId : Option String := none
  stripeSubscriptionId : Option String := none
  /-- In seconds. -/
  currentPeriodEnd : Option Int := none
  deriving DecidableEq, Repr

/-- The server's state of an OPAQUE login: the record it was computed from and the rest. -/
structure ServerState where
  /-- Password file given to `opaque::login_start`; none for the fake response. -/
  record : Option Bytes
  request : Bytes
  deriving DecidableEq, Repr

/-- A row of `pending_opaque_logins`. -/
structure PendingOpaqueLogin where
  id : Uuid
  accountKey : String
  /-- None for the fake response. -/
  userId : Option Uuid
  serverState : ServerState
  createdAt : Nat
  purpose : Purpose
  deriving DecidableEq, Repr

/-- What an SRP handshake was started for; the server does not store it. -/
inductive SrpPurpose where
  | login
  | upgrade
  deriving DecidableEq, Repr

/-- A row of `pending_srp_sessions`. -/
structure PendingSrpSession where
  id : Uuid
  userId : Uuid
  srpVerifier : Bytes
  serverEphemeralB : Bytes
  clientPublicA : Bytes
  createdAt : Nat
  /-- History: the route that started it. -/
  startedFor : SrpPurpose := .login
  deriving DecidableEq, Repr

/-- A row of `pending_recovery_sessions`. -/
structure PendingRecoverySession where
  token : Uuid
  userId : Uuid
  createdAt : Nat
  /-- History: the hash that the kit's key was checked against. -/
  kit : Bytes := []
  deriving DecidableEq, Repr

/-- A row that authorizes one write and is deleted for it. -/
inductive OneTimeRow where
  | login (p : PendingOpaqueLogin)
  | srp (p : PendingSrpSession)
  | recovery (p : PendingRecoverySession)
  deriving DecidableEq, Repr

/-- The database. -/
structure Db where
  users : List User := []
  sessions : List Session := []
  devices : List Device := []
  vaults : List Vault := []
  vaultItems : List VaultItem := []
  organizations : List Organization := []
  organizationMembers : List OrganizationMember := []
  subscriptions : List Subscription := []
  pendingOpaqueLogins : List PendingOpaqueLogin := []
  pendingSrpSessions : List PendingSrpSession := []
  pendingRecoverySessions : List PendingRecoverySession := []
  deriving DecidableEq, Repr

/-- Names of rows, by table and primary key. -/
inductive RowId where
  | user (id : Uuid)
  /-- The unique index on `users.email_hash`. -/
  | emailHash (hash : String)
  | session (id : Uuid)
  | device (id : Uuid)
  | vault (id : Uuid)
  | vaultItem (userId id : Uuid)
  | organization (id : Uuid)
  | organizationMember (orgId userId : Uuid)
  | subscription (id : Uuid)
  | pendingOpaqueLogin (id : Uuid)
  | pendingSrpSession (id : Uuid)
  | pendingRecoverySession (token : Uuid)
  deriving DecidableEq, Repr

/-- Commits by what their request read before them; nothing depends on it but statements
about runs. -/
inductive Tag where
  | plain
  /-- Wraps for the epoch that the route read. -/
  | rewrap (orgId : Uuid) (epoch : Int)
  | deleteVault (userId vaultId : Uuid)
  /-- A handshake computed from the record that was read. -/
  | handshake (userId : Option Uuid) (record : Option Bytes)
  /-- A write authorized by a handshake computed from `proved`, consumed when the account's
  record was `atTake`. -/
  | authorized (userId : Uuid) (proved atTake : Option Bytes)
  /-- The row, if any, that this commit deletes for what it authorizes. -/
  | consumed (row : Option OneTimeRow)
  /-- A recovery token for a kit whose hash was `atCheck` when its key was checked. -/
  | issued (p : PendingRecoverySession) (atCheck : Option Bytes)
  /-- A kit is replaced or disabled; the tokens that its transaction deleted. -/
  | replacedKit (userId : Uuid) (dropped : List Uuid)
  /-- A new item, or an edit of one at this version, for an account whose keys were `atAuth` when
  the request was authenticated. -/
  | wrote (userId : Uuid) (edited : Option (Uuid × Int)) (atAuth : Option (Bytes × Bytes))
  /-- The account's keys are replaced by these and its items re-encrypted. -/
  | rekeyed (userId : Uuid) (keys : Option (Bytes × Bytes))
  /-- Items are replaced by re-encryptions of what was read, at these versions. -/
  | reencrypted (read : List (RowId × Int))
  /-- The caller's key pair, where the account had none. -/
  | published (userId : Uuid)
  /-- A new organization row. -/
  | organized (orgId : Uuid)
  /-- The owner's row of a new organization. -/
  | owned (orgId userId : Uuid)
  /-- A pending member became active. -/
  | accepted (orgId : Uuid)
  deriving DecidableEq, Repr

open ReadCommitted

/-- Requests against this database. -/
abbrev Request (O : Type) := Prog Db RowId Tag ApiError O

/-- Refuse a request. -/
def refuse {O : Type} (e : ApiError) : Request O := .error (some e)

/-- `require cond e`: go on or refuse. -/
def require (cond : Bool) (e : ApiError) : Request Unit :=
  if cond then .ret () else refuse e

/-- The value of a `fetch_optional`, or a refusal. -/
def okOr {α : Type} (e : ApiError) : Option α → Request α
  | some a => .ret a
  | none => refuse e

@[simp] theorem reads_require (cond : Bool) (e : ApiError) : (require cond e).Reads := by
  cases cond <;> trivial

@[simp] theorem reads_okOr {α : Type} (e : ApiError) (a : Option α) : (okOr e a).Reads := by
  cases a <;> trivial

/-- What follows a value that must be there is given for it. -/
theorem gives_okOr_bind {O α : Type} {P : O → Prop} {a : Option α} {e : ApiError}
    {k : α → Request O} (h : ∀ x ∈ a, (k x).Gives P) : (okOr e a >>= k).Gives P := by
  cases a with
  | none => trivial
  | some x => exact h x rfl

section Wp

variable {O : Type} {S : Spec Db RowId Tag ApiError}
  {Q : O → List (RowId × LockMode) → (Db → Db) → Db → Prop} {L : List (RowId × LockMode)}
  {w : Db → Db} {d : Db}

/-- Rule for a refusal. -/
theorem wp_refuse {e : ApiError} (he : ¬ S.never e) : S.wp Q (refuse e) L w d := by
  rintro _ ⟨⟩
  exact he

/-- Rule for a check. -/
theorem wp_require_bind {cond : Bool} {e : ApiError} {k : Unit → Request O}
    (he : ¬ S.never e) (h : cond = true → S.wp Q (k ()) L w d) :
    S.wp Q (require cond e >>= k) L w d := by
  cases cond
  · exact wp_refuse he
  · exact h rfl

/-- Rule for a final check. -/
theorem wp_require {cond : Bool} {e : ApiError}
    {Q : Unit → List (RowId × LockMode) → (Db → Db) → Db → Prop} (he : ¬ S.never e)
    (h : ∀ d', S.Rely L d d' → Q () L w d') :
    S.wp Q (require cond e) L w d := by
  cases cond
  · exact wp_refuse he
  · exact h

/-- Rule for a value that must be there. -/
theorem wp_okOr_bind {α : Type} {a : Option α} {e : ApiError} {k : α → Request O}
    (he : ¬ S.never e) (h : ∀ x ∈ a, S.wp Q (k x) L w d) :
    S.wp Q (okOr e a >>= k) L w d := by
  cases a with
  | none => exact wp_refuse he
  | some x => exact h x rfl

end Wp

section Alone

variable {O : Type} {w : Db → Db} {d d' : Db} {out : O}

/-- A check that a lone request went through. -/
theorem alone_require_bind {cond : Bool} {e : ApiError} {k : Unit → Request O}
    (h : (require cond e >>= k).alone w d = (.ok out, d')) :
    cond = true ∧ (k ()).alone w d = (.ok out, d') := by
  cases cond with
  | false => cases h
  | true => exact ⟨rfl, h⟩

/-- A lone request goes through a check exactly when the check holds. -/
theorem alone_require_iff {cond : Bool} {e : ApiError} {k : Unit → Request O} :
    (require cond e >>= k).alone w d = (.ok out, d') ↔
      cond = true ∧ (k ()).alone w d = (.ok out, d') := by
  constructor
  · exact alone_require_bind
  · rintro ⟨rfl, h⟩
    exact h

/-- A value that a lone request found. -/
theorem alone_okOr_bind {α : Type} {a : Option α} {e : ApiError} {k : α → Request O}
    (h : (okOr e a >>= k).alone w d = (.ok out, d')) :
    ∃ x, a = some x ∧ (k x).alone w d = (.ok out, d') := by
  cases a with
  | none => cases h
  | some x => exact ⟨x, rfl, h⟩

/-- A lone request goes on exactly when the value is there. -/
theorem alone_okOr_iff {α : Type} {a : Option α} {e : ApiError} {k : α → Request O} :
    (okOr e a >>= k).alone w d = (.ok out, d') ↔
      ∃ x, a = some x ∧ (k x).alone w d = (.ok out, d') := by
  constructor
  · exact alone_okOr_bind
  · rintro ⟨x, rfl, h⟩
    exact h

end Alone

section Labels

variable {O R : Type} {taken : Tag → Option R} {P : List R → O → Prop} {rs : List R}

/-- What follows a check is yielded after it. -/
theorem yields_require_bind {cond : Bool} {e : ApiError} {k : Unit → Request O}
    (h : cond = true → (k ()).Yields taken P rs) :
    (require cond e >>= k).Yields taken P rs := by
  cases cond
  · trivial
  · exact h rfl

/-- What follows a value that must be there is yielded for it. -/
theorem yields_okOr_bind {α : Type} {a : Option α} {e : ApiError} {k : α → Request O}
    (h : ∀ x ∈ a, (k x).Yields taken P rs) : (okOr e a >>= k).Yields taken P rs := by
  cases a with
  | none => trivial
  | some x => exact h x rfl

/-- What follows a value that must be there is labelled for it. -/
theorem labels_okOr_bind {Q : Tag → Prop} {α : Type} {a : Option α} {e : ApiError}
    {k : α → Request O} (h : ∀ x ∈ a, (k x).Labels Q) : (okOr e a >>= k).Labels Q := by
  cases a with
  | none => trivial
  | some x => exact h x rfl

end Labels

/-- A value of PostgreSQL's `BIGINT`. -/
def isBigInt (n : Int) : Bool := decide (-2 ^ 63 ≤ n) && decide (n < 2 ^ 63)

namespace Tables

/-- `users`. -/
def users : Table Db RowId User where
  get d := d.users
  set rows d := { d with users := rows }
  key r := .user r.id
  check r := (r.srpSalt.isNone == r.srpVerifier.isNone) &&
    (r.opaqueRecord.isSome || r.srpVerifier.isSome) &&
    (r.wrappedAccountKey.isNone == r.wrappedAccountKeyIv.isNone)

/-- `sessions`. -/
def sessions : Table Db RowId Session where
  get d := d.sessions
  set rows d := { d with sessions := rows }
  key r := .session r.id

/-- `devices`. -/
def devices : Table Db RowId Device where
  get d := d.devices
  set rows d := { d with devices := rows }
  key r := .device r.id

/-- `vaults`. -/
def vaults : Table Db RowId Vault where
  get d := d.vaults
  set rows d := { d with vaults := rows }
  key r := .vault r.id

/-- `vault_items`. -/
def vaultItems : Table Db RowId VaultItem where
  get d := d.vaultItems
  set rows d := { d with vaultItems := rows }
  key r := .vaultItem r.userId r.id
  check r := isBigInt r.version

/-- `organizations`. -/
def organizations : Table Db RowId Organization where
  get d := d.organizations
  set rows d := { d with organizations := rows }
  key r := .organization r.id
  check r := decide (1 ≤ r.keyEpoch)

/-- `organization_members`. -/
def organizationMembers : Table Db RowId OrganizationMember where
  get d := d.organizationMembers
  set rows d := { d with organizationMembers := rows }
  key r := .organizationMember r.orgId r.userId
  check r := r.keyEpoch.all (1 ≤ ·)

/-- `subscriptions`. -/
def subscriptions : Table Db RowId Subscription where
  get d := d.subscriptions
  set rows d := { d with subscriptions := rows }
  key r := .subscription r.id

/-- `pending_opaque_logins`. -/
def pendingOpaqueLogins : Table Db RowId PendingOpaqueLogin where
  get d := d.pendingOpaqueLogins
  set rows d := { d with pendingOpaqueLogins := rows }
  key r := .pendingOpaqueLogin r.id

/-- `pending_srp_sessions`. -/
def pendingSrpSessions : Table Db RowId PendingSrpSession where
  get d := d.pendingSrpSessions
  set rows d := { d with pendingSrpSessions := rows }
  key r := .pendingSrpSession r.id

/-- `pending_recovery_sessions`. -/
def pendingRecoverySessions : Table Db RowId PendingRecoverySession where
  get d := d.pendingRecoverySessions
  set rows d := { d with pendingRecoverySessions := rows }
  key r := .pendingRecoverySession r.token

end Tables

/-- A foreign key to `users`. -/
def userRef (id : Uuid) : Ref Db RowId where
  row := .user id
  live d := d.users.any (·.id = id)

/-- A foreign key to `devices`. -/
def deviceRef (id : Uuid) : Ref Db RowId where
  row := .device id
  live d := d.devices.any (·.id = id)

/-- A foreign key to `vaults`. -/
def vaultRef (id : Uuid) : Ref Db RowId where
  row := .vault id
  live d := d.vaults.any (·.id = id)

/-- A foreign key to `organizations`. -/
def organizationRef (id : Uuid) : Ref Db RowId where
  row := .organization id
  live d := d.organizations.any (·.id = id)

end Nopass
