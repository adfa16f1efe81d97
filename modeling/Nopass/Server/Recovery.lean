import Nopass.Server.Auth

/-!
# Password changes and recovery

Both replace the login credential and the key wraps in one transaction that locks the
account's row first, drops every handshake of the account and revokes its sessions. A
password change is authorized by a proof of the current password and keeps its own
session; a recovery burns its token and keeps none.
-/

namespace Nopass

open ReadCommitted

namespace DbRecovery

/-- Failures of a rotation that the routes tell apart. -/
inductive CompleteRecoveryError where
  | itemMismatch
  | tokenConsumed
  deriving DecidableEq, Repr

/-- `rotation_error`. -/
def rotationError : CompleteRecoveryError → ApiError
  | .itemMismatch => .badRequest "every item must be re-encrypted, and only this account's items"
  | .tokenConsumed => .unauthorized "recovery session not found or expired"

/-- End the transaction with a failure. -/
def fail (e : CompleteRecoveryError) : Request Unit := .rollback (refuse (rotationError e))

/-- The login credential for the new master password. -/
inductive NewCredential where
  | opaqueRecord (record : Bytes)
  /-- From clients that predate OPAQUE. -/
  | srp (salt verifier : Bytes)
  deriving DecidableEq, Repr

/-- The stored OPAQUE record of a credential. -/
def NewCredential.record : NewCredential → Option Bytes
  | .opaqueRecord record => some record
  | .srp _ _ => none

/-- The stored SRP salt and verifier of a credential. -/
def NewCredential.srpPair : NewCredential → Option (Bytes × Bytes)
  | .opaqueRecord _ => none
  | .srp salt verifier => some (salt, verifier)

/-- Replacement recovery kit. -/
structure NewRecoveryKit where
  authHash : Bytes
  blob : Bytes
  blobIv : Bytes

/-- An item under the new keys. -/
structure ReencryptedItemRow where
  id : Uuid
  blob : Bytes
  blobIv : Bytes
  blobMac : Bytes

/-- What a rotation writes; an absent field keeps the stored value. -/
structure PasswordRotation where
  credential : NewCredential
  protectedSymmetricKey : Option (Bytes × Bytes)
  protectedPrivateKey : Option (String × String)
  wrappedAccountKey : Option (Bytes × Bytes)
  recoveryKit : Option NewRecoveryKit
  reencryptedItems : Option (List ReencryptedItemRow)

/-- What authorizes a rotation. -/
inductive RotationAuthority where
  | recoveryToken (token : Uuid)
  | session (id : Uuid)
  deriving DecidableEq, Repr

/-- The session that survives. -/
def RotationAuthority.keepSession : RotationAuthority → Option Uuid
  | .recoveryToken _ => none
  | .session id => some id

/-- The account after a rotation. -/
def PasswordRotation.rotated (rotation : PasswordRotation) (keepSession : Option Uuid) (u : User) :
    User :=
  { u with
    srpSalt := rotation.credential.srpPair.map (·.1)
    srpVerifier := rotation.credential.srpPair.map (·.2)
    opaqueRecord := rotation.credential.record
    protectedSymmetricKey :=
      (rotation.protectedSymmetricKey.map (·.1)).getD u.protectedSymmetricKey
    protectedSymmetricKeyIv :=
      (rotation.protectedSymmetricKey.map (·.2)).getD u.protectedSymmetricKeyIv
    protectedPrivateKey := (rotation.protectedPrivateKey.map (·.1)) <|> u.protectedPrivateKey
    protectedPrivateKeyIv := (rotation.protectedPrivateKey.map (·.2)) <|> u.protectedPrivateKeyIv
    wrappedAccountKey := (rotation.wrappedAccountKey.map (·.1)) <|> u.wrappedAccountKey
    wrappedAccountKeyIv := (rotation.wrappedAccountKey.map (·.2)) <|> u.wrappedAccountKeyIv
    recoveryAuthHash := (rotation.recoveryKit.map (·.authHash)) <|> u.recoveryAuthHash
    recoveryBlob := (rotation.recoveryKit.map (·.blob)) <|> u.recoveryBlob
    recoveryBlobIv := (rotation.recoveryKit.map (·.blobIv)) <|> u.recoveryBlobIv
    keptSession := keepSession }

/-- Every item of an account, tombstones included. -/
def itemsOf (userId : Uuid) (d : Db) : List VaultItem :=
  d.vaultItems.filter fun i => i.userId = userId

/-- `list_all_items_for_user`; nothing depends on the order. -/
def listAllItemsForUser (userId : Uuid) : Request (List VaultItem) :=
  .select fun d => .ret (itemsOf userId d)

@[simp] theorem reads_listAllItemsForUser (userId : Uuid) : (listAllItemsForUser userId).Reads :=
  fun _ => trivial

/-- The stored item under the new keys. -/
def ReencryptedItemRow.reencrypt (item : ReencryptedItemRow) (i : VaultItem) : VaultItem :=
  { i with blob := item.blob, blobIv := item.blobIv, blobMac := item.blobMac
           version := i.version + 1 }

/-- Consume the recovery token inside the transaction. -/
def consumeToken : RotationAuthority → Request Unit
  | .session _ => pure ()
  | .recoveryToken token => do
    let consumed ← Tables.pendingRecoverySessions.delete fun _ p => p.token = token
    if consumed.isEmpty then fail .tokenConsumed else pure ()

/-- Swap in each item; one that the account does not have ends the transaction. -/
def swapItems (userId : Uuid) : List ReencryptedItemRow → Request Unit
  | [] => pure ()
  | item :: rest => do
    let rows ← Tables.vaultItems.update
      (fun _ i => decide (i.id = item.id) && decide (i.userId = userId)) item.reencrypt
    if rows.isEmpty then fail .itemMismatch else do
    swapItems userId rest

/-- Swap in the whole set of re-encrypted items, when there is one. -/
def reencryptItems (userId : Uuid) : Option (List ReencryptedItemRow) → Request Unit
  | none => pure ()
  | some items => do
    swapItems userId items
    let total ← (.select fun d => .ret (itemsOf userId d).length : Request Nat)
    if total ≠ items.length then fail .itemMismatch else pure ()

/-- `rotate_master_password`. -/
def rotateMasterPassword (tag : Tag) (authority : RotationAuthority) (userId : Uuid)
    (rotation : PasswordRotation) : Request Unit := do
  let _ ← Tables.users.selectFor .update (DbAuth.isUser userId)
  consumeToken authority
  let _ ← Tables.users.update (DbAuth.isUser userId) (rotation.rotated authority.keepSession)
  reencryptItems userId rotation.reencryptedItems
  DbAuth.dropPendingLogins userId
  let _ ← Tables.pendingRecoverySessions.delete fun _ p => p.userId = userId
  let _ ← Tables.sessions.delete fun _ s =>
    decide (s.userId = userId) && decide (authority.keepSession ≠ some s.id)
  .commit tag (.ret ())

end DbRecovery

namespace Recovery

/-- Seconds that a recovery token stays valid. -/
def recoverySessionTtlSecs : Nat := 600

/-- A re-encrypted item on the wire. -/
structure ReencryptedItem where
  id : Uuid
  blob : String
  blobIv : String
  blobMac : String

/-- Body of `recovery/complete`; the token is none when it is not a UUID. -/
structure RecoveryCompleteRequest where
  recoveryToken : Option Uuid
  registrationRecord : Option String
  srpSalt : Option String
  srpVerifier : Option String
  protectedSymmetricKey : String
  protectedSymmetricKeyIv : String
  protectedPrivateKey : Option String
  protectedPrivateKeyIv : Option String
  wrappedAccountKey : Option String
  wrappedAccountKeyIv : Option String
  items : List ReencryptedItem
  recoveryAuthKey : String
  recoveryBlob : String
  recoveryBlobIv : String

/-- `decode_b64` of this module. -/
def decodeB64 (value field : String) : Request Bytes :=
  decodeField value ("invalid " ++ field ++ " base64")

@[simp] theorem reads_decodeB64 (value field : String) : (decodeB64 value field).Reads :=
  reads_decodeField ..

/-- The session of a token that is neither consumed nor too old. -/
def liveRecoverySession (now : Nat) (token : Option Uuid) : Request PendingRecoverySession := do
  let token ← okOr (.unauthorized "invalid recovery token") token
  let rows ← Tables.pendingRecoverySessions.select fun _ p => p.token = token
  let session ← okOr (.unauthorized "recovery session not found or expired") rows.head?
  require (decide (now - session.createdAt ≤ recoverySessionTtlSecs))
    (.unauthorized "recovery session expired")
  pure session

/-- The new credential of a request. -/
def credentialOf (o : Opaque) (req : RecoveryCompleteRequest) :
    Request DbRecovery.NewCredential :=
  match req.registrationRecord, req.srpSalt, req.srpVerifier with
  | some record, none, none => do
    let upload ← decodeOpaque record "registrationRecord"
    let record ← okOr (.badRequest "invalid registrationRecord") (o.registrationFinish upload)
    pure (.opaqueRecord record)
  | none, some salt, some verifier => do
    let salt ← decodeB64 salt "srp_salt"
    let verifier ← decodeB64 verifier "srp_verifier"
    pure (.srp salt verifier)
  | _, _, _ => refuse (.badRequest "send either registrationRecord or srpSalt and srpVerifier")

/-- The wrapped account key of a request, with its IV or not at all. -/
def wrapOf (req : RecoveryCompleteRequest) : Request (Option (Bytes × Bytes)) :=
  match req.wrappedAccountKey, req.wrappedAccountKeyIv with
  | some k, some iv => do
    let k ← decodeB64 k "wrappedAccountKey"
    let iv ← decodeB64 iv "wrappedAccountKeyIv"
    pure (some (k, iv))
  | none, none => pure none
  | _, _ => refuse (.badRequest "send both wrappedAccountKey and its IV, or neither")

/-- `decode_reencrypted_items`. -/
def decodeReencryptedItems :
    List ReencryptedItem → Request (List DbRecovery.ReencryptedItemRow)
  | [] => pure []
  | item :: rest => do
    let blob ← decodeB64 item.blob "item blob"
    let blobIv ← decodeB64 item.blobIv "item blob_iv"
    let blobMac ← decodeB64 item.blobMac "item blob_mac"
    let rows ← decodeReencryptedItems rest
    pure ({ id := item.id, blob := blob, blobIv := blobIv, blobMac := blobMac } :: rows)

/-- The re-encrypted items of a request: none with a wrap, the whole set without one. -/
def itemsOf (userId : Uuid) (wrapped : Option (Bytes × Bytes)) (items : List ReencryptedItem) :
    Request (Option (List DbRecovery.ReencryptedItemRow)) :=
  if wrapped.isSome then do
    require items.isEmpty
      (.badRequest "items are not re-encrypted when the account key is re-wrapped")
    pure none
  else do
    require (decide (items.map (·.id)).Nodup) (.badRequest "duplicate item ids")
    let expected ← DbRecovery.listAllItemsForUser userId
    require (decide (expected.length = items.length))
      (.badRequest ("expected " ++ toString expected.length ++ " re-encrypted items, got " ++
        toString items.length))
    let rows ← decodeReencryptedItems items
    pure (some rows)

/-- `recovery/complete`. -/
def recoveryComplete (o : Opaque) (now : Nat) (req : RecoveryCompleteRequest) : Request Unit := do
  let session ← liveRecoverySession now req.recoveryToken
  let credential ← credentialOf o req
  let protectedKey ← decodeB64 req.protectedSymmetricKey "protected_symmetric_key"
  let protectedKeyIv ← decodeB64 req.protectedSymmetricKeyIv "protected_symmetric_key_iv"
  let newAuthKey ← decodeB64 req.recoveryAuthKey "recovery_auth_key"
  let newBlob ← decodeB64 req.recoveryBlob "recovery_blob"
  let newBlobIv ← decodeB64 req.recoveryBlobIv "recovery_blob_iv"
  require (decide (newAuthKey.length = 32)) (.badRequest "recovery_auth_key must be 32 bytes")
  let wrapped ← wrapOf req
  let items ← itemsOf session.userId wrapped req.items
  DbRecovery.rotateMasterPassword (.consumed (some (.recovery session)))
    (.recoveryToken session.token) session.userId
    { credential := credential
      protectedSymmetricKey := some (protectedKey, protectedKeyIv)
      protectedPrivateKey := req.protectedPrivateKey.bind fun k =>
        req.protectedPrivateKeyIv.map fun iv => (k, iv)
      wrappedAccountKey := wrapped
      recoveryKit := some
        { authHash := o.hashAuthKey newAuthKey, blob := newBlob, blobIv := newBlobIv }
      reencryptedItems := items }

@[simp] theorem reads_liveRecoverySession (now : Nat) (token : Option Uuid) :
    (liveRecoverySession now token).Reads :=
  (reads_okOr _ _).bind fun _ => Table.reads_select.bind fun _ => (reads_okOr _ _).bind fun _ =>
    (reads_require _ _).bind fun _ => trivial

@[simp] theorem reads_credentialOf (o : Opaque) (req : RecoveryCompleteRequest) :
    (credentialOf o req).Reads := by
  unfold credentialOf
  split
  · exact (reads_decodeOpaque _ _).bind fun _ => (reads_okOr _ _).bind fun _ => trivial
  · exact (reads_decodeB64 _ _).bind fun _ => (reads_decodeB64 _ _).bind fun _ => trivial
  · trivial

@[simp] theorem reads_wrapOf (req : RecoveryCompleteRequest) : (wrapOf req).Reads := by
  unfold wrapOf
  split
  · exact (reads_decodeB64 _ _).bind fun _ => (reads_decodeB64 _ _).bind fun _ => trivial
  · trivial
  · trivial

@[simp] theorem reads_decodeReencryptedItems (items : List ReencryptedItem) :
    (decodeReencryptedItems items).Reads := by
  induction items with
  | nil => trivial
  | cons item rest ih =>
    exact (reads_decodeB64 _ _).bind fun _ => (reads_decodeB64 _ _).bind fun _ =>
      (reads_decodeB64 _ _).bind fun _ => ih.bind fun _ => trivial

/-- Decoded items keep their ids, and each blob is one that was sent. -/
theorem gives_decodeReencryptedItems (items : List ReencryptedItem) :
    (decodeReencryptedItems items).Gives fun rows => rows.map (·.id) = items.map (·.id) ∧
      ∀ row ∈ rows, ∃ item ∈ items, Base64.decode item.blob = some row.blob := by
  induction items with
  | nil => exact ⟨rfl, nofun⟩
  | cons item rest ih =>
    refine gives_okOr_bind fun blob hblob => gives_okOr_bind fun blobIv _ => ?_
    refine gives_okOr_bind fun blobMac _ => ih.bind ?_
    rintro rows ⟨hids, hrows⟩
    refine ⟨by rw [List.map_cons, List.map_cons, hids], fun row hrow => ?_⟩
    rcases List.mem_cons.mp hrow with rfl | hrow
    · exact ⟨item, List.mem_cons_self, hblob⟩
    · obtain ⟨item', hitem', hdec⟩ := hrows row hrow
      exact ⟨item', List.mem_cons_of_mem _ hitem', hdec⟩

@[simp] theorem reads_itemsOf (userId : Uuid) (wrapped : Option (Bytes × Bytes))
    (items : List ReencryptedItem) : (itemsOf userId wrapped items).Reads := by
  unfold itemsOf
  split
  · exact (reads_require _ _).bind fun _ => trivial
  · exact (reads_require _ _).bind fun _ => (DbRecovery.reads_listAllItemsForUser _).bind fun _ =>
      (reads_require _ _).bind fun _ => (reads_decodeReencryptedItems _).bind fun _ => trivial

end Recovery

namespace Password

/-- Body of the first request of a password change. -/
structure PasswordChangeStartRequest where
  emailHash : String
  startLoginRequest : String
  registrationRequest : String

/-- Its answer, less the login response and the KDF parameters. -/
structure PasswordChangeStartResponse where
  changeId : Uuid
  registrationResponse : Bytes
  wrappedAccountKey : String
  wrappedAccountKeyIv : String

/-- Body of the second request. -/
structure PasswordChangeFinishRequest where
  changeId : Uuid
  finishLoginRequest : String
  registrationRecord : String
  wrappedAccountKey : String
  wrappedAccountKeyIv : String

/-- Start a proof of the current password and answer with the wrap that is to be replaced. -/
def start (o : Opaque) (config : Config) (fresh : Fresh) (auth : AuthUser)
    (req : PasswordChangeStartRequest) : Request PasswordChangeStartResponse := do
  let _ ← Proof.requireRecentSession o fresh.now auth passwordChangeMaxSessionAgeSecs
  let user ← Proof.sessionUser config auth req.emailHash
  let registrationRequest ← decodeOpaque req.registrationRequest "registrationRequest"
  let conflict := ApiError.conflict "sign in again before changing your password"
  let wrapped ← okOr conflict user.wrappedAccountKey
  let wrappedIv ← okOr conflict user.wrappedAccountKeyIv
  let changeId ← Proof.startProof o fresh user req.startLoginRequest .passwordChange
  let response ← okOr (.badRequest "invalid registrationRequest")
    (o.registrationStart registrationRequest (req.emailHash.map Char.toLower))
  pure
    { changeId := changeId, registrationResponse := response
      wrappedAccountKey := Base64.encode wrapped, wrappedAccountKeyIv := Base64.encode wrappedIv }

/-- Redeem the proof and rotate the credential and the account key's wrap. -/
def finish (o : Opaque) (now : Nat) (auth : AuthUser) (req : PasswordChangeFinishRequest) :
    Request Unit := do
  let sessionId ← Proof.requireRecentSession o now auth passwordChangeMaxSessionAgeSecs
  let upload ← decodeOpaque req.registrationRecord "registrationRecord"
  let record ← okOr (.badRequest "invalid registrationRecord") (o.registrationFinish upload)
  let wrapped ← Recovery.decodeB64 req.wrappedAccountKey "wrappedAccountKey"
  let wrappedIv ← Recovery.decodeB64 req.wrappedAccountKeyIv "wrappedAccountKeyIv"
  let tag ← Proof.verifyPasswordProof o now auth
    { proofId := req.changeId, finishLoginRequest := req.finishLoginRequest } .passwordChange
  DbRecovery.rotateMasterPassword tag (.session sessionId) auth.userId
    { credential := .opaqueRecord record, protectedSymmetricKey := none
      protectedPrivateKey := none, wrappedAccountKey := some (wrapped, wrappedIv)
      recoveryKit := none, reencryptedItems := none }

end Password

section Users

/-- The row of an account. -/
def userOf (userId : Uuid) (d : Db) : Option User := d.users.find? fun u => u.id = userId

variable {d d' : Db} {userId : Uuid}

/-- The row of an account has its id. -/
theorem id_of_mem_userOf {u : User} (h : u ∈ userOf userId d) : u.id = userId := by
  simpa using List.find?_some (Option.mem_def.mp h)

/-- Changing rows that keep their ids changes the row of each account. -/
theorem userOf_edit (keys : List RowId) {f : User → User} (hf : ∀ u, (f u).id = u.id)
    (userId : Uuid) (d : Db) :
    userOf userId (Tables.users.edit keys f d) =
      (userOf userId d).map fun u => if RowId.user userId ∈ keys then f u else u := by
  have hid : ∀ u : User, (if RowId.user u.id ∈ keys then f u else u).id = u.id := by
    intro u
    split
    · exact hf u
    · rfl
  have hfind : userOf userId (Tables.users.edit keys f d) =
      (userOf userId d).map fun u => if RowId.user u.id ∈ keys then f u else u := by
    refine (List.find?_map ..).trans (congrArg (Option.map _) (congrArg (List.find? · _) ?_))
    funext u
    exact congrArg (fun id => decide (id = userId)) (hid u)
  rw [hfind]
  refine Option.map_congr fun u hu => ?_
  rw [id_of_mem_userOf hu]

/-- The row of an account depends on the accounts alone. -/
theorem userOf_congr (h : d'.users = d.users) (userId : Uuid) :
    userOf userId d' = userOf userId d := by
  rw [userOf, h, userOf]

/-- Changing the row of one account changes no other. -/
theorem userOf_editOne {keys : List RowId} {f : User → User} (hf : ∀ u, (f u).id = u.id)
    (hin : userOf userId d ≠ none → RowId.user userId ∈ keys)
    (hout : ∀ v, RowId.user v ∈ keys → v = userId) (v : Uuid) :
    userOf v (Tables.users.edit keys f d) =
      if v = userId then (userOf v d).map f else userOf v d := by
  rw [userOf_edit _ hf]
  by_cases hv : v = userId
  · subst hv
    rw [if_pos rfl]
    refine Option.map_congr fun u hu => if_pos (hin ?_)
    rw [hu]
    exact Option.some_ne_none u
  · have hfree : RowId.user v ∉ keys := fun hk => hv (hout v hk)
    rw [if_neg hv]
    simp only [hfree, if_false, Option.map_id']

/-- A statement on one account changes no other. -/
theorem eq_of_user_mem_hits {s n : Db} {v : Uuid}
    (h : RowId.user v ∈ (Tables.users.hits (DbAuth.isUser userId) s n).map Tables.users.key) :
    v = userId := by
  obtain ⟨u, hu, hkey⟩ := List.mem_map.mp h
  have hid := of_decide_eq_true ((Tables.users.mem_hits).mp hu).2.2
  exact (RowId.user.inj hkey).symm.trans hid

/-- A statement on an account finds its row. -/
theorem user_mem_hits {s n : Db} (hs : userOf userId s ≠ none) (hn : userOf userId n ≠ none) :
    RowId.user userId ∈
      (Tables.users.hits (DbAuth.isUser userId) s n).map Tables.users.key := by
  obtain ⟨u₀, hu₀⟩ := Option.ne_none_iff_exists'.mp hs
  obtain ⟨u, hu⟩ := Option.ne_none_iff_exists'.mp hn
  have hid₀ := id_of_mem_userOf hu₀
  have hid := id_of_mem_userOf hu
  refine List.mem_map.mpr ⟨u, (Tables.users.mem_hits).mpr ⟨List.mem_of_find?_eq_some hu, ?_, ?_⟩, ?_⟩
  · exact ⟨u₀, List.mem_of_find?_eq_some hu₀, decide_eq_true hid₀,
      congrArg RowId.user (hid₀.trans hid.symm)⟩
  · exact decide_eq_true hid
  · exact congrArg RowId.user hid

/-- What the update of a rotation does to each account. -/
theorem userOf_rotated {f : User → User} (hf : ∀ u, (f u).id = u.id) {s n : Db}
    (hs : userOf userId s = userOf userId d) (hn : userOf userId n = userOf userId d) (v : Uuid) :
    userOf v (Tables.users.edit
        ((Tables.users.hits (DbAuth.isUser userId) s n).map Tables.users.key) f d) =
      if v = userId then (userOf v d).map f else userOf v d := by
  refine userOf_editOne hf (fun hd => user_mem_hits ?_ ?_) (fun v => eq_of_user_mem_hits) v
  · rwa [hs]
  · rwa [hn]

end Users

section Leaves

variable {V : Type} {view : Db → V}

/-- Swapping in items leaves what does not show them. -/
theorem leaves_swapItems (h : Tables.vaultItems.Hidden view) (userId : Uuid)
    (items : List DbRecovery.ReencryptedItemRow) :
    Spec.Leaves view (DbRecovery.swapItems userId items) := by
  induction items with
  | nil => trivial
  | cons item rest ih =>
    refine (h.leaves_update _ _).bind fun rows => ?_
    split
    · exact ⟨_, rfl⟩
    · exact ih

/-- Re-encrypting items leaves what does not show them. -/
theorem leaves_reencryptItems (h : Tables.vaultItems.Hidden view) (userId : Uuid)
    (items : Option (List DbRecovery.ReencryptedItemRow)) :
    Spec.Leaves view (DbRecovery.reencryptItems userId items) := by
  cases items with
  | none => trivial
  | some items =>
    refine (leaves_swapItems h userId items).bind fun _ d => ?_
    change Spec.Leaves view (if _ then _ else _)
    split
    · exact ⟨_, rfl⟩
    · trivial

/-- Consuming a recovery token leaves what does not show tokens. -/
theorem leaves_consumeToken (h : Tables.pendingRecoverySessions.Hidden view)
    (authority : DbRecovery.RotationAuthority) :
    Spec.Leaves view (DbRecovery.consumeToken authority) := by
  cases authority with
  | session id => trivial
  | recoveryToken token =>
    refine h.leaves_delete.bind fun consumed => ?_
    split
    · exact ⟨_, rfl⟩
    · trivial

/-- Dropping handshakes leaves what does not show them. -/
theorem leaves_dropPendingLogins (h : Tables.pendingOpaqueLogins.Hidden view)
    (h' : Tables.pendingSrpSessions.Hidden view) (userId : Uuid) :
    Spec.Leaves view (DbAuth.dropPendingLogins userId) :=
  h.leaves_delete.bind fun _ => h'.leaves_delete.bind fun _ => trivial

end Leaves

section AccountLock

variable {S : Spec Db RowId Tag ApiError} {L : List (RowId × LockMode)} {d d' : Db}
  {userId : Uuid}

/-- An account that is absent stays so when nothing happens. -/
theorem userOf_absent_refl (d : Db) : ∀ userId, userOf userId d = none → userOf userId d = none :=
  fun _ h => h

/-- An account that stays absent over two steps stays so over both. -/
theorem userOf_absent_trans {d d₁ d' : Db}
    (h : ∀ userId, userOf userId d = none → userOf userId d₁ = none)
    (h' : ∀ userId, userOf userId d₁ = none → userOf userId d' = none) :
    ∀ userId, userOf userId d = none → userOf userId d' = none :=
  fun userId hu => h' userId (h userId hu)

/-- The row of an account stays for the holder of its lock for update, and none appears later. -/
structure LocksAccounts (S : Spec Db RowId Tag ApiError) : Prop where
  row : ∀ {userId d d'}, S.keeps (.user userId) .update d d' → userOf userId d' = userOf userId d
  absent : ∀ {userId d d'}, S.guar d d' → userOf userId d = none → userOf userId d' = none

/-- Labels play no part in what locks keep. -/
theorem LocksAccounts.comap (h : LocksAccounts S) (label : Tag → Tag) :
    LocksAccounts (S.comap label) :=
  ⟨h.row, h.absent⟩

/-- The account's row is locked for update, or there is no such account. -/
def Held (userId : Uuid) (L : List (RowId × LockMode)) (d : Db) : Prop :=
  (RowId.user userId, LockMode.update) ∈ L ∨ userOf userId d = none

/-- More locks hold it too. -/
theorem Held.mono {L' : List (RowId × LockMode)} (h : Held userId L d) (hL : ∀ l ∈ L, l ∈ L') :
    Held userId L' d :=
  h.imp_left (hL _)

/-- The row of a held account stays. -/
theorem LocksAccounts.userOf_eq (hS : LocksAccounts S) (h : Held userId L d)
    (hr : S.Rely L d d') : userOf userId d' = userOf userId d := by
  rcases h with hl | hn
  · exact hS.row (hr.keeps _ hl)
  · rw [hn]
    exact hS.absent hr.guar hn

/-- A held account stays held. -/
theorem LocksAccounts.held (hS : LocksAccounts S) {L' : List (RowId × LockMode)}
    (h : Held userId L d) (hr : S.Rely L d d') (hL : ∀ l ∈ L, l ∈ L') : Held userId L' d' := by
  rcases h with hl | hn
  · exact Or.inl (hL _ hl)
  · exact Or.inr (hS.absent hr.guar hn)

/-- The locking read of a rotation holds the account. -/
theorem LocksAccounts.held_of_locked (hS : LocksAccounts S) {s n : Db} (hr : S.Rely [] s n) :
    Held userId (Tables.users.locked (DbAuth.isUser userId) .update s n) n := by
  by_cases hn : userOf userId n = none
  · exact Or.inr hn
  · left
    have hs : userOf userId s ≠ none := fun hs => hn (hS.absent hr.guar hs)
    obtain ⟨u, hu, hkey⟩ := List.mem_map.mp (user_mem_hits hs hn)
    have hlock := Tables.users.locked_of_mem_hits hu .update
    rwa [hkey] at hlock

end AccountLock

section Items

variable {S : Spec Db RowId Tag ApiError} {L : List (RowId × LockMode)} {w : Db → Db} {d d' : Db}
  {userId : Uuid} {items : List DbRecovery.ReencryptedItemRow}

/-- The row of an item of the account. -/
def swapKey (userId : Uuid) (item : DbRecovery.ReencryptedItemRow) : RowId :=
  .vaultItem userId item.id

/-- What swapping in items makes of each item. -/
structure Swaps (userId : Uuid) (items : List DbRecovery.ReencryptedItemRow)
    (g : VaultItem → VaultItem) : Prop where
  key : ∀ i, Tables.vaultItems.key (g i) = Tables.vaultItems.key i
  same : ∀ i, Tables.vaultItems.key i ∉ items.map (swapKey userId) → g i = i
  swapped : ∀ i, Tables.vaultItems.key i ∈ items.map (swapKey userId) → i.version < (g i).version ∧
    ∃ item ∈ items, swapKey userId item = Tables.vaultItems.key i ∧ (g i).blob = item.blob ∧
      (g i).blobIv = item.blobIv ∧ (g i).blobMac = item.blobMac

/-- One item, then the others. -/
theorem Swaps.cons {item : DbRecovery.ReencryptedItemRow} {g : VaultItem → VaultItem}
    (h : Swaps userId items g) {keys : List RowId} (hkeys : ∀ k, k ∈ keys ↔ k = swapKey userId item) :
    Swaps userId (item :: items)
      (fun i => g (if Tables.vaultItems.key i ∈ keys then item.reencrypt i else i)) := by
  refine ⟨fun i => ?_, fun i hi => ?_, fun i hi => ?_⟩
  · rw [h.key]
    split
    · rfl
    · rfl
  · rw [List.map_cons, List.mem_cons, not_or] at hi
    rw [if_neg (fun hk => hi.1 ((hkeys _).mp hk))]
    exact h.same i hi.2
  · by_cases hk : Tables.vaultItems.key i ∈ keys
    · rw [if_pos hk]
      by_cases hrest : Tables.vaultItems.key i ∈ items.map (swapKey userId)
      · obtain ⟨hv, item', hitem', hk', hblob⟩ := h.swapped (item.reencrypt i) hrest
        refine ⟨(Int.lt_succ i.version).trans hv, item', List.mem_cons_of_mem _ hitem', hk', hblob⟩
      · rw [h.same (item.reencrypt i) hrest]
        exact ⟨Int.lt_succ i.version, item, List.mem_cons_self, ((hkeys _).mp hk).symm, rfl, rfl, rfl⟩
    · rw [if_neg hk]
      rw [List.map_cons, List.mem_cons] at hi
      obtain ⟨hv, item', hitem', hk', hblob⟩ :=
        h.swapped i (hi.resolve_left fun heq => hk ((hkeys _).mpr heq))
      exact ⟨hv, item', List.mem_cons_of_mem _ hitem', hk', hblob⟩

/-- A statement on an item hits its row alone. -/
theorem mem_hits_item {s n : Db} {id : Uuid} {k : RowId}
    (hk : k ∈ (Tables.vaultItems.hits
      (fun _ i => decide (i.id = id) && decide (i.userId = userId)) s n).map Tables.vaultItems.key) :
    k = .vaultItem userId id := by
  obtain ⟨i, hi, rfl⟩ := List.mem_map.mp hk
  have hcond := ((Tables.vaultItems.mem_hits).mp hi).2.2
  rw [Bool.and_eq_true, decide_eq_true_eq, decide_eq_true_eq] at hcond
  rw [← hcond.1, ← hcond.2]
  rfl

/-- Swapping in items, each of which was there at some time, under the locks of their rows. -/
theorem swapItems_wp (hn : ∀ e, ¬ S.never e)
    (hw : ∀ x, (w x).vaultItems.map Tables.vaultItems.key = x.vaultItems.map Tables.vaultItems.key)
    (hi : S.inv d) :
    S.wp (fun _ L' w' d' => (∀ l ∈ L, l ∈ L') ∧ S.Rely L d d' ∧ ∃ g, Swaps userId items g ∧
        (∀ x, (w' x).users = (w x).users ∧ (w' x).vaultItems = (w x).vaultItems.map g) ∧
        ∀ item ∈ items, (swapKey userId item, LockMode.noKeyUpdate) ∈ L' ∧
          ∃ n, S.guar n d' ∧ swapKey userId item ∈ n.vaultItems.map Tables.vaultItems.key)
      (DbRecovery.swapItems userId items) L w d := by
  induction items generalizing L w d with
  | nil =>
    refine fun d₁ h₁ => ⟨fun _ hl => hl, h₁, id, ⟨fun _ => rfl, fun _ _ => rfl, nofun⟩,
      fun x => ⟨rfl, (List.map_id _).symm⟩, nofun⟩
  | cons item rest ih =>
    refine Table.wp_update_bind fun s hs n hn' _ => ?_
    split
    · exact fun _ _ => wp_refuse (hn _)
    · rename_i hne
      let keys := (Tables.vaultItems.hits (fun _ i => decide (i.id = item.id) &&
        decide (i.userId = userId)) (w s) (w n)).map Tables.vaultItems.key
      obtain ⟨row, hrow⟩ := List.exists_mem_of_ne_nil _ fun h => hne (List.isEmpty_iff.mpr h)
      have hkey : Tables.vaultItems.key row = swapKey userId item :=
        mem_hits_item (List.mem_map_of_mem hrow)
      have hkeys : ∀ k, k ∈ keys ↔ k = swapKey userId item := by
        intro k
        refine ⟨mem_hits_item, fun hk => ?_⟩
        rw [hk, ← hkey]
        exact List.mem_map_of_mem hrow
      have hw' : ∀ x, ((Tables.vaultItems.edit keys item.reencrypt ∘ w) x).vaultItems.map
          Tables.vaultItems.key = x.vaultItems.map Tables.vaultItems.key := by
        intro x
        rw [← hw x]
        exact Tables.vaultItems.map_key_edit fun _ => rfl
      refine Spec.wp_mono ?_ (ih hw' hn'.inv)
      rintro _ L' w' d' ⟨hL, hr, g, hg, hwg, hlocked⟩
      refine ⟨fun l hl => hL l (List.mem_append_left _ hl), (hs.trans hn').trans hr.of_append, _,
        hg.cons hkeys, fun x => ?_, fun item' hitem' => ?_⟩
      · obtain ⟨husers, hitems⟩ := hwg x
        refine ⟨husers, hitems.trans ?_⟩
        exact List.map_map ..
      · rcases List.mem_cons.mp hitem' with rfl | hitem'
        · have hlock := Tables.vaultItems.locked_of_mem_hits hrow .noKeyUpdate
          rw [hkey] at hlock
          refine ⟨hL _ (List.mem_append_right _ (List.mem_append_left _ hlock)), n, hr.guar, ?_⟩
          rw [← hw n, ← hkey]
          exact List.mem_map_of_mem ((Tables.vaultItems.mem_hits).mp hrow).1
        · exact hlocked item' hitem'

/-- What a transaction has made of the items of an account: all that were there when it counted
them are swapped, under the locks of their rows. -/
structure Reencrypts (S : Spec Db RowId Tag ApiError) (userId : Uuid)
    (items : List DbRecovery.ReencryptedItemRow) (L L' : List (RowId × LockMode)) (d d' : Db)
    (g : VaultItem → VaultItem) : Prop where
  swaps : Swaps userId items g
  locked : ∀ item ∈ items, (swapKey userId item, LockMode.noKeyUpdate) ∈ L'
  counted : ∃ d₁, S.Rely L d d₁ ∧ S.Rely L d₁ d' ∧
    (DbRecovery.itemsOf userId d₁).length = items.length ∧
      ∀ item ∈ items, ∃ n, S.guar n d₁ ∧
        swapKey userId item ∈ n.vaultItems.map Tables.vaultItems.key

/-- Later the same items are swapped, under the same locks. -/
theorem Reencrypts.rely {L' L'' : List (RowId × LockMode)} {d'' : Db} {g : VaultItem → VaultItem}
    (h : Reencrypts S userId items L L' d d' g) (hr : S.Rely L d' d'') (hL : ∀ l ∈ L', l ∈ L'') :
    Reencrypts S userId items L L'' d d'' g := by
  obtain ⟨d₁, hd₁, hd', hcount, hthere⟩ := h.counted
  exact ⟨h.swaps, fun item hitem => hL _ (h.locked item hitem),
    d₁, hd₁, hd'.trans hr, hcount, hthere⟩

/-- The items of an account, swapped. -/
theorem itemsOf_map {g : VaultItem → VaultItem} (hg : Swaps userId items g)
    (h : d'.vaultItems = d.vaultItems.map g) :
    DbRecovery.itemsOf userId d' = (DbRecovery.itemsOf userId d).map g := by
  have howner : (fun i : VaultItem => decide (i.userId = userId)) ∘ g =
      fun i => decide (i.userId = userId) := by
    funext i
    have hu : (g i).userId = i.userId := (RowId.vaultItem.inj (hg.key i)).1
    rw [Function.comp_apply, hu]
  rw [DbRecovery.itemsOf, h, List.filter_map, howner, DbRecovery.itemsOf]

/-- Re-encrypting all items of an account. -/
theorem DbRecovery.reencryptItems_wp (hn : ∀ e, ¬ S.never e) (hw : ∀ x, (w x).vaultItems = x.vaultItems)
    (hi : S.inv d) :
    S.wp (fun _ L' w' d' => (∀ l ∈ L, l ∈ L') ∧ S.Rely L d d' ∧ ∃ g,
        Reencrypts S userId items L L' d d' g ∧
        ∀ x, (w' x).users = (w x).users ∧ (w' x).vaultItems = x.vaultItems.map g)
      (DbRecovery.reencryptItems userId (some items)) L w d := by
  have hkeys : ∀ x, (w x).vaultItems.map Tables.vaultItems.key =
      x.vaultItems.map Tables.vaultItems.key := fun x => congrArg _ (hw x)
  refine Spec.wp_bind hi (Spec.wp_mono ?_ (swapItems_wp hn hkeys hi))
  rintro _ L₁ w₁ d₁ ⟨hL₁, hr₁, g, hg, hwg, hlocked⟩ hi₁
  have hitems : ∀ x, (w₁ x).vaultItems = x.vaultItems.map g := by
    intro x
    rw [(hwg x).2, hw]
  refine Spec.wp_read_bind fun d₂ h₂ => ?_
  split
  · exact fun _ _ => wp_refuse (hn _)
  · rename_i hcount
    intro d₃ h₃
    rw [not_not, itemsOf_map hg (hitems d₂), List.length_map] at hcount
    refine ⟨hL₁, hr₁.trans ((h₂.trans h₃).mono hL₁), g,
      ⟨hg, fun item hitem => (hlocked item hitem).1, d₂, hr₁.trans (h₂.mono hL₁), h₃.mono hL₁,
        hcount, fun item hitem => ?_⟩, fun x => ⟨(hwg x).1, hitems x⟩⟩
    obtain ⟨-, n, hguar, hthere⟩ := hlocked item hitem
    exact ⟨n, S.guar_trans hguar h₂.guar, hthere⟩

/-- A rotation with re-encrypted items, about to commit: the database `d` becomes `d'`. -/
structure Rotates (S : Spec Db RowId Tag ApiError) (userId : Uuid) (f : User → User)
    (items : List DbRecovery.ReencryptedItemRow) (L : List (RowId × LockMode)) (d d' : Db) :
    Prop where
  /-- The account's row, held, and no other is changed. -/
  held : Held userId L d
  users : ∀ v, userOf v d' = if v = userId then (userOf v d).map f else userOf v d
  /-- All items of the account are swapped. -/
  items : ∃ g, d'.vaultItems = d.vaultItems.map g ∧ ∃ L₀ d₀, Held userId L₀ d₀ ∧
    Reencrypts S userId items L₀ L d₀ d g

/-- Labels play no part in what a rotation does. -/
theorem Rotates.of_comap {label : Tag → Tag} {f : User → User}
    (h : Rotates (S.comap label) userId f items L d d') : Rotates S userId f items L d d' := by
  obtain ⟨g, hg, L₀, d₀, hheld, hre⟩ := h.items
  obtain ⟨d₁, h₁, h₂, hcount, hthere⟩ := hre.counted
  exact ⟨h.held, h.users, g, hg, L₀, d₀, hheld, hre.swaps, hre.locked,
    d₁, Spec.rely_comap.mp h₁, Spec.rely_comap.mp h₂, hcount, hthere⟩

/-- Rule for a rotation that re-encrypts items. -/
theorem wp_rotateMasterPassword {tag : Tag} {authority : DbRecovery.RotationAuthority}
    {rotation : DbRecovery.PasswordRotation} (hS : LocksAccounts S) (hn : ∀ e, ¬ S.never e)
    (hitems : rotation.reencryptedItems = some items)
    (h : ∀ L d d', S.inv d → S.allow tag d →
      Rotates S userId (rotation.rotated authority.keepSession) items L d d' →
        S.Owes L tag d d') :
    S.wp (fun _ _ _ _ => True) (DbRecovery.rotateMasterPassword tag authority userId rotation)
      [] id d := by
  refine Table.wp_selectFor_bind fun s₀ hs₀ n₀ hn₀ => ?_
  have hheld₀ : Held userId _ n₀ := hS.held_of_locked hn₀
  let view (d : Db) : List User × List VaultItem := (d.users, d.vaultItems)
  have htoken : Spec.Leaves view (DbRecovery.consumeToken authority) :=
    leaves_consumeToken (fun _ _ => rfl) authority
  refine Spec.wp_bind hn₀.inv (Spec.wp_mono ?_ (Spec.wp_leaves htoken hn))
  rintro _ L₁ w₁ d₁ ⟨hL₁, hw₁, hr₁⟩ hi₁
  have hheld₁ := hS.held hheld₀ hr₁ hL₁
  refine Table.wp_update_bind fun s₂ hs₂ n₂ hn₂ _ => ?_
  have hheld₂ : Held userId L₁ n₂ :=
    hS.held (hS.held hheld₁ hs₂ fun _ hl => hl) hn₂ fun _ hl => hl
  rw [hitems]
  refine Spec.wp_bind hn₂.inv (Spec.wp_mono ?_
    (DbRecovery.reencryptItems_wp hn (fun x => congrArg (·.2) (hw₁ x)) hn₂.inv))
  rintro _ L₃ w₃ d₃ ⟨hL₃, hr₃, g, hg, hw₃⟩ hi₃
  have hlogins : Spec.Leaves view (DbAuth.dropPendingLogins userId) :=
    leaves_dropPendingLogins (fun _ _ => rfl) (fun _ _ => rfl) userId
  refine Spec.wp_bind hi₃ (Spec.wp_mono ?_ (Spec.wp_leaves hlogins hn))
  rintro _ L₄ w₄ d₄ ⟨hL₄, hw₄, hr₄⟩ hi₄
  refine Table.wp_delete_bind fun s₅ hs₅ n₅ hn₅ => ?_
  refine Table.wp_delete_bind fun s₆ hs₆ n₆ hn₆ d₇ h₇ ha => ⟨?_, fun _ _ => trivial⟩
  have h₄₇ : S.Rely L₄ d₄ d₇ := (hs₅.trans hn₅).trans
    (hs₆.of_append.trans (hn₆.of_append.trans h₇.of_append.of_append))
  have h₃₇ : S.Rely L₃ d₃ d₇ := hr₄.trans (h₄₇.mono hL₄)
  have h₂₇ : S.Rely L₁ n₂ d₇ := (hr₃.trans (h₃₇.mono hL₃)).of_append
  refine h _ d₇ _ h₇.inv ha ⟨?_, fun v => ?_, g, ?_, _, n₂, ?_,
    hg.rely (h₃₇.mono hL₃) fun l hl => ?_⟩
  · refine (hS.held hheld₂ h₂₇ fun _ hl => hl).mono fun l hl => ?_
    simp [hL₄ l (hL₃ l (List.mem_append_left _ hl))]
  · have hw : ∀ x v, userOf v (w₁ x) = userOf v x :=
      fun x v => userOf_congr (congrArg (·.1) (hw₁ x)) v
    have hin : userOf userId (w₁ d₇) ≠ none → RowId.user userId ∈
        (Tables.users.hits (DbAuth.isUser userId) (w₁ s₂) (w₁ n₂)).map Tables.users.key := by
      rw [hw]
      intro hne
      have hn : userOf userId n₂ ≠ none := fun hn => hne (hS.absent h₂₇.guar hn)
      have hs : userOf userId s₂ ≠ none := fun hs => hn (hS.absent hn₂.guar hs)
      apply user_mem_hits
      · rwa [hw]
      · rwa [hw]
    have hedit := userOf_editOne (f := rotation.rotated authority.keepSession) (fun _ => rfl) hin
      (fun v => eq_of_user_mem_hits) v
    rw [hw] at hedit
    have husers := (congrArg (·.1) (hw₄ d₇)).trans (hw₃ d₇).1
    exact (userOf_congr husers v).trans hedit
  · exact (congrArg (·.2) (hw₄ d₇)).trans (hw₃ d₇).2
  · exact hheld₂.mono fun _ hl => List.mem_append_left _ hl
  · simp [hL₄ l hl]

end Items

end Nopass
