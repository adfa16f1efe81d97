import Nopass.Server.Recovery

/-!
# Recovery tokens and the kit that issued them

A recovery starts with the key of the account's kit and gets a token; the token completes
it. Replacing or disabling the kit, and every rotation of the password, delete the
account's tokens. A token that is stored after the kit was replaced, or between the
deletion and the commit that replaces it, outlives its kit. When none is, every recovery
that commits is authorized by a token of the account's kit.
-/

namespace Nopass

open ReadCommitted

namespace DbPending

/-- `insert_recovery`. -/
def insertRecovery (p : PendingRecoverySession) (atCheck : Option Bytes) : Request Unit :=
  autocommit (Tables.pendingRecoverySessions.insert p [userRef p.userId]) fun _ =>
    .issued p atCheck

end DbPending

namespace DbRecovery

/-- The account with a kit, or without one. -/
def withKit (kit : Option NewRecoveryKit) (u : User) : User :=
  { u with
    recoveryAuthHash := kit.map (·.authHash)
    recoveryBlob := kit.map (·.blob)
    recoveryBlobIv := kit.map (·.blobIv) }

/-- Replace the kit and delete the tokens of the old one, in one transaction. -/
def replaceKit (userId : Uuid) (kit : Option NewRecoveryKit) : Request Unit := do
  let _ ← Tables.users.update (DbAuth.isUser userId) (withKit kit)
  let dropped ← Tables.pendingRecoverySessions.delete fun _ p => p.userId = userId
  .commit (.replacedKit userId (dropped.map (·.token))) (.ret ())

/-- `set_recovery`. -/
def setRecovery (userId : Uuid) (authHash blob blobIv : Bytes) : Request Unit :=
  replaceKit userId (some { authHash := authHash, blob := blob, blobIv := blobIv })

/-- `clear_recovery`. -/
def clearRecovery (userId : Uuid) : Request Unit := replaceKit userId none

end DbRecovery

/-- The kind of a text. -/
def VaultItemType.parse (text : String) : Option VaultItemType :=
  if text = "login" then some .login
  else if text = "note" then some .note
  else if text = "card" then some .card
  else if text = "identity" then some .identity
  else if text = "ssh_key" then some .sshKey
  else none

/-- Every kind is read back from its text. -/
@[simp] theorem VaultItemType.parse_text (itemType : VaultItemType) :
    VaultItemType.parse itemType.text = some itemType := by
  cases itemType <;> decide

namespace Recovery

/-- `ct_eq`: equality that looks at every byte. -/
def ctEq (a b : Bytes) : Bool :=
  if a.length ≠ b.length then false
  else (a.zip b).foldl (fun acc (x, y) => acc ||| (x ^^^ y)) 0 == 0

/-- An accumulated difference is zero exactly when it was and no bytes differ. -/
theorem foldl_xor_eq_zero {a b : Bytes} (hlen : a.length = b.length) (acc : UInt8) :
    (a.zip b).foldl (fun acc (x, y) => acc ||| (x ^^^ y)) acc = 0 ↔ acc = 0 ∧ a = b := by
  induction a generalizing b acc with
  | nil =>
    cases b with
    | nil => simp
    | cons y b => simp at hlen
  | cons x a ih =>
    cases b with
    | nil => simp at hlen
    | cons y b =>
      rw [List.zip_cons_cons, List.foldl_cons, ih (Nat.succ.inj hlen)]
      rw [UInt8.or_eq_zero_iff, UInt8.xor_eq_zero_iff, List.cons.injEq, and_assoc]

/-- The comparison is equality. -/
@[simp] theorem ctEq_iff (a b : Bytes) : ctEq a b = true ↔ a = b := by
  unfold ctEq
  by_cases hlen : a.length = b.length
  · rw [if_neg (not_not_intro hlen), beq_iff_eq, foldl_xor_eq_zero hlen]
    simp
  · rw [if_pos hlen]
    constructor
    · intro h
      cases h
    · rintro rfl
      exact (hlen rfl).elim

/-- An item as the API serves it. -/
structure EncryptedVaultItem where
  id : Uuid
  vaultId : Uuid
  userId : Uuid
  itemType : VaultItemType
  blob : String
  blobIv : String
  blobMac : String
  version : Int
  deletedAt : Option Nat

/-- `parse_item_type`. -/
def parseItemType (text : String) : Request VaultItemType :=
  okOr (.badRequest ("unknown item type: " ++ text)) (VaultItemType.parse text)

/-- One item for the wire. -/
def encodeItem (item : VaultItem) : Request EncryptedVaultItem := do
  let itemType ← parseItemType item.itemType
  pure
    { id := item.id, vaultId := item.vaultId, userId := item.userId, itemType := itemType
      blob := Base64.encode item.blob, blobIv := Base64.encode item.blobIv
      blobMac := Base64.encode item.blobMac, version := item.version, deletedAt := item.deletedAt }

/-- All of them, or the first refusal. -/
def encodeItems : List VaultItem → Request (List EncryptedVaultItem)
  | [] => pure []
  | item :: rest => do
    let encoded ← encodeItem item
    let others ← encodeItems rest
    pure (encoded :: others)

/-- `encode_all_items`. -/
def encodeAllItems (userId : Uuid) : Request (List EncryptedVaultItem) := do
  let items ← DbRecovery.listAllItemsForUser userId
  encodeItems items

@[simp] theorem reads_encodeItem (item : VaultItem) : (encodeItem item).Reads :=
  (reads_okOr _ _).bind fun _ => trivial

@[simp] theorem reads_encodeItems (items : List VaultItem) : (encodeItems items).Reads := by
  induction items with
  | nil => trivial
  | cons item rest ih =>
    exact (reads_encodeItem item).bind fun _ => ih.bind fun _ => trivial

@[simp] theorem reads_encodeAllItems (userId : Uuid) : (encodeAllItems userId).Reads :=
  (DbRecovery.reads_listAllItemsForUser userId).bind fun items => reads_encodeItems items

/-- The refusal of a recovery code: the same for an unknown email, no kit and a wrong code. -/
def invalidCode : ApiError := .unauthorized "invalid recovery code"

/-- The answer of `recovery/init`. -/
structure RecoveryInitResponse where
  recoveryToken : Uuid
  recoveryBlob : String
  recoveryBlobIv : String
  protectedPrivateKey : Option String
  protectedPrivateKeyIv : Option String
  items : List EncryptedVaultItem

/-- `recovery/init`: check the kit's key, serve the kit and the items, store a token. -/
def recoveryInit (o : Opaque) (config : Config) (fresh : Fresh) (emailHash recoveryAuthKey : String) :
    Request RecoveryInitResponse := do
  let authKey ← decodeB64 recoveryAuthKey "recovery_auth_key"
  let emailHash ← parseEmailHash emailHash
  let user ← okOr invalidCode (← DbAuth.findUser (config.accountKey emailHash) emailHash)
  let storedHash ← okOr invalidCode user.recoveryAuthHash
  require (ctEq storedHash (o.hashAuthKey authKey)) invalidCode
  let noBlob := ApiError.internal "recovery kit missing blob"
  let blob ← okOr noBlob user.recoveryBlob
  let blobIv ← okOr noBlob user.recoveryBlobIv
  let items ← encodeAllItems user.id
  DbPending.insertRecovery
    { token := fresh.id, userId := user.id, createdAt := fresh.now, kit := o.hashAuthKey authKey }
    user.recoveryAuthHash
  pure
    { recoveryToken := fresh.id, recoveryBlob := Base64.encode blob
      recoveryBlobIv := Base64.encode blobIv, protectedPrivateKey := user.protectedPrivateKey
      protectedPrivateKeyIv := user.protectedPrivateKeyIv, items := items }

/-- Body of a new kit. -/
structure SetRecoveryRequest where
  recoveryAuthKey : String
  recoveryBlob : String
  recoveryBlobIv : String

/-- `PUT recovery`. -/
def setRecovery (o : Opaque) (auth : AuthUser) (req : SetRecoveryRequest) : Request Unit := do
  let authKey ← decodeB64 req.recoveryAuthKey "recovery_auth_key"
  let blob ← decodeB64 req.recoveryBlob "recovery_blob"
  let blobIv ← decodeB64 req.recoveryBlobIv "recovery_blob_iv"
  require (decide (authKey.length = 32)) (.badRequest "recovery_auth_key must be 32 bytes")
  DbRecovery.setRecovery auth.userId (o.hashAuthKey authKey) blob blobIv

/-- `DELETE recovery`. -/
def disable (auth : AuthUser) : Request Unit := DbRecovery.clearRecovery auth.userId

end Recovery

/-- Requests on the recovery of accounts, and the password change. -/
inductive RecoveryRequest where
  | init (fresh : Fresh) (emailHash recoveryAuthKey : String)
  | setRecovery (auth : AuthUser) (req : Recovery.SetRecoveryRequest)
  | disable (auth : AuthUser)
  | complete (now : Nat) (req : Recovery.RecoveryCompleteRequest)
  | passwordFinish (now : Nat) (auth : AuthUser) (req : Password.PasswordChangeFinishRequest)

/-- The program of a request. -/
def RecoveryRequest.run (o : Opaque) (config : Config) : RecoveryRequest → Request Unit
  | .init fresh emailHash recoveryAuthKey => do
    let _ ← Recovery.recoveryInit o config fresh emailHash recoveryAuthKey
  | .setRecovery auth req => Recovery.setRecovery o auth req
  | .disable auth => Recovery.disable auth
  | .complete now req => Recovery.recoveryComplete o now req
  | .passwordFinish now auth req => Password.finish o now auth req

/-- The token that a request stores. -/
def RecoveryRequest.token : RecoveryRequest → Option Uuid
  | .init fresh _ _ => some fresh.id
  | _ => none

/-- The hash of the key of the account's kit. -/
def kitOf (userId : Uuid) (d : Db) : Option Bytes := (userOf userId d).bind (·.recoveryAuthHash)

/-- Every token was issued by the kit that its account has. -/
def KitsCurrent (d : Db) : Prop :=
  ∀ p ∈ d.pendingRecoverySessions, kitOf p.userId d = some p.kit

/-- A token is stored while the account's kit is still the one that was checked, and no token of
the account is stored between the deletion and the commit of a replacement of its kit. -/
def RevokedInTime : Tag → Db → Prop
  | .issued p atCheck, d => kitOf p.userId d = atCheck
  | .replacedKit userId dropped, d =>
      ∀ p ∈ d.pendingRecoverySessions, p.userId = userId → p.token ∈ dropped
  | _, _ => True

instance : ∀ tag d, Decidable (RevokedInTime tag d)
  | .issued p atCheck, d => inferInstanceAs (Decidable (kitOf p.userId d = atCheck))
  | .replacedKit userId dropped, d => inferInstanceAs (Decidable
      (∀ p ∈ d.pendingRecoverySessions, p.userId = userId → p.token ∈ dropped))
  | .plain, _ | .rewrap _ _, _ | .handshake _ _, _ | .deleteVault _ _, _ | .authorized _ _ _, _ |
    .consumed _, _ | .wrote _ _ _, _ | .rekeyed _ _, _ | .reencrypted _, _ |
    .published _, _ | .organized _, _ | .owned _ _, _ | .accepted _, _ =>
      inferInstanceAs (Decidable True)

/-- A commit authorized by the token of a recovery found it, issued by the account's kit, and
leaves no token of the account. -/
def Recovers (d d' : Db) (p : PendingRecoverySession) : Prop :=
  p ∈ d.pendingRecoverySessions ∧ kitOf p.userId d = some p.kit ∧
    ∀ p' ∈ d'.pendingRecoverySessions, p'.token ≠ p.token ∧ p'.userId ≠ p.userId

/-- What a commit does to tokens. -/
structure TokenStep (tag : Tag) (d d' : Db) : Prop where
  /-- A token appears when it is issued. -/
  issued : ∀ p ∈ d'.pendingRecoverySessions,
    p ∈ d.pendingRecoverySessions ∨ ∃ atCheck, tag = .issued p atCheck
  /-- A recovery burns a token of the current kit. -/
  recovers : ∀ p, tag = .consumed (some (.recovery p)) → Recovers d d' p
  /-- A replaced kit leaves no token. -/
  replaced : ∀ userId dropped, tag = .replacedKit userId dropped →
    ∀ p ∈ d'.pendingRecoverySessions, p.userId ≠ userId

/-- The lock of an account row, taken for update, keeps the row and lets no token of the account
appear; the lock of a token keeps the token. A token's row goes by its value. -/
def tokenSpec (row : Uuid → PendingRecoverySession) : Spec Db RowId Tag ApiError where
  inv d := KitsCurrent d ∧ ∀ p ∈ d.pendingRecoverySessions, p = row p.token
  guar d d' := ∀ userId, userOf userId d = none → userOf userId d' = none
  guar_refl := userOf_absent_refl
  guar_trans := @userOf_absent_trans
  keeps k m d d' := m = .update →
    (∀ userId, k = .user userId → userOf userId d' = userOf userId d ∧
      ∀ p ∈ d'.pendingRecoverySessions, p.userId = userId → p ∈ d.pendingRecoverySessions) ∧
    ∀ p ∈ d.pendingRecoverySessions, k = .pendingRecoverySession p.token →
      p ∈ d'.pendingRecoverySessions
  keeps_refl _ _ _ _ := ⟨fun _ _ => ⟨rfl, fun _ hp _ => hp⟩, fun _ hp _ => hp⟩
  keeps_trans h h' hm := by
    obtain ⟨huser, htoken⟩ := h hm
    obtain ⟨huser', htoken'⟩ := h' hm
    refine ⟨fun userId hk => ?_, fun p hp hk => htoken' p (htoken p hp hk) hk⟩
    obtain ⟨hu, hnew⟩ := huser userId hk
    obtain ⟨hu', hnew'⟩ := huser' userId hk
    exact ⟨hu'.trans hu, fun p hp hpu => hnew p (hnew' p hp hpu) hpu⟩
  allow tag d := RevokedInTime tag d ∧ ∀ p atCheck, tag = .issued p atCheck → p = row p.token
  asserts := TokenStep

variable {row : Uuid → PendingRecoverySession} {d d' : Db} {L : List (RowId × LockMode)}
  {w : Db → Db} {userId : Uuid}

/-- The specification keeps locked accounts. -/
theorem token_locksAccounts : LocksAccounts (tokenSpec row) where
  row h := ((h rfl).1 _ rfl).1
  absent h := h _

/-- A token that is locked for update stays. -/
theorem token_of_rely (hr : (tokenSpec row).Rely L d d') {p : PendingRecoverySession}
    (hp : p ∈ d.pendingRecoverySessions)
    (hl : (RowId.pendingRecoverySession p.token, LockMode.update) ∈ L) :
    p ∈ d'.pendingRecoverySessions :=
  (hr.keeps _ hl rfl).2 p hp rfl

/-- No token of a held account appears. -/
theorem token_of_held (h : Held userId L d) (hr : (tokenSpec row).Rely L d d')
    {p : PendingRecoverySession} (hp : p ∈ d'.pendingRecoverySessions) (hu : p.userId = userId) :
    p ∈ d.pendingRecoverySessions := by
  rcases h with hl | hn
  · exact ((hr.keeps _ hl rfl).1 userId rfl).2 p hp hu
  · have hkit := hr.inv.1 p hp
    rw [kitOf, hu, hr.guar userId hn] at hkit
    cases hkit

/-- Commits that leave accounts and tokens alone. -/
theorem token_owes_of_same {tag : Tag} (hi : (tokenSpec row).inv d) (hu : d'.users = d.users)
    (hp : d'.pendingRecoverySessions = d.pendingRecoverySessions)
    (ht : ∀ p, tag ≠ .consumed (some (.recovery p)))
    (ht' : ∀ userId dropped, tag ≠ .replacedKit userId dropped) :
    (tokenSpec row).Owes L tag d d' := by
  have hrow := userOf_congr hu
  refine ⟨⟨fun p hpd => ?_, fun p hp => (ht p hp).elim, fun u k hk => (ht' u k hk).elim⟩,
    ⟨fun p hpd => ?_, fun p hpd => ?_⟩, fun userId hn => ?_, ?_⟩
  · left
    rwa [hp] at hpd
  · rw [hp] at hpd
    rw [kitOf, hrow]
    exact hi.1 p hpd
  · rw [hp] at hpd
    exact hi.2 p hpd
  · rw [hrow]
    exact hn
  · intro k m _ _
    rw [hp]
    exact ⟨fun userId _ => ⟨hrow userId, fun _ hp _ => hp⟩, fun _ hp _ => hp⟩

/-- Commits that replace the kit of a locked account and leave none of its tokens. -/
theorem token_owes_of_replaced (userId : Uuid) {tag : Tag} {f : User → User}
    (hi : (tokenSpec row).inv d)
    (hlock : (∃ m, (RowId.user userId, m) ∈ L) ∨ userOf userId d = none)
    (hrow : ∀ v, userOf v d' = if v = userId then (userOf v d).map f else userOf v d)
    (hp : ∀ p ∈ d'.pendingRecoverySessions,
      p ∈ d.pendingRecoverySessions ∧ p.userId ≠ userId)
    (hgone : ∀ p ∈ d.pendingRecoverySessions, p ∉ d'.pendingRecoverySessions →
      (RowId.pendingRecoverySession p.token, LockMode.update) ∈ L)
    (ht : ∀ p, tag = .consumed (some (.recovery p)) → Recovers d d' p)
    (ht' : ∀ v dropped, tag = .replacedKit v dropped → v = userId) :
    (tokenSpec row).Owes L tag d d' := by
  have hother : ∀ v, v ≠ userId → userOf v d' = userOf v d := by
    intro v hv
    rw [hrow, if_neg hv]
  refine ⟨⟨fun p hpd => Or.inl (hp p hpd).1, ht, fun v k hk p hpd => ?_⟩,
    ⟨fun p hpd => ?_, fun p hpd => hi.2 p (hp p hpd).1⟩, fun v hn => ?_, ?_⟩
  · rw [ht' v k hk]
    exact (hp p hpd).2
  · rw [kitOf, hother _ (hp p hpd).2]
    exact hi.1 p (hp p hpd).1
  · rw [hrow, hn]
    split
    · rfl
    · rfl
  · rintro k m hcompat rfl
    refine ⟨?_, fun p hpd hk => ?_⟩
    · rintro v rfl
      refine ⟨?_, fun p hpd _ => (hp p hpd).1⟩
      by_cases hv : v = userId
      · subst hv
        rcases hlock with ⟨m, hl⟩ | hn
        · simpa using hcompat _ hl rfl
        · rw [hrow, if_pos rfl, hn]
          rfl
      · exact hother v hv
    · by_contra hne
      have hl := hgone p hpd hne
      rw [← hk] at hl
      simpa using hcompat _ hl rfl

/-- Storing a token of the kit that was checked. -/
theorem insertRecovery_wp (p : PendingRecoverySession) {atCheck : Option Bytes}
    (hkit : atCheck = some p.kit) :
    (tokenSpec row).wp (fun _ L w _ => L = [] ∧ w = id) (DbPending.insertRecovery p atCheck)
      [] id d := by
  simp only [DbPending.insertRecovery, autocommit]
  refine Table.wp_insert_bind (fun n hn _ _ d₁ h₁ ha => ⟨?_, fun _ _ => ⟨rfl, rfl⟩⟩)
    fun x hx => absurd hx (Option.not_mem_none x)
  obtain ⟨hcurrent, hrow⟩ := ha
  refine ⟨⟨fun q hq => ?_, fun _ h => (by cases h), fun _ _ h => by cases h⟩,
    ⟨fun q hq => ?_, fun q hq => ?_⟩, fun _ h => h, ?_⟩
  · rcases (Tables.pendingRecoverySessions.mem_push).mp hq with hq | rfl
    · exact Or.inl hq
    · exact Or.inr ⟨atCheck, rfl⟩
  · rcases (Tables.pendingRecoverySessions.mem_push).mp hq with hq | rfl
    · exact h₁.inv.1 q hq
    · have hnow : kitOf q.userId d₁ = atCheck := hcurrent
      exact hnow.trans hkit
  · rcases (Tables.pendingRecoverySessions.mem_push).mp hq with hq | rfl
    · exact h₁.inv.2 q hq
    · exact hrow q atCheck rfl
  · rintro k m hcompat rfl
    refine ⟨?_, fun q hq _ => (Tables.pendingRecoverySessions.mem_push).mpr (Or.inl hq)⟩
    rintro v rfl
    refine ⟨rfl, fun q hq hqu => ?_⟩
    rcases (Tables.pendingRecoverySessions.mem_push).mp hq with hq | rfl
    · exact hq
    · refine absurd (hcompat (.user v, .keyShare) ?_ rfl) Bool.false_ne_true
      simp [userRef, hqu]

/-- Replacing or disabling a kit leaves no token of the account. -/
theorem replaceKit_wp (userId : Uuid) (kit : Option DbRecovery.NewRecoveryKit) :
    (tokenSpec row).wp (fun _ _ _ _ => True) (DbRecovery.replaceKit userId kit) [] id d := by
  refine Table.wp_update_bind fun s₁ hs₁ n₁ hn₁ _ => ?_
  refine Table.wp_delete_bind fun s₂ hs₂ n₂ hn₂ d₃ h₃ ha => ⟨?_, fun _ _ => trivial⟩
  have h₁₃ : (tokenSpec row).guar n₁ d₃ := (hs₂.trans (hn₂.trans h₃.of_append)).guar
  have hin : userOf userId d₃ ≠ none → RowId.user userId ∈
      (Tables.users.hits (DbAuth.isUser userId) s₁ n₁).map Tables.users.key := by
    intro hne
    have hn : userOf userId n₁ ≠ none := fun hn => hne (h₁₃ userId hn)
    have hs : userOf userId s₁ ≠ none := fun hs => hn (hn₁.guar userId hs)
    exact user_mem_hits hs hn
  refine token_owes_of_replaced userId (f := DbRecovery.withKit kit) h₃.inv ?_
    (fun v => ?_) (fun p hp => ?_) (fun p hp hgone => ?_) nofun ?_
  · by_cases hd : userOf userId d₃ = none
    · exact Or.inr hd
    · left
      obtain ⟨u, hu, hkey⟩ := List.mem_map.mp (hin hd)
      have hlock := Tables.users.locked_of_mem_hits hu .noKeyUpdate
      rw [hkey] at hlock
      exact ⟨.noKeyUpdate, by simp [hlock]⟩
  · exact userOf_editOne (f := DbRecovery.withKit kit) (fun _ => rfl) hin
      (fun v => eq_of_user_mem_hits) v
  · obtain ⟨hp₃, hkept⟩ := (Tables.pendingRecoverySessions.mem_drop).mp hp
    refine ⟨hp₃, fun hu => hkept ?_⟩
    obtain ⟨q, hq, htoken⟩ := List.mem_map.mp (ha.1 p hp₃ hu)
    exact List.mem_map.mpr ⟨q, hq, congrArg RowId.pendingRecoverySession htoken⟩
  · have hkey : Tables.pendingRecoverySessions.key p ∈
        (Tables.pendingRecoverySessions.hits (fun _ p => decide (p.userId = userId)) s₂ n₂).map
          Tables.pendingRecoverySessions.key := by
      by_contra hfree
      exact hgone ((Tables.pendingRecoverySessions.mem_drop).mpr ⟨hp, hfree⟩)
    obtain ⟨q, hq, hqp⟩ := List.mem_map.mp hkey
    have hlock := Tables.pendingRecoverySessions.locked_of_mem_hits hq .update
    rw [hqp] at hlock
    exact List.mem_append_right _ hlock
  · rintro v dropped ⟨⟩
    rfl

/-- The tokens that a transaction has deleted so far, with their locks. -/
structure Burned (keys : List RowId) (L : List (RowId × LockMode)) (w : Db → Db) : Prop where
  users : ∀ x, (w x).users = x.users
  tokens : ∀ x p, p ∈ (w x).pendingRecoverySessions ↔
    p ∈ x.pendingRecoverySessions ∧ RowId.pendingRecoverySession p.token ∉ keys
  locked : ∀ k ∈ keys, (k, LockMode.update) ∈ L

/-- Consuming a token deletes it, when a token authorizes the rotation. -/
theorem consumeToken_wp (authority : DbRecovery.RotationAuthority) :
    (tokenSpec row).wp (fun _ L' w' d' => (∀ l ∈ L, l ∈ L') ∧ (tokenSpec row).Rely L d d' ∧
        ∃ keys, Burned keys L' w' ∧ ∀ token, authority = .recoveryToken token →
          row token ∈ d'.pendingRecoverySessions ∧ (row token).token = token ∧
            RowId.pendingRecoverySession token ∈ keys)
      (DbRecovery.consumeToken authority) L id d := by
  cases authority with
  | session sessionId =>
    refine fun d₁ h₁ => ⟨fun _ hl => hl, h₁, [], ⟨fun _ => rfl, fun x p => ?_, ?_⟩,
      fun _ h => by cases h⟩
    · simp
    · exact fun k hk => (List.not_mem_nil hk).elim
  | recoveryToken token =>
    refine Table.wp_delete_bind fun s hs n hn => ?_
    split
    · exact fun _ _ => wp_refuse id
    · rename_i hne
      intro d₁ h₁
      refine ⟨fun _ hl => List.mem_append_left _ hl, (hs.trans hn).trans h₁.of_append, _,
        ⟨fun _ => rfl, fun x p => Tables.pendingRecoverySessions.mem_drop, fun k hk => ?_⟩, ?_⟩
      · obtain ⟨p, hp, rfl⟩ := List.mem_map.mp hk
        have hlock := Tables.pendingRecoverySessions.locked_of_mem_hits hp .update
        exact List.mem_append_right _ hlock
      · rintro _ ⟨⟩
        obtain ⟨p, hp⟩ := List.exists_mem_of_ne_nil _ (fun h => hne (List.isEmpty_iff.mpr h))
        obtain ⟨hpn, -, hcond⟩ := (Tables.pendingRecoverySessions.mem_hits).mp hp
        have htoken : p.token = token := of_decide_eq_true hcond
        have hrow : p = row token := by
          rw [← htoken]
          exact hn.inv.2 p hpn
        have hlock := Tables.pendingRecoverySessions.locked_of_mem_hits hp .update
        rw [← hrow]
        refine ⟨token_of_rely h₁ hpn (List.mem_append_right _ hlock), htoken, ?_⟩
        exact List.mem_map.mpr ⟨p, hp, congrArg RowId.pendingRecoverySession htoken⟩

/-- The accounts and the recovery tokens. -/
def kits (d : Db) : List User × List PendingRecoverySession :=
  (d.users, d.pendingRecoverySessions)

/-- A rotation leaves no token of its account, and a token that authorizes it is one of the kit
that the account has. -/
theorem rotateMasterPassword_token_wp {tag : Tag} (authority : DbRecovery.RotationAuthority)
    (userId : Uuid) (rotation : DbRecovery.PasswordRotation)
    (ht : ∀ p, tag = .consumed (some (.recovery p)) →
      authority = .recoveryToken p.token ∧ p = row p.token ∧ p.userId = userId)
    (ht' : ∀ v dropped, tag ≠ .replacedKit v dropped) :
    (tokenSpec row).wp (fun _ _ _ _ => True)
      (DbRecovery.rotateMasterPassword tag authority userId rotation) [] id d := by
  have hS : LocksAccounts (tokenSpec row) := token_locksAccounts
  refine Table.wp_selectFor_bind fun s₀ hs₀ n₀ hn₀ => ?_
  have hheld₀ : Held userId _ n₀ := hS.held_of_locked hn₀
  refine Spec.wp_bind hn₀.inv (Spec.wp_mono ?_ (consumeToken_wp authority))
  rintro _ L₁ w₁ d₁ ⟨hL₁, hr₁, keys, hburned, hconsumed⟩ hi₁
  have hheld₁ := hS.held hheld₀ hr₁ hL₁
  refine Table.wp_update_bind fun s₂ hs₂ n₂ hn₂ _ => ?_
  have hheld₂ := hS.held hheld₁ hs₂ fun _ hl => hl
  have hitems : Spec.Leaves kits (DbRecovery.reencryptItems userId rotation.reencryptedItems) :=
    leaves_reencryptItems (fun _ _ => rfl) userId rotation.reencryptedItems
  refine Spec.wp_bind hn₂.inv (Spec.wp_mono ?_ (Spec.wp_leaves hitems nofun))
  rintro _ L₃ w₃ d₃ ⟨hL₃, hw₃, hr₃⟩ hi₃
  have hlogins : Spec.Leaves kits (DbAuth.dropPendingLogins userId) :=
    leaves_dropPendingLogins (fun _ _ => rfl) (fun _ _ => rfl) userId
  refine Spec.wp_bind hi₃ (Spec.wp_mono ?_ (Spec.wp_leaves hlogins nofun))
  rintro _ L₄ w₄ d₄ ⟨hL₄, hw₄, hr₄⟩ hi₄
  refine Table.wp_delete_bind fun s₅ hs₅ n₅ hn₅ => ?_
  refine Table.wp_delete_bind fun s₆ hs₆ n₆ hn₆ d₇ h₇ ha => ⟨?_, fun _ _ => trivial⟩
  have hL₁₃ : ∀ l ∈ L₁, l ∈ L₃ := fun l hl => hL₃ l (List.mem_append_left _ hl)
  have hL₁₄ : ∀ l ∈ L₁, l ∈ L₄ := fun l hl => hL₄ l (hL₁₃ l hl)
  have h₅₇ : (tokenSpec row).Rely L₄ n₅ d₇ :=
    hs₆.of_append.trans (hn₆.of_append.trans h₇.of_append.of_append)
  have h₂₅ : (tokenSpec row).Rely L₁ n₂ s₅ :=
    hr₃.of_append.trans ((hr₄.mono hL₁₃).trans (hs₅.mono hL₁₄))
  have h₂₇ : (tokenSpec row).Rely L₁ n₂ d₇ := h₂₅.trans ((hn₅.trans h₅₇).mono hL₁₄)
  have hheld₅ := hS.held (hS.held hheld₂ hn₂ fun _ hl => hl) h₂₅ hL₁₄
  have hheld₆ := hS.held hheld₅ hn₅ fun _ hl => hl
  have hheld₇ := hS.held hheld₆ h₅₇ fun _ hl => hl
  have htokens : ∀ x p, p ∈ (w₄ x).pendingRecoverySessions ↔
      p ∈ x.pendingRecoverySessions ∧ RowId.pendingRecoverySession p.token ∉ keys := by
    intro x p
    have h₄ : (w₄ x).pendingRecoverySessions = (w₁ x).pendingRecoverySessions :=
      (congrArg (·.2) (hw₄ x)).trans (congrArg (·.2) (hw₃ x))
    rw [h₄]
    exact hburned.tokens x p
  have hleft : ∀ p ∈ (Tables.pendingRecoverySessions.drop ((Tables.pendingRecoverySessions.hits
      (fun _ p => decide (p.userId = userId)) (w₄ s₅) (w₄ n₅)).map
        Tables.pendingRecoverySessions.key) (w₄ d₇)).pendingRecoverySessions,
      (p ∈ d₇.pendingRecoverySessions ∧ RowId.pendingRecoverySession p.token ∉ keys) ∧
        p.userId ≠ userId := by
    intro p hp
    obtain ⟨hp₄, hkept⟩ := (Tables.pendingRecoverySessions.mem_drop).mp hp
    obtain ⟨hp₇, hfree⟩ := (htokens d₇ p).mp hp₄
    refine ⟨⟨hp₇, hfree⟩, fun hu => hkept (List.mem_map.mpr ⟨p, ?_, rfl⟩)⟩
    have hp₅ := token_of_held hheld₆ h₅₇ hp₇ hu
    have hs := token_of_held hheld₅ hn₅ hp₅ hu
    exact (Tables.pendingRecoverySessions.mem_hits).mpr ⟨(htokens n₅ p).mpr ⟨hp₅, hfree⟩,
      ⟨p, (htokens s₅ p).mpr ⟨hs, hfree⟩, decide_eq_true hu, rfl⟩, decide_eq_true hu⟩
  refine token_owes_of_replaced userId (f := rotation.rotated authority.keepSession)
    h₇.inv ?_ (fun v => ?_) (fun p hp => ?_) (fun p hp hgone => ?_) (fun p hp => ?_)
    fun v dropped hk => (ht' v dropped hk).elim
  · rcases hheld₇ with hl | hn
    · exact Or.inl ⟨.update, by simp [hl]⟩
    · exact Or.inr hn
  · have hw : ∀ x v, userOf v (w₁ x) = userOf v x := fun x v => userOf_congr (hburned.users x) v
    have hin : userOf userId (w₁ d₇) ≠ none → RowId.user userId ∈
        (Tables.users.hits (DbAuth.isUser userId) (w₁ s₂) (w₁ n₂)).map Tables.users.key := by
      rw [hw]
      intro hne
      have hn : userOf userId n₂ ≠ none := fun hn => hne (h₂₇.guar userId hn)
      have hs : userOf userId s₂ ≠ none := fun hs => hn (hn₂.guar userId hs)
      apply user_mem_hits
      · rwa [hw]
      · rwa [hw]
    have hedit := userOf_editOne (f := rotation.rotated authority.keepSession) (fun _ => rfl) hin
      (fun v => eq_of_user_mem_hits) v
    rw [hw] at hedit
    have hkits := (hw₄ d₇).trans (hw₃ d₇)
    exact (userOf_congr (congrArg (·.1) hkits) v).trans hedit
  · obtain ⟨⟨hp₇, -⟩, hu⟩ := hleft p hp
    exact ⟨hp₇, hu⟩
  · by_cases hk : RowId.pendingRecoverySession p.token ∈ keys
    · have hl := hL₁₄ _ (hburned.locked _ hk)
      simp [hl]
    · have hdropped : RowId.pendingRecoverySession p.token ∈
          (Tables.pendingRecoverySessions.hits (fun _ p => decide (p.userId = userId)) (w₄ s₅)
            (w₄ n₅)).map Tables.pendingRecoverySessions.key := by
        by_contra hfree
        refine hgone ((Tables.pendingRecoverySessions.mem_drop).mpr ⟨?_, hfree⟩)
        exact (htokens d₇ p).mpr ⟨hp, hk⟩
      obtain ⟨q, hq, hqp⟩ := List.mem_map.mp hdropped
      have hlock := Tables.pendingRecoverySessions.locked_of_mem_hits hq .update
      rw [hqp] at hlock
      exact List.mem_append_left _ (List.mem_append_right _ hlock)
  · obtain ⟨hauth, hrow, hu⟩ := ht p hp
    obtain ⟨hp₁, -, hk⟩ := hconsumed p.token hauth
    rw [← hrow] at hp₁
    have hp₇ : p ∈ d₇.pendingRecoverySessions :=
      token_of_rely (hs₂.trans (hn₂.trans h₂₇)) hp₁ (hburned.locked _ hk)
    refine ⟨hp₇, h₇.inv.1 p hp₇, fun q hq => ?_⟩
    obtain ⟨⟨-, hfree⟩, hqu⟩ := hleft q hq
    rw [hu]
    exact ⟨fun htoken => hfree (htoken ▸ hk), hqu⟩

/-- Redeeming a proof touches no account and no recovery token. -/
theorem verifyPasswordProof_token_wp (o : Opaque) (now : Nat) (auth : AuthUser)
    (proof : Proof.PasswordProof) (purpose : Purpose) (hd : (tokenSpec row).inv d) :
    (tokenSpec row).wp (fun tag L w _ => L = [] ∧ w = id ∧ ∃ u a b, tag = .authorized u a b)
      (Proof.verifyPasswordProof o now auth proof purpose) [] id d := by
  refine wp_okOr_bind nofun fun finalization _ => ?_
  refine Spec.wp_bind (Q := fun _ _ _ _ => _) hd (Spec.wp_mono
    (Q := fun _ L w _ => L = [] ∧ w = fun d => d) ?_ ?_)
  · rintro taken _ _ d₁ ⟨rfl, rfl⟩ _
    refine wp_okOr_bind nofun fun t _ => wp_require_bind nofun fun _ => ?_
    refine wp_require_bind nofun fun _ d₂ _ => ?_
    exact ⟨rfl, rfl, _, _, _, rfl⟩
  · intro s hs n hn d₁ h₁ _
    refine ⟨token_owes_of_same h₁.inv rfl rfl (fun p hp => ?_) nofun, fun d₂ h₂ => ⟨rfl, rfl⟩⟩
    have htaken := Tag.consumed.inj hp
    obtain ⟨t, -, ht⟩ := Option.map_eq_some_iff.mp htaken
    cases ht

/-- Each request keeps the specification. -/
theorem RecoveryRequest.valid (o : Opaque) (config : Config) (r : RecoveryRequest) :
    (tokenSpec row).Valid (r.run o config) fun _ _ => True := by
  intro d hd
  cases r with
  | init fresh emailHash recoveryAuthKey =>
    simp only [RecoveryRequest.run, Recovery.recoveryInit, bind_assoc]
    refine wp_okOr_bind nofun fun authKey _ => ?_
    refine Spec.wp_reads_bind (reads_parseEmailHash _) nofun (fun emailHash d₁ h₁ => ?_) hd
    refine Spec.wp_read_bind fun d₂ h₂ => wp_okOr_bind nofun fun user huser => ?_
    refine wp_okOr_bind nofun fun storedHash hstored => wp_require_bind nofun fun heq => ?_
    refine wp_okOr_bind nofun fun blob _ => wp_okOr_bind nofun fun blobIv _ => ?_
    refine Spec.wp_reads_bind (Recovery.reads_encodeAllItems _) nofun (fun items d₃ h₃ => ?_) h₂.inv
    have hkit : user.recoveryAuthHash = some (o.hashAuthKey authKey) := by
      rw [Option.mem_def.mp hstored, (Recovery.ctEq_iff _ _).mp heq]
    refine Spec.wp_bind h₃.inv (Spec.wp_mono ?_ (insertRecovery_wp _ hkit))
    rintro _ _ _ d₄ ⟨rfl, rfl⟩ _
    exact fun _ _ => trivial
  | setRecovery auth req =>
    refine wp_okOr_bind nofun fun _ _ => wp_okOr_bind nofun fun _ _ => ?_
    refine wp_okOr_bind nofun fun _ _ => ?_
    exact wp_require_bind nofun fun _ => replaceKit_wp auth.userId _
  | disable auth => exact replaceKit_wp auth.userId none
  | complete now req =>
    simp only [RecoveryRequest.run, Recovery.recoveryComplete, Recovery.liveRecoverySession,
      bind_assoc, pure_bind]
    refine wp_okOr_bind nofun fun token _ => Table.wp_select_bind fun d₁ h₁ => ?_
    refine wp_okOr_bind nofun fun session hsession => wp_require_bind nofun fun _ => ?_
    have hrow : session = row session.token := by
      obtain ⟨hmem, -⟩ := List.mem_filter.mp (List.mem_of_head? (Option.mem_def.mp hsession))
      exact h₁.inv.2 session hmem
    refine Spec.wp_reads_bind (Recovery.reads_credentialOf _ _) nofun
      (fun credential d₂ h₂ => ?_) h₁.inv
    refine wp_okOr_bind nofun fun _ _ => wp_okOr_bind nofun fun _ _ => ?_
    refine wp_okOr_bind nofun fun _ _ => ?_
    refine wp_okOr_bind nofun fun _ _ => wp_okOr_bind nofun fun _ _ => ?_
    refine wp_require_bind nofun fun _ => ?_
    refine Spec.wp_reads_bind (Recovery.reads_wrapOf _) nofun (fun wrapped d₃ h₃ => ?_) h₂.inv
    refine Spec.wp_reads_bind (Recovery.reads_itemsOf _ _ _) nofun (fun items d₄ h₄ => ?_) h₃.inv
    refine rotateMasterPassword_token_wp _ _ _ (fun p hp => ?_) nofun
    cases hp
    exact ⟨rfl, hrow, rfl⟩
  | passwordFinish now auth req =>
    simp only [RecoveryRequest.run, Password.finish]
    refine Spec.wp_reads_bind (Proof.reads_requireRecentSession _ _ _ _) nofun
      (fun sessionId d₁ h₁ => ?_) hd
    refine wp_okOr_bind nofun fun _ _ => wp_okOr_bind nofun fun _ _ => ?_
    refine wp_okOr_bind nofun fun _ _ => wp_okOr_bind nofun fun _ _ => ?_
    refine Spec.wp_bind h₁.inv (Spec.wp_mono ?_
      (verifyPasswordProof_token_wp o now auth _ .passwordChange h₁.inv))
    rintro _ _ _ d₂ ⟨rfl, rfl, u, a, b, rfl⟩ _
    exact rotateMasterPassword_token_wp _ _ _ nofun nofun

section Labels

/-- Consuming a token commits nothing by itself. -/
theorem neverCommits_consumeToken (authority : DbRecovery.RotationAuthority) :
    (DbRecovery.consumeToken authority).NeverCommits := by
  cases authority with
  | session sessionId => trivial
  | recoveryToken token =>
    refine (neverCommits_delete _).bind fun consumed => ?_
    split
    · trivial
    · trivial

/-- Swapping in items commits nothing by itself. -/
theorem neverCommits_swapItems (userId : Uuid) (items : List DbRecovery.ReencryptedItemRow) :
    (DbRecovery.swapItems userId items).NeverCommits := by
  induction items with
  | nil => trivial
  | cons item rest ih =>
    refine (neverCommits_update _ _ _).bind fun rows => ?_
    split
    · trivial
    · exact ih

/-- Re-encrypting items commits nothing by itself. -/
theorem neverCommits_reencryptItems (userId : Uuid)
    (items : Option (List DbRecovery.ReencryptedItemRow)) :
    (DbRecovery.reencryptItems userId items).NeverCommits := by
  cases items with
  | none => trivial
  | some items =>
    refine (neverCommits_swapItems userId items).bind fun _ d => ?_
    change Prog.NeverCommits (if _ then _ else _)
    split
    · trivial
    · trivial

/-- Dropping handshakes commits nothing by itself. -/
theorem neverCommits_dropPendingLogins (userId : Uuid) :
    (DbAuth.dropPendingLogins userId).NeverCommits :=
  (neverCommits_delete _).bind fun _ => (neverCommits_delete _).bind fun _ => trivial

variable {P : Tag → Prop} {tag : Tag}

/-- A rotation commits at its end. -/
theorem commitsLast_rotateMasterPassword (authority : DbRecovery.RotationAuthority) (userId : Uuid)
    (rotation : DbRecovery.PasswordRotation) :
    (DbRecovery.rotateMasterPassword tag authority userId rotation).CommitsLast fun _ => True := by
  refine (neverCommits_selectFor _ _).bind_last fun _ => ?_
  refine (neverCommits_consumeToken authority).bind_last fun _ => ?_
  refine (neverCommits_update _ _ _).bind_last fun _ => ?_
  refine (neverCommits_reencryptItems userId _).bind_last fun _ => ?_
  refine (neverCommits_dropPendingLogins userId).bind_last fun _ => ?_
  refine (neverCommits_delete _).bind_last fun _ => (neverCommits_delete _).bind_last fun _ => ?_
  exact ⟨(), trivial, rfl⟩

/-- A rotation commits with its label. -/
theorem labels_rotateMasterPassword (ht : P tag) (authority : DbRecovery.RotationAuthority)
    (userId : Uuid) (rotation : DbRecovery.PasswordRotation) :
    (DbRecovery.rotateMasterPassword tag authority userId rotation).Labels P := by
  refine (neverCommits_selectFor _ _).labels.bind fun _ => ?_
  refine (neverCommits_consumeToken authority).labels.bind fun _ => ?_
  refine (neverCommits_update _ _ _).labels.bind fun _ => ?_
  refine (neverCommits_reencryptItems userId _).labels.bind fun _ => ?_
  refine (neverCommits_dropPendingLogins userId).labels.bind fun _ => ?_
  refine (neverCommits_delete _).labels.bind fun _ => ?_
  exact (neverCommits_delete _).labels.bind fun _ => ⟨ht, trivial⟩

/-- Replacing a kit commits with its label. -/
theorem labels_replaceKit (userId : Uuid) (kit : Option DbRecovery.NewRecoveryKit)
    (ht : ∀ dropped, P (.replacedKit userId dropped)) :
    (DbRecovery.replaceKit userId kit).Labels P :=
  (neverCommits_update _ _ _).labels.bind fun _ => (neverCommits_delete _).labels.bind fun _ =>
    ⟨ht _, trivial⟩

/-- What the labels of a request tell: a token is issued by its own request, and a recovery burns
the token that it names. -/
def RecoveryRequest.Says (r : RecoveryRequest) (tag : Tag) : Prop :=
  (∀ p atCheck, tag = .issued p atCheck → r.token = some p.token) ∧
    ∀ now req, r = .complete now req →
      ∃ p, req.recoveryToken = some p.token ∧ tag = .consumed (some (.recovery p))

/-- The labels of each request tell so. -/
theorem RecoveryRequest.labels (o : Opaque) (config : Config) (r : RecoveryRequest) :
    (r.run o config).Labels r.Says := by
  cases r with
  | init fresh emailHash recoveryAuthKey =>
    simp only [RecoveryRequest.run, Recovery.recoveryInit, bind_assoc]
    refine labels_okOr_bind fun authKey _ => ?_
    refine (reads_parseEmailHash _).neverCommits.labels.bind fun emailHash d => ?_
    refine labels_okOr_bind fun user _ => labels_okOr_bind fun storedHash _ => ?_
    refine (reads_require _ _).neverCommits.labels.bind fun _ => ?_
    refine labels_okOr_bind fun blob _ => labels_okOr_bind fun blobIv _ => ?_
    refine (Recovery.reads_encodeAllItems _).neverCommits.labels.bind fun items => ?_
    refine Prog.Labels.bind ?_ fun _ => trivial
    intro s n
    dsimp only
    split
    · split
      · refine ⟨⟨fun p atCheck hp => ?_, fun _ _ h => by cases h⟩, trivial⟩
        cases hp
        rfl
      · trivial
    · trivial
  | setRecovery auth req =>
    refine labels_okOr_bind fun _ _ => labels_okOr_bind fun _ _ => labels_okOr_bind fun _ _ => ?_
    refine (reads_require _ _).neverCommits.labels.bind fun _ => ?_
    exact labels_replaceKit auth.userId _ fun dropped => ⟨fun _ _ h => (by cases h), fun _ _ h => by cases h⟩
  | disable auth =>
    simp only [RecoveryRequest.run, Recovery.disable, DbRecovery.clearRecovery]
    exact labels_replaceKit auth.userId none fun dropped => ⟨fun _ _ h => (by cases h), fun _ _ h => by cases h⟩
  | complete now req =>
    simp only [RecoveryRequest.run, Recovery.recoveryComplete, Recovery.liveRecoverySession,
      bind_assoc, pure_bind]
    refine labels_okOr_bind fun token htoken d => labels_okOr_bind fun session hsession => ?_
    have hnamed : session.token = token := by
      obtain ⟨-, hcond⟩ := List.mem_filter.mp (List.mem_of_head? (Option.mem_def.mp hsession))
      exact of_decide_eq_true hcond
    refine (reads_require _ _).neverCommits.labels.bind fun _ => ?_
    refine (Recovery.reads_credentialOf _ _).neverCommits.labels.bind fun credential => ?_
    refine labels_okOr_bind fun _ _ => labels_okOr_bind fun _ _ => labels_okOr_bind fun _ _ => ?_
    refine labels_okOr_bind fun _ _ => labels_okOr_bind fun _ _ => ?_
    refine (reads_require _ _).neverCommits.labels.bind fun _ => ?_
    refine (Recovery.reads_wrapOf _).neverCommits.labels.bind fun wrapped => ?_
    refine (Recovery.reads_itemsOf _ _ _).neverCommits.labels.bind fun items => ?_
    refine labels_rotateMasterPassword ⟨fun _ _ h => (by cases h), fun now' req' hreq => ⟨session, ?_, rfl⟩⟩ _ _ _
    cases hreq
    rw [hnamed]
    exact htoken
  | passwordFinish now auth req =>
    simp only [RecoveryRequest.run, Password.finish, Proof.verifyPasswordProof, bind_assoc,
      pure_bind]
    refine (Proof.reads_requireRecentSession _ _ _ _).neverCommits.labels.bind fun sessionId => ?_
    refine labels_okOr_bind fun _ _ => labels_okOr_bind fun _ _ => ?_
    refine labels_okOr_bind fun _ _ => labels_okOr_bind fun _ _ => labels_okOr_bind fun _ _ => ?_
    refine Prog.Labels.bind (fun s n => ⟨⟨fun _ _ h => (by cases h), fun _ _ h => by cases h⟩, trivial⟩) fun taken => ?_
    refine labels_okOr_bind fun t _ => (reads_require _ _).neverCommits.labels.bind fun _ => ?_
    refine (reads_require _ _).neverCommits.labels.bind fun _ => ?_
    exact labels_rotateMasterPassword ⟨fun _ _ h => (by cases h), fun _ _ h => by cases h⟩ _ _ _

/-- A token's request commits at its end. -/
theorem commitsLast_of_token (o : Opaque) (config : Config) {r : RecoveryRequest} {token : Uuid}
    (h : r.token = some token) : (r.run o config).CommitsLast fun _ => True := by
  cases r with
  | init fresh emailHash recoveryAuthKey =>
    simp only [RecoveryRequest.run, Recovery.recoveryInit, bind_assoc]
    refine (Recovery.reads_decodeB64 _ _).neverCommits.bind_last fun authKey => ?_
    refine (reads_parseEmailHash _).neverCommits.bind_last fun emailHash d => ?_
    refine (reads_okOr _ _).neverCommits.bind_last fun user => ?_
    refine (reads_okOr _ _).neverCommits.bind_last fun storedHash => ?_
    refine (reads_require _ _).neverCommits.bind_last fun _ => ?_
    refine (reads_okOr _ _).neverCommits.bind_last fun blob => ?_
    refine (reads_okOr _ _).neverCommits.bind_last fun blobIv => ?_
    refine (Recovery.reads_encodeAllItems _).neverCommits.bind_last fun items => ?_
    intro s n
    dsimp only
    split
    · split
      · exact ⟨(), trivial, rfl⟩
      · trivial
    · trivial
  | _ => cases h

/-- A recovery commits at its end. -/
theorem commitsLast_recoveryComplete (o : Opaque) (now : Nat)
    (req : Recovery.RecoveryCompleteRequest) :
    (Recovery.recoveryComplete o now req).CommitsLast fun _ => True := by
  refine (Recovery.reads_liveRecoverySession _ _).neverCommits.bind_last fun session => ?_
  refine (Recovery.reads_credentialOf _ _).neverCommits.bind_last fun credential => ?_
  refine (Recovery.reads_decodeB64 _ _).neverCommits.bind_last fun _ => ?_
  refine (Recovery.reads_decodeB64 _ _).neverCommits.bind_last fun _ => ?_
  refine (Recovery.reads_decodeB64 _ _).neverCommits.bind_last fun _ => ?_
  refine (Recovery.reads_decodeB64 _ _).neverCommits.bind_last fun _ => ?_
  refine (Recovery.reads_decodeB64 _ _).neverCommits.bind_last fun _ => ?_
  refine (reads_require _ _).neverCommits.bind_last fun _ => ?_
  refine (Recovery.reads_wrapOf _).neverCommits.bind_last fun wrapped => ?_
  refine (Recovery.reads_itemsOf _ _ _).neverCommits.bind_last fun items => ?_
  exact commitsLast_rotateMasterPassword _ _ _

end Labels

section Runs

variable {I : Type} [Fintype I] [DecidableEq I]

/-- Tokens are random: no two requests draw the same, none draws one that is in use, and a token
names one row. -/
structure FreshTokens (reqs : I → RecoveryRequest) (db : Db) : Prop where
  distinct : ∀ i j token, (reqs i).token = some token → (reqs j).token = some token → i = j
  unused : ∀ i token, (reqs i).token = some token → ∀ p ∈ db.pendingRecoverySessions,
    p.token ≠ token
  named : ∀ p ∈ db.pendingRecoverySessions, ∀ p' ∈ db.pendingRecoverySessions,
    p.token = p'.token → p = p'

/-- A commit that burns a token. -/
def Burns (token : Uuid) : Tag → Bool
  | .consumed (some (.recovery p)) => p.token = token
  | _ => false

/-- A commit that burns a token has its row on its label. -/
theorem burns_iff {token : Uuid} {tag : Tag} :
    Burns token tag = true ↔ ∃ p, tag = .consumed (some (.recovery p)) ∧ p.token = token := by
  constructor
  · intro h
    unfold Burns at h
    split at h
    · rename_i p
      exact ⟨p, rfl, of_decide_eq_true h⟩
    · cases h
  · rintro ⟨p, rfl, hp⟩
    exact decide_eq_true hp

/-- What holds of the tokens of a run from `start` to `s`. -/
structure TokensHold (reqs : I → RecoveryRequest) (start : State I Db RowId Tag ApiError Unit)
    (sched : List (I × Act)) (s : State I Db RowId Tag ApiError Unit) : Prop where
  /-- Every token was issued by the kit that its account has. -/
  current : KitsCurrent s.db
  /-- A recovery commits on the token that it names, one of the kit that the account has then, and
  leaves no token of the account. -/
  recovers : ∀ e ∈ start.history sched, ∀ now req, reqs e.proc = .complete now req →
    ∃ p, req.recoveryToken = some p.token ∧ e.tag = .consumed (some (.recovery p)) ∧
      Recovers e.before e.after p
  /-- A replaced or disabled kit leaves no token of the account. -/
  replaced : ∀ e ∈ start.history sched, ∀ userId dropped, e.tag = .replacedKit userId dropped →
    ∀ p ∈ e.after.pendingRecoverySessions, p.userId ≠ userId
  /-- A token authorizes one recovery. -/
  once : ∀ token, ((start.history sched).filter fun e => Burns token e.tag).length ≤ 1
  /-- A recovery that fails commits nothing. -/
  failed : ∀ i now req e, reqs i = .complete now req → (s.procs i).prog = .error e →
    ∀ e ∈ start.history sched, e.proc ≠ i

variable {o : Opaque} {config : Config} {reqs : I → RecoveryRequest} {db : Db}
  {sched : List (I × Act)} {s : State I Db RowId Tag ApiError Unit}

/-- Commits that issue the same token are one. -/
theorem FreshTokens.issue_eq (hf : FreshTokens reqs db)
    (h : (State.start db fun i => (reqs i).run o config).exec sched = some s)
    {e e' : Event I Db Tag} {p p' : PendingRecoverySession} {kit kit' : Option Bytes}
    (he : e ∈ (State.start db fun i => (reqs i).run o config).history sched)
    (he' : e' ∈ (State.start db fun i => (reqs i).run o config).history sched)
    (hp : e.tag = .issued p kit) (hp' : e'.tag = .issued p' kit') (ht : p.token = p'.token) :
    e = e' := by
  have htoken := (State.label_of_mem_history h ((reqs e.proc).labels o config) e he rfl).1 p kit hp
  have htoken' :=
    (State.label_of_mem_history h ((reqs e'.proc).labels o config) e' he' rfl).1 p' kit' hp'
  have hproc : e'.proc = e.proc := hf.distinct _ _ p.token (ht ▸ htoken') htoken
  have honce := State.committedOnce h (commitsLast_of_token o config htoken)
  exact honce.eq he rfl he' hproc

/-- A token's row goes by its value in a run with fresh tokens. -/
theorem FreshTokens.exists_row (hf : FreshTokens reqs db)
    (h : (State.start db fun i => (reqs i).run o config).exec sched = some s) :
    ∃ row : Uuid → PendingRecoverySession, (∀ p ∈ db.pendingRecoverySessions, p = row p.token) ∧
      ∀ e ∈ (State.start db fun i => (reqs i).run o config).history sched, ∀ p kit,
        e.tag = .issued p kit → p = row p.token := by
  let named (token : Uuid) (p : PendingRecoverySession) : Prop := p.token = token ∧
    (p ∈ db.pendingRecoverySessions ∨
      ∃ e ∈ (State.start db fun i => (reqs i).run o config).history sched,
        ∃ kit, e.tag = .issued p kit)
  have hunused : ∀ p p', p ∈ db.pendingRecoverySessions →
      (∃ e ∈ (State.start db fun i => (reqs i).run o config).history sched,
        ∃ kit, e.tag = .issued p' kit) → p.token ≠ p'.token := by
    rintro p p' hp ⟨e, he, kit, hp'⟩
    have htoken :=
      (State.label_of_mem_history h ((reqs e.proc).labels o config) e he rfl).1 p' kit hp'
    exact hf.unused _ _ htoken p hp
  have hunique : ∀ token p p', named token p → named token p' → p = p' := by
    rintro token p p' ⟨rfl, hp⟩ ⟨ht, hp'⟩
    rcases hp with hp | hp
    · rcases hp' with hp' | hp'
      · exact hf.named p hp p' hp' ht.symm
      · exact (hunused p p' hp hp' ht.symm).elim
    · rcases hp' with hp' | hp'
      · exact (hunused p' p hp' hp ht).elim
      · obtain ⟨e, he, kit, hk⟩ := hp
        obtain ⟨e', he', kit', hk'⟩ := hp'
        have heq := hf.issue_eq h he he' hk hk' ht.symm
        subst heq
        exact (Tag.issued.inj (hk.symm.trans hk')).1
  have hone : ∀ token, ∃ r, ∀ p, named token p → p = r := by
    intro token
    by_cases hex : ∃ p, named token p
    · obtain ⟨r, hr⟩ := hex
      exact ⟨r, fun p hp => hunique token p r hp hr⟩
    · exact ⟨{ token := token, userId := token, createdAt := 0 }, fun p hp => (hex ⟨p, hp⟩).elim⟩
  choose row hrow using hone
  exact ⟨row, fun p hp => hrow _ p ⟨rfl, Or.inl hp⟩,
    fun e he p kit hk => hrow _ p ⟨rfl, Or.inr ⟨e, he, kit, hk⟩⟩⟩

/-- A token is issued once, and not when it is in use. -/
theorem FreshTokens.issues_le (hf : FreshTokens reqs db)
    (h : (State.start db fun i => (reqs i).run o config).exec sched = some s)
    (hissued : ∀ e ∈ (State.start db fun i => (reqs i).run o config).history sched,
      TokenStep e.tag e.before e.after) (token : Uuid) :
    (((State.start db fun i => (reqs i).run o config).history sched).filter fun e =>
        ¬ (∃ p ∈ e.before.pendingRecoverySessions, p.token = token) ∧
          ∃ p ∈ e.after.pendingRecoverySessions, p.token = token).length +
      (if ∃ p ∈ db.pendingRecoverySessions, p.token = token then 1 else 0) ≤ 1 := by
  have hissue : ∀ e ∈ (State.start db fun i => (reqs i).run o config).history sched,
      (¬ (∃ p ∈ e.before.pendingRecoverySessions, p.token = token) ∧
        ∃ p ∈ e.after.pendingRecoverySessions, p.token = token) →
      (reqs e.proc).token = some token := by
    rintro e he ⟨hbefore, p, hp, htoken⟩
    rcases (hissued e he).issued p hp with hp | ⟨kit, hk⟩
    · exact (hbefore ⟨p, hp, htoken⟩).elim
    · rw [← htoken]
      exact (State.label_of_mem_history h ((reqs e.proc).labels o config) e he rfl).1 p kit hk
  by_cases hused : ∃ p ∈ db.pendingRecoverySessions, p.token = token
  · rw [if_pos hused, List.filter_eq_nil_iff.mpr]
    · exact le_rfl
    · intro e he hadds
      obtain ⟨p, hp, htoken⟩ := hused
      exact hf.unused _ _ (hissue e he (of_decide_eq_true hadds)) p hp htoken
  · rw [if_neg hused, Nat.add_zero]
    by_cases hreq : ∃ i, (reqs i).token = some token
    · obtain ⟨i, hi⟩ := hreq
      have honce := State.committedOnce h (commitsLast_of_token o config hi)
      refine le_trans ?_ honce.length_le
      simp only [← List.countP_eq_length_filter]
      refine List.countP_mono_left fun e he hadds => decide_eq_true ?_
      exact hf.distinct _ _ token (hissue e he (of_decide_eq_true hadds)) hi
    · rw [List.filter_eq_nil_iff.mpr]
      · exact Nat.zero_le _
      · intro e he hadds
        exact hreq ⟨_, hissue e he (of_decide_eq_true hadds)⟩

end Runs

/-- Account 1 with a kit whose key is all zeros. -/
private def withOldKit : Db where
  users := [{ id := 1, emailHash := "".pushn '0' 64, opaqueRecord := some [1]
              recoveryAuthHash := some (List.replicate 32 0), recoveryBlob := some []
              recoveryBlobIv := some [] }]

/-- Hashes are the keys themselves. -/
private def plainHash : Opaque where
  validRequest _ := true
  registrationStart request _ := some request
  registrationFinish := some
  proves _ _ _ := false
  srpVerify _ _ _ _ := false
  hashToken := id
  hashAuthKey := id

private def newKitKey : String := "AQAAAAAAAAAAAAAAAAAAAAAAAAAAAAAAAAAAAAAAAAA="

/-- A recovery with the old kit, and a replacement of the kit. -/
private def recoverAndReplace : Fin 3 → RecoveryRequest
  | 0 => .init { now := 0, id := 5 } ("".pushn '0' 64)
      "AAAAAAAAAAAAAAAAAAAAAAAAAAAAAAAAAAAAAAAAAAA="
  | 1 => .setRecovery ⟨1, ""⟩
      { recoveryAuthKey := newKitKey, recoveryBlob := "", recoveryBlobIv := "" }
  | 2 => .complete 0
      { recoveryToken := some 5, registrationRecord := some "Ag", srpSalt := none
        srpVerifier := none, protectedSymmetricKey := "", protectedSymmetricKeyIv := ""
        protectedPrivateKey := none, protectedPrivateKeyIv := none, wrappedAccountKey := some ""
        wrappedAccountKeyIv := some "", items := [], recoveryAuthKey := newKitKey
        recoveryBlob := "", recoveryBlobIv := "" }

private def kitState : State (Fin 3) Db RowId Tag ApiError Unit :=
  State.start withOldKit fun i => (recoverAndReplace i).run plainHash ⟨id⟩

/-- The recovery runs to its end, then the kit is replaced. -/
private def recoverThenReplace : List (Fin 3 × Act) :=
  Act.inTurn [(0, 5), (2, 16), (1, 5)]

/-- The kit is replaced after it was checked and before the token is stored. -/
private def replaceBetween : List (Fin 3 × Act) :=
  Act.inTurn [(0, 2), (1, 5), (0, 3), (2, 16)]

private theorem recoverAndReplace_fresh : FreshTokens recoverAndReplace withOldKit := by
  refine ⟨fun i j token hi hj => ?_, fun _ _ _ p hp => (List.not_mem_nil hp).elim,
    fun p hp => (List.not_mem_nil hp).elim⟩
  have honly : ∀ i, (recoverAndReplace i).token = some token → i = 0 := by
    intro i hi
    match i with
    | 0 => rfl
    | 1 => cases hi
    | 2 => cases hi
  rw [honly i hi, honly j hj]

/-- The token that the old kit issues. -/
private def oldToken : PendingRecoverySession where
  token := 5
  userId := 1
  createdAt := 0
  kit := List.replicate 32 0

end Nopass
