import Nopass.Server.Srp

/-!
# Handshakes and what they authorize

Two tables hold the handshakes of seven routes, and five routes finish them. A finish
deletes the row first and checks it afterwards. An OPAQUE row names what it was started
for; an SRP row does not, so a login may finish what an upgrade started. When every SRP
finish names a handshake of its own kind of start, each handshake authorizes at most one
finish, by its account, in time, with a valid proof and of its own kind.
-/

namespace Nopass

open ReadCommitted

/-- Requests of the login, proof, upgrade and password-change routes. -/
inductive HandshakeRequest where
  | loginStart (fresh : Fresh) (emailHash startLoginRequest : String)
  | loginFinish (fresh : Fresh) (loginId : Uuid) (finishLoginRequest : String)
      (deviceId : Option Uuid)
  | srpInit (fresh : SrpFresh) (emailHash clientPublicA : String)
  | srpVerify (fresh : Fresh) (sessionId : Uuid) (clientProofM1 : String) (deviceId : Option Uuid)
  | proofStart (fresh : Fresh) (auth : AuthUser) (emailHash startLoginRequest : String)
      (purpose : Purpose)
  | setAccountKey (now : Nat) (auth : AuthUser) (req : Auth.SetAccountKeyRequest)
  | setIdentity (now : Nat) (auth : AuthUser) (body : Keys.SetIdentityBody)
  | upgradeStart (fresh : SrpFresh) (auth : AuthUser) (req : Auth.UpgradeStartRequest)
  | upgradeFinish (now : Nat) (auth : AuthUser) (req : Auth.UpgradeFinishRequest)
  | passwordStart (fresh : Fresh) (auth : AuthUser) (req : Password.PasswordChangeStartRequest)
  | passwordFinish (now : Nat) (auth : AuthUser) (req : Password.PasswordChangeFinishRequest)

/-- The program of a request. It answers with the account of a finish; a start has none. -/
def HandshakeRequest.run (o : Opaque) (srp : Srp) (config : Config) :
    HandshakeRequest → Request (Option Uuid)
  | .loginStart fresh emailHash start => do
    let _ ← Auth.loginStart o config fresh emailHash start
    pure none
  | .loginFinish fresh loginId fin deviceId => do
    let response ← Auth.loginFinish o fresh loginId fin deviceId
    pure (some response.userId)
  | .srpInit fresh emailHash clientPublicA => do
    let _ ← Auth.srpInit srp config fresh emailHash clientPublicA
    pure none
  | .srpVerify fresh sessionId clientProofM1 deviceId => do
    let response ← Auth.srpVerify o fresh sessionId clientProofM1 deviceId
    pure (some response.userId)
  | .proofStart fresh auth emailHash start purpose => do
    let _ ← Proof.start o config fresh auth emailHash start purpose
    pure none
  | .setAccountKey now auth req => do
    Auth.setAccountKey o now auth req
    pure (some auth.userId)
  | .setIdentity now auth body => do
    Keys.setIdentity o now auth body
    pure (some auth.userId)
  | .upgradeStart fresh auth req => do
    let _ ← Auth.upgradeStart o srp config fresh auth req
    pure none
  | .upgradeFinish now auth req => do
    Auth.upgradeFinish o now auth req
    pure (some auth.userId)
  | .passwordStart fresh auth req => do
    let _ ← Password.start o config fresh auth req
    pure none
  | .passwordFinish now auth req => do
    Password.finish o now auth req
    pure (some auth.userId)

/-- The handshake that a request stores in the SRP table, and what for. -/
def HandshakeRequest.startsSrp : HandshakeRequest → Option (Uuid × SrpPurpose)
  | .srpInit fresh _ _ => some (fresh.id, .login)
  | .upgradeStart fresh _ _ => some (fresh.id, .upgrade)
  | _ => none

/-- The handshake that a request consumes from the SRP table, and what for. -/
def HandshakeRequest.finishesSrp : HandshakeRequest → Option (Uuid × SrpPurpose)
  | .srpVerify _ sessionId _ _ => some (sessionId, .login)
  | .upgradeFinish _ _ req => some (req.upgradeId, .upgrade)
  | _ => none

/-- Rows of the database that authorize something once. -/
def oneTimeRows (d : Db) : List OneTimeRow :=
  d.pendingOpaqueLogins.map .login ++ d.pendingSrpSessions.map .srp ++
    d.pendingRecoverySessions.map .recovery

/-- The primary key of such a row. -/
def OneTimeRow.key : OneTimeRow → RowId
  | .login p => .pendingOpaqueLogin p.id
  | .srp p => .pendingSrpSession p.id
  | .recovery p => .pendingRecoverySession p.token

/-- The row that a commit consumed, as its label tells. -/
def Tag.consumes : Tag → Option OneTimeRow
  | .consumed row => row
  | _ => none

/-- The rows that authorize something once, with their keys. -/
def oneTime : Collection Db RowId OneTimeRow where
  has d r := r ∈ oneTimeRows d
  key := OneTimeRow.key

/-- A handshake that proves the password of an account to an OPAQUE finish. -/
structure ProvedBy (o : Opaque) (now : Nat) (id : Uuid) (finishRequest : String)
    (purpose : Purpose) (userId : Uuid) (p : PendingOpaqueLogin) : Prop where
  /-- It is the one that the finish names. -/
  id_eq : p.id = id
  /-- It was started for the account of the finish. -/
  userId_eq : p.userId = some userId
  /-- It was started for this kind of finish. -/
  purpose_eq : p.purpose = purpose
  /-- It has not expired. -/
  inTime : now - p.createdAt ≤ opaqueLoginTtlSecs
  /-- The finalization proves the password of its record. -/
  proved : ∃ fin ∈ Base64.decodeUrl finishRequest, o.loginFinish p.serverState fin = true

/-- A handshake that proves the password of an account to an SRP finish, of whatever kind. -/
structure SrpProvedBy (o : Opaque) (now : Nat) (id : Uuid) (clientProofM1 : String)
    (userId : Uuid) (p : PendingSrpSession) : Prop where
  /-- It is the one that the finish names. -/
  id_eq : p.id = id
  /-- It was started for the account of the finish. -/
  userId_eq : p.userId = userId
  /-- It has not expired. -/
  inTime : now - p.createdAt ≤ srpSessionTtlSecs
  /-- The proof is valid for its verifier and ephemerals. -/
  proved : ∃ proof ∈ Base64.decode clientProofM1,
    o.srpVerify p.srpVerifier p.serverEphemeralB p.clientPublicA proof = true

/-- The row authorizes the finish of the account. -/
def HandshakeRequest.Authorizes (o : Opaque) : HandshakeRequest → OneTimeRow → Uuid → Prop
  | .loginFinish fresh id fin _, .login p, userId => ProvedBy o fresh.now id fin .login userId p
  | .srpVerify fresh id m1 _, .srp p, userId => SrpProvedBy o fresh.now id m1 userId p
  | .setAccountKey now auth req, .login p, userId => userId = auth.userId ∧
      ProvedBy o now req.proof.proofId req.proof.finishLoginRequest .accountKey userId p
  | .setIdentity now auth body, .login p, userId => userId = auth.userId ∧ ∃ proof ∈ body.proof,
      ProvedBy o now proof.proofId proof.finishLoginRequest .identityKey userId p
  | .upgradeFinish now auth req, .srp p, userId => userId = auth.userId ∧
      SrpProvedBy o now req.upgradeId req.clientProofM1 userId p
  | .passwordFinish now auth req, .login p, userId => userId = auth.userId ∧
      ProvedBy o now req.changeId req.finishLoginRequest .passwordChange userId p
  | _, _, _ => False

/-- What a request that answered `out` may have consumed: a start nothing, a finish one row that
authorizes it, or nothing when an identity key was published already. -/
def HandshakeRequest.Redeems (o : Opaque) (r : HandshakeRequest) (rows : List OneTimeRow) :
    Option Uuid → Prop
  | none => rows = []
  | some userId => (∃ row, rows = [row] ∧ r.Authorizes o row userId) ∨
      ((∃ now auth body, r = .setIdentity now auth body) ∧ rows = [])

/-- The SRP handshake was started for the kind of finish that consumes it. -/
def HandshakeRequest.OwnKind (r : HandshakeRequest) : OneTimeRow → Prop
  | .srp p => ∀ id purpose, r.finishesSrp = some (id, purpose) → p.startedFor = purpose
  | _ => True

/-- Every SRP finish names handshakes of its own kind of start. -/
def NamesOwnKind {I : Type} (reqs : I → HandshakeRequest) (db : Db) : Prop :=
  ∀ i id purpose, (reqs i).finishesSrp = some (id, purpose) →
    (∀ p ∈ db.pendingSrpSessions, p.id = id → p.startedFor = purpose) ∧
      ∀ j purpose', (reqs j).startsSrp = some (id, purpose') → purpose' = purpose

/-- A row is stored under the key. -/
def Stored (k : RowId) (d : Db) : Prop := ∃ row ∈ oneTimeRows d, row.key = k

instance (k : RowId) (d : Db) : Decidable (Stored k d) :=
  inferInstanceAs (Decidable (∃ row ∈ oneTimeRows d, row.key = k))

/-- A commit consumes the row under the key. -/
def Tag.ConsumesKey (k : RowId) (tag : Tag) : Prop := ∃ row ∈ tag.consumes, row.key = k

instance (k : RowId) (tag : Tag) : Decidable (tag.ConsumesKey k) :=
  inferInstanceAs (Decidable (∃ row ∈ tag.consumes, row.key = k))

section Runs

variable {I : Type} [Fintype I] [DecidableEq I]

/-- What holds of the handshakes of a run from `start` to `s`. -/
structure HandshakesHold (o : Opaque) (reqs : I → HandshakeRequest)
    (start : State I Db RowId Tag ApiError (Option Uuid)) (sched : List (I × Act))
    (s : State I Db RowId Tag ApiError (Option Uuid)) : Prop where
  /-- A request that answered consumed what authorizes it, of its own kind. -/
  redeems : ∀ i out, (s.procs i).prog = .ret out →
    (reqs i).Redeems o (start.taken Tag.consumes i sched) out ∧
      ∀ row ∈ start.taken Tag.consumes i sched, (reqs i).OwnKind row
  /-- A row was there when it was consumed, and is gone then. -/
  consumed : ∀ e ∈ start.history sched, ∀ row ∈ e.tag.consumes,
    row ∈ oneTimeRows e.before ∧ ¬ Stored row.key e.after
  /-- No more requests consume a row under a key than rows were stored under it. -/
  once : ∀ k, (Finset.univ.filter fun i =>
      ∃ row ∈ start.taken Tag.consumes i sched, row.key = k).card ≤
    ((start.history sched).filter fun e => ¬ Stored k e.before ∧ Stored k e.after).length +
      if Stored k start.db then 1 else 0

end Runs

/-- Sessions, accounts and devices are none of these rows. -/
theorem outside_users : Tables.users.Outside oneTime := fun _ _ _ => Iff.rfl

theorem outside_sessions : Tables.sessions.Outside oneTime := fun _ _ _ => Iff.rfl

theorem outside_devices : Tables.devices.Outside oneTime := fun _ _ _ => Iff.rfl

/-- The OPAQUE handshakes are among these rows. -/
theorem inside_logins : Tables.pendingOpaqueLogins.Inside oneTime .login where
  key _ := rfl
  of_key r row h := by
    cases r with
    | login p => exact ⟨p, rfl⟩
    | srp p => cases h
    | recovery p => cases h
  has_set rows d r := by
    cases r with
    | login p => simp [oneTime, oneTimeRows, Tables.pendingOpaqueLogins]
    | srp p => simp [oneTime, oneTimeRows, Tables.pendingOpaqueLogins]
    | recovery p => simp [oneTime, oneTimeRows, Tables.pendingOpaqueLogins]

/-- The SRP handshakes are among these rows. -/
theorem inside_srp : Tables.pendingSrpSessions.Inside oneTime .srp where
  key _ := rfl
  of_key r row h := by
    cases r with
    | login p => cases h
    | srp p => exact ⟨p, rfl⟩
    | recovery p => cases h
  has_set rows d r := by
    cases r with
    | login p => simp [oneTime, oneTimeRows, Tables.pendingSrpSessions]
    | srp p => simp [oneTime, oneTimeRows, Tables.pendingSrpSessions]
    | recovery p => simp [oneTime, oneTimeRows, Tables.pendingSrpSessions]

/-- The recovery tokens are among these rows. -/
theorem inside_recovery : Tables.pendingRecoverySessions.Inside oneTime .recovery where
  key _ := rfl
  of_key r row h := by
    cases r with
    | login p => cases h
    | srp p => cases h
    | recovery p => exact ⟨p, rfl⟩
  has_set rows d r := by
    cases r with
    | login p => simp [oneTime, oneTimeRows, Tables.pendingRecoverySessions]
    | srp p => simp [oneTime, oneTimeRows, Tables.pendingRecoverySessions]
    | recovery p => simp [oneTime, oneTimeRows, Tables.pendingRecoverySessions]

section Handles

variable {O : Type} {ok : OneTimeRow → Prop}

/-- A check handles no row. -/
theorem handles_require (cond : Bool) (e : ApiError) :
    (require cond e).Handles oneTime ok Tag.consumes :=
  (reads_require cond e).handles

/-- Storing an OPAQUE handshake. -/
theorem handles_insertOpaqueLogin {p : PendingOpaqueLogin} (hok : ok (.login p)) :
    (DbPending.insertOpaqueLogin p).Handles oneTime ok Tag.consumes :=
  (inside_logins.handles_insert hok _).bind fun _ =>
    (inside_logins.handles_delete _).bind fun _ => ⟨rfl, trivial⟩

/-- Starting a proof. -/
theorem handles_startProof (o : Opaque) (fresh : Fresh) (user : User) (start : String)
    (purpose : Purpose) (hlogin : ∀ p, ok (.login p)) :
    (Proof.startProof o fresh user start purpose).Handles oneTime ok Tag.consumes :=
  (reads_decodeOpaque _ _).handles.bind fun _ => (reads_okOr _ _).handles.bind fun _ =>
    (reads_okOr _ _).handles.bind fun _ =>
      (handles_insertOpaqueLogin (hlogin _)).bind fun _ => trivial

/-- Storing an SRP handshake. -/
theorem handles_insertSrp {p : PendingSrpSession} (hok : ok (.srp p)) :
    (DbPending.insertSrp p).Handles oneTime ok Tag.consumes :=
  (inside_srp.handles_insert hok _).bind fun _ =>
    (inside_srp.handles_delete _).bind fun _ => ⟨rfl, trivial⟩

/-- Dropping the handshakes of an account. -/
theorem handles_dropPendingLogins (userId : Uuid) :
    (DbAuth.dropPendingLogins userId).Handles oneTime ok Tag.consumes :=
  (inside_logins.handles_delete _).bind fun _ => (inside_srp.handles_delete _).bind fun _ => trivial

/-- Linking a device. -/
theorem handles_linkDevice (fresh : Fresh) (userId : Uuid) (deviceId : Option Uuid) :
    (Auth.linkDevice fresh userId deviceId).Handles oneTime ok Tag.consumes := by
  cases deviceId with
  | none => trivial
  | some deviceId =>
    refine Table.reads_select.handles.bind fun devices => Prog.Handles.ite ?_ trivial
    exact ((outside_devices.handles_update _ _ _).autocommit fun _ => rfl).bind fun _ => trivial

/-- Creating a session under a label that consumes nothing. -/
theorem handles_createSession {tag : Tag} (ht : tag.consumes = none) (id : Uuid) (now : Nat)
    (tokenHash : String) (userId : Uuid) (deviceId : Option Uuid) (proved : Option Bytes) :
    (DbSessions.createSession tag id now tokenHash userId deviceId proved).Handles oneTime ok
      Tag.consumes :=
  (outside_sessions.handles_insert _ _).autocommit fun _ => ht

/-- Creating a session for a user who proved the password. -/
theorem handles_issueSession (o : Opaque) {tag : Tag} (ht : tag.consumes = none) (fresh : Fresh)
    (user : User) (deviceId : Option Uuid) (proved : Option Bytes) :
    (Auth.issueSession o tag fresh user deviceId proved).Handles oneTime ok Tag.consumes := by
  refine (handles_linkDevice fresh user.id deviceId).bind fun deviceId => ?_
  refine fun d => (reads_okOr _ _).handles.bind fun vault => ?_
  exact (handles_createSession ht _ _ _ _ _ _).bind fun _ => trivial

/-- Setting the account key under a label that consumes nothing. -/
theorem handles_setAccountKey {tag : Tag} (ht : tag.consumes = none) (userId : Uuid)
    (wrapped : Bytes × Bytes) (privateKey : Option (String × String)) :
    (DbAuth.setAccountKey tag userId wrapped privateKey).Handles oneTime ok Tag.consumes := by
  refine ((outside_users.handles_update _ _ _).autocommit fun rows => ?_).bind fun _ => trivial
  split
  · rfl
  · exact ht

/-- Publishing an identity key under a label that consumes nothing. -/
theorem handles_setIdentity {tag : Tag} (ht : tag.consumes = none) (userId : Uuid)
    (identityPublicKey publicKeySignature : String) :
    (DbKeys.setIdentity tag userId identityPublicKey publicKeySignature).Handles oneTime ok
      Tag.consumes := by
  refine Prog.Handles.bind ((outside_users.handles_update _ _ _).autocommit fun rows => ?_)
    fun rows => Prog.Handles.ite trivial ((DbKeys.reads_getBundle userId).handles.bind fun key => ?_)
  · split
    · rfl
    · exact ht
  · cases key with
    | none => trivial
    | some key => trivial

/-- Replacing an SRP verifier. -/
theorem handles_completeSrpUpgrade (userId keepSession : Uuid) (record : Bytes)
    (wrapped : Bytes × Bytes) (privateKey : Option (String × String)) :
    (DbAuth.completeSrpUpgrade userId keepSession record wrapped privateKey).Handles oneTime ok
      Tag.consumes := by
  refine (outside_users.handles_update _ _ _).bind fun rows => Prog.Handles.ite trivial ?_
  refine (handles_dropPendingLogins userId).bind fun _ => ?_
  exact (outside_sessions.handles_delete _).bind fun _ => ⟨rfl, trivial⟩

/-- Round 1 of a login. -/
theorem handles_loginStart (o : Opaque) (config : Config) (fresh : Fresh)
    (emailHash start : String) (hlogin : ∀ p, ok (.login p)) :
    (Auth.loginStart o config fresh emailHash start).Handles oneTime ok Tag.consumes := by
  refine (reads_parseEmailHash _).handles.bind fun emailHash => ?_
  refine (reads_decodeOpaque _ _).handles.bind fun request => ?_
  refine (DbAuth.reads_findUser _ _).handles.bind fun user => ?_
  refine (reads_okOr _ _).handles.bind fun started => ?_
  exact (handles_insertOpaqueLogin (hlogin _)).bind fun _ => trivial

/-- Round 1 of an SRP login. -/
theorem handles_srpInit (srp : Srp) (config : Config) (fresh : SrpFresh)
    (emailHash clientPublicA : String)
    (hsrp : ∀ p : PendingSrpSession, p.id = fresh.id → p.startedFor = .login → ok (.srp p)) :
    (Auth.srpInit srp config fresh emailHash clientPublicA).Handles oneTime ok Tag.consumes := by
  refine (reads_parseEmailHash _).handles.bind fun emailHash => ?_
  refine (reads_decodeField _ _).handles.bind fun clientPublicA => ?_
  refine (handles_require _ _).bind fun _ => ?_
  refine (DbAuth.reads_findUser _ _).handles.bind fun user => ?_
  split
  · trivial
  · exact (handles_insertSrp (hsrp _ rfl rfl)).bind fun _ => trivial

/-- Round 1 of a password proof. -/
theorem handles_proofStart (o : Opaque) (config : Config) (fresh : Fresh) (auth : AuthUser)
    (emailHash start : String) (purpose : Purpose) (hlogin : ∀ p, ok (.login p)) :
    (Proof.start o config fresh auth emailHash start purpose).Handles oneTime ok Tag.consumes :=
  (Proof.reads_sessionUser _ _ _).handles.bind fun user =>
    handles_startProof o fresh user start purpose hlogin

/-- Round 1 of an upgrade. -/
theorem handles_upgradeStart (o : Opaque) (srp : Srp) (config : Config) (fresh : SrpFresh)
    (auth : AuthUser) (req : Auth.UpgradeStartRequest)
    (hsrp : ∀ p : PendingSrpSession, p.id = fresh.id → p.startedFor = .upgrade → ok (.srp p)) :
    (Auth.upgradeStart o srp config fresh auth req).Handles oneTime ok Tag.consumes := by
  refine (Proof.reads_sessionUser _ _ _).handles.bind fun user => ?_
  refine (reads_decodeField _ _).handles.bind fun clientPublicA => ?_
  refine (handles_require _ _).bind fun _ => (reads_decodeOpaque _ _).handles.bind fun request => ?_
  refine (reads_okOr _ _).handles.bind fun account => (reads_okOr _ _).handles.bind fun response => ?_
  exact (handles_insertSrp (hsrp _ rfl rfl)).bind fun _ => trivial

/-- Round 1 of a password change. -/
theorem handles_passwordStart (o : Opaque) (config : Config) (fresh : Fresh) (auth : AuthUser)
    (req : Password.PasswordChangeStartRequest) (hlogin : ∀ p, ok (.login p)) :
    (Password.start o config fresh auth req).Handles oneTime ok Tag.consumes := by
  refine (Proof.reads_requireRecentSession _ _ _ _).handles.bind fun _ => ?_
  refine (Proof.reads_sessionUser _ _ _).handles.bind fun user => ?_
  refine (reads_decodeOpaque _ _).handles.bind fun request => (reads_okOr _ _).handles.bind fun _ => ?_
  refine (reads_okOr _ _).handles.bind fun _ => ?_
  refine (handles_startProof o fresh user _ _ hlogin).bind fun _ => ?_
  exact (reads_okOr _ _).handles.bind fun _ => trivial

/-- A password change under a label that consumes nothing. -/
theorem handles_passwordRotation {tag : Tag} (ht : tag.consumes = none) (sessionId userId : Uuid)
    {rotation : DbRecovery.PasswordRotation} (hitems : rotation.reencryptedItems = none) :
    (DbRecovery.rotateMasterPassword tag (.session sessionId) userId rotation).Handles oneTime ok
      Tag.consumes := by
  refine (Table.handles_selectFor _ _).bind fun _ => ?_
  refine (outside_users.handles_update _ _ _).bind fun _ => ?_
  rw [hitems]
  refine (handles_dropPendingLogins userId).bind fun _ => ?_
  refine (inside_recovery.handles_delete _).bind fun _ => ?_
  exact (outside_sessions.handles_delete _).bind fun _ => ⟨ht, trivial⟩

end Handles

section Wp

variable {O : Type} {ok : OneTimeRow → Prop} {d : Db}

/-- Consuming an OPAQUE handshake, and going on with care. -/
theorem wp_takeOpaqueLogin_bind {id : Uuid}
    {f : Option (PendingOpaqueLogin × Option Bytes) → Request O}
    (hf : ∀ taken, (f taken).Handles oneTime ok Tag.consumes) :
    (oneTimeSpec oneTime ok Tag.consumes).wp (fun _ _ _ _ => True)
      (DbPending.takeOpaqueLogin id >>= f) [] (fun d => d) d := by
  refine wp_consume_bind (fun s n => inside_logins.careful_drop _ s n) (fun s n r hr => ?_) hf
  obtain ⟨t, ht, rfl⟩ := Option.map_eq_some_iff.mp hr
  obtain ⟨p, hp, rfl⟩ := Option.map_eq_some_iff.mp ht
  exact inside_logins.consumed (List.mem_of_head? hp)

/-- Consuming an SRP handshake, and going on with care. -/
theorem wp_takeSrp_bind {id : Uuid} {f : Option PendingSrpSession → Request O}
    (hf : ∀ taken, (f taken).Handles oneTime ok Tag.consumes) :
    (oneTimeSpec oneTime ok Tag.consumes).wp (fun _ _ _ _ => True)
      (DbPending.takeSrp id >>= f) [] (fun d => d) d := by
  rw [DbPending.takeSrp, bind_assoc]
  refine wp_consume_bind (fun s n => inside_srp.careful_drop _ s n) (fun s n r hr => ?_)
    fun rows => hf rows.head?
  obtain ⟨p, hp, rfl⟩ := Option.map_eq_some_iff.mp hr
  exact inside_srp.consumed (List.mem_of_head? hp)

/-- Redeeming a password proof, and going on with care under its label. -/
theorem wp_verifyPasswordProof_bind {o : Opaque} {now : Nat} {auth : AuthUser}
    {proof : Proof.PasswordProof} {purpose : Purpose} {f : Tag → Request O}
    (hd : ∀ r, oneTime.has d r → ok r)
    (hf : ∀ tag, tag.consumes = none → (f tag).Handles oneTime ok Tag.consumes) :
    (oneTimeSpec oneTime ok Tag.consumes).wp (fun _ _ _ _ => True)
      (Proof.verifyPasswordProof o now auth proof purpose >>= f) [] (fun d => d) d := by
  simp only [Proof.verifyPasswordProof, bind_assoc]
  refine Spec.wp_reads_bind (reads_decodeOpaque _ _) (fun _ => id) (fun fin d₁ _ => ?_) hd
  refine wp_takeOpaqueLogin_bind fun taken => (reads_okOr _ _).handles.bind fun t => ?_
  refine (handles_require _ _).bind fun _ => (handles_require _ _).bind fun _ => hf _ rfl

/-- Each request keeps the specification when the SRP handshake that it stores is acceptable. -/
theorem HandshakeRequest.valid (o : Opaque) (srp : Srp) (config : Config) (r : HandshakeRequest)
    (hlogin : ∀ p, ok (.login p))
    (hsrp : ∀ id purpose, r.startsSrp = some (id, purpose) →
      ∀ p : PendingSrpSession, p.id = id → p.startedFor = purpose → ok (.srp p)) :
    (oneTimeSpec oneTime ok Tag.consumes).Valid (r.run o srp config) fun _ _ => True := by
  intro d hd
  cases r with
  | loginStart fresh emailHash start =>
    refine Prog.Handles.wp ?_ Collection.careful_id
    exact (handles_loginStart o config fresh emailHash start hlogin).bind fun _ => trivial
  | loginFinish fresh loginId fin deviceId =>
    simp only [HandshakeRequest.run, Auth.loginFinish, bind_assoc]
    refine Spec.wp_reads_bind (reads_decodeOpaque _ _) (fun _ => id) (fun fin d₁ _ => ?_) hd
    refine wp_takeOpaqueLogin_bind fun taken => (reads_okOr _ _).handles.bind fun t => ?_
    refine (handles_require _ _).bind fun _ => (reads_okOr _ _).handles.bind fun userId => ?_
    refine (DbAuth.reads_getUserById _).handles.bind fun found => ?_
    refine (reads_okOr _ _).handles.bind fun user => ?_
    exact (handles_issueSession o rfl _ _ _ _).bind fun _ => trivial
  | srpInit fresh emailHash clientPublicA =>
    refine Prog.Handles.wp ?_ Collection.careful_id
    exact (handles_srpInit srp config fresh emailHash clientPublicA (hsrp _ _ rfl)).bind fun _ => trivial
  | srpVerify fresh sessionId clientProofM1 deviceId =>
    simp only [HandshakeRequest.run, Auth.srpVerify, bind_assoc]
    refine wp_takeSrp_bind fun taken => (reads_okOr _ _).handles.bind fun p => ?_
    refine (handles_require _ _).bind fun _ => (reads_decodeField _ _).handles.bind fun proof => ?_
    refine (DbAuth.reads_getUserById _).handles.bind fun found => ?_
    refine (reads_okOr _ _).handles.bind fun user => (handles_require _ _).bind fun _ => ?_
    exact (handles_issueSession o rfl _ _ _ _).bind fun _ => trivial
  | proofStart fresh auth emailHash start purpose =>
    refine Prog.Handles.wp ?_ Collection.careful_id
    exact (handles_proofStart o config fresh auth emailHash start purpose hlogin).bind fun _ => trivial
  | setAccountKey now auth req =>
    simp only [HandshakeRequest.run, Auth.setAccountKey, bind_assoc]
    refine Spec.wp_reads_bind (reads_decodeField _ _) (fun _ => id) (fun wrapped d₁ h₁ => ?_) hd
    refine Spec.wp_reads_bind (reads_decodeField _ _) (fun _ => id) (fun iv d₂ h₂ => ?_) h₁.inv
    refine Spec.wp_reads_bind (Auth.reads_privateKeyPair _ _) (fun _ => id)
      (fun privateKey d₃ h₃ => ?_) h₂.inv
    refine wp_verifyPasswordProof_bind h₃.inv fun tag ht => ?_
    refine (handles_setAccountKey ht _ _ _).bind fun done => (handles_require _ _).bind fun _ => ?_
    exact (DbAuth.reads_getUserById _).handles.bind fun user =>
      (reads_okOr _ _).handles.bind fun _ => trivial
  | setIdentity now auth body =>
    simp only [HandshakeRequest.run, Keys.setIdentity, bind_assoc]
    refine Spec.wp_reads_bind (reads_require _ _) (fun _ => id) (fun _ d₁ h₁ => ?_) hd
    refine Spec.wp_reads_bind (reads_require _ _) (fun _ => id) (fun _ d₂ h₂ => ?_) h₁.inv
    refine Spec.wp_reads_bind (DbKeys.reads_getBundle _) (fun _ => id) (fun current d₃ h₃ => ?_)
      h₂.inv
    by_cases hpublished : current.join.isSome
    · rw [Keys.proofOfFirst, if_pos hpublished]
      refine Prog.Handles.wp ?_ Collection.careful_id
      refine (handles_setIdentity rfl _ _ _).bind fun outcome => ?_
      cases outcome <;> trivial
    · rw [Keys.proofOfFirst, if_neg hpublished, bind_assoc]
      refine Spec.wp_reads_bind (reads_okOr _ _) (fun _ => id) (fun proof d₄ h₄ => ?_) h₃.inv
      refine wp_verifyPasswordProof_bind h₄.inv fun tag ht => ?_
      refine (handles_setIdentity ht _ _ _).bind fun outcome => ?_
      cases outcome <;> trivial
  | upgradeStart fresh auth req =>
    refine Prog.Handles.wp ?_ Collection.careful_id
    exact (handles_upgradeStart o srp config fresh auth req (hsrp _ _ rfl)).bind fun _ => trivial
  | upgradeFinish now auth req =>
    simp only [HandshakeRequest.run, Auth.upgradeFinish, bind_assoc]
    refine Spec.wp_reads_bind (reads_decodeField _ _) (fun _ => id) (fun m1 d₁ h₁ => ?_) hd
    refine Spec.wp_reads_bind (reads_decodeOpaque _ _) (fun _ => id) (fun upload d₂ h₂ => ?_) h₁.inv
    refine Spec.wp_reads_bind (reads_okOr _ _) (fun _ => id) (fun record d₃ h₃ => ?_) h₂.inv
    refine Spec.wp_reads_bind (reads_decodeField _ _) (fun _ => id) (fun wrapped d₄ h₄ => ?_) h₃.inv
    refine Spec.wp_reads_bind (reads_decodeField _ _) (fun _ => id) (fun iv d₅ h₅ => ?_) h₄.inv
    refine Spec.wp_reads_bind (Auth.reads_privateKeyPair _ _) (fun _ => id)
      (fun privateKey d₆ h₆ => ?_) h₅.inv
    refine wp_takeSrp_bind fun taken => (reads_okOr _ _).handles.bind fun p => ?_
    refine (handles_require _ _).bind fun _ => (DbAuth.reads_getUserById _).handles.bind fun found => ?_
    refine (reads_okOr _ _).handles.bind fun user => (handles_require _ _).bind fun _ => ?_
    refine (DbSessions.reads_findSessionByToken _ _).handles.bind fun found => ?_
    refine (reads_okOr _ _).handles.bind fun session => ?_
    exact (handles_completeSrpUpgrade _ _ _ _ _).bind fun _ => (handles_require _ _).bind fun _ =>
      trivial
  | passwordStart fresh auth req =>
    refine Prog.Handles.wp ?_ Collection.careful_id
    exact (handles_passwordStart o config fresh auth req hlogin).bind fun _ => trivial
  | passwordFinish now auth req =>
    simp only [HandshakeRequest.run, Password.finish, bind_assoc]
    refine Spec.wp_reads_bind (Proof.reads_requireRecentSession _ _ _ _) (fun _ => id)
      (fun sessionId d₁ h₁ => ?_) hd
    refine Spec.wp_reads_bind (reads_decodeOpaque _ _) (fun _ => id) (fun upload d₂ h₂ => ?_) h₁.inv
    refine Spec.wp_reads_bind (reads_okOr _ _) (fun _ => id) (fun record d₃ h₃ => ?_) h₂.inv
    refine Spec.wp_reads_bind (Recovery.reads_decodeB64 _ _) (fun _ => id)
      (fun wrapped d₄ h₄ => ?_) h₃.inv
    refine Spec.wp_reads_bind (Recovery.reads_decodeB64 _ _) (fun _ => id)
      (fun iv d₅ h₅ => ?_) h₄.inv
    refine wp_verifyPasswordProof_bind h₅.inv fun tag ht => ?_
    exact (handles_passwordRotation ht _ _ rfl).bind fun _ => trivial

end Wp

section Yields

variable {O : Type} {P : List OneTimeRow → O → Prop} {o : Opaque}

/-- What handles rows with care consumes nothing. -/
theorem yields_bind_of_handles {O' : Type} {rs : List OneTimeRow} {prog : Request O'}
    {f : O' → Request O} (h : prog.Handles oneTime (fun _ => True) Tag.consumes)
    (hf : ∀ out, (f out).Yields Tag.consumes P rs) : (prog >>= f).Yields Tag.consumes P rs :=
  h.labels.yields_bind hf

/-- Consuming an OPAQUE handshake yields the one with the given id. -/
theorem yields_takeOpaqueLogin_bind {id : Uuid}
    {f : Option (PendingOpaqueLogin × Option Bytes) → Request O}
    (hf : ∀ taken, (∀ t ∈ taken, t.1.id = id) →
      (f taken).Yields Tag.consumes P (taken.map fun t => .login t.1).toList) :
    (DbPending.takeOpaqueLogin id >>= f).Yields Tag.consumes P [] :=
  fun _ _ => hf _ fun _ ht => (DbPending.mem_taken ht).2.1

/-- Consuming an SRP handshake yields the one with the given id. -/
theorem yields_takeSrp_bind {id : Uuid} {f : Option PendingSrpSession → Request O}
    (hf : ∀ taken, (∀ p ∈ taken, p.id = id) →
      (f taken).Yields Tag.consumes P (taken.map .srp).toList) :
    (DbPending.takeSrp id >>= f).Yields Tag.consumes P [] := by
  rw [DbPending.takeSrp, bind_assoc]
  intro s n
  refine hf _ fun p hp => ?_
  exact of_decide_eq_true ((Tables.pendingSrpSessions.mem_hits).mp (List.mem_of_head? hp)).2.2

/-- A proof that was redeemed is of the session's account, for the purpose, in time and valid. -/
theorem yields_verifyPasswordProof_bind {now : Nat} {auth : AuthUser} {proof : Proof.PasswordProof}
    {purpose : Purpose} {f : Tag → Request O}
    (hf : ∀ tag p, tag.consumes = none →
      ProvedBy o now proof.proofId proof.finishLoginRequest purpose auth.userId p →
        (f tag).Yields Tag.consumes P [.login p]) :
    (Proof.verifyPasswordProof o now auth proof purpose >>= f).Yields Tag.consumes P [] := by
  simp only [Proof.verifyPasswordProof, bind_assoc]
  refine yields_okOr_bind fun fin hfin => yields_takeOpaqueLogin_bind fun taken hid => ?_
  refine yields_okOr_bind fun t ht => yields_require_bind fun httl => ?_
  refine yields_require_bind fun hproved => ?_
  obtain ⟨htaken, hcond⟩ := Option.filter_eq_some_iff.mp ht
  obtain ⟨huser, hpurpose⟩ := Bool.and_eq_true_iff.mp hcond
  rw [htaken]
  exact hf _ t.1 rfl ⟨hid t htaken, of_decide_eq_true huser, of_decide_eq_true hpurpose,
    of_decide_eq_true httl, fin, hfin, hproved⟩

/-- A session is created for the user who proved the password. -/
theorem yields_issueSession_bind {tag : Tag} (ht : tag.consumes = none) {fresh : Fresh}
    {user : User} {deviceId : Option Uuid} {proved : Option Bytes} {rs : List OneTimeRow}
    {f : LoginResponse → Request O}
    (hf : ∀ response, response.userId = user.id → (f response).Yields Tag.consumes P rs) :
    (Auth.issueSession o tag fresh user deviceId proved >>= f).Yields Tag.consumes P rs := by
  simp only [Auth.issueSession, bind_assoc]
  refine yields_bind_of_handles (handles_linkDevice fresh user.id deviceId) fun deviceId => ?_
  refine fun d => yields_okOr_bind fun vault _ => ?_
  exact yields_bind_of_handles (handles_createSession ht _ _ _ _ _ _) fun _ => hf _ rfl

/-- The account of an id. -/
theorem yields_getUserById_bind {userId : Uuid} {rs : List OneTimeRow} {e : ApiError}
    {f : User → Request O}
    (hf : ∀ user, user.id = userId → (f user).Yields Tag.consumes P rs) :
    (DbAuth.getUserById userId >>= fun found => okOr e found >>= f).Yields Tag.consumes P rs :=
  fun _ => yields_okOr_bind fun user huser => hf user (id_of_mem_userOf huser)

/-- What a request that answers has consumed. -/
theorem HandshakeRequest.yields (o : Opaque) (srp : Srp) (config : Config) (r : HandshakeRequest) :
    (r.run o srp config).Yields Tag.consumes (r.Redeems o) [] := by
  cases r with
  | loginStart fresh emailHash start =>
    exact yields_bind_of_handles
      (handles_loginStart o config fresh emailHash start fun _ => trivial) fun _ => rfl
  | loginFinish fresh loginId fin deviceId =>
    simp only [HandshakeRequest.run, Auth.loginFinish, bind_assoc]
    refine yields_okOr_bind fun f hf => yields_takeOpaqueLogin_bind fun taken hid => ?_
    refine yields_okOr_bind fun t ht => yields_require_bind fun httl => ?_
    refine yields_okOr_bind fun userId huser => yields_getUserById_bind fun user huserId => ?_
    refine yields_issueSession_bind rfl fun response hresponse => ?_
    obtain ⟨htaken, hpurpose⟩ := Option.filter_eq_some_iff.mp ht
    obtain ⟨hstored, hproved⟩ := Option.filter_eq_some_iff.mp huser
    rw [htaken]
    refine .inl ⟨.login t.1, rfl, hid t htaken, ?_, of_decide_eq_true hpurpose,
      of_decide_eq_true httl, f, hf, hproved⟩
    rw [hresponse, huserId]
    exact hstored
  | srpInit fresh emailHash clientPublicA =>
    exact yields_bind_of_handles
      (handles_srpInit srp config fresh emailHash clientPublicA fun _ _ _ => trivial) fun _ => rfl
  | srpVerify fresh sessionId clientProofM1 deviceId =>
    simp only [HandshakeRequest.run, Auth.srpVerify, bind_assoc]
    refine yields_takeSrp_bind fun taken hid => yields_okOr_bind fun p hp => ?_
    refine yields_require_bind fun httl => yields_okOr_bind fun proof hproof => ?_
    refine yields_getUserById_bind fun user huserId => yields_require_bind fun hproved => ?_
    refine yields_issueSession_bind rfl fun response hresponse => ?_
    rw [Option.mem_def.mp hp]
    refine .inl ⟨.srp p, rfl, hid p hp, ?_, of_decide_eq_true httl, proof, hproof, hproved⟩
    rw [hresponse, huserId]
  | proofStart fresh auth emailHash start purpose =>
    exact yields_bind_of_handles
      (handles_proofStart o config fresh auth emailHash start purpose fun _ => trivial) fun _ => rfl
  | setAccountKey now auth req =>
    simp only [HandshakeRequest.run, Auth.setAccountKey, bind_assoc]
    refine yields_okOr_bind fun wrapped _ => yields_okOr_bind fun iv _ => ?_
    refine (Auth.reads_privateKeyPair _ _).yields_bind fun privateKey => ?_
    refine yields_verifyPasswordProof_bind fun tag p ht hp => ?_
    refine yields_bind_of_handles (handles_setAccountKey ht _ _ _) fun done => ?_
    refine yields_require_bind fun _ => yields_getUserById_bind fun user _ => ?_
    exact .inl ⟨.login p, rfl, rfl, hp⟩
  | setIdentity now auth body =>
    simp only [HandshakeRequest.run, Keys.setIdentity, bind_assoc]
    refine yields_require_bind fun _ => yields_require_bind fun _ => ?_
    refine (DbKeys.reads_getBundle _).yields_bind fun current => ?_
    by_cases hpublished : current.join.isSome
    · rw [Keys.proofOfFirst, if_pos hpublished, pure_bind]
      refine yields_bind_of_handles (handles_setIdentity rfl _ _ _) fun outcome => ?_
      cases outcome with
      | stored => exact .inr ⟨⟨now, auth, body, rfl⟩, rfl⟩
      | unchanged => exact .inr ⟨⟨now, auth, body, rfl⟩, rfl⟩
      | conflict => trivial
      | noPublicKey => trivial
    · rw [Keys.proofOfFirst, if_neg hpublished, bind_assoc]
      refine yields_okOr_bind fun proof hproof => ?_
      refine yields_verifyPasswordProof_bind fun tag p ht hp => ?_
      refine yields_bind_of_handles (handles_setIdentity ht _ _ _) fun outcome => ?_
      cases outcome with
      | stored => exact .inl ⟨.login p, rfl, rfl, proof, hproof, hp⟩
      | unchanged => exact .inl ⟨.login p, rfl, rfl, proof, hproof, hp⟩
      | conflict => trivial
      | noPublicKey => trivial
  | upgradeStart fresh auth req =>
    exact yields_bind_of_handles
      (handles_upgradeStart o srp config fresh auth req fun _ _ _ => trivial) fun _ => rfl
  | upgradeFinish now auth req =>
    simp only [HandshakeRequest.run, Auth.upgradeFinish, bind_assoc]
    refine yields_okOr_bind fun m1 hm1 => yields_okOr_bind fun upload _ => ?_
    refine yields_okOr_bind fun record _ => yields_okOr_bind fun wrapped _ => ?_
    refine yields_okOr_bind fun iv _ => ?_
    refine (Auth.reads_privateKeyPair _ _).yields_bind fun privateKey => ?_
    refine yields_takeSrp_bind fun taken hid => yields_okOr_bind fun p hp => ?_
    refine yields_require_bind fun httl => yields_getUserById_bind fun user huserId => ?_
    refine yields_require_bind fun hproved => fun d => yields_okOr_bind fun session _ => ?_
    refine yields_bind_of_handles (handles_completeSrpUpgrade _ _ _ _ _) fun upgraded => ?_
    refine yields_require_bind fun _ => ?_
    obtain ⟨htaken, hcond⟩ := Option.filter_eq_some_iff.mp hp
    rw [htaken]
    exact .inl ⟨.srp p, rfl, rfl, hid p htaken, of_decide_eq_true hcond, of_decide_eq_true httl,
      m1, hm1, hproved⟩
  | passwordStart fresh auth req =>
    exact yields_bind_of_handles
      (handles_passwordStart o config fresh auth req fun _ => trivial) fun _ => rfl
  | passwordFinish now auth req =>
    simp only [HandshakeRequest.run, Password.finish, bind_assoc]
    refine (Proof.reads_requireRecentSession _ _ _ _).yields_bind fun sessionId => ?_
    refine yields_okOr_bind fun upload _ => yields_okOr_bind fun record _ => ?_
    refine yields_okOr_bind fun wrapped _ => yields_okOr_bind fun iv _ => ?_
    refine yields_verifyPasswordProof_bind fun tag p ht hp => ?_
    exact yields_bind_of_handles (handles_passwordRotation ht _ _ rfl) fun _ =>
      .inl ⟨.login p, rfl, rfl, hp⟩

end Yields

section Runs

variable {I : Type} [Fintype I] [DecidableEq I]

/-- An SRP handshake that authorizes a finish is the one that the finish names. -/
theorem HandshakeRequest.id_of_authorizes {o : Opaque} {r : HandshakeRequest} {userId id : Uuid}
    {p : PendingSrpSession} {purpose : SrpPurpose} (h : r.Authorizes o (.srp p) userId)
    (hf : r.finishesSrp = some (id, purpose)) : p.id = id := by
  cases r with
  | srpVerify fresh sessionId m1 deviceId =>
    cases hf
    exact h.id_eq
  | upgradeFinish now auth req =>
    cases hf
    exact h.2.id_eq
  | _ => cases hf

/-- An SRP handshake is of the kind of every finish that names it. -/
def OfKind (reqs : I → HandshakeRequest) : OneTimeRow → Prop
  | .srp p => ∀ i id purpose, (reqs i).finishesSrp = some (id, purpose) → p.id = id →
      p.startedFor = purpose
  | _ => True

omit [Fintype I] [DecidableEq I] in
/-- A successful finish consumed a handshake of its own kind. -/
theorem ownKind_of_redeems {o : Opaque} {reqs : I → HandshakeRequest} {i : I}
    {rows : List OneTimeRow} {out : Option Uuid} (h : (reqs i).Redeems o rows out)
    (hkind : ∀ row ∈ rows, OfKind reqs row) : ∀ row ∈ rows, (reqs i).OwnKind row := by
  cases out with
  | none =>
    rw [show rows = [] from h]
    exact fun row hrow => (List.not_mem_nil hrow).elim
  | some userId =>
    rcases h with ⟨row, rfl, hauth⟩ | ⟨-, rfl⟩
    · intro row' hrow'
      cases List.mem_singleton.mp hrow'
      cases row with
      | srp p =>
        intro id purpose hf
        exact hkind _ List.mem_cons_self i id purpose hf (HandshakeRequest.id_of_authorizes hauth hf)
      | login p => trivial
      | recovery p => trivial
    · exact fun row hrow => (List.not_mem_nil hrow).elim

end Runs

/-- Account 1 on SRP with the verifier 1 and one vault. -/
private def onSrp : Db where
  users := [{ id := 1, emailHash := "".pushn '0' 64, srpSalt := some [], srpVerifier := some [1] }]
  vaults := [{ id := 10, userId := 1, nameBlob := [], nameIv := [], createdAt := 0 }]

/-- A proof shows the verifier. -/
private def shownVerifier : Opaque where
  validRequest _ := true
  registrationStart request _ := some request
  registrationFinish := some
  proves _ _ _ := false
  srpVerify verifier _ _ proof := decide (proof = verifier)
  hashToken := id
  hashAuthKey := id

private def plainSrp : Srp where
  publicEphemeral _ _ := []
  fakeSrpSalt _ := []

/-- An SRP login finishes the handshake 5, which `start` stores. -/
private def startAndVerify (start : HandshakeRequest) : Fin 2 → HandshakeRequest
  | 0 => start
  | 1 => .srpVerify { now := 0, id := 6 } 5 "AQ==" none

private def ownStart : HandshakeRequest :=
  .srpInit { now := 0, id := 5, secret := [], fakeVerifier := [] } ("".pushn '0' 64) "AQ=="

private def otherStart : HandshakeRequest :=
  .upgradeStart { now := 0, id := 5, secret := [], fakeVerifier := [] } ⟨1, ""⟩
    { emailHash := "".pushn '0' 64, clientPublicA := "AQ==", registrationRequest := "" }

private def srpState (start : HandshakeRequest) :
    State (Fin 2) Db RowId Tag ApiError (Option Uuid) :=
  State.start onSrp fun i => (startAndVerify start i).run shownVerifier plainSrp ⟨id⟩

/-- Both rounds to their ends. -/
private def bothRounds : List (Fin 2 × Act) :=
  Act.inTurn [(0, 6), (1, 8)]

end Nopass
