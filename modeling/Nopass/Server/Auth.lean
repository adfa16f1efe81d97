import Nopass.Server.Orgs
import Nopass.Server.Vaults

/-!
# Logins and password proofs

An OPAQUE login has two requests. The first reads the account's record, computes the
handshake from it and stores it; the second consumes the handshake, checks the proof
and creates a session. A password proof inside a session works the same way and
authorizes one write. The OPAQUE library is a parameter; the throttle and the
activity log are left out.
-/

namespace Nopass

open ReadCommitted

/-- What the login routes take from the password protocols and the configuration. -/
structure Opaque where
  /-- Whether a login request can be answered. -/
  validRequest : Bytes → Bool
  /-- Answer to a registration request for an email hash. -/
  registrationStart : Bytes → String → Option Bytes
  /-- The password file of a registration upload. -/
  registrationFinish : Bytes → Option Bytes
  /-- A finalization that proves the password of a record, for an answered request. -/
  proves : Bytes → Bytes → Bytes → Bool
  /-- `srp_server_verify`: verifier, server ephemeral, client public value, proof. -/
  srpVerify : Bytes → Bytes → Bytes → Bytes → Bool
  /-- Hash of a session token. -/
  hashToken : String → String
  /-- Hash of a recovery kit's authentication key. -/
  hashAuthKey : Bytes → Bytes

/-- `opaque::login_start`. -/
def Opaque.loginStart (o : Opaque) (record : Option Bytes) (request : Bytes) :
    Option ServerState :=
  if o.validRequest request then some { record := record, request := request } else none

/-- `opaque::login_finish`: exactly a proof of the password of the record is accepted. -/
def Opaque.loginFinish (o : Opaque) (s : ServerState) (finalization : Bytes) : Bool :=
  s.record.any fun record => o.proves finalization record s.request

/-- An accepted proof is for a handshake with a record. -/
theorem Opaque.isSome_of_loginFinish {o : Opaque} {s : ServerState} {finalization : Bytes}
    (h : o.loginFinish s finalization = true) : s.record.isSome := by
  unfold loginFinish at h
  cases hr : s.record with
  | none => simp [hr] at h
  | some record => rfl

/-- The account of a session token. -/
structure AuthUser where
  userId : Uuid
  rawToken : String

/-- Seconds that a handshake stays valid. -/
def opaqueLoginTtlSecs : Nat := 300

/-- Seconds that an SRP handshake stays valid. -/
def srpSessionTtlSecs : Nat := 300

/-- Oldest session that may change the password, in seconds. -/
def passwordChangeMaxSessionAgeSecs : Nat := 15 * 60

/-- Login handshakes kept per account. -/
def maxPendingLoginsPerAccount : Nat := 5

namespace DbAuth

/-- `find_user`: the keyed row of an email hash, else the row not yet rekeyed. -/
def findUser (accountKey emailHash : String) : Request (Option User) :=
  .select fun d => .ret <|
    (d.users.find? fun u => decide (u.emailHash = accountKey) && u.emailHashKeyed) <|>
      (d.users.find? fun u => decide (u.emailHash = emailHash) && !u.emailHashKeyed)

/-- `get_user_by_id`. -/
def getUserById (userId : Uuid) : Request (Option User) :=
  .select fun d => .ret (d.users.find? fun u => u.id = userId)

@[simp] theorem reads_findUser (accountKey emailHash : String) :
    (findUser accountKey emailHash).Reads := fun _ => trivial

@[simp] theorem reads_getUserById (userId : Uuid) : (getUserById userId).Reads :=
  fun _ => trivial

/-- The row of one account. -/
def isUser (userId : Uuid) (_ : Db) (u : User) : Bool := u.id = userId

/-- The account with a wrapped account key and, when given, a new private key wrap. -/
def setKeys (wrapped : Bytes × Bytes) (privateKey : Option (String × String)) (u : User) : User :=
  { u with
    wrappedAccountKey := some wrapped.1
    wrappedAccountKeyIv := some wrapped.2
    protectedPrivateKey := (privateKey.map (·.1)) <|> u.protectedPrivateKey
    protectedPrivateKeyIv := (privateKey.map (·.2)) <|> u.protectedPrivateKeyIv }

/-- `set_account_key`: only an account without a wrapped account key gets one. -/
def setAccountKey (tag : Tag) (userId : Uuid) (wrapped : Bytes × Bytes)
    (privateKey : Option (String × String)) : Request Bool := do
  let rows ← autocommit (Tables.users.update
    (fun d u => isUser userId d u && u.wrappedAccountKey.isNone) (setKeys wrapped privateKey))
    fun rows => if rows.isEmpty then .plain else tag
  pure (decide (rows.length = 1))

/-- `drop_pending_logins`. -/
def dropPendingLogins (userId : Uuid) : Request Unit := do
  let _ ← Tables.pendingOpaqueLogins.delete fun _ p => p.userId = some userId
  let _ ← Tables.pendingSrpSessions.delete fun _ p => p.userId = userId

/-- The account with an OPAQUE record and a wrapped account key in place of its SRP verifier. -/
def upgrade (record : Bytes) (wrapped : Bytes × Bytes) (privateKey : Option (String × String))
    (u : User) : User :=
  { setKeys wrapped privateKey u with
    opaqueRecord := some record
    srpSalt := none
    srpVerifier := none }

/-- `complete_srp_upgrade`. -/
def completeSrpUpgrade (userId keepSession : Uuid) (record : Bytes) (wrapped : Bytes × Bytes)
    (privateKey : Option (String × String)) : Request Bool := do
  let rows ← Tables.users.update (fun d u => isUser userId d u && u.srpVerifier.isSome)
    (upgrade record wrapped privateKey)
  if rows.length ≠ 1 then .rollback (pure false) else do
  dropPendingLogins userId
  let _ ← Tables.sessions.delete fun _ s =>
    decide (s.userId = userId) && decide (s.id ≠ keepSession)
  .commit .plain (.ret true)

end DbAuth

namespace DbKeys

/-- Outcomes of publishing an identity key. -/
inductive SetIdentityOutcome where
  | stored
  | unchanged
  | conflict
  | noPublicKey
  deriving DecidableEq, Repr

/-- The published identity key of an account that has a public key. -/
def getBundle (userId : Uuid) : Request (Option (Option String)) :=
  .select fun d => .ret <|
    (d.users.find? fun u => decide (u.id = userId) && u.publicKey.isSome).map
      (·.identityPublicKey)

@[simp] theorem reads_getBundle (userId : Uuid) : (getBundle userId).Reads := fun _ => trivial

/-- The account with its identity key. -/
def publish (identityPublicKey publicKeySignature : String) (u : User) : User :=
  { u with identityPublicKey := some identityPublicKey
           publicKeySignature := some publicKeySignature }

/-- `set_identity`: the key is stored once. -/
def setIdentity (tag : Tag) (userId : Uuid) (identityPublicKey publicKeySignature : String) :
    Request SetIdentityOutcome := do
  let rows ← autocommit (Tables.users.update
    (fun d u => DbAuth.isUser userId d u && u.publicKey.isSome && u.identityPublicKey.isNone)
    (publish identityPublicKey publicKeySignature))
    fun rows => if rows.isEmpty then .plain else tag
  if rows.length = 1 then pure .stored else do
  match ← getBundle userId with
  | none => pure .noPublicKey
  | some key => pure (if key = some identityPublicKey then .unchanged else .conflict)

end DbKeys

namespace DbSessions

/-- `create_session`; the id, the raw token and the time are chosen by the server. `proved` is
the record whose password was proved. -/
def createSession (tag : Tag) (id : Uuid) (now : Nat) (tokenHash : String) (userId : Uuid)
    (deviceId : Option Uuid) (proved : Option Bytes) : Request Unit :=
  autocommit (Tables.sessions.insert
    { id := id, userId := userId, deviceId := deviceId, tokenHash := tokenHash, createdAt := now,
      expiresAt := now + 30 * 24 * 3600, provedRecord := proved }
    (userRef userId :: deviceId.toList.map deviceRef)) fun _ => tag

/-- `find_session_by_token`. -/
def findSessionByToken (now : Nat) (tokenHash : String) : Request (Option Session) :=
  .select fun d => .ret <|
    d.sessions.find? fun s => decide (s.tokenHash = tokenHash) && decide (now < s.expiresAt)

@[simp] theorem reads_findSessionByToken (now : Nat) (tokenHash : String) :
    (findSessionByToken now tokenHash).Reads := fun _ => trivial

end DbSessions

namespace DbPending

/-- The newest handshakes of an account, which an insert keeps. -/
def newest (accountKey : String) (d : Db) : List Uuid :=
  (((d.pendingOpaqueLogins.filter fun p => p.accountKey = accountKey).insertionSort
    fun a b => b.createdAt ≤ a.createdAt).take maxPendingLoginsPerAccount).map (·.id)

/-- `insert_opaque_login`. -/
def insertOpaqueLogin (p : PendingOpaqueLogin) : Request Unit := do
  Tables.pendingOpaqueLogins.insert p (p.userId.toList.map userRef)
  let _ ← Tables.pendingOpaqueLogins.delete fun d q =>
    decide (q.accountKey = p.accountKey) && decide (q.id ∉ newest p.accountKey d)
  .commit (.handshake p.userId p.serverState.record) (.ret ())

/-- The handshake with this id. -/
def isLogin (id : Uuid) (_ : Db) (p : PendingOpaqueLogin) : Bool := p.id = id

/-- The OPAQUE record of an account. -/
def recordOf (userId : Option Uuid) (d : Db) : Option Bytes :=
  userId.bind fun userId => (d.users.find? fun u => u.id = userId).bind (·.opaqueRecord)

/-- The handshake that a statement with snapshot `s` and newest rows `n` consumes, and the record
that its account has then. -/
def taken (id : Uuid) (s n : Db) : Option (PendingOpaqueLogin × Option Bytes) :=
  (Tables.pendingOpaqueLogins.hits (isLogin id) s n).head?.map fun p => (p, recordOf p.userId n)

/-- A consumed handshake was stored under its id. -/
theorem mem_taken {id : Uuid} {s n : Db} {t : PendingOpaqueLogin × Option Bytes}
    (h : t ∈ taken id s n) :
    t.1 ∈ n.pendingOpaqueLogins ∧ t.1.id = id ∧ t.2 = recordOf t.1.userId n := by
  obtain ⟨p, hp, rfl⟩ := Option.map_eq_some_iff.mp h
  obtain ⟨hn, _, hc⟩ := (Tables.pendingOpaqueLogins.mem_hits).mp (List.mem_of_head? hp)
  exact ⟨hn, of_decide_eq_true hc, rfl⟩

/-- `take_opaque_login`: consume the handshake atomically. The record of its account comes along
for the labels of later commits. -/
def takeOpaqueLogin (id : Uuid) : Request (Option (PendingOpaqueLogin × Option Bytes)) := do
  autocommit (.stmt (Tables.pendingOpaqueLogins.locked (isLogin id) .update)
    (fun s n => Tables.pendingOpaqueLogins.drop
      ((Tables.pendingOpaqueLogins.hits (isLogin id) s n).map Tables.pendingOpaqueLogins.key))
    fun s n => .ret (taken id s n)) fun taken => .consumed (taken.map fun t => .login t.1)

/-- The SRP handshake with this id. -/
def isSrp (id : Uuid) (_ : Db) (p : PendingSrpSession) : Bool := p.id = id

/-- `take_srp`: consume the handshake atomically. -/
def takeSrp (id : Uuid) : Request (Option PendingSrpSession) := do
  let rows ← autocommit (Tables.pendingSrpSessions.delete (isSrp id))
    fun rows => .consumed (rows.head?.map .srp)
  pure rows.head?

end DbPending

/-- What an unauthenticated client learns of a failed login. -/
def authFailed : ApiError := .unauthorized "authentication failed"

/-- The lower-case hex SHA-256 of an email. -/
def parseEmailHash (emailHash : String) : Request String :=
  if emailHash.length = 64 ∧ emailHash.toList.all fun c =>
      ('0' ≤ c ∧ c ≤ '9') ∨ ('a' ≤ c ∧ c ≤ 'f') ∨ ('A' ≤ c ∧ c ≤ 'F') then
    pure (emailHash.map Char.toLower)
  else refuse (.badRequest "emailHash must be 64 hex characters")

/-- Decode a base64url field. -/
def decodeOpaque (text field : String) : Request Bytes :=
  okOr (.badRequest ("invalid " ++ field ++ " base64url")) (Base64.decodeUrl text)

@[simp] theorem reads_parseEmailHash (emailHash : String) : (parseEmailHash emailHash).Reads := by
  unfold parseEmailHash
  split <;> trivial

@[simp] theorem reads_decodeOpaque (text field : String) : (decodeOpaque text field).Reads :=
  reads_okOr ..

/-- The account part of a login response, in base64. -/
structure LoginResponse where
  sessionToken : String
  userId : Uuid
  defaultVaultId : Uuid
  protectedSymmetricKey : String
  protectedSymmetricKeyIv : String
  protectedPrivateKey : Option String
  protectedPrivateKeyIv : Option String
  wrappedAccountKey : Option String
  wrappedAccountKeyIv : Option String
  deriving DecidableEq, Repr

/-- What the server picks for a request: the time, fresh ids and the raw token. -/
structure Fresh where
  now : Nat
  id : Uuid
  rawToken : String := ""

namespace Auth

/-- Link a session to the account's device; unknown devices are ignored. -/
def linkDevice (fresh : Fresh) (userId : Uuid) : Option Uuid → Request (Option Uuid)
  | none => pure none
  | some deviceId => do
    let devices ← Tables.devices.select fun _ v => v.userId = userId
    if devices.any fun v => v.id = deviceId then
      let _ ← autocommit (Tables.devices.update (fun _ v => v.id = deviceId)
        fun v => { v with lastSeenAt := some fresh.now }) fun _ => .plain
      pure (some deviceId)
    else pure none

/-- The refusal of a login to an account without a vault. -/
def noVault : ApiError := .internal "no vault found for user"

/-- The answer to a login. -/
def loginResponse (rawToken : String) (user : User) (vaultId : Uuid) : LoginResponse where
  sessionToken := rawToken
  userId := user.id
  defaultVaultId := vaultId
  protectedSymmetricKey := Base64.encode user.protectedSymmetricKey
  protectedSymmetricKeyIv := Base64.encode user.protectedSymmetricKeyIv
  protectedPrivateKey := user.protectedPrivateKey
  protectedPrivateKeyIv := user.protectedPrivateKeyIv
  wrappedAccountKey := user.wrappedAccountKey.map Base64.encode
  wrappedAccountKeyIv := user.wrappedAccountKeyIv.map Base64.encode

/-- Create a session for a user who just proved the password of `proved`. -/
def issueSession (o : Opaque) (tag : Tag) (fresh : Fresh) (user : User) (deviceId : Option Uuid)
    (proved : Option Bytes) : Request LoginResponse := do
  let deviceId ← linkDevice fresh user.id deviceId
  let vaults ← DbVaults.listVaultsForUser user.id
  let vault ← okOr noVault vaults.head?
  DbSessions.createSession tag fresh.id fresh.now (o.hashToken fresh.rawToken) user.id deviceId
    proved
  pure (loginResponse fresh.rawToken user vault.id)

/-- Login round 1. Unknown accounts and accounts still on SRP get a fake handshake. -/
def loginStart (o : Opaque) (config : Config) (fresh : Fresh)
    (emailHash startLoginRequest : String) : Request Uuid := do
  let emailHash ← parseEmailHash emailHash
  let request ← decodeOpaque startLoginRequest "startLoginRequest"
  let accountKey := config.accountKey emailHash
  let user := (← DbAuth.findUser accountKey emailHash).filter (·.opaqueRecord.isSome)
  let started ← okOr (.badRequest "invalid startLoginRequest")
    (o.loginStart (user.bind (·.opaqueRecord)) request)
  DbPending.insertOpaqueLogin
    { id := fresh.id, accountKey := accountKey, userId := user.map (·.id), serverState := started,
      createdAt := fresh.now, purpose := .login }
  pure fresh.id

/-- Login round 2: consume the handshake, check the proof, create the session. -/
def loginFinish (o : Opaque) (fresh : Fresh) (loginId : Uuid) (finishLoginRequest : String)
    (deviceId : Option Uuid) : Request LoginResponse := do
  let finalization ← decodeOpaque finishLoginRequest "finishLoginRequest"
  let taken ← DbPending.takeOpaqueLogin loginId
  let (pending, atTake) ← okOr authFailed (taken.filter fun t => t.1.purpose = .login)
  require (decide (fresh.now - pending.createdAt ≤ opaqueLoginTtlSecs)) authFailed
  let userId ← okOr authFailed
    (pending.userId.filter fun _ => o.loginFinish pending.serverState finalization)
  let user ← okOr authFailed (← DbAuth.getUserById userId)
  issueSession o (.authorized user.id pending.serverState.record atTake) fresh user deviceId
    pending.serverState.record

/-- Legacy SRP round 2. -/
def srpVerify (o : Opaque) (fresh : Fresh) (sessionId : Uuid) (clientProofM1 : String)
    (deviceId : Option Uuid) : Request LoginResponse := do
  let pending ← okOr authFailed (← DbPending.takeSrp sessionId)
  require (decide (fresh.now - pending.createdAt ≤ srpSessionTtlSecs)) authFailed
  let proof ← decodeField clientProofM1 "invalid client_proof_m1"
  let user ← okOr authFailed (← DbAuth.getUserById pending.userId)
  require (o.srpVerify pending.srpVerifier pending.serverEphemeralB pending.clientPublicA proof)
    authFailed
  issueSession o .plain fresh user deviceId none

end Auth

namespace Proof

/-- The session's account, checked against the email. -/
def sessionUser (config : Config) (auth : AuthUser) (emailHash : String) : Request User := do
  let emailHash ← parseEmailHash emailHash
  let user ← okOr (.notFound "user not found") (← DbAuth.getUserById auth.userId)
  require (decide (config.accountKey emailHash = user.emailHash))
    (.badRequest "emailHash does not match this account")
  pure user

@[simp] theorem reads_sessionUser (config : Config) (auth : AuthUser) (emailHash : String) :
    (sessionUser config auth emailHash).Reads :=
  (reads_parseEmailHash emailHash).bind fun _ => (DbAuth.reads_getUserById auth.userId).bind
    fun _ => (reads_okOr _ _).bind fun _ => (reads_require _ _).bind fun _ => trivial

/-- Old sessions cannot change the password. -/
def requireRecentSession (o : Opaque) (now : Nat) (auth : AuthUser) (maxAgeSecs : Nat) :
    Request Uuid := do
  let session ← okOr (.unauthorized "invalid or expired session")
    (← DbSessions.findSessionByToken now (o.hashToken auth.rawToken))
  require (decide (now - session.createdAt ≤ maxAgeSecs))
    (.forbidden "sign in again to change your password")
  pure session.id

@[simp] theorem reads_requireRecentSession (o : Opaque) (now : Nat) (auth : AuthUser)
    (maxAgeSecs : Nat) : (requireRecentSession o now auth maxAgeSecs).Reads :=
  (DbSessions.reads_findSessionByToken _ _).bind fun _ => (reads_okOr _ _).bind fun _ =>
    (reads_require _ _).bind fun _ => trivial

/-- OPAQUE login round 1 bound to this session's account. -/
def startProof (o : Opaque) (fresh : Fresh) (user : User) (startLoginRequest : String)
    (purpose : Purpose) : Request Uuid := do
  let request ← decodeOpaque startLoginRequest "startLoginRequest"
  let record ← okOr (.conflict "sign in again before changing your keys") user.opaqueRecord
  let started ← okOr (.badRequest "invalid startLoginRequest") (o.loginStart (some record) request)
  DbPending.insertOpaqueLogin
    { id := fresh.id, accountKey := user.emailHash, userId := some user.id, serverState := started,
      createdAt := fresh.now, purpose := purpose }
  pure fresh.id

/-- Start a proof for publishing an identity key or setting the account key. -/
def start (o : Opaque) (config : Config) (fresh : Fresh) (auth : AuthUser)
    (emailHash startLoginRequest : String) (purpose : Purpose) : Request Uuid := do
  let user ← sessionUser config auth emailHash
  startProof o fresh user startLoginRequest purpose

/-- A proof as the client sends it. -/
structure PasswordProof where
  proofId : Uuid
  finishLoginRequest : String

/-- The refusal of a wrong proof. -/
def wrongPassword : ApiError := .unauthorized "current password is incorrect"

/-- Redeem a proof: started by this account for this purpose, with a valid finalization. The
answer is the label of the write that it authorizes. -/
def verifyPasswordProof (o : Opaque) (now : Nat) (auth : AuthUser) (proof : PasswordProof)
    (purpose : Purpose) : Request Tag := do
  let finalization ← decodeOpaque proof.finishLoginRequest "finishLoginRequest"
  let taken ← DbPending.takeOpaqueLogin proof.proofId
  let (pending, atTake) ← okOr wrongPassword (taken.filter fun t =>
    decide (t.1.userId = some auth.userId) && decide (t.1.purpose = purpose))
  require (decide (now - pending.createdAt ≤ opaqueLoginTtlSecs)) wrongPassword
  require (o.loginFinish pending.serverState finalization) wrongPassword
  pure (.authorized auth.userId pending.serverState.record atTake)

end Proof

namespace Auth

/-- A private key wrap comes with its IV or not at all. -/
def privateKeyPair : Option String → Option String → Request (Option (String × String))
  | some key, some iv => pure (some (key, iv))
  | none, none => pure none
  | _, _ => refuse (.badRequest "send both protectedPrivateKey and its IV, or neither")

@[simp] theorem reads_privateKeyPair (key iv : Option String) : (privateKeyPair key iv).Reads := by
  cases key <;> cases iv <;> trivial

/-- Body of the move to a wrapped account key. -/
structure SetAccountKeyRequest where
  proof : Proof.PasswordProof
  wrappedAccountKey : String
  wrappedAccountKeyIv : String
  protectedPrivateKey : Option String := none
  protectedPrivateKeyIv : Option String := none

/-- One-time move to the wrapped account key, with a fresh password proof. -/
def setAccountKey (o : Opaque) (now : Nat) (auth : AuthUser) (req : SetAccountKeyRequest) :
    Request Unit := do
  let wrapped ← decodeField req.wrappedAccountKey "invalid wrappedAccountKey base64"
  let wrappedIv ← decodeField req.wrappedAccountKeyIv "invalid wrappedAccountKeyIv base64"
  let privateKey ← privateKeyPair req.protectedPrivateKey req.protectedPrivateKeyIv
  let tag ← Proof.verifyPasswordProof o now auth req.proof .accountKey
  let done ← DbAuth.setAccountKey tag auth.userId (wrapped, wrappedIv) privateKey
  require done (.conflict "account key already set")
  let _ ← okOr authFailed (← DbAuth.getUserById auth.userId)

end Auth

namespace Keys

/-- Body of an identity publication. -/
structure SetIdentityBody where
  identityPublicKey : String
  publicKeySignature : String
  proof : Option Proof.PasswordProof

/-- The proof of the first publication; a repeated one needs none. -/
def proofOfFirst (o : Opaque) (now : Nat) (auth : AuthUser) (proof : Option Proof.PasswordProof)
    (published : Option String) : Request Tag := do
  if published.isSome then pure .plain else do
  let proof ← okOr (.unauthorized "publishing an identity key needs a password proof") proof
  Proof.verifyPasswordProof o now auth proof .identityKey

/-- Publish the caller's identity key. -/
def setIdentity (o : Opaque) (now : Nat) (auth : AuthUser) (body : SetIdentityBody) :
    Request Unit := do
  require (decide ((Base64.decode body.identityPublicKey).map List.length = some 32))
    (.badRequest "identityPublicKey must be 32 bytes of base64")
  require (decide ((Base64.decode body.publicKeySignature).map List.length = some 64))
    (.badRequest "publicKeySignature must be 64 bytes of base64")
  let current ← DbKeys.getBundle auth.userId
  let tag ← proofOfFirst o now auth body.proof current.join
  match ← DbKeys.setIdentity tag auth.userId body.identityPublicKey body.publicKeySignature with
  | .stored | .unchanged => pure ()
  | .conflict => refuse (.conflict "a different identity key is already published")
  | .noPublicKey => refuse (.badRequest "publish a public key first")

end Keys

end Nopass
