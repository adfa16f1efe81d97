import Nopass.Server.Recovery

/-!
# SRP logins and the move to OPAQUE

Accounts that have not migrated log in with SRP, and migrate with a second SRP proof in
the session. Both handshakes lie in one table. Its rows do not say which of the two they
were started for; the column that does is history.
-/

namespace Nopass

open ReadCommitted

/-- What the SRP routes take from the protocol and the configuration. -/
structure Srp where
  /-- `compute_public_ephemeral`: the server's public value for its secret and a verifier. -/
  publicEphemeral : Bytes → Bytes → Bytes
  /-- The salt that an account without a verifier is shown. -/
  fakeSrpSalt : String → Bytes

/-- What the server picks for an SRP handshake. -/
structure SrpFresh extends Fresh where
  /-- The server's ephemeral secret. -/
  secret : Bytes
  /-- The verifier of the fake challenge. -/
  fakeVerifier : Bytes

/-- The result of `srp_server_init`. -/
structure ServerInitResult where
  serverPublicB : Bytes
  serverEphemeralB : Bytes

/-- `srp_server_init` with the secret `b`; it never fails. -/
def Srp.serverInit (srp : Srp) (verifier b : Bytes) : ServerInitResult where
  serverPublicB := srp.publicEphemeral b verifier
  serverEphemeralB := b

namespace DbPending

/-- The newest handshakes of an account, which an insert keeps. -/
def newestSrp (userId : Uuid) (d : Db) : List Uuid :=
  (((d.pendingSrpSessions.filter fun p => p.userId = userId).insertionSort
    fun a b => b.createdAt ≤ a.createdAt).take maxPendingLoginsPerAccount).map (·.id)

/-- `insert_srp`. -/
def insertSrp (p : PendingSrpSession) : Request Unit := do
  Tables.pendingSrpSessions.insert p [userRef p.userId]
  let _ ← Tables.pendingSrpSessions.delete fun d q =>
    decide (q.userId = p.userId) && decide (q.id ∉ newestSrp p.userId d)
  .commit .plain (.ret ())

end DbPending

namespace Auth

/-- The answer to an SRP login, less the KDF parameters. -/
structure SrpInitResponse where
  sessionId : Uuid
  serverPublicB : String
  srpSalt : String

/-- An account with its salt and verifier, when it is still on SRP. -/
def srpUser (user : User) : Option (User × Bytes × Bytes) :=
  user.srpSalt.bind fun salt => user.srpVerifier.map fun verifier => (user, salt, verifier)

/-- Legacy SRP round 1. Unknown and migrated accounts get a fake challenge that is not stored. -/
def srpInit (srp : Srp) (config : Config) (fresh : SrpFresh) (emailHash clientPublicA : String) :
    Request SrpInitResponse := do
  let emailHash ← parseEmailHash emailHash
  let clientPublicA ← decodeField clientPublicA "invalid client_public_a"
  require (!clientPublicA.isEmpty) (.badRequest "client_public_a must not be empty")
  let accountKey := config.accountKey emailHash
  match (← DbAuth.findUser accountKey emailHash).bind srpUser with
  | none =>
    let fake := srp.serverInit fresh.fakeVerifier fresh.secret
    pure { sessionId := fresh.id, serverPublicB := Base64.encode fake.serverPublicB
           srpSalt := Base64.encode (srp.fakeSrpSalt accountKey) }
  | some (user, srpSalt, srpVerifier) =>
    let srpResult := srp.serverInit srpVerifier fresh.secret
    DbPending.insertSrp
      { id := fresh.id, userId := user.id, srpVerifier := srpVerifier
        serverEphemeralB := srpResult.serverEphemeralB, clientPublicA := clientPublicA
        createdAt := fresh.now, startedFor := .login }
    pure { sessionId := fresh.id, serverPublicB := Base64.encode srpResult.serverPublicB
           srpSalt := Base64.encode srpSalt }

/-- The refusal of an upgrade of an account without an SRP verifier. -/
def alreadyOpaque : ApiError := .conflict "account already uses OPAQUE"

/-- Body of the first round of an upgrade. -/
structure UpgradeStartRequest where
  emailHash : String
  clientPublicA : String
  registrationRequest : String

/-- Its answer, less the KDF parameters. -/
structure UpgradeStartResponse where
  upgradeId : Uuid
  serverPublicB : String
  srpSalt : String
  registrationResponse : Bytes

/-- Body of the second round. -/
structure UpgradeFinishRequest where
  upgradeId : Uuid
  clientProofM1 : String
  registrationRecord : String
  wrappedAccountKey : String
  wrappedAccountKeyIv : String
  protectedPrivateKey : Option String
  protectedPrivateKeyIv : Option String

/-- `decode_b64` of this module. -/
def decodeB64 (value field : String) : Request Bytes :=
  decodeField value ("invalid " ++ field ++ " base64")

/-- SRP to OPAQUE upgrade, round 1: a fresh SRP challenge for this session's account. -/
def upgradeStart (o : Opaque) (srp : Srp) (config : Config) (fresh : SrpFresh) (auth : AuthUser)
    (req : UpgradeStartRequest) : Request UpgradeStartResponse := do
  let user ← Proof.sessionUser config auth req.emailHash
  let clientPublicA ← decodeB64 req.clientPublicA "clientPublicA"
  require (!clientPublicA.isEmpty) (.badRequest "clientPublicA must not be empty")
  let registrationRequest ← decodeOpaque req.registrationRequest "registrationRequest"
  let (_, srpSalt, srpVerifier) ← okOr alreadyOpaque (srpUser user)
  let started := srp.serverInit srpVerifier fresh.secret
  let response ← okOr (.badRequest "invalid registrationRequest")
    (o.registrationStart registrationRequest (req.emailHash.map Char.toLower))
  DbPending.insertSrp
    { id := fresh.id, userId := user.id, srpVerifier := srpVerifier
      serverEphemeralB := started.serverEphemeralB, clientPublicA := clientPublicA
      createdAt := fresh.now, startedFor := .upgrade }
  pure { upgradeId := fresh.id, serverPublicB := Base64.encode started.serverPublicB
         srpSalt := Base64.encode srpSalt, registrationResponse := response }

/-- Round 2: check the SRP proof and replace the SRP verifier by the OPAQUE record. -/
def upgradeFinish (o : Opaque) (now : Nat) (auth : AuthUser) (req : UpgradeFinishRequest) :
    Request Unit := do
  let clientProofM1 ← decodeB64 req.clientProofM1 "clientProofM1"
  let upload ← decodeOpaque req.registrationRecord "registrationRecord"
  let record ← okOr (.badRequest "invalid registrationRecord") (o.registrationFinish upload)
  let wrapped ← decodeB64 req.wrappedAccountKey "wrappedAccountKey"
  let wrappedIv ← decodeB64 req.wrappedAccountKeyIv "wrappedAccountKeyIv"
  let privateKey ← privateKeyPair req.protectedPrivateKey req.protectedPrivateKeyIv
  let taken ← DbPending.takeSrp req.upgradeId
  let pending ← okOr authFailed (taken.filter fun p => p.userId = auth.userId)
  require (decide (now - pending.createdAt ≤ srpSessionTtlSecs)) authFailed
  let user ← okOr authFailed (← DbAuth.getUserById auth.userId)
  require (o.srpVerify pending.srpVerifier pending.serverEphemeralB pending.clientPublicA
    clientProofM1) authFailed
  let session ← okOr (.unauthorized "invalid or expired session")
    (← DbSessions.findSessionByToken now (o.hashToken auth.rawToken))
  let upgraded ← DbAuth.completeSrpUpgrade user.id session.id record (wrapped, wrappedIv) privateKey
  require upgraded alreadyOpaque

end Auth

end Nopass
