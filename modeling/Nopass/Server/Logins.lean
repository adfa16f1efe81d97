import Nopass.Core.Sql.Part
import Nopass.Server.Auth
import Nopass.Server.AttemptCounts

/-!
# Login requests with the throttle

A start is counted against the network that it comes from and, unless the account has
logged in from there, against the account; then it reads the account's record and stores a
handshake, and drops all but the five newest of the account. The finish consumes its
handshake, clears the counters and creates a session.
-/

namespace Nopass

open ReadCommitted Throttle

/-- The tables of the throttle, by their primary keys. -/
structure ThrottleTables where
  /-- `login_throttle`. -/
  counters : String → ThrottleDb
  /-- `trusted_login_networks`: the last login of an account from a network. -/
  trusted : String → String → Option Int

/-- The database with the tables of the throttle. -/
structure LoginDb where
  db : Db
  throttle : ThrottleTables

/-- Names of rows. -/
inductive LoginRow where
  | row (id : RowId)
  | counter (key : String) (lock : ThrottleLock)
  | trusted (accountKey networkHash : String)
  deriving DecidableEq

/-- Labels of commits. -/
inductive LoginTag where
  | db (tag : Tag)
  | counter (tag : ThrottleTag)
  | throttle

/-- Why a login request is refused. -/
inductive LoginError where
  | api (e : ApiError)
  | throttled (retryAfterSecs : Int)
  /-- An internal error. -/
  | counter (e : ThrottleError)
  deriving DecidableEq

/-- A request of the login routes. -/
abbrev LoginRequest (O : Type) := Prog LoginDb LoginRow LoginTag LoginError O

/-- The database without the throttle. -/
def dbPart : Part LoginDb Db where
  get d := d.db
  put x d := { d with db := x }

/-- A request that the throttle has let through. -/
def inDb {O : Type} (prog : Request O) : LoginRequest O := prog.on dbPart ⟨.row, .db, .api⟩

/-- One counter. -/
def counterPart (key : String) : Part LoginDb ThrottleDb where
  get d := d.throttle.counters key
  put x d := { d with throttle :=
    { d.throttle with counters := Function.update d.throttle.counters key x } }
  get_put x d := Function.update_self ..

/-- A call of the throttle on one counter. -/
def onCounter {O : Type} (key : String) (prog : ThrottleRequest O) : LoginRequest O :=
  prog.on (counterPart key) ⟨.counter key, .counter, .counter⟩

namespace Login

/-- `network_key`. -/
def networkKey (accountKey : String) (clientIp : IpAddr) : String :=
  accountKey ++ "|" ++ networkOf clientIp

/-- `network_tag`. -/
def networkTag (mac : LookupMac) (accountKey : String) (clientIp : IpAddr) : String :=
  mac ("nopass-trusted-network:" ++ networkKey accountKey clientIp)

/-- `is_trusted_network`. -/
def isTrustedNetwork (now : Int) (accountKey networkHash : String) : LoginRequest Bool :=
  .select fun d => .ret <|
    (d.throttle.trusted accountKey networkHash).any (now - seconds trustedNetworkTtlSecs < ·)

/-- Count a start against each of the counters, up to the first that is locked. -/
def chargeCounters : List (String × Policy × Clock) → LoginRequest Unit
  | [] => pure ()
  | (key, policy, clock) :: rest => do
    match ← onCounter key (ThrottleCall.recordAttempt clock policy).request with
    | .attempt (.locked retryAfterSecs) => .error (some (.throttled retryAfterSecs))
    | .attempt (.allowed _) | .done => chargeCounters rest

/-- `throttle_account`. -/
def throttleAccount (mac : LookupMac) (clocks : StartClocks) (accountKey : String)
    (clientIp : IpAddr) : LoginRequest Unit := do
  let trusted ← isTrustedNetwork clocks.trust accountKey (networkTag mac accountKey clientIp)
  let network := (networkKey accountKey clientIp, perNetwork, clocks.network)
  let account := (accountKey, perAccount, clocks.account)
  chargeCounters (if trusted then [network] else [network, account])

/-- The rows of a counter that a `DELETE` of all of them hits. -/
def counterHits (s n : LoginDb) (key : String) : List ThrottleRow :=
  throttleTable.hits (fun _ _ => true) (s.throttle.counters key) (n.throttle.counters key)

/-- The counters without those rows. -/
def dropCounters (keys : List String) (s n d : LoginDb) (key : String) : ThrottleDb :=
  if key ∈ keys then
    throttleTable.drop ((counterHits s n key).map throttleTable.key) (d.throttle.counters key)
  else d.throttle.counters key

/-- `reset`: one `DELETE` for all keys. -/
def reset (keys : List String) : LoginRequest Unit :=
  autocommit (.stmt
    (fun s n => keys.flatMap fun key => (counterHits s n key).map fun r =>
      (.counter key (.row r.birth), .update))
    (fun s n d => { d with throttle := { d.throttle with counters := dropCounters keys s n d } })
    fun _ _ => .ret ()) fun _ => .throttle

/-- The trusted networks with one more. -/
def addTrusted (now : Int) (accountKey networkHash : String) (d : LoginDb) (a h : String) :
    Option Int :=
  if a = accountKey ∧ h = networkHash then some now else d.throttle.trusted a h

/-- `trust_network`. -/
def trustNetwork (now : Int) (accountKey networkHash : String) : LoginRequest Unit :=
  autocommit (.stmt (fun _ _ => [(.trusted accountKey networkHash, .update)])
    (fun _ _ d =>
      { d with throttle := { d.throttle with trusted := addTrusted now accountKey networkHash d } })
    fun _ _ => .ret ()) fun _ => .throttle

/-- `reset_throttle`: a successful proof. -/
def resetThrottle (mac : LookupMac) (now : Int) (accountKey : String) (clientIp : IpAddr) :
    LoginRequest Unit := do
  reset [networkKey accountKey clientIp, accountKey]
  trustNetwork now accountKey (networkTag mac accountKey clientIp)

/-- What an account's login starts from. -/
def findLogin (config : Config) (emailHash : String) : Request (Option User) := do
  let user ← DbAuth.findUser (config.accountKey emailHash) emailHash
  pure (user.filter (·.opaqueRecord.isSome))

/-- The handshake of a start. -/
def handshake (fresh : Fresh) (accountKey : String) (user : Option User) (started : ServerState) :
    PendingOpaqueLogin where
  id := fresh.id
  accountKey := accountKey
  userId := user.map (·.id)
  serverState := started
  createdAt := fresh.now
  purpose := .login

/-- `login_start` after the throttle. -/
def admitted (o : Opaque) (config : Config) (fresh : Fresh) (emailHash : String)
    (request : Bytes) : Request Uuid := do
  let user ← findLogin config emailHash
  let started ← okOr (.badRequest "invalid startLoginRequest")
    (o.loginStart (user.bind (·.opaqueRecord)) request)
  DbPending.insertOpaqueLogin (handshake fresh (config.accountKey emailHash) user started)
  pure fresh.id

/-- A start as it reaches the server, and what the server picks for it. -/
structure StartCall where
  clientIp : IpAddr
  clocks : StartClocks
  fresh : Fresh
  emailHash : String
  startLoginRequest : String

/-- `login_start`. -/
def loginStart (o : Opaque) (config : Config) (mac : LookupMac) (call : StartCall) :
    LoginRequest Uuid := do
  let emailHash ← inDb (parseEmailHash call.emailHash)
  let request ← inDb (decodeOpaque call.startLoginRequest "startLoginRequest")
  throttleAccount mac call.clocks (config.accountKey emailHash) call.clientIp
  inDb (admitted o config call.fresh emailHash request)

/-- `login_finish` up to the throttle: the account whose password was proved, and by what. -/
def redeem (o : Opaque) (fresh : Fresh) (loginId : Uuid) (finishLoginRequest : String) :
    Request (User × PendingOpaqueLogin × Option Bytes) := do
  let finalization ← decodeOpaque finishLoginRequest "finishLoginRequest"
  let taken ← DbPending.takeOpaqueLogin loginId
  let (pending, atTake) ← okOr authFailed (taken.filter fun t => t.1.purpose = .login)
  require (decide (fresh.now - pending.createdAt ≤ opaqueLoginTtlSecs)) authFailed
  let userId ← okOr authFailed
    (pending.userId.filter fun _ => o.loginFinish pending.serverState finalization)
  let user ← okOr authFailed (← DbAuth.getUserById userId)
  pure (user, pending, atTake)

/-- A finish as it reaches the server, and what the server picks for it. -/
structure FinishCall where
  clientIp : IpAddr
  now : Int
  fresh : Fresh
  finishLoginRequest : String
  deviceId : Option Uuid

/-- `login_finish`. -/
def loginFinish (o : Opaque) (mac : LookupMac) (call : FinishCall) (loginId : Uuid) :
    LoginRequest LoginResponse := do
  let (user, pending, atTake) ← inDb (redeem o call.fresh loginId call.finishLoginRequest)
  resetThrottle mac call.now pending.accountKey call.clientIp
  inDb (Auth.issueSession o (.authorized user.id pending.serverState.record atTake) call.fresh user
    call.deviceId pending.serverState.record)

/-- Without the throttle it is the start of the login routes. -/
theorem loginStart_eq (o : Opaque) (config : Config) (fresh : Fresh)
    (emailHash startLoginRequest : String) :
    Auth.loginStart o config fresh emailHash startLoginRequest = (do
      let emailHash ← parseEmailHash emailHash
      let request ← decodeOpaque startLoginRequest "startLoginRequest"
      admitted o config fresh emailHash request) := rfl

/-- Without the throttle it is the finish of the login routes. -/
theorem loginFinish_eq (o : Opaque) (fresh : Fresh) (loginId : Uuid)
    (finishLoginRequest : String) (deviceId : Option Uuid) :
    Auth.loginFinish o fresh loginId finishLoginRequest deviceId = (do
      let (user, pending, atTake) ← redeem o fresh loginId finishLoginRequest
      Auth.issueSession o (.authorized user.id pending.serverState.record atTake) fresh user
        deviceId pending.serverState.record) := by
  unfold Auth.loginFinish redeem
  simp only [bind_assoc]
  rfl

end Login

end Nopass
