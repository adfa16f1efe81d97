import Nopass.Client.AccountKey
import Nopass.Core.OrderedMap
import Nopass.Core.Stateful

/-!
# Logging in and unlocking against any server

Message by message, what `loginWithPassword` and `unlockAccount` send and remember. What the
server answers in a run is anything; the OPAQUE and SRP libraries are oracles. What the
device remembers is in a store that keeps what it was given.
-/

namespace Nopass

/-- `KdfParams` as they were served; none is what no number is above or below. -/
structure KdfParams where
  type : String
  memoryKib : Option Rat
  iterations : Option Rat
  parallelism : Option Rat
  deriving DecidableEq

/-- `DEFAULT_KDF_PARAMS`. -/
def defaultKdfParams : KdfParams where
  type := "argon2id"
  memoryKib := some 65536
  iterations := some 3
  parallelism := some 4

/-- A served number is below another. -/
def servedBelow : Option Rat → Option Rat → Bool
  | some a, some b => decide (a < b)
  | _, _ => false

/-- The floor that `assertKdfFloor` holds parameters against. -/
def KdfParams.belowFloor (params : KdfParams) : Bool :=
  decide (params.type ≠ "argon2id") ||
    servedBelow params.memoryKib defaultKdfParams.memoryKib ||
    servedBelow params.iterations defaultKdfParams.iterations ||
    servedBelow params.parallelism (some 1)

/-! ## What the device remembers -/

/-- An `AccountState` as a patch: the properties that it has. -/
structure AccountPatch where
  opaqueSeen : Option Bool := none
  accountKey : Option Bool := none
  deriving DecidableEq

/-- `{ ...current, ...patch }`. -/
def AccountState.patched (current : AccountState) (patch : AccountPatch) : AccountState where
  opaqueSeen := patch.opaqueSeen.getD current.opaqueSeen
  accountKey := patch.accountKey.getD current.accountKey

/-- `AccountStateStore` on a storage that keeps what it was given. -/
structure AccountStateStore (S : Type) where
  get : S → String → AccountState
  update : S → String → AccountPatch → S
  get_update : ∀ s emailHash patch id, get (update s emailHash patch) id =
    if id = emailHash then (get s emailHash).patched patch else get s id

/-- `memoryAccountState`. -/
def memoryAccountState : AccountStateStore (OrderedMap String AccountState) where
  get states emailHash := (states.get emailHash).getD {}
  update states emailHash patch :=
    states.set emailHash (((states.get emailHash).getD {}).patched patch)
  get_update states emailHash patch id := by
    rw [OrderedMap.get_set]
    split
    · rfl
    · rfl

/-- `JSON.stringify` and `JSON.parse` of an account state; none is a throw. -/
structure StateJson where
  stringify : AccountState → String
  parse : String → Option AccountState
  parse_stringify : ∀ state, parse (stringify state) = some state

/-- The key of an account in the storage. -/
def accountStateKey (emailHash : String) : String := "nopass:account-state:" ++ emailHash

/-- Accounts have keys of their own. -/
theorem accountStateKey_inj {id id' : String} :
    accountStateKey id = accountStateKey id' ↔ id = id' := by
  unfold accountStateKey
  exact String.append_right_inj _

/-- `keyValueAccountState`; the storage is what `getItem` finds, and `{}` is an empty state. -/
def keyValueAccountState (json : StateJson) : AccountStateStore (String → Option String) where
  get storage emailHash := ((storage (accountStateKey emailHash)).bind json.parse).getD {}
  update storage emailHash patch :=
    let current := ((storage (accountStateKey emailHash)).bind json.parse).getD {}
    fun key =>
      if key = accountStateKey emailHash then some (json.stringify (current.patched patch))
      else storage key
  get_update storage emailHash patch id := by
    simp only [accountStateKey_inj]
    by_cases hid : id = emailHash
    · rw [if_pos hid, if_pos hid, Option.bind_some, json.parse_stringify, Option.getD_some]
    · rw [if_neg hid, if_neg hid]

/-! ## Messages -/

/-- `PasswordProof`. -/
structure PasswordProof where
  proofId : String
  finishLoginRequest : String

/-- What a client sends. -/
inductive AuthMessage where
  | opaqueLoginStart (emailHash startLoginRequest : String)
  | opaqueLoginFinish (loginId finishLoginRequest : String) (deviceId : Option String)
  | srpInit (emailHash clientPublicA : String)
  | srpVerify (sessionId clientProofM1 : String) (deviceId : Option String)
  | proofStart (emailHash startLoginRequest purpose : String)
  | setAccountKey (proof : PasswordProof) (wrapped : WrappedAccountKey)
      (privateKey : Option (String × String))
  | upgradeStart (emailHash clientPublicA registrationRequest : String)
  | upgradeFinish (upgradeId clientProofM1 registrationRecord : String)
      (wrapped : WrappedAccountKey) (privateKey : Option (String × String))

/-- A message of an SRP login. -/
def AuthMessage.isSrpLogin : AuthMessage → Bool
  | .srpInit _ _ | .srpVerify _ _ _ => true
  | _ => false

/-- A message that moves an account to an account key. -/
def AuthMessage.movesAccountKey : AuthMessage → Bool
  | .setAccountKey _ _ _ | .upgradeStart _ _ _ | .upgradeFinish _ _ _ _ _ => true
  | _ => false

/-- What Argon2id went into: a registration record, a login finalization or a proof. -/
def AuthMessage.stretched : AuthMessage → Option String
  | .opaqueLoginFinish _ finishLoginRequest _ => some finishLoginRequest
  | .setAccountKey proof _ _ => some proof.finishLoginRequest
  | .upgradeFinish _ _ registrationRecord _ _ => some registrationRecord
  | _ => none

/-- The answer to the start of a login or of a proof; `id` is its `loginId` or `proofId`. -/
structure OpaqueStartResponse where
  id : String
  loginResponse : String
  kdfParams : KdfParams

/-- `SrpInitResponse`, as far as it is read. -/
structure SrpInitResponse where
  sessionId : String
  serverPublicB : String
  srpSalt : String

/-- `SrpVerifyResponse`. -/
structure SrpVerifyResponse where
  serverProofM2 : String
  session : LoginResponse

/-- `UpgradeStartResponse`. -/
structure UpgradeStartResponse where
  upgradeId : String
  serverPublicB : String
  srpSalt : String
  kdfParams : KdfParams
  registrationResponse : String

/-- The server and the libraries in one run: what each request is answered with, if it is, and
what the libraries return or throw. -/
structure PasswordPeer where
  opaqueLoginStart : Client OpaqueStartResponse
  opaqueLoginFinish : Client LoginResponse
  srpInit : Client SrpInitResponse
  srpVerify : Client SrpVerifyResponse
  proofStart : Client OpaqueStartResponse
  setAccountKey : Client Unit
  upgradeStart : Client UpgradeStartResponse
  upgradeFinish : Client String
  /-- `opaque.client.startLogin`: the state and the request. -/
  startLogin : String → String × String
  /-- `opaque.client.finishLogin`: state, response, password and parameters. -/
  finishLogin : String → String → String → KdfParams → Client (Option String)
  startRegistration : String → String × String
  finishRegistration : String → String → String → KdfParams → Client String
  /-- `srpStep1`: the private session and the public value. -/
  srpStep1 : String × String
  /-- `srpStep2`: the proof, and `verifyServerProof`. -/
  srpStep2 : String → String → String → String → String → Client (String × (String → Client Unit))

/-- What happens in a run. -/
inductive PasswordEvent where
  | sent (message : AuthMessage)
  /-- The OPAQUE library has stretched a password with these parameters into this text. -/
  | stretched (params : KdfParams) (text : String)
  | remembered (emailHash : String) (patch : AccountPatch)

/-- What a run writes: the store, and the history of its events. -/
structure PasswordRun (S : Type) where
  states : S
  events : List PasswordEvent

/-- A client in a run. It may throw at any step; an answer that never comes is a throw. -/
abbrev PasswordFlow (S α : Type) := EStateM String (PasswordRun S) α

namespace PasswordFlow

variable {S : Type} (store : AccountStateStore S) (c : AccountCrypto) (peer : PasswordPeer)

/-- An event. -/
def note (event : PasswordEvent) : PasswordFlow S Unit := fun run =>
  .ok () { run with events := run.events ++ [event] }

/-- A step that writes nothing. -/
def lift {α : Type} : Client α → PasswordFlow S α
  | .ok a => pure a
  | .error e => throw e

/-- A request and its answer. -/
def send {α : Type} (message : AuthMessage) (answer : Client α) : PasswordFlow S α := do
  note (.sent message)
  lift answer

/-- `accountState.get`. -/
def getState (emailHash : String) : PasswordFlow S AccountState := fun run =>
  .ok (store.get run.states emailHash) run

/-- `accountState.update`. -/
def updateState (emailHash : String) (patch : AccountPatch) : PasswordFlow S Unit := fun run =>
  .ok () { states := store.update run.states emailHash patch
           events := run.events ++ [.remembered emailHash patch] }

/-- `assertKdfFloor`. -/
def assertKdfFloor (params : KdfParams) : PasswordFlow S KdfParams := do
  .throwUnless (!params.belowFloor)
    "The server asked for weaker password hashing than this app allows. Not signing in."
  pure params

/-- `opaque.client.finishLogin` with `keyStretching(assertKdfFloor(kdfParams))`. -/
def finishLogin (clientLoginState password : String) (started : OpaqueStartResponse) :
    PasswordFlow S (Option String) := do
  let params ← assertKdfFloor started.kdfParams
  let finished ← lift (peer.finishLogin clientLoginState started.loginResponse password params)
  match finished with
  | some finishLoginRequest => do
    note (.stretched params finishLoginRequest)
    pure (some finishLoginRequest)
  | none => pure none

/-- `opaque.client.finishRegistration` with `keyStretching(assertKdfFloor(kdfParams))`. -/
def finishRegistration (clientRegistrationState password : String)
    (started : UpgradeStartResponse) : PasswordFlow S String := do
  let params ← assertKdfFloor started.kdfParams
  let registrationRecord ← lift (peer.finishRegistration clientRegistrationState
    started.registrationResponse password params)
  note (.stretched params registrationRecord)
  pure registrationRecord

/-- `loginWithPassword`. -/
def loginWithPassword (email password : String) (deviceId : Option String) :
    PasswordFlow S (LoginResponse × LoginMethod) := do
  let emailHash := c.computeEmailHash email
  let device := truthy deviceId
  let (clientLoginState, startLoginRequest) := peer.startLogin password
  let started ← send (.opaqueLoginStart emailHash startLoginRequest) peer.opaqueLoginStart
  let finished ← finishLogin peer clientLoginState password started
  match finished with
  | some finishLoginRequest => do
    let session ← send (.opaqueLoginFinish started.id finishLoginRequest device)
      peer.opaqueLoginFinish
    updateState store emailHash { opaqueSeen := some true }
    pure (session, .opaqueLogin)
  | none => do
    let state ← getState store emailHash
    .throwUnless (!state.opaqueSeen) "Incorrect email or master password."
    let (privateSession, clientPublicA) := peer.srpStep1
    let init ← send (.srpInit emailHash clientPublicA) peer.srpInit
    let (clientProofM1, verifyServerProof) ←
      lift (peer.srpStep2 email password init.srpSalt init.serverPublicB privateSession)
    let verified ← send (.srpVerify init.sessionId clientProofM1 device) peer.srpVerify
    lift (verifyServerProof verified.serverProofM2)
    pure (verified.session, .srp)

/-- `provePassword`. -/
def provePassword (email password purpose : String) : PasswordFlow S PasswordProof := do
  let (clientLoginState, startLoginRequest) := peer.startLogin password
  let started ← send (.proofStart (c.computeEmailHash email) startLoginRequest purpose)
    peer.proofStart
  let finished ← finishLogin peer clientLoginState password started
  let finishLoginRequest ← .orThrow "Incorrect email or master password." finished
  pure { proofId := started.id, finishLoginRequest := finishLoginRequest }

/-- `upgradeFromSrp`. -/
def upgradeFromSrp (email password : String) (wrapped : WrappedAccountKey)
    (privateKey : Option (String × String)) : PasswordFlow S Unit := do
  let (privateSession, clientPublicA) := peer.srpStep1
  let (clientRegistrationState, registrationRequest) := peer.startRegistration password
  let started ← send
    (.upgradeStart (c.computeEmailHash email) clientPublicA registrationRequest) peer.upgradeStart
  let (clientProofM1, verifyServerProof) ←
    lift (peer.srpStep2 email password started.srpSalt started.serverPublicB privateSession)
  let registrationRecord ← finishRegistration peer clientRegistrationState password started
  let serverProofM2 ← send
    (.upgradeFinish started.upgradeId clientProofM1 registrationRecord wrapped privateKey)
    peer.upgradeFinish
  lift (verifyServerProof serverProofM2)

/-- The account of legacy keys is moved to a wrap of them, by the protocol of the login. -/
def moveAccount (email password : String) (wrapped : WrappedAccountKey)
    (privateKey : Option (String × String)) : LoginMethod → PasswordFlow S Unit
  | .srp => do
    upgradeFromSrp c peer email password wrapped privateKey
    updateState store (c.computeEmailHash email)
      { opaqueSeen := some true, accountKey := some true }
  | .opaqueLogin => do
    let proof ← provePassword c peer email password "account_key"
    send (.setAccountKey proof wrapped privateKey) peer.setAccountKey
    updateState store (c.computeEmailHash email) { accountKey := some true }

/-- `unlockAccount`. -/
def unlockAccount (ivs : UnlockIvs) (email password : String) (session : LoginResponse)
    (method : LoginMethod) : PasswordFlow S UnlockedAccount := do
  let emailHash := c.computeEmailHash email
  let masterKey := c.deriveMasterKey password email
  match truthyPair session.wrappedAccountKey session.wrappedAccountKeyIv with
  | some (wrapped, wrappedIv) => do
    let key ← lift (Nopass.unwrapAccountKey c ⟨wrapped, wrappedIv⟩ masterKey email)
    updateState store emailHash { accountKey := some true }
    pure { key := key, smkBytes := c.accountSmkBytes key
           protectedPrivateKey := session.protectedPrivateKey
           protectedPrivateKeyIv := session.protectedPrivateKeyIv }
  | none => do
    let state ← getState store emailHash
    .throwUnless (!state.accountKey)
      "The server didn't return this account's key. Not unlocking."
    let legacy := c.legacyKeys password email
    let smkBytes := c.accountSmkBytes legacy.account
    let wrapped := wrapAccountKey c legacy.account masterKey email ivs.wrapIv
    let privateKey ←
      lift (rewrapPrivateKey c session legacy.smkBytes smkBytes ivs.privateKeyIv)
    moveAccount store c peer email password wrapped privateKey method
    pure { key := legacy.account, smkBytes := smkBytes
           protectedPrivateKey := privateKey.map (·.1)
           protectedPrivateKeyIv := privateKey.map (·.2) }

end PasswordFlow

end Nopass
