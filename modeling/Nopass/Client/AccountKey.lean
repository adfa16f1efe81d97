import Nopass.Core.Crypto.Aead
import Nopass.Core.Text.Bytes
import Nopass.Server.Recovery

/-!
# The account key

The vault keys of an account, wrapped under a key derived from its master password. An
account without a wrap is still on the keys that the password derives; unlocking moves
it to a wrap of these keys. The key derivations and the password protocols are
parameters.
-/

namespace Nopass

/-- The vault keys of an account. -/
structure AccountKey where
  encKeyBytes : Bytes
  macKeyBytes : Bytes
  deriving DecidableEq, Repr

/-- Both keys have their 32 bytes. -/
def AccountKey.IsKey (key : AccountKey) : Prop :=
  key.encKeyBytes.length = 32 ∧ key.macKeyBytes.length = 32

instance (key : AccountKey) : Decidable key.IsKey := inferInstanceAs (Decidable (_ ∧ _))

/-- What a password derived before the account key existed. -/
structure LegacyKeys where
  smkBytes : Bytes
  encKeyBytes : Bytes
  macKeyBytes : Bytes
  deriving DecidableEq, Repr

/-- The vault keys among them. -/
def LegacyKeys.account (legacy : LegacyKeys) : AccountKey where
  encKeyBytes := legacy.encKeyBytes
  macKeyBytes := legacy.macKeyBytes

/-- What the clients take from their cryptographic libraries. -/
structure AccountCrypto where
  aes : Aead
  computeEmailHash : String → String
  /-- Argon2id of a password, salted with the email. -/
  deriveMasterKey : String → String → Bytes
  stretchMasterKeyAllRaw : Bytes → String → LegacyKeys
  kek : Bytes → String → Bytes
  accountSmkBytes : AccountKey → Bytes
  /-- A password finishes a login with an OPAQUE record. -/
  opensRecord : String → Bytes → Bool
  /-- A password answers an SRP challenge: email, password, salt, verifier. -/
  opensVerifier : String → String → Bytes → Bytes → Bool
  /-- The upload that registers a password. -/
  registrationRecord : String → Bytes
  /-- An account key opens an item. -/
  opensItem : AccountKey → VaultItem → Bool

/-- Keys that a password derived for an account before the account key existed. -/
def AccountCrypto.legacyKeys (c : AccountCrypto) (password email : String) : LegacyKeys :=
  c.stretchMasterKeyAllRaw (c.deriveMasterKey password email) email

/-- A wrapped account key on the wire. -/
structure WrappedAccountKey where
  wrappedAccountKey : String
  wrappedAccountKeyIv : String
  deriving DecidableEq, Repr

/-- Binds a wrap to its purpose and account. -/
def aad (c : AccountCrypto) (email : String) : Bytes :=
  utf8 ("nopass-v2-account-key:" ++ c.computeEmailHash email)

/-- An array of 64 bytes with the keys at 0 and 32. -/
def AccountKey.plaintext (key : AccountKey) : Bytes :=
  (key.encKeyBytes ++ List.replicate 32 0).take 32 ++
    (key.macKeyBytes ++ List.replicate 32 0).take 32

/-- `wrapAccountKey`, with the random IV. -/
def wrapAccountKey (c : AccountCrypto) (key : AccountKey) (masterKey : Bytes) (email : String)
    (iv : Bytes) : WrappedAccountKey where
  wrappedAccountKey :=
    Base64.encode (c.aes.encrypt (c.kek masterKey email) iv (aad c email) key.plaintext)
  wrappedAccountKeyIv := Base64.encode iv

/-- A fallible step of a client. -/
abbrev Client (α : Type) := Except String α

/-- A value or a refusal. -/
def orThrow {α : Type} (e : String) : Option α → Client α
  | some a => .ok a
  | none => .error e

/-- Go on or throw. -/
def throwUnless (cond : Bool) (e : String) : Client Unit := if cond then .ok () else .error e

/-- Two steps of a client return when both do. -/
theorem client_bind_eq_ok {α β : Type} {x : Client α} {f : α → Client β} {b : β} :
    (x >>= f) = .ok b ↔ ∃ a, x = .ok a ∧ f a = .ok b := by
  cases x with
  | error e => simp [bind, Except.bind]
  | ok a => simp [bind, Except.bind]

/-- A step with a check returns when the check holds. -/
theorem client_throwUnless_eq_ok {cond : Bool} {e : String} {u : Unit} :
    throwUnless cond e = .ok u ↔ cond = true := by
  cases cond with
  | false => simp [throwUnless]
  | true => simp [throwUnless]

/-- A value or a refusal returns the value. -/
theorem client_orThrow_eq_ok {α : Type} {e : String} {a? : Option α} {a : α} :
    orThrow e a? = .ok a ↔ a? = some a := by
  cases a? with
  | none => simp [orThrow]
  | some a' => simp [orThrow]

/-- `unwrapAccountKey`. -/
def unwrapAccountKey (c : AccountCrypto) (wrapped : WrappedAccountKey) (masterKey : Bytes)
    (email : String) : Client AccountKey := do
  let plaintext ← orThrow "The account key could not be opened with this password." do
    let iv ← Base64.atob wrapped.wrappedAccountKeyIv
    let ciphertext ← Base64.atob wrapped.wrappedAccountKey
    c.aes.decrypt (c.kek masterKey email) iv (aad c email) ciphertext
  pure { encKeyBytes := plaintext.take 32, macKeyBytes := (plaintext.drop 32).take 32 }

/-- What this device remembers of an account. -/
structure AccountState where
  /-- It has logged in over OPAQUE. -/
  opaqueSeen : Bool := false
  /-- Its account key is wrapped. -/
  accountKey : Bool := false
  deriving DecidableEq, Repr

/-- The protocol of a login. -/
inductive LoginMethod where
  | opaqueLogin
  | srp
  deriving DecidableEq, Repr

/-- The requests that move an account to a wrap, each with a fresh proof of the password. -/
structure AccountKeyApi where
  /-- `provePassword`, then `setAccountKey`. -/
  setAccountKey : String → WrappedAccountKey → Option (String × String) → Client Unit
  upgradeFromSrp : String → WrappedAccountKey → Option (String × String) → Client Unit

/-- The random IVs of an unlock. -/
structure UnlockIvs where
  wrapIv : Bytes
  privateKeyIv : Bytes

/-- The unlocked account. -/
structure UnlockedAccount where
  key : AccountKey
  smkBytes : Bytes
  protectedPrivateKey : Option String
  protectedPrivateKeyIv : Option String
  deriving DecidableEq, Repr

/-- A text that JavaScript takes for true. -/
def truthy : Option String → Option String
  | some "" => none
  | text => text

/-- Both texts, when JavaScript takes both for true. -/
def truthyPair (a b : Option String) : Option (String × String) := do
  let a ← truthy a
  let b ← truthy b
  pure (a, b)

/-- `rewrapPrivateKey`: the private key under another key, or nothing when there is none. -/
def rewrapPrivateKey (c : AccountCrypto) (session : LoginResponse) (oldKey newKey iv : Bytes) :
    Client (Option (String × String)) :=
  match truthyPair session.protectedPrivateKey session.protectedPrivateKeyIv with
  | none => pure none
  | some (blob, blobIv) => do
    let pkcs8 ← orThrow "OperationError" do
      let iv ← Base64.atob blobIv
      let ciphertext ← Base64.atob blob
      c.aes.decrypt oldKey iv [] ciphertext
    pure (some (Base64.encode (c.aes.encrypt newKey iv [] pkcs8), Base64.encode iv))

/-- The request that moves the account to a wrap, by the protocol of the login. -/
def migrate (api : AccountKeyApi) (password : String) (wrapped : WrappedAccountKey)
    (privateKey : Option (String × String)) (state : AccountState) :
    LoginMethod → Client AccountState
  | .srp => do
    api.upgradeFromSrp password wrapped privateKey
    pure { state with opaqueSeen := true, accountKey := true }
  | .opaqueLogin => do
    api.setAccountKey password wrapped privateKey
    pure { state with accountKey := true }

/-- The part of `unlockAccount` for an account without a wrap: its legacy keys are wrapped. -/
def unlockLegacy (c : AccountCrypto) (api : AccountKeyApi) (ivs : UnlockIvs)
    (email password : String) (session : LoginResponse) (method : LoginMethod)
    (state : AccountState) : Client (UnlockedAccount × AccountState) := do
  let legacy := c.legacyKeys password email
  let smkBytes := c.accountSmkBytes legacy.account
  let wrapped := wrapAccountKey c legacy.account (c.deriveMasterKey password email) email ivs.wrapIv
  let privateKey ← rewrapPrivateKey c session legacy.smkBytes smkBytes ivs.privateKeyIv
  let state ← migrate api password wrapped privateKey state method
  pure ({ key := legacy.account, smkBytes := smkBytes
          protectedPrivateKey := privateKey.map (·.1)
          protectedPrivateKeyIv := privateKey.map (·.2) }, state)

/-- `unlockAccount`: a wrap that was served is opened; without one the account is migrated, unless
this device knows of a wrap. -/
def unlockAccount (c : AccountCrypto) (api : AccountKeyApi) (ivs : UnlockIvs)
    (email password : String) (session : LoginResponse) (method : LoginMethod)
    (state : AccountState) : Client (UnlockedAccount × AccountState) :=
  match truthyPair session.wrappedAccountKey session.wrappedAccountKeyIv with
  | some (wrapped, wrappedIv) => do
    let key ← unwrapAccountKey c ⟨wrapped, wrappedIv⟩ (c.deriveMasterKey password email) email
    pure ({ key := key, smkBytes := c.accountSmkBytes key
            protectedPrivateKey := session.protectedPrivateKey
            protectedPrivateKeyIv := session.protectedPrivateKeyIv },
      { state with accountKey := true })
  | none =>
    if state.accountKey then
      .error "The server didn't return this account's key. Not unlocking."
    else unlockLegacy c api ivs email password session method state

/-- The password matches the credential that is stored for the account. -/
def AccountCrypto.matchesCredential (c : AccountCrypto) (email password : String) (u : User) :
    Bool :=
  match u.opaqueRecord with
  | some record => c.opensRecord password record
  | none =>
    match u.srpSalt, u.srpVerifier with
    | some salt, some verifier => c.opensVerifier email password salt verifier
    | _, _ => false

/-- The protocol with which the account logs in. -/
def loginMethod (u : User) : LoginMethod :=
  if u.opaqueRecord.isSome then .opaqueLogin else .srp

/-- Whether a lone request of the server answers true. -/
def uploaded (prog : Request Bool) (d : Db) : Client Unit :=
  match (prog.alone id d).1 with
  | .ok true => .ok ()
  | _ => .error "request failed"

/-- The requests as the server answers them for a session of the account. -/
def serverApi (c : AccountCrypto) (o : Opaque) (email : String) (userId sessionId : Uuid) (d : Db) :
    AccountKeyApi where
  setAccountKey password wrapped privateKey := do
    let user ← orThrow "user not found" (userOf userId d)
    throwUnless (user.opaqueRecord.any (c.opensRecord password))
      "Incorrect email or master password."
    let k ← orThrow "invalid wrappedAccountKey base64" (Base64.decode wrapped.wrappedAccountKey)
    let iv ← orThrow "invalid wrappedAccountKeyIv base64"
      (Base64.decode wrapped.wrappedAccountKeyIv)
    uploaded (DbAuth.setAccountKey .plain userId (k, iv) privateKey) d
  upgradeFromSrp password wrapped privateKey := do
    let user ← orThrow "user not found" (userOf userId d)
    throwUnless (c.matchesCredential email password user) "authentication failed"
    let record ← orThrow "invalid registrationRecord"
      (o.registrationFinish (c.registrationRecord password))
    let k ← orThrow "invalid wrappedAccountKey base64" (Base64.decode wrapped.wrappedAccountKey)
    let iv ← orThrow "invalid wrappedAccountKeyIv base64"
      (Base64.decode wrapped.wrappedAccountKeyIv)
    uploaded (DbAuth.completeSrpUpgrade userId sessionId record (k, iv) privateKey) d

end Nopass
