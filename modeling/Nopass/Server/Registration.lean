import Nopass.Server.Srp

/-!
# Registration

A new account has an OPAQUE record, its key pair when the client sends one, and a default
vault. The row gives way to an account with the same key, and a row that an older server
stored under the raw hash is looked for first. The KDF parameters are checked; no modelled
statement reads their column.
-/

namespace Nopass

open ReadCommitted

namespace DbAuth

/-- `NewUser`, less the KDF parameters. -/
structure NewUser where
  accountKey : String
  opaqueRecord : Bytes
  protectedSymmetricKey : Bytes
  protectedSymmetricKeyIv : Bytes
  publicKey : Option String
  protectedPrivateKey : Option String
  protectedPrivateKeyIv : Option String

/-- The row of a new account; the database draws its id. -/
def NewUser.row (new : NewUser) (id : Uuid) : User where
  id := id
  emailHash := new.accountKey
  emailHashKeyed := true
  opaqueRecord := some new.opaqueRecord
  protectedSymmetricKey := new.protectedSymmetricKey
  protectedSymmetricKeyIv := new.protectedSymmetricKeyIv
  publicKey := new.publicKey
  protectedPrivateKey := new.protectedPrivateKey
  protectedPrivateKeyIv := new.protectedPrivateKeyIv

/-- No account has this key yet. -/
def emailFree (emailHash : String) (d : Db) : Bool :=
  d.users.all fun u => decide (u.emailHash ≠ emailHash)

/-- `INSERT INTO users … ON CONFLICT (email_hash) DO NOTHING`: whether the row went in. -/
def insertUser (row : User) : Request Bool :=
  .stmt
    (fun _ n => if emailFree row.emailHash n then
        [(.user row.id, .update), (.emailHash row.emailHash, .update)] else [])
    (fun _ n d => if emailFree row.emailHash n then Tables.users.push row d else d)
    fun _ n =>
      if emailFree row.emailHash n then
        if Tables.users.vacant row n && Tables.users.check row then .ret true
        else .rollback (.error none)
      else .ret false

/-- `create_user`: the account and its default vault, in one transaction. -/
def createUser (id vaultId : Uuid) (now : Nat) (new : NewUser) : Request Bool := do
  bindTexts (new.publicKey.toList ++ new.protectedPrivateKey.toList ++
    new.protectedPrivateKeyIv.toList)
  let inserted ← insertUser (new.row id)
  if !inserted then .rollback (.ret false) else do
  Tables.vaults.insert
    { id := vaultId, userId := id, nameBlob := "default".toList.map fun c => c.toNat.toUInt8,
      nameIv := List.replicate 12 48, createdAt := now } [userRef id]
  .commit .plain (.ret true)

end DbAuth

namespace Auth

/-- `KdfParams`. -/
structure KdfParams where
  kdfType : String := "argon2id"
  memoryKib : Nat := 65536
  iterations : Nat := 3
  parallelism : Nat := 4
  deriving DecidableEq, Repr

/-- `validate_kdf_params`: neither too weak for a vault nor too much for a browser. -/
def validateKdfParams (params : KdfParams) : Request Unit :=
  require (decide (params.kdfType = "argon2id") &&
      decide (19456 ≤ params.memoryKib ∧ params.memoryKib ≤ 1048576) &&
      decide (1 ≤ params.iterations ∧ params.iterations ≤ 10) &&
      decide (1 ≤ params.parallelism ∧ params.parallelism ≤ 16))
    (.badRequest "unsupported kdfParams")

@[simp] theorem reads_validateKdfParams (params : KdfParams) : (validateKdfParams params).Reads :=
  reads_require ..

/-- The parameters that a client uses by default are accepted. -/
example : validateKdfParams {} = pure () := rfl

/-- Body of the second round of a registration. -/
structure OpaqueRegisterFinishRequest where
  emailHash : String
  registrationRecord : String
  kdfParams : KdfParams
  protectedSymmetricKey : String
  protectedSymmetricKeyIv : String
  publicKey : Option String := none
  protectedPrivateKey : Option String := none
  protectedPrivateKeyIv : Option String := none

/-- What the database draws for a registration. -/
structure RegisterFresh where
  now : Nat
  userId : Uuid
  vaultId : Uuid

/-- The refusal of an email that has an account. -/
def alreadyRegistered : ApiError := .conflict "email already registered"

/-- `register_finish`. -/
def registerFinish (o : Opaque) (config : Config) (fresh : RegisterFresh)
    (req : OpaqueRegisterFinishRequest) : Request Uuid := do
  let emailHash ← parseEmailHash req.emailHash
  let upload ← decodeOpaque req.registrationRecord "registrationRecord"
  let record ← okOr (.badRequest "invalid registrationRecord") (o.registrationFinish upload)
  validateKdfParams req.kdfParams
  let protectedKey ← decodeB64 req.protectedSymmetricKey "protected_symmetric_key"
  let protectedKeyIv ← decodeB64 req.protectedSymmetricKeyIv "protected_symmetric_key_iv"
  let accountKey := config.accountKey emailHash
  let existing ← DbAuth.findUser accountKey emailHash
  require existing.isNone alreadyRegistered
  let created ← DbAuth.createUser fresh.userId fresh.vaultId fresh.now
    { accountKey := accountKey, opaqueRecord := record
      protectedSymmetricKey := protectedKey, protectedSymmetricKeyIv := protectedKeyIv
      publicKey := req.publicKey, protectedPrivateKey := req.protectedPrivateKey
      protectedPrivateKeyIv := req.protectedPrivateKeyIv }
  require created alreadyRegistered
  pure fresh.userId

end Auth

end Nopass
