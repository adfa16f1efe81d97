import Nopass.Client.Identity

/-!
# Using an organization's key

A key is decrypted only when the chain that the server serves for it was verified.
-/

namespace Nopass

/-- `OrgKeyCheck`: what becomes of a served key. -/
inductive OrgKeyCheck where
  | ok (wrap : OrgKeyWrap)
  /-- The user has to compare these safety numbers first. -/
  | confirm (signers : List UnconfirmedSigner)
  /-- The caller's own wrap is unsigned. -/
  | unsigned (canResign : Bool)
  | refused (reason : String)
  deriving DecidableEq

/-- The caller in an organization. -/
structure OrgCaller where
  userId : String
  role : String

/-- What a failed verification becomes. -/
def refusal : TrustError → OrgKeyCheck
  | .unconfirmedSigners signers => .confirm signers
  | .pinnedKeyChanged _ => .refused ("Someone who vouches for this organization's key has a " ++
      "changed identity key. Compare safety numbers with them before using it.")
  | e => .refused e.message

/-- `checkOrgKey`. -/
def checkOrgKey (c : IdentityCrypto) (orgId : String) (chain : List WrapLink) (me : OrgCaller) :
    Trust OrgKeyCheck :=
  if chain.head?.any fun own => decide (own.recipientUserId = me.userId) &&
      own.wrapSignature.isNone then
    pure (.unsigned (decide (me.role = "owner")))
  else
    tryCatch (do
      let wrap ← verifyOrgKeyChain c (chainFromServer orgId chain) ⟨orgId, me.userId⟩
      pure (.ok wrap)) fun e => pure (refusal e)

/-- A call of `decrypt`, on record. -/
def callDecrypt {K : Type} (decrypt : String → Client K) (encryptedOrgKey : String) : Trust K := do
  modify fun s => { s with decrypted := s.decrypted ++ [encryptedOrgKey] }
  liftClient (decrypt encryptedOrgKey)

/-- `openOrgKey`: decrypt a verified wrap, then record its epoch. -/
def openOrgKey {K : Type} (c : IdentityCrypto) (orgId : String) (chain : List WrapLink)
    (me : OrgCaller) (decrypt : String → Client K) : Trust (OrgKeyCheck × Option K) := do
  match ← checkOrgKey c orgId chain me with
  | .ok wrap =>
    let orgKey ← callDecrypt decrypt wrap.encryptedOrgKey
    recordEpoch orgId wrap.epoch
    pure (.ok wrap, some orgKey)
  | check => pure (check, none)

end Nopass
