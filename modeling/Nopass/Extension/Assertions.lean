import Nopass.Client.EnvelopeBinding
import Nopass.Client.VaultProvider
import Mathlib.Data.List.Sort

/-!
# Passkey assertions of the extension

A request decrypts its candidates, waits for the user's consent, signs with the next counter
and stores it. The plaintext is taken before the consent, the version that the update expects
after it, from an item object that other requests change in place. A request that reads a
version that it has not decrypted overwrites what was stored in between, with a counter that
was already given away. Where none does, the counters of a credential increase and each
update overwrites what was decrypted.
-/

namespace Nopass

/-- The passkey of a login item. -/
structure Passkey where
  credentialIdB64u : String
  rpId : String
  userHandleB64u : String
  privateKeyPkcs8B64 : String
  signCount : Nat
  createdAt : Option String
  deriving DecidableEq, Repr

/-- `VaultItemPlaintext`: the passkey, and the fields that an assertion leaves alone. -/
structure ItemPlaintext (Fields : Type) where
  fields : Fields
  passkey : Option Passkey

/-- A candidate of `findPasskeyLogins`: the item object, what it held when it was decrypted, and
what that came to. -/
structure Candidate (Fields : Type) where
  object : Nat
  taken : EncryptedVaultItem
  plain : ItemPlaintext Fields
  /-- The revision of `current`. -/
  revision : Nat
  passkey : Passkey
  plain_passkey : plain.passkey = some passkey

/-- One item in `findPasskeyLogins`. -/
inductive Decryption (Fields : Type) where
  | pending (object : Nat) (taken : EncryptedVaultItem)
  | settled (candidate : Option (Candidate Fields))

/-- Where a request waits, with what it holds there. -/
inductive AssertionFlow (Fields : Type) where
  | decrypting (rpId : String) (allowCredentialIdsB64u : List String)
      (results : List (Decryption Fields))
  | consenting (candidates : List (Candidate Fields))
  /-- `armAutoLock`. -/
  | arming (candidates : List (Candidate Fields))
  /-- The authenticator data, its hash and the signature. -/
  | signing (chosen : Candidate Fields)
  | encrypting (chosen : Candidate Fields) (encrypted : EncryptedBlob) (revision : Nat)
  /-- The update is on its way. -/
  | updating (chosen : Candidate Fields) (encrypted : EncryptedBlob) (revision : Nat)
      (version : Int)
  /-- The server has applied the update to an item. -/
  | updated (chosen : Candidate Fields) (encrypted : EncryptedBlob) (revision : Nat)
      (overwritten : EncryptedVaultItem)
  | ended

/-- What the page gets of an assertion, with the updates that it came from. -/
structure Assertion where
  credentialIdB64u : String
  /-- The counter in the authenticator data. -/
  signCount : Nat
  userHandleB64u : String
  /-- History: the item object. -/
  object : Nat
  /-- History: the item that was decrypted. -/
  taken : EncryptedVaultItem
  /-- History: the item that the update was applied to. -/
  overwritten : EncryptedVaultItem
  /-- History: what it stored. -/
  stored : EncryptedBlob

/-- The server and an unlocked extension. -/
structure PasskeyWorld (Fields : Type) where
  server : AccountServer
  /-- The item objects of `vaultState.items`. -/
  items : List EncryptedVaultItem
  revisions : MemoryRevisionStore
  /-- `vaultState` is there. -/
  unlocked : Bool
  flows : List (AssertionFlow Fields)
  /-- History: the assertions in the order in which they were returned. -/
  returned : List Assertion

/-- What happens in a run. -/
inductive PasskeyEvent where
  /-- WEBAUTHN_GET, with an origin and a challenge that pass. -/
  | get (rpId : String) (allowCredentialIdsB64u : List String)
  /-- The decryption of one item settles. -/
  | decrypted (flow result : Nat)
  /-- The user decides. -/
  | consent (flow : Nat) (approved : Bool)
  /-- A request goes on, with an IV where it encrypts. -/
  | resume (flow : Nat) (iv : Bytes)
  /-- The server receives an update. -/
  | serve (flow : Nat)
  /-- What a request waits for fails. -/
  | fail (flow : Nat)
  | lock
  /-- Other clients of the account write. -/
  | clientsWrite (server : AccountServer)

/-- Other clients replace a blob together with a higher version, and new items have new ids. -/
def VersionsGrow (items : List EncryptedVaultItem) (server server' : AccountServer) : Prop :=
  ∀ i' ∈ server'.items,
    (∃ i ∈ server.items, i.id = i'.id ∧ (i.version < i'.version ∨
      (i.version = i'.version ∧ i.toEncryptedBlob = i'.toEncryptedBlob))) ∨
    ∀ o ∈ items, o.id ≠ i'.id

instance (items : List EncryptedVaultItem) (server server' : AccountServer) :
    Decidable (VersionsGrow items server server') :=
  inferInstanceAs (Decidable (∀ i' ∈ server'.items, _))

section Steps

variable {Fields : Type} (c : ItemCrypto (ItemPlaintext Fields)) (keys : VaultKeys)
  (localeCompare : String → String → Int)

/-- What `findPasskeyLogins` makes of a decrypted item. -/
def candidateOf (rpId : String) (allowCredentialIdsB64u : List String) (object : Nat)
    (taken : EncryptedVaultItem) (current : DecryptedItem (ItemPlaintext Fields)) :
    Option (Candidate Fields) :=
  match h : current.plaintext.passkey with
  | none => none
  | some passkey =>
    if c.typeOf current.plaintext ≠ some "login" then none
    else if passkey.rpId ≠ rpId then none
    else if allowCredentialIdsB64u ≠ [] ∧ passkey.credentialIdB64u ∉ allowCredentialIdsB64u then
      none
    else some
      { object := object
        taken := taken
        plain := current.plaintext
        revision := current.revision
        passkey := passkey
        plain_passkey := h }

/-- `{ ...plain, passkey: { ...passkey, signCount: newCount } }`. -/
def Candidate.updatedPlain (chosen : Candidate Fields) : ItemPlaintext Fields :=
  { chosen.plain with
    passkey := some { chosen.passkey with signCount := chosen.passkey.signCount + 1 } }

/-- Candidates, most recently created first. -/
def sortCandidates (candidates : List (Candidate Fields)) : List (Candidate Fields) :=
  candidates.mergeSort fun a b => decide
    (localeCompare (b.passkey.createdAt.getD "") (a.passkey.createdAt.getD "") ≤ 0)

namespace PasskeyWorld

variable (w : PasskeyWorld Fields)

/-- A request waits somewhere else. -/
def goOn (i : Nat) (flow : AssertionFlow Fields) : PasskeyWorld Fields :=
  { w with flows := w.flows.set i flow }

/-- `findPasskeyLogins` up to its `await`: the items to decrypt, as they are. -/
def findPasskeyLogins : List (Decryption Fields) :=
  (w.items.zipIdx.filter fun p => p.1.deletedAt = none ∧ p.1.itemType = "login").map fun p =>
    .pending p.2 p.1

/-- The decryption of one item settles: a failure is no candidate. -/
def decrypt (i : Nat) (rpId : String) (allowCredentialIdsB64u : List String)
    (results : List (Decryption Fields)) (k object : Nat) (taken : EncryptedVaultItem) :
    PasskeyWorld Fields :=
  match decryptVaultItem c taken.toEncryptedBlob (bindingForItem taken) keys
      (some w.revisions) with
  | .ok current revisions =>
    { w with revisions := revisions.getD w.revisions }.goOn i
      (.decrypting rpId allowCredentialIdsB64u (results.set k
        (.settled (candidateOf c rpId allowCredentialIdsB64u object taken current))))
  | .error _ _ =>
    w.goOn i (.decrypting rpId allowCredentialIdsB64u (results.set k (.settled none)))

/-- What is there once every decryption has settled. -/
def allSettled : List (Decryption Fields) → Option (List (Candidate Fields))
  | [] => some []
  | .pending _ _ :: _ => none
  | .settled candidate :: rest => (allSettled rest).map (candidate.toList ++ ·)

/-- The counter is signed; the item is encrypted with it at the next revision. -/
def encrypt (i : Nat) (chosen : Candidate Fields) (iv : Bytes) : PasskeyWorld Fields :=
  match w.items[chosen.object]? with
  | none => w.goOn i .ended
  | some item =>
    if !w.unlocked then w.goOn i .ended
    else
      match encryptVaultItem c chosen.updatedPlain (bindingForItem item) keys.vaultEncKey
          (some chosen.revision) iv (some w.revisions) with
      | .ok (encrypted, revision) _ => w.goOn i (.encrypting chosen encrypted revision)
      | .error _ _ => w.goOn i .ended

/-- The update is sent with the version that the item object has now. -/
def sendUpdate (i : Nat) (chosen : Candidate Fields) (encrypted : EncryptedBlob)
    (revision : Nat) : PasskeyWorld Fields :=
  match w.items[chosen.object]? with
  | none => w.goOn i .ended
  | some item =>
    if w.unlocked then w.goOn i (.updating chosen encrypted revision item.version)
    else w.goOn i .ended

/-- The update was accepted: the item object changes in place and the page gets its assertion. -/
def finish (i : Nat) (chosen : Candidate Fields) (encrypted : EncryptedBlob) (revision : Nat)
    (overwritten : EncryptedVaultItem) : PasskeyWorld Fields :=
  match w.items[chosen.object]? with
  | none => w.goOn i .ended
  | some item =>
    if !w.unlocked then w.goOn i .ended
    else
      { w with
        revisions := w.revisions.record item.id revision
        items := w.items.set chosen.object
          { item with toEncryptedBlob := encrypted, version := overwritten.version + 1 }
        flows := w.flows.set i .ended
        returned := w.returned ++ [{
          credentialIdB64u := chosen.passkey.credentialIdB64u
          signCount := (chosen.passkey.signCount + 1) % 2 ^ 32
          userHandleB64u := chosen.passkey.userHandleB64u
          object := chosen.object
          taken := chosen.taken
          overwritten := overwritten
          stored := encrypted }] }

/-- A request goes on. -/
def resume (i : Nat) (iv : Bytes) : AssertionFlow Fields → Option (PasskeyWorld Fields)
  | .decrypting _ _ results =>
    (allSettled results).map fun candidates =>
      if candidates = [] then w.goOn i .ended else w.goOn i (.consenting candidates)
  | .arming candidates =>
    match sortCandidates localeCompare candidates with
    | [] => some (w.goOn i .ended)
    | chosen :: _ => some (w.goOn i (.signing chosen))
  | .signing chosen => some (w.encrypt c keys i chosen iv)
  | .encrypting chosen encrypted revision => some (w.sendUpdate i chosen encrypted revision)
  | .updated chosen encrypted revision overwritten =>
    some (w.finish i chosen encrypted revision overwritten)
  | .consenting _ | .updating _ _ _ _ | .ended => none

/-- The server receives the update of a request. -/
def serve (i : Nat) (chosen : Candidate Fields) (encrypted : EncryptedBlob) (revision : Nat)
    (version : Int) : PasskeyWorld Fields :=
  match w.server.items.find? (fun o => o.id = chosen.taken.id),
      w.server.update chosen.taken.id version encrypted with
  | some overwritten, some server =>
    { w with server := server }.goOn i (.updated chosen encrypted revision overwritten)
  | _, _ => w.goOn i .ended

/-- One event. -/
def step : PasskeyEvent → Option (PasskeyWorld Fields)
  | .get rpId allowCredentialIdsB64u =>
    if w.unlocked then
      some { w with
        flows := w.flows ++ [.decrypting rpId allowCredentialIdsB64u w.findPasskeyLogins] }
    else some w
  | .decrypted i k =>
    match w.flows[i]? with
    | some (.decrypting rpId allowCredentialIdsB64u results) =>
      match results[k]? with
      | some (.pending object taken) =>
        some (w.decrypt c keys i rpId allowCredentialIdsB64u results k object taken)
      | _ => none
    | _ => none
  | .consent i approved =>
    match w.flows[i]? with
    | some (.consenting candidates) =>
      if approved && w.unlocked then some (w.goOn i (.arming candidates))
      else some (w.goOn i .ended)
    | _ => none
  | .resume i iv => w.flows[i]?.bind (w.resume c keys localeCompare i iv)
  | .serve i =>
    match w.flows[i]? with
    | some (.updating chosen encrypted revision version) =>
      some (w.serve i chosen encrypted revision version)
    | _ => none
  | .fail i => w.flows[i]?.map fun _ => w.goOn i .ended
  | .lock => some { w with unlocked := false }
  | .clientsWrite server =>
    if VersionsGrow w.items w.server server then some { w with server := server } else none

end PasskeyWorld

/-- The extension has opened a vault. -/
def PasskeyWorld.opened (server : AccountServer) (vaultId : String)
    (revisions : MemoryRevisionStore) : PasskeyWorld Fields where
  server := server
  items := server.vaultItems vaultId
  revisions := revisions
  unlocked := true
  flows := []
  returned := []

end Steps

/-! ## What the assertions promise -/

section Promise

variable {Fields : Type} (c : ItemCrypto (ItemPlaintext Fields)) (keys : VaultKeys)

/-- A blob holds a passkey. -/
def HoldsPasskey (encrypted : EncryptedBlob) (binding : ItemBinding) (passkey : Passkey) : Prop :=
  ∃ current, openEnvelope c encrypted binding keys = .ok current ∧
    current.plaintext.passkey = some passkey

/-- An update stored the counter of its assertion over what was decrypted for it. -/
def Assertion.Stored (a : Assertion) : Prop :=
  a.overwritten.id = a.taken.id ∧ a.overwritten.toEncryptedBlob = a.taken.toEncryptedBlob ∧
    ∃ passkey, HoldsPasskey c keys a.stored (bindingForItem a.taken) passkey ∧
      passkey.credentialIdB64u = a.credentialIdB64u ∧ passkey.signCount = a.signCount

/-- The counters of a credential increase, and each was stored over what was decrypted. -/
structure InStep (returned : List Assertion) : Prop where
  increase : returned.Pairwise fun a b =>
    a.credentialIdB64u = b.credentialIdB64u → a.signCount < b.signCount
  stored : ∀ a ∈ returned, a.Stored c keys

/-- No two items hold one credential. -/
def CredentialsApart (items : List EncryptedVaultItem) : Prop :=
  items.Pairwise fun i j => ∀ passkey passkey',
    HoldsPasskey c keys i.toEncryptedBlob (bindingForItem i) passkey →
    HoldsPasskey c keys j.toEncryptedBlob (bindingForItem j) passkey' →
    passkey.credentialIdB64u ≠ passkey'.credentialIdB64u

/-- A request that signs gets a counter of 32 bits, and one that sends its update finds the item
object at the version that was decrypted. -/
def AssertionFlow.InTime (items : List EncryptedVaultItem) : AssertionFlow Fields → Prop
  | .signing chosen => chosen.passkey.signCount + 1 < 2 ^ 32
  | .encrypting chosen _ _ => ∀ item ∈ items[chosen.object]?, item.version = chosen.taken.version
  | _ => True

instance (items : List EncryptedVaultItem) : ∀ flow : AssertionFlow Fields,
    Decidable (flow.InTime items)
  | .signing chosen => inferInstanceAs (Decidable (chosen.passkey.signCount + 1 < 2 ^ 32))
  | .encrypting chosen _ _ => inferInstanceAs (Decidable
      (∀ item ∈ items[chosen.object]?, item.version = chosen.taken.version))
  | .decrypting _ _ _ | .consenting _ | .arming _ | .updating _ _ _ _ | .updated _ _ _ _ |
    .ended => inferInstanceAs (Decidable True)

/-- Whatever goes on is in time. -/
def NotOvertaken (w : PasskeyWorld Fields) : PasskeyEvent → Prop
  | .resume i _ => ∀ flow ∈ w.flows[i]?, flow.InTime w.items
  | _ => True

instance (w : PasskeyWorld Fields) : ∀ e, Decidable (NotOvertaken w e)
  | .resume i _ => inferInstanceAs (Decidable (∀ flow ∈ w.flows[i]?, flow.InTime w.items))
  | .get _ _ | .decrypted _ _ | .consent _ _ | .serve _ | .fail _ | .lock | .clientsWrite _ =>
    inferInstanceAs (Decidable True)

/-- An item object has not gone back since an item was taken from it, and is the same while it
has the version. -/
def TakenFrom (items : List EncryptedVaultItem) (object : Nat) (taken : EncryptedVaultItem) :
    Prop :=
  ∃ o, items[object]? = some o ∧ taken.id = o.id ∧ bindingForItem taken = bindingForItem o ∧
    (taken.version < o.version ∨
      (taken.version = o.version ∧ taken.toEncryptedBlob = o.toEncryptedBlob))

/-- A candidate was decrypted from an item object. -/
structure Candidate.Taken (items : List EncryptedVaultItem) (chosen : Candidate Fields) :
    Prop where
  taken : TakenFrom items chosen.object chosen.taken
  holds : HoldsPasskey c keys chosen.taken.toEncryptedBlob (bindingForItem chosen.taken)
    chosen.passkey

/-- A blob holds the next counter of a candidate. -/
structure Candidate.Signed (encrypted : EncryptedBlob) (chosen : Candidate Fields) : Prop where
  bound : chosen.passkey.signCount + 1 < 2 ^ 32
  holds : HoldsPasskey c keys encrypted (bindingForItem chosen.taken)
    { chosen.passkey with signCount := chosen.passkey.signCount + 1 }

/-- The update of a candidate was applied: the item object is still what was decrypted, and the
server has gone on from what was stored. -/
structure Candidate.Applied (items : List EncryptedVaultItem) (server : AccountServer)
    (encrypted : EncryptedBlob) (overwritten : EncryptedVaultItem) (chosen : Candidate Fields) :
    Prop where
  id : overwritten.id = chosen.taken.id
  blob : overwritten.toEncryptedBlob = chosen.taken.toEncryptedBlob
  version : overwritten.version = chosen.taken.version
  unchanged : ∀ o ∈ items[chosen.object]?, o.version = chosen.taken.version
  server : ∀ i ∈ server.items, i.id = chosen.taken.id →
    chosen.taken.version + 1 < i.version ∨
      (chosen.taken.version + 1 = i.version ∧ encrypted = i.toEncryptedBlob)

/-- What holds of a request where it waits. -/
def FlowHolds (w : PasskeyWorld Fields) : AssertionFlow Fields → Prop
  | .decrypting _ _ results => ∀ r ∈ results, match r with
    | .pending object taken => TakenFrom w.items object taken
    | .settled candidate => ∀ chosen ∈ candidate, chosen.Taken c keys w.items
  | .consenting candidates | .arming candidates =>
    ∀ chosen ∈ candidates, chosen.Taken c keys w.items
  | .signing chosen => chosen.Taken c keys w.items
  | .encrypting chosen encrypted _ =>
    chosen.Taken c keys w.items ∧ chosen.Signed c keys encrypted
  | .updating chosen encrypted _ version =>
    chosen.Taken c keys w.items ∧ chosen.Signed c keys encrypted ∧ version = chosen.taken.version
  | .updated chosen encrypted _ overwritten =>
    chosen.Taken c keys w.items ∧ chosen.Signed c keys encrypted ∧
      chosen.Applied w.items w.server encrypted overwritten
  | .ended => True

/-- The item object of an update that was applied. -/
def AssertionFlow.applied : AssertionFlow Fields → Option Nat
  | .updated chosen _ _ _ => some chosen.object
  | _ => none

/-- What holds in a run that is not overtaken. -/
structure PasskeyInv (w : PasskeyWorld Fields) : Prop where
  ids : (w.items.map (·.id)).Nodup
  server : ∀ o ∈ w.items, ∀ i ∈ w.server.items, i.id = o.id →
    o.version < i.version ∨ (o.version = i.version ∧ o.toEncryptedBlob = i.toEncryptedBlob)
  apart : CredentialsApart c keys w.items
  flows : ∀ f ∈ w.flows, FlowHolds c keys w f
  applied : ∀ (i j k : Nat), w.flows[i]?.bind AssertionFlow.applied = some k →
    w.flows[j]?.bind AssertionFlow.applied = some k → i = j
  counted : ∀ a ∈ w.returned, ∃ o passkey, w.items[a.object]? = some o ∧
    HoldsPasskey c keys o.toEncryptedBlob (bindingForItem o) passkey ∧
    passkey.credentialIdB64u = a.credentialIdB64u ∧ a.signCount ≤ passkey.signCount
  inStep : InStep c keys w.returned

variable {c keys} {w w' : PasskeyWorld Fields}

/-! ## Steps -/

/-- What is encrypted at the next revision holds the passkey that it was given. -/
theorem holdsPasskey_of_encryptVaultItem (hc : c.aes.Correct)
    (hjson : ∀ plain, c.parse (c.serialize plain) = some plain) {plain : ItemPlaintext Fields}
    {binding : ItemBinding} {current : Option Nat} {iv : Bytes}
    {s s' : Option MemoryRevisionStore} {encrypted : EncryptedBlob} {revision : Nat}
    {passkey : Passkey} (hplain : plain.passkey = some passkey)
    (h : encryptVaultItem c plain binding keys.vaultEncKey current iv s =
      .ok (encrypted, revision) s') : HoldsPasskey c keys encrypted binding passkey := by
  simp only [encryptVaultItem, EStateM.bind_eq_ok, liftItem_eq_ok, EStateM.pure_eq_ok] at h
  obtain ⟨highest, _, -, _, _, ⟨hrun, -⟩, heq, -⟩ := h
  cases heq
  exact ⟨_, openEnvelope_encryptItemV2 hc hjson hrun, hplain⟩

/-- Where nothing is written no version goes back. -/
theorem versionsGrow_refl (items : List EncryptedVaultItem) (server : AccountServer) :
    VersionsGrow items server server :=
  fun i' hi' => .inl ⟨i', hi', rfl, .inr ⟨rfl, rfl⟩⟩

/-- Item objects stay behind a server whose versions grow. -/
theorem behind_of_versionsGrow {items : List EncryptedVaultItem} {server server' : AccountServer}
    {id : String} {version : Int} {blob : EncryptedBlob} (hgrow : VersionsGrow items server server')
    (ho : ∃ o ∈ items, o.id = id)
    (h : ∀ i ∈ server.items, i.id = id →
      version < i.version ∨ (version = i.version ∧ blob = i.toEncryptedBlob)) :
    ∀ i ∈ server'.items, i.id = id →
      version < i.version ∨ (version = i.version ∧ blob = i.toEncryptedBlob) := by
  intro i' hi' hid
  obtain ⟨o, hmem, hoid⟩ := ho
  rcases hgrow i' hi' with ⟨i, hi, hii', hver⟩ | hfresh
  · have hbehind := h i hi (hii'.trans hid)
    rcases hver with hlt | ⟨heq, hblob⟩
    · rcases hbehind with hb | ⟨hb, -⟩
      · exact .inl (hb.trans hlt)
      · exact .inl (hb ▸ hlt)
    · rw [← heq, ← hblob]
      exact hbehind
  · exact absurd (hoid.trans hid.symm) (hfresh o hmem)

/-- A request does not notice what the server does with other versions. -/
theorem FlowHolds.grow {f : AssertionFlow Fields} (hf : FlowHolds c keys w f)
    (hitems : w'.items = w.items) (hgrow : VersionsGrow w.items w.server w'.server) :
    FlowHolds c keys w' f := by
  cases f with
  | updated chosen encrypted revision overwritten =>
    obtain ⟨htaken, hsigned, happlied⟩ := hf
    obtain ⟨o, ho, hid, -⟩ := htaken.taken
    refine ⟨by rw [hitems]; exact htaken, hsigned, happlied.id, happlied.blob, happlied.version,
      by rw [hitems]; exact happlied.unchanged, ?_⟩
    exact behind_of_versionsGrow hgrow ⟨o, List.mem_of_getElem? ho, hid.symm⟩ happlied.server
  | decrypting | consenting | arming | signing | encrypting | updating =>
    unfold FlowHolds at hf ⊢
    rw [hitems]
    exact hf
  | ended => trivial

/-- What is not about the item objects holds on. -/
theorem PasskeyInv.frame (h : PasskeyInv c keys w) (hitems : w'.items = w.items)
    (hreturned : w'.returned = w.returned)
    (hgrow : VersionsGrow w.items w.server w'.server)
    (hflows : ∀ f ∈ w'.flows, f ∈ w.flows ∨ FlowHolds c keys w' f)
    (happlied : ∀ (i j k : Nat), w'.flows[i]?.bind AssertionFlow.applied = some k →
      w'.flows[j]?.bind AssertionFlow.applied = some k → i = j) : PasskeyInv c keys w' := by
  constructor
  · rw [hitems]
    exact h.ids
  · rw [hitems]
    intro o ho
    exact behind_of_versionsGrow hgrow ⟨o, ho, rfl⟩ (h.server o ho)
  · rw [hitems]
    exact h.apart
  · intro f hf
    rcases hflows f hf with hf | hf
    · exact (h.flows f hf).grow hitems hgrow
    · exact hf
  · exact happlied
  · rw [hitems, hreturned]
    exact h.counted
  · rw [hreturned]
    exact h.inStep

/-- A request that was not applied goes on. -/
theorem PasskeyInv.goOn (h : PasskeyInv c keys w) {i : Nat} {f : AssertionFlow Fields}
    (hf : FlowHolds c keys w f) (hnone : f.applied = none) : PasskeyInv c keys (w.goOn i f) := by
  have hitems : (w.goOn i f).items = w.items := rfl
  apply h.frame hitems rfl (versionsGrow_refl _ _)
  · intro f₁ hf₁
    rcases List.mem_or_eq_of_mem_set hf₁ with hf₁ | rfl
    · exact .inl hf₁
    · exact .inr (hf.grow rfl (versionsGrow_refl _ _))
  · have hold : ∀ (j k : Nat), (w.flows.set i f)[j]?.bind AssertionFlow.applied = some k →
        w.flows[j]?.bind AssertionFlow.applied = some k := by
      intro j k hj
      rw [List.getElem?_set] at hj
      split at hj
      · split at hj
        · rw [Option.bind_some, hnone] at hj
          cases hj
        · cases hj
      · exact hj
    intro j j' k hj hj'
    exact h.applied j j' k (hold j k hj) (hold j' k hj')

/-- The revisions and the lock are no part of what holds. -/
theorem PasskeyInv.congr (h : PasskeyInv c keys w) (revisions : MemoryRevisionStore)
    (unlocked : Bool) :
    PasskeyInv c keys { w with revisions := revisions, unlocked := unlocked } :=
  h.frame rfl rfl (versionsGrow_refl _ _) (fun _ hf => .inl hf) h.applied

/-- A request begins. -/
theorem PasskeyInv.begin_ (h : PasskeyInv c keys w) {f : AssertionFlow Fields}
    (hf : FlowHolds c keys w f) (hnone : f.applied = none) :
    PasskeyInv c keys { w with flows := w.flows ++ [f] } := by
  have hitems : ({ w with flows := w.flows ++ [f] } : PasskeyWorld Fields).items = w.items := rfl
  apply h.frame hitems rfl (versionsGrow_refl _ _)
  · intro f₁ hf₁
    rcases List.mem_append.mp hf₁ with hf₁ | hf₁
    · exact .inl hf₁
    · rw [List.mem_singleton.mp hf₁]
      exact .inr (hf.grow rfl (versionsGrow_refl _ _))
  · have hold : ∀ (j k : Nat), (w.flows ++ [f])[j]?.bind AssertionFlow.applied = some k →
        w.flows[j]?.bind AssertionFlow.applied = some k := by
      intro j k hj
      by_cases hlt : j < w.flows.length
      · rwa [List.getElem?_append_left hlt] at hj
      · rw [List.getElem?_append_right (Nat.le_of_not_lt hlt)] at hj
        obtain ⟨f₁, hf₁, hk⟩ := Option.bind_eq_some_iff.mp hj
        rw [List.mem_singleton.mp (List.mem_of_getElem? hf₁), hnone] at hk
        cases hk
    intro j j' k hj hj'
    exact h.applied j j' k (hold j k hj) (hold j' k hj')

/-- What is decrypted is taken from the item objects. -/
theorem flowHolds_findPasskeyLogins (rpId : String) (allow : List String) :
    FlowHolds c keys w (.decrypting rpId allow w.findPasskeyLogins) := by
  intro r hr
  obtain ⟨⟨item, object⟩, hmem, rfl⟩ := List.mem_map.mp hr
  have hget := List.mk_mem_zipIdx_iff_getElem?.mp (List.mem_filter.mp hmem).1
  exact ⟨item, hget, rfl, rfl, .inr ⟨rfl, rfl⟩⟩

/-- A candidate holds the passkey of what was decrypted. -/
theorem taken_candidateOf {items : List EncryptedVaultItem} {rpId : String} {allow : List String}
    {object : Nat} {taken : EncryptedVaultItem} {current : DecryptedItem (ItemPlaintext Fields)}
    (htaken : TakenFrom items object taken)
    (hopen : openEnvelope c taken.toEncryptedBlob (bindingForItem taken) keys = .ok current) :
    ∀ chosen ∈ candidateOf c rpId allow object taken current, chosen.Taken c keys items := by
  intro chosen h
  unfold candidateOf at h
  split at h
  · cases h
  · rename_i passkey hpasskey
    split at h
    · cases h
    · split at h
      · cases h
      · split at h
        · cases h
        · cases h
          exact ⟨htaken, current, hopen, hpasskey⟩

/-- The candidates of decryptions that have settled. -/
theorem mem_of_allSettled {results : List (Decryption Fields)}
    {candidates : List (Candidate Fields)}
    (h : PasskeyWorld.allSettled results = some candidates) :
    ∀ chosen ∈ candidates, .settled (some chosen) ∈ results := by
  induction results generalizing candidates with
  | nil =>
    cases h
    intro chosen hchosen
    cases hchosen
  | cons r rest ih =>
    cases r with
    | pending => cases h
    | settled candidate =>
      obtain ⟨others, hothers, rfl⟩ := Option.map_eq_some_iff.mp h
      intro chosen hchosen
      rcases List.mem_append.mp hchosen with hmem | hmem
      · rw [Option.mem_toList.mp hmem]
        exact List.mem_cons_self
      · exact List.mem_cons_of_mem _ (ih hothers chosen hmem)

/-- The decryption of an item settles. -/
theorem PasskeyInv.decrypt (h : PasskeyInv c keys w) {i k object : Nat} {rpId : String}
    {allow : List String} {results : List (Decryption Fields)} {taken : EncryptedVaultItem}
    (hflow : FlowHolds c keys w (.decrypting rpId allow results))
    (hpending : results[k]? = some (.pending object taken)) :
    PasskeyInv c keys (w.decrypt c keys i rpId allow results k object taken) := by
  have htaken : TakenFrom w.items object taken := hflow _ (List.mem_of_getElem? hpending)
  have hset : ∀ candidate : Option (Candidate Fields),
      (∀ chosen ∈ candidate, chosen.Taken c keys w.items) →
      FlowHolds c keys w (.decrypting rpId allow (results.set k (.settled candidate))) := by
    intro candidate hcandidate r hr
    rcases List.mem_or_eq_of_mem_set hr with hr | rfl
    · exact hflow r hr
    · exact hcandidate
  unfold PasskeyWorld.decrypt
  split
  · rename_i current revisions hdecrypt
    obtain ⟨-, hopen, -⟩ := decryptVaultItem_ok_iff.mp hdecrypt
    exact (h.goOn (hset _ (taken_candidateOf htaken hopen)) rfl).congr _ _
  · exact h.goOn (hset none nofun) rfl

/-- A counter of 32 bits is encrypted. -/
theorem PasskeyInv.encrypt (hc : c.aes.Correct)
    (hjson : ∀ plain, c.parse (c.serialize plain) = some plain) (h : PasskeyInv c keys w)
    {i : Nat} {chosen : Candidate Fields} {iv : Bytes} (htaken : chosen.Taken c keys w.items)
    (hbound : chosen.passkey.signCount + 1 < 2 ^ 32) :
    PasskeyInv c keys (w.encrypt c keys i chosen iv) := by
  obtain ⟨o, ho, -, hbinding, -⟩ := htaken.taken
  unfold PasskeyWorld.encrypt
  rw [ho]
  dsimp only
  split
  · exact h.goOn trivial rfl
  · split
    · rename_i encrypted revision s hencrypt
      rw [← hbinding] at hencrypt
      exact h.goOn
        ⟨htaken, hbound, holdsPasskey_of_encryptVaultItem hc hjson rfl hencrypt⟩ rfl
    · exact h.goOn trivial rfl

/-- An update is sent in time. -/
theorem PasskeyInv.sendUpdate (h : PasskeyInv c keys w) {i : Nat} {chosen : Candidate Fields}
    {encrypted : EncryptedBlob} {revision : Nat} (htaken : chosen.Taken c keys w.items)
    (hsigned : chosen.Signed c keys encrypted)
    (htime : ∀ item ∈ w.items[chosen.object]?, item.version = chosen.taken.version) :
    PasskeyInv c keys (w.sendUpdate i chosen encrypted revision) := by
  unfold PasskeyWorld.sendUpdate
  split
  · exact h.goOn trivial rfl
  · rename_i item hitem
    split
    · exact h.goOn ⟨htaken, hsigned, htime item hitem⟩ rfl
    · exact h.goOn trivial rfl

/-- An update raises the version of the item that it is applied to. -/
theorem update_eq_some {server server' : AccountServer} {id : String} {version : Int}
    {encrypted : EncryptedBlob} (h : server.update id version encrypted = some server') :
    (∃ i ∈ server.items, i.id = id ∧ i.version = version) ∧
      server'.items = server.items.map (replaceBlob id version encrypted) := by
  unfold AccountServer.update at h
  split at h
  · rename_i hany
    cases h
    obtain ⟨i, hi, hmatch⟩ := List.any_eq_true.mp hany
    rw [Bool.and_eq_true, decide_eq_true_eq, decide_eq_true_eq] at hmatch
    exact ⟨⟨i, hi, hmatch⟩, rfl⟩
  · cases h

/-- The versions grow with an update. -/
theorem versionsGrow_update {items : List EncryptedVaultItem} {server server' : AccountServer}
    {id : String} {version : Int} {encrypted : EncryptedBlob}
    (h : server.update id version encrypted = some server') :
    VersionsGrow items server server' := by
  intro i' hi'
  rw [(update_eq_some h).2] at hi'
  obtain ⟨i, hi, rfl⟩ := List.mem_map.mp hi'
  refine .inl ⟨i, hi, (id_replaceBlob id version encrypted i).symm, ?_⟩
  unfold replaceBlob
  split
  · exact .inl (Int.lt_add_one_of_le (Int.le_refl _))
  · exact .inr ⟨rfl, rfl⟩

/-- On the server an id is one item. -/
theorem AccountServer.eq_of_id (server : AccountServer) {i j : EncryptedVaultItem}
    (hi : i ∈ server.items) (hj : j ∈ server.items) (h : i.id = j.id) : i = j :=
  List.inj_on_of_nodup_map server.ids_nodup hi hj h

/-- An update that is applied at the version that was decrypted finds the item object and the
server's item as they were then. -/
theorem PasskeyInv.applied_of_update (h : PasskeyInv c keys w) {chosen : Candidate Fields}
    {encrypted : EncryptedBlob} {item : EncryptedVaultItem} {server : AccountServer}
    (htaken : TakenFrom w.items chosen.object chosen.taken) (hitem : item ∈ w.server.items)
    (hid : item.id = chosen.taken.id)
    (hupdate : w.server.update chosen.taken.id chosen.taken.version encrypted = some server) :
    chosen.Applied w.items server encrypted item := by
  obtain ⟨o, ho, hoid, -, hver⟩ := htaken
  obtain ⟨⟨item', hitem', hid', hversion⟩, hitems⟩ := update_eq_some hupdate
  have hsame : item' = item := w.server.eq_of_id hitem' hitem (hid'.trans hid.symm)
  rw [hsame] at hversion
  have hbehind := h.server o (List.mem_of_getElem? ho) item hitem (hid.trans hoid)
  have hoversion : o.version = chosen.taken.version := by
    rcases hbehind with hlt | ⟨heq, -⟩
    · rcases hver with hv | ⟨hv, -⟩ <;> omega
    · omega
  have hblob : item.toEncryptedBlob = chosen.taken.toEncryptedBlob := by
    rcases hbehind with hlt | ⟨-, hb⟩
    · omega
    · rcases hver with hv | ⟨-, hv⟩
      · omega
      · rw [hv, hb]
  refine ⟨hid, hblob, hversion, ?_, ?_⟩
  · intro o' ho'
    rw [ho] at ho'
    cases ho'
    exact hoversion
  · intro j hj hjid
    rw [hitems] at hj
    obtain ⟨j₀, hj₀, rfl⟩ := List.mem_map.mp hj
    rw [id_replaceBlob] at hjid
    have heq : j₀ = item := w.server.eq_of_id hj₀ hitem (hjid.trans hid.symm)
    rw [heq, replaceBlob, if_pos ⟨hid, hversion⟩, hversion]
    exact .inr ⟨rfl, rfl⟩

/-- An update that was applied to an item object has taken the server past it. -/
theorem PasskeyInv.past_of_applied (h : PasskeyInv c keys w) {j k : Nat}
    (hj : w.flows[j]?.bind AssertionFlow.applied = some k) {o : EncryptedVaultItem}
    (ho : w.items[k]? = some o) : ∀ i ∈ w.server.items, i.id = o.id → o.version < i.version := by
  intro i hi hid
  obtain ⟨f, hf, hk⟩ := Option.bind_eq_some_iff.mp hj
  have hholds := h.flows f (List.mem_of_getElem? hf)
  cases f with
  | updated chosen encrypted revision overwritten =>
    obtain ⟨htaken, -, happlied⟩ := hholds
    obtain ⟨o', ho', hoid, -⟩ := htaken.taken
    rw [AssertionFlow.applied, Option.some.injEq] at hk
    have hun := happlied.unchanged o (by rw [hk]; exact ho)
    rw [hk, ho] at ho'
    cases ho'
    rcases happlied.server i hi (hid.trans hoid.symm) with hlt | ⟨heq, -⟩ <;> omega
  | _ => cases hk

/-- The server receives an update that was sent in time. -/
theorem PasskeyInv.serve (h : PasskeyInv c keys w) {i : Nat} {chosen : Candidate Fields}
    {encrypted : EncryptedBlob} {revision : Nat} (htaken : chosen.Taken c keys w.items)
    (hsigned : chosen.Signed c keys encrypted) (hi : i < w.flows.length) :
    PasskeyInv c keys (w.serve i chosen encrypted revision chosen.taken.version) := by
  unfold PasskeyWorld.serve
  split
  · rename_i overwritten server hfind hupdate
    have hmem := List.mem_of_find?_eq_some hfind
    have hid : overwritten.id = chosen.taken.id := by simpa using List.find?_some hfind
    have happlied := h.applied_of_update htaken.taken hmem hid hupdate
    have hgrow : VersionsGrow w.items w.server server := versionsGrow_update hupdate
    obtain ⟨o, ho, hoid, -⟩ := htaken.taken
    -- an update that was applied before would have taken the server past the object
    have hother : ∀ (j : Nat), w.flows[j]?.bind AssertionFlow.applied ≠ some chosen.object := by
      intro j hj
      have hpast := h.past_of_applied hj ho overwritten hmem (hid.trans hoid)
      have hun := happlied.unchanged o ho
      have hversion := happlied.version
      omega
    have hitems : ({ w with server := server }.goOn i
        (.updated chosen encrypted revision overwritten) : PasskeyWorld Fields).items =
        w.items := rfl
    apply h.frame hitems rfl hgrow
    · intro f hf
      rcases List.mem_or_eq_of_mem_set hf with hf | rfl
      · exact .inl hf
      · exact .inr ⟨htaken, hsigned, happlied⟩
    · have hcases : ∀ (j k : Nat),
          (w.flows.set i (.updated chosen encrypted revision overwritten))[j]?.bind
            AssertionFlow.applied = some k →
          (j = i ∧ k = chosen.object) ∨ w.flows[j]?.bind AssertionFlow.applied = some k := by
        intro j k hj
        by_cases hji : i = j
        · rw [← hji, List.getElem?_set_self hi] at hj
          exact .inl ⟨hji.symm, (Option.some.inj hj).symm⟩
        · rw [List.getElem?_set_ne hji] at hj
          exact .inr hj
      intro j j' k hj hj'
      rcases hcases j k hj with ⟨hji, hk⟩ | hold
      · rcases hcases j' k hj' with ⟨hji', -⟩ | hold'
        · rw [hji, hji']
        · rw [hk] at hold'
          exact absurd hold' (hother j')
      · rcases hcases j' k hj' with ⟨-, hk⟩ | hold'
        · rw [hk] at hold
          exact absurd hold (hother j)
        · exact h.applied j j' k hold hold'
  · exact h.goOn trivial rfl

/-- A blob holds one passkey at most. -/
theorem HoldsPasskey.eq {encrypted : EncryptedBlob} {binding : ItemBinding}
    {passkey passkey' : Passkey} (h : HoldsPasskey c keys encrypted binding passkey)
    (h' : HoldsPasskey c keys encrypted binding passkey') : passkey = passkey' := by
  obtain ⟨current, hopen, hpasskey⟩ := h
  obtain ⟨current', hopen', hpasskey'⟩ := h'
  rw [hopen] at hopen'
  cases hopen'
  rw [hpasskey] at hpasskey'
  exact Option.some.inj hpasskey'

/-- An item object that gets another blob and a higher version. -/
structure Advances (items : List EncryptedVaultItem) (k : Nat) (o o' : EncryptedVaultItem) :
    Prop where
  object : items[k]? = some o
  id : o'.id = o.id
  binding : bindingForItem o' = bindingForItem o
  version : o.version < o'.version

/-- What was taken stays behind the item objects. -/
theorem TakenFrom.advance {items : List EncryptedVaultItem} {k object : Nat}
    {o o' taken : EncryptedVaultItem} (ha : Advances items k o o')
    (h : TakenFrom items object taken) : TakenFrom (items.set k o') object taken := by
  obtain ⟨o₁, ho₁, hid, hbinding, hver⟩ := h
  by_cases hk : k = object
  · rw [← hk] at ho₁ ⊢
    rw [ha.object] at ho₁
    cases ho₁
    refine ⟨o', ?_, hid.trans ha.id.symm, hbinding.trans ha.binding.symm, .inl ?_⟩
    · rw [List.getElem?_set_self (List.getElem?_eq_some_iff.mp ha.object).1]
    · have hlt := ha.version
      rcases hver with hv | ⟨hv, -⟩ <;> omega
  · exact ⟨o₁, by rw [List.getElem?_set_ne hk, ho₁], hid, hbinding, hver⟩

/-- A candidate stays one. -/
theorem Candidate.Taken.advance {items : List EncryptedVaultItem} {k : Nat}
    {o o' : EncryptedVaultItem} {chosen : Candidate Fields} (ha : Advances items k o o')
    (h : chosen.Taken c keys items) : chosen.Taken c keys (items.set k o') :=
  ⟨h.taken.advance ha, h.holds⟩

/-- A request does not notice that an item object advances, unless its update was applied to
it. -/
theorem FlowHolds.advance {f : AssertionFlow Fields} {k : Nat} {o o' : EncryptedVaultItem}
    (ha : Advances w.items k o o') (hf : FlowHolds c keys w f) (hne : f.applied ≠ some k)
    (hitems : w'.items = w.items.set k o') (hserver : w'.server = w.server) :
    FlowHolds c keys w' f := by
  cases f with
  | decrypting rpId allow results =>
    intro r hr
    cases r with
    | pending object taken =>
      rw [hitems]
      exact TakenFrom.advance ha (hf _ hr)
    | settled candidate =>
      intro chosen hchosen
      rw [hitems]
      exact (hf _ hr chosen hchosen).advance ha
  | consenting candidates | arming candidates =>
    intro chosen hchosen
    rw [hitems]
    exact (hf chosen hchosen).advance ha
  | signing chosen =>
    rw [FlowHolds, hitems]
    exact Candidate.Taken.advance ha hf
  | encrypting chosen encrypted revision =>
    rw [FlowHolds, hitems]
    exact ⟨hf.1.advance ha, hf.2⟩
  | updating chosen encrypted revision version =>
    rw [FlowHolds, hitems]
    exact ⟨hf.1.advance ha, hf.2⟩
  | updated chosen encrypted revision overwritten =>
    rw [FlowHolds, hitems, hserver]
    obtain ⟨htaken, hsigned, happlied⟩ := hf
    refine ⟨htaken.advance ha, hsigned, happlied.id, happlied.blob, happlied.version, ?_,
      happlied.server⟩
    have hk : k ≠ chosen.object := fun heq => hne (by rw [heq]; rfl)
    rw [List.getElem?_set_ne hk]
    exact happlied.unchanged
  | ended => trivial

/-- The credentials stay apart when an item object advances and keeps its own. -/
theorem CredentialsApart.advance {items : List EncryptedVaultItem} {k : Nat}
    {o o' : EncryptedVaultItem} (h : CredentialsApart c keys items) (ho : items[k]? = some o)
    (hsame : ∀ passkey', HoldsPasskey c keys o'.toEncryptedBlob (bindingForItem o') passkey' →
      ∃ passkey, HoldsPasskey c keys o.toEncryptedBlob (bindingForItem o) passkey ∧
        passkey.credentialIdB64u = passkey'.credentialIdB64u) :
    CredentialsApart c keys (items.set k o') := by
  unfold CredentialsApart at h ⊢
  rw [List.pairwise_iff_getElem] at h ⊢
  obtain ⟨hk, hoeq⟩ := List.getElem?_eq_some_iff.mp ho
  have hback : ∀ (i : Nat) (hi : i < (items.set k o').length) (hi₀ : i < items.length)
      (passkey' : Passkey), HoldsPasskey c keys (items.set k o')[i].toEncryptedBlob
        (bindingForItem (items.set k o')[i]) passkey' →
      ∃ passkey, HoldsPasskey c keys items[i].toEncryptedBlob (bindingForItem items[i]) passkey ∧
        passkey.credentialIdB64u = passkey'.credentialIdB64u := by
    intro i hi hi₀ passkey' hp
    rw [List.getElem_set] at hp
    split at hp
    · rename_i hki
      subst hki
      rw [hoeq]
      exact hsame passkey' hp
    · exact ⟨passkey', hp, rfl⟩
  intro i j hi hj hij passkey passkey' hp hp'
  have hi₀ : i < items.length := by simpa using hi
  have hj₀ : j < items.length := by simpa using hj
  obtain ⟨old, hold, hcred⟩ := hback i hi hi₀ passkey hp
  obtain ⟨old', hold', hcred'⟩ := hback j hj hj₀ passkey' hp'
  rw [← hcred, ← hcred']
  exact h i j hi₀ hj₀ hij old old' hold hold'

/-- Two item objects that hold one credential are one. -/
theorem CredentialsApart.eq {items : List EncryptedVaultItem} {i j : Nat}
    {o o' : EncryptedVaultItem} {passkey passkey' : Passkey} (h : CredentialsApart c keys items)
    (ho : items[i]? = some o) (ho' : items[j]? = some o')
    (hp : HoldsPasskey c keys o.toEncryptedBlob (bindingForItem o) passkey)
    (hp' : HoldsPasskey c keys o'.toEncryptedBlob (bindingForItem o') passkey')
    (hcred : passkey.credentialIdB64u = passkey'.credentialIdB64u) : i = j := by
  unfold CredentialsApart at h
  rw [List.pairwise_iff_getElem] at h
  obtain ⟨hi, rfl⟩ := List.getElem?_eq_some_iff.mp ho
  obtain ⟨hj, rfl⟩ := List.getElem?_eq_some_iff.mp ho'
  rcases Nat.lt_trichotomy i j with hij | hij | hij
  · exact absurd hcred (h i j hi hj hij passkey passkey' hp hp')
  · exact hij
  · exact absurd hcred.symm (h j i hj hi hij passkey' passkey hp' hp)

/-- The next counter. -/
def Passkey.next (passkey : Passkey) : Passkey :=
  { passkey with signCount := passkey.signCount + 1 }

/-- An assertion with the next counter of an item object is above those before. -/
theorem PasskeyInv.inStep_append (h : PasskeyInv c keys w) {k : Nat} {o : EncryptedVaultItem}
    {passkey : Passkey} {a : Assertion} (ho : w.items[k]? = some o)
    (hold : HoldsPasskey c keys o.toEncryptedBlob (bindingForItem o) passkey)
    (hcred : a.credentialIdB64u = passkey.credentialIdB64u)
    (hcount : a.signCount = passkey.signCount + 1) (hstored : a.Stored c keys) :
    InStep c keys (w.returned ++ [a]) := by
  constructor
  · rw [List.pairwise_append]
    refine ⟨h.inStep.increase, List.pairwise_singleton _ _, ?_⟩
    intro b hb a' ha' hbcred
    rw [List.mem_singleton.mp ha'] at hbcred ⊢
    obtain ⟨ob, passkeyb, hob, hholds, hpcred, hle⟩ := h.counted b hb
    have hobject := h.apart.eq hob ho hholds hold (hpcred.trans (hbcred.trans hcred))
    rw [hobject, ho] at hob
    cases hob
    rw [hholds.eq hold] at hle
    omega
  · intro b hb
    rcases List.mem_append.mp hb with hb | hb
    · exact h.inStep.stored b hb
    · rw [List.mem_singleton.mp hb]
      exact hstored

/-- The counters given away stay at or below what the item objects hold. -/
theorem PasskeyInv.counted_append (h : PasskeyInv c keys w) {k : Nat} {o o' : EncryptedVaultItem}
    {passkey : Passkey} {a : Assertion} (ho : w.items[k]? = some o)
    (hold : HoldsPasskey c keys o.toEncryptedBlob (bindingForItem o) passkey)
    (hnew : HoldsPasskey c keys o'.toEncryptedBlob (bindingForItem o') passkey.next)
    (hobject : a.object = k) (hcred : a.credentialIdB64u = passkey.credentialIdB64u)
    (hcount : a.signCount = passkey.signCount + 1) :
    ∀ b ∈ w.returned ++ [a], ∃ ob passkeyb, (w.items.set k o')[b.object]? = some ob ∧
      HoldsPasskey c keys ob.toEncryptedBlob (bindingForItem ob) passkeyb ∧
      passkeyb.credentialIdB64u = b.credentialIdB64u ∧ b.signCount ≤ passkeyb.signCount := by
  have hself : (w.items.set k o')[k]? = some o' :=
    List.getElem?_set_self (List.getElem?_eq_some_iff.mp ho).1
  intro b hb
  rcases List.mem_append.mp hb with hb | hb
  · obtain ⟨ob, passkeyb, hob, hholds, hpcred, hle⟩ := h.counted b hb
    by_cases hk : k = b.object
    · rw [← hk, ho] at hob
      cases hob
      have hpasskey := hholds.eq hold
      refine ⟨o', passkey.next, by rw [← hk]; exact hself, hnew, ?_, ?_⟩
      · rw [← hpcred, hpasskey]
        rfl
      · rw [hpasskey] at hle
        exact Nat.le_succ_of_le hle
    · exact ⟨ob, passkeyb, by rw [List.getElem?_set_ne hk, hob], hholds, hpcred, hle⟩
  · rw [List.mem_singleton.mp hb, hobject]
    exact ⟨o', passkey.next, hself, hnew, hcred.symm, hcount.le⟩

/-- The ids of item objects of which one advances. -/
theorem map_id_set {items : List EncryptedVaultItem} {k : Nat} {o o' : EncryptedVaultItem}
    (ha : Advances items k o o') : (items.set k o').map (·.id) = items.map (·.id) := by
  have hget : (items.map (·.id))[k]? = some o.id := by rw [List.getElem?_map, ha.object]; rfl
  obtain ⟨hk, hid⟩ := List.getElem?_eq_some_iff.mp hget
  rw [List.map_set, ha.id, ← hid, List.set_getElem_self]

/-- The request whose update was applied to an item object ends; the object advances to what was
stored, and the assertion with its counter is returned. -/
theorem PasskeyInv.advance (h : PasskeyInv c keys w) {i k : Nat} {o o' : EncryptedVaultItem}
    {passkey : Passkey} {a : Assertion} (ha : Advances w.items k o o')
    (happlied : w.flows[i]?.bind AssertionFlow.applied = some k)
    (hold : HoldsPasskey c keys o.toEncryptedBlob (bindingForItem o) passkey)
    (hnew : HoldsPasskey c keys o'.toEncryptedBlob (bindingForItem o') passkey.next)
    (hbehind : ∀ j ∈ w.server.items, j.id = o'.id →
      o'.version < j.version ∨ (o'.version = j.version ∧ o'.toEncryptedBlob = j.toEncryptedBlob))
    (hobject : a.object = k) (hcred : a.credentialIdB64u = passkey.credentialIdB64u)
    (hcount : a.signCount = passkey.signCount + 1) (hstored : a.Stored c keys)
    (hitems : w'.items = w.items.set k o') (hserver : w'.server = w.server)
    (hflows : w'.flows = w.flows.set i .ended) (hreturned : w'.returned = w.returned ++ [a]) :
    PasskeyInv c keys w' := by
  have hback : ∀ (j l : Nat), w'.flows[j]?.bind AssertionFlow.applied = some l →
      w.flows[j]?.bind AssertionFlow.applied = some l := by
    intro j l hj
    rw [hflows, List.getElem?_set] at hj
    split at hj
    · split at hj <;> cases hj
    · exact hj
  constructor
  · rw [hitems, map_id_set ha]
    exact h.ids
  · rw [hitems, hserver]
    intro o₁ ho₁ j hj hjid
    rcases List.mem_or_eq_of_mem_set ho₁ with ho₁ | rfl
    · exact h.server o₁ ho₁ j hj hjid
    · exact hbehind j hj hjid
  · rw [hitems]
    apply h.apart.advance ha.object
    intro passkey' hp'
    exact ⟨passkey, hold, by rw [← hnew.eq hp']; rfl⟩
  · intro f hf
    obtain ⟨j, hj⟩ := List.mem_iff_getElem?.mp hf
    by_cases hij : i = j
    · rw [hflows, ← hij, List.getElem?_set] at hj
      split at hj
      · split at hj <;> cases hj
        trivial
      · contradiction
    · rw [hflows, List.getElem?_set_ne hij] at hj
      apply (h.flows f (List.mem_of_getElem? hj)).advance ha _ hitems hserver
      intro hk
      exact hij (h.applied i j k happlied (by rw [hj]; exact hk))
  · intro j j' l hj hj'
    exact h.applied j j' l (hback j l hj) (hback j' l hj')
  · rw [hitems, hreturned]
    exact h.counted_append ha.object hold hnew hobject hcred hcount
  · rw [hreturned]
    exact h.inStep_append ha.object hold hcred hcount hstored

/-- The update was accepted: the page gets its assertion. -/
theorem PasskeyInv.finish (h : PasskeyInv c keys w) {i : Nat} {chosen : Candidate Fields}
    {encrypted : EncryptedBlob} {revision : Nat} {overwritten : EncryptedVaultItem}
    (hflow : w.flows[i]? = some (.updated chosen encrypted revision overwritten)) :
    PasskeyInv c keys (w.finish i chosen encrypted revision overwritten) := by
  obtain ⟨htaken, hsigned, happlied⟩ := h.flows _ (List.mem_of_getElem? hflow)
  obtain ⟨o, ho, hid, hbinding, hver⟩ := htaken.taken
  have hversion := happlied.unchanged o ho
  have hold : HoldsPasskey c keys o.toEncryptedBlob (bindingForItem o) chosen.passkey := by
    rcases hver with hv | ⟨-, hblob⟩
    · omega
    · rw [← hblob, ← hbinding]
      exact htaken.holds
  have hnew : HoldsPasskey c keys encrypted (bindingForItem o) chosen.passkey.next := by
    rw [← hbinding]
    exact hsigned.holds
  have hcounter : (chosen.passkey.signCount + 1) % 2 ^ 32 = chosen.passkey.signCount + 1 :=
    Nat.mod_eq_of_lt hsigned.bound
  unfold PasskeyWorld.finish
  rw [ho]
  dsimp only
  split
  · exact h.goOn trivial rfl
  · have hadvance : Advances w.items chosen.object o { o with
        toEncryptedBlob := encrypted, version := overwritten.version + 1 } := by
      refine ⟨ho, rfl, rfl, ?_⟩
      have hover := happlied.version
      dsimp only
      omega
    refine h.advance hadvance ?_ hold hnew ?_ rfl rfl hcounter ?_ rfl rfl rfl rfl
    · rw [hflow]
      rfl
    · intro j hj hjid
      dsimp only at hjid ⊢
      rw [happlied.version]
      exact happlied.server j hj (hjid.trans hid.symm)
    · exact ⟨happlied.id, happlied.blob, _, hsigned.holds, rfl, hcounter.symm⟩

/-- Every event of a run that is not overtaken keeps what holds. -/
theorem passkeyInv_step (hc : c.aes.Correct)
    (hjson : ∀ plain, c.parse (c.serialize plain) = some plain)
    {localeCompare : String → String → Int} (e : PasskeyEvent) (h : PasskeyInv c keys w)
    (hcond : NotOvertaken w e) (hstep : w.step c keys localeCompare e = some w') :
    PasskeyInv c keys w' := by
  cases e with
  | get rpId allow =>
    simp only [PasskeyWorld.step] at hstep
    split at hstep
    · cases hstep
      exact h.begin_ (flowHolds_findPasskeyLogins rpId allow) rfl
    · cases hstep
      exact h
  | decrypted i k =>
    simp only [PasskeyWorld.step] at hstep
    split at hstep
    · rename_i rpId allow results hflow
      split at hstep
      · rename_i object taken hpending
        cases hstep
        exact h.decrypt (h.flows _ (List.mem_of_getElem? hflow)) hpending
      · cases hstep
    · cases hstep
  | consent i approved =>
    simp only [PasskeyWorld.step] at hstep
    split at hstep
    · rename_i candidates hflow
      have hholds := h.flows _ (List.mem_of_getElem? hflow)
      split at hstep
      · cases hstep
        exact h.goOn hholds rfl
      · cases hstep
        exact h.goOn trivial rfl
    · cases hstep
  | resume i iv =>
    obtain ⟨f, hflow, hstep⟩ := Option.bind_eq_some_iff.mp hstep
    have hholds := h.flows _ (List.mem_of_getElem? hflow)
    have htime := hcond f hflow
    cases f with
    | decrypting rpId allow results =>
      obtain ⟨candidates, hsettled, rfl⟩ := Option.map_eq_some_iff.mp hstep
      split
      · exact h.goOn trivial rfl
      · apply h.goOn _ rfl
        intro chosen hchosen
        exact hholds _ (mem_of_allSettled hsettled chosen hchosen) chosen rfl
    | arming candidates =>
      simp only [PasskeyWorld.resume] at hstep
      split at hstep
      · cases hstep
        exact h.goOn trivial rfl
      · rename_i chosen rest hsort
        cases hstep
        have hmem : chosen ∈ sortCandidates localeCompare candidates := by
          rw [hsort]
          exact List.mem_cons_self
        exact h.goOn (hholds chosen (List.mem_mergeSort.mp hmem)) rfl
    | signing chosen =>
      cases hstep
      exact h.encrypt hc hjson hholds htime
    | encrypting chosen encrypted revision =>
      cases hstep
      exact h.sendUpdate hholds.1 hholds.2 htime
    | updated chosen encrypted revision overwritten =>
      cases hstep
      exact h.finish hflow
    | consenting | updating | ended => cases hstep
  | serve i =>
    simp only [PasskeyWorld.step] at hstep
    split at hstep
    · rename_i chosen encrypted revision version hflow
      obtain ⟨htaken, hsigned, rfl⟩ := h.flows _ (List.mem_of_getElem? hflow)
      cases hstep
      exact h.serve htaken hsigned (List.getElem?_eq_some_iff.mp hflow).1
    · cases hstep
  | fail i =>
    obtain ⟨f, -, rfl⟩ := Option.map_eq_some_iff.mp hstep
    exact h.goOn trivial rfl
  | lock =>
    cases hstep
    exact h.congr w.revisions false
  | clientsWrite server =>
    simp only [PasskeyWorld.step] at hstep
    split at hstep
    · rename_i hgrow
      cases hstep
      have hitems : ({ w with server := server } : PasskeyWorld Fields).items = w.items := rfl
      exact h.frame hitems rfl hgrow (fun _ hf => .inl hf) h.applied
    · cases hstep

/-- A vault that was opened. -/
theorem passkeyInv_opened {server : AccountServer} {vaultId : String}
    (revisions : MemoryRevisionStore)
    (happart : CredentialsApart c keys (server.vaultItems vaultId)) :
    PasskeyInv c keys (.opened server vaultId revisions) := by
  have hsub : (server.vaultItems vaultId).Sublist server.items := List.filter_sublist
  constructor
  · exact server.ids_nodup.sublist (hsub.map _)
  · intro o ho i hi hid
    rw [server.eq_of_id hi (hsub.subset ho) hid]
    exact .inr ⟨rfl, rfl⟩
  · exact happart
  · intro f hf
    cases hf
  · intro i j k hi
    cases hi
  · intro a ha
    cases ha
  · refine ⟨List.Pairwise.nil, ?_⟩
    intro a ha
    cases ha

/-- In a run in which no update is sent for an item object that has changed since it was
decrypted, the assertions and the stored counters stay in step. -/
theorem inStep_of_notOvertaken (hc : c.aes.Correct)
    (hjson : ∀ plain, c.parse (c.serialize plain) = some plain)
    (localeCompare : String → String → Int) (server : AccountServer) (vaultId : String)
    (revisions : MemoryRevisionStore) (happart : CredentialsApart c keys (server.vaultItems vaultId))
    (events : List PasskeyEvent)
    (hmeet : EventsMeet (PasskeyWorld.step c keys localeCompare) NotOvertaken events
      (.opened server vaultId revisions))
    (hrun : runEvents (PasskeyWorld.step c keys localeCompare) events
      (.opened server vaultId revisions) = some w) : InStep c keys w.returned := by
  have hinv : PasskeyInv c keys w := by
    apply invariant_of_events _ (passkeyInv_opened revisions happart) hmeet hrun
    intro e _ s s' hs hcond hstep
    exact passkeyInv_step hc hjson e hs hcond hstep
  exact hinv.inStep

end Promise

/-! ## Two runs -/

/-- A text with three bytes for each character. -/
private def writeText (text : List Char) : Bytes :=
  text.flatMap (fun ch => 1 :: bigEndian 3 ch.toNat) ++ [0]

private def readText : Bytes → Option (List Char × Bytes)
  | 0 :: rest => some ([], rest)
  | 1 :: b₁ :: b₂ :: b₃ :: rest =>
    (readText rest).map fun r => (Char.ofNat (ofBigEndian [b₁, b₂, b₃]) :: r.1, r.2)
  | _ => none

private theorem readText_writeText (text : List Char) (rest : Bytes) :
    readText (writeText text ++ rest) = some (text, rest) := by
  induction text with
  | nil => rfl
  | cons ch text ih =>
    have hlt : ch.toNat < 256 ^ 3 := by
      have := ch.valid
      have hval : ch.toNat < 0x110000 := by
        rcases this with h | h
        · exact lt_of_lt_of_le h (by decide)
        · exact h.2
      omega
    have hread := ofBigEndian_bigEndian hlt
    have hwrite : writeText (ch :: text) ++ rest =
        1 :: (bigEndian 3 ch.toNat ++ (writeText text ++ rest)) := by
      simp [writeText]
    rw [hwrite]
    have hshape : ∃ b₁ b₂ b₃, bigEndian 3 ch.toNat = [b₁, b₂, b₃] :=
      List.length_eq_three.mp (length_bigEndian 3 ch.toNat)
    obtain ⟨b₁, b₂, b₃, hb⟩ := hshape
    rw [hb] at hread ⊢
    change (readText (writeText text ++ rest)).map _ = _
    rw [ih, Option.map_some, hread, Char.ofNat_toNat]

/-- A number, one byte for each unit. -/
private def writeCount (n : Nat) : Bytes := List.replicate n 1 ++ [0]

private def readCount : Bytes → Option (Nat × Bytes)
  | 0 :: rest => some (0, rest)
  | 1 :: rest => (readCount rest).map fun r => (r.1 + 1, r.2)
  | _ => none

private theorem readCount_writeCount (n : Nat) (rest : Bytes) :
    readCount (writeCount n ++ rest) = some (n, rest) := by
  induction n with
  | zero => rfl
  | succ n ih =>
    change (readCount (writeCount n ++ rest)).map _ = _
    rw [ih]
    rfl

private def writeCreated : Option String → Bytes
  | none => [0]
  | some createdAt => 1 :: writeText createdAt.toList

private def readCreated : Bytes → Option (Option String)
  | 1 :: rest => (readText rest).map fun r => some (String.ofList r.1)
  | _ => some none

private theorem readCreated_writeCreated (createdAt : Option String) :
    readCreated (writeCreated createdAt) = some createdAt := by
  cases createdAt with
  | none => rfl
  | some createdAt =>
    have hread := readText_writeText createdAt.toList []
    rw [List.append_nil] at hread
    rw [writeCreated, readCreated, hread]
    simp

private def writePlain (plain : ItemPlaintext Unit) : Bytes :=
  match plain.passkey with
  | none => []
  | some p =>
    writeText p.credentialIdB64u.toList ++ (writeText p.rpId.toList ++
      (writeText p.userHandleB64u.toList ++ (writeText p.privateKeyPkcs8B64.toList ++
        (writeCount p.signCount ++ writeCreated p.createdAt))))

private def readPlain (bytes : Bytes) : Option (ItemPlaintext Unit) :=
  match bytes with
  | [] => some ⟨(), none⟩
  | _ => do
    let (credential, rest) ← readText bytes
    let (rpId, rest) ← readText rest
    let (userHandle, rest) ← readText rest
    let (privateKey, rest) ← readText rest
    let (signCount, rest) ← readCount rest
    let createdAt ← readCreated rest
    some ⟨(), some ⟨String.ofList credential, String.ofList rpId, String.ofList userHandle,
      String.ofList privateKey, signCount, createdAt⟩⟩

private theorem readPlain_writePlain (plain : ItemPlaintext Unit) :
    readPlain (writePlain plain) = some plain := by
  obtain ⟨⟨⟩, passkey⟩ := plain
  cases passkey with
  | none => rfl
  | some p =>
    have hne : writePlain ⟨(), some p⟩ ≠ [] := by simp [writePlain, writeText]
    rw [readPlain]
    · simp [writePlain, readText_writeText, readCount_writeCount, readCreated_writeCreated]
    · exact hne

/-- A cipher that marks what it has encrypted. -/
private def markingAead : Aead where
  encrypt _ _ _ text := 0 :: text
  decrypt _ _ _ ciphertext := ciphertext.tail?

private theorem markingAead_correct : markingAead.Correct where
  decrypt_encrypt _ _ _ _ := rfl
  encrypt_ne_nil _ _ _ _ := List.cons_ne_nil _ _

/-- A crypto layer that writes everything in the clear. -/
private def passkeyCrypto : ItemCrypto (ItemPlaintext Unit) where
  aes := markingAead
  hmacSign key message := key ++ message
  typeOf _ := some "login"
  serialize := writePlain
  parse := readPlain

private def passkeyKeys : VaultKeys where
  vaultEncKey := .aesGcm [1]
  vaultMacKey := .hmac [2]

/-- A login with a passkey that has signed five times. -/
private def localPlain : ItemPlaintext Unit where
  fields := ()
  passkey := some
    { credentialIdB64u := "AQ", rpId := "localhost", userHandleB64u := "Ag"
      privateKeyPkcs8B64 := "Aw==", signCount := 5, createdAt := none }

private def loginBlob : EncryptedBlob :=
  match encryptItemV2 passkeyCrypto localPlain ⟨.personal, "00000000-0000-0000-0000-000000000001",
      "login"⟩ 1 (.aesGcm [1]) [0] with
  | .ok blob => blob
  | .error _ => ⟨"", "", ""⟩

private def loginServer : AccountServer where
  vaults := ["vault"]
  items := [{
    toEncryptedBlob := loginBlob
    id := "00000000-0000-0000-0000-000000000001", vaultId := "vault", itemType := "login" }]
  ids_nodup := List.nodup_singleton _
  vault_mem := by
    intro i hi
    rw [List.mem_singleton.mp hi]
    exact List.mem_singleton_self _

private def noRevisions : MemoryRevisionStore where
  revisions _ := none
  legacyClosed := false

/-- What a request does up to the user's consent. -/
private def asked (i : Nat) : List PasskeyEvent :=
  [.get "localhost" [], .decrypted i 0, .resume i []]

/-- What it does after it. -/
private def approved (i : Nat) : List PasskeyEvent :=
  [.consent i true, .resume i [], .resume i [3], .resume i [], .serve i, .resume i []]

private def runPasskeys (events : List PasskeyEvent) : Option (PasskeyWorld Unit) :=
  runEvents (PasskeyWorld.step passkeyCrypto passkeyKeys fun _ _ => 0) events
    (.opened loginServer "vault" noRevisions)

/-- Two requests ask together and the second is declined. -/
private def takenInTurn : List PasskeyEvent :=
  asked 0 ++ asked 1 ++ approved 0 ++ [.consent 1 false]

theorem inStep_of_notOvertaken_declined : ∃ w, runPasskeys takenInTurn = some w ∧
    w.returned.map (·.signCount) = [6] ∧ InStep passkeyCrypto passkeyKeys w.returned := by
  have hrun : (runPasskeys takenInTurn).map (·.returned.map (·.signCount)) = some [6] := by
    decide +kernel
  obtain ⟨w, hw, hreturned⟩ := Option.map_eq_some_iff.mp hrun
  exact ⟨w, hw, hreturned, inStep_of_notOvertaken markingAead_correct readPlain_writePlain
    (fun _ _ => 0) loginServer "vault" noRevisions (List.pairwise_singleton _ _) takenInTurn
    (by decide +kernel) hw⟩

/-- Two requests ask together and both are approved. -/
private def takenTogether : List PasskeyEvent := asked 0 ++ asked 1 ++ approved 0 ++ approved 1

/-- Both sign one counter, and the second update overwrites the first. -/
theorem not_inStep_of_overlap : ∃ w, runPasskeys takenTogether = some w ∧
    w.returned.map (·.signCount) = [6, 6] ∧
    w.returned.map (fun a => decide (a.overwritten.version = a.taken.version)) = [true, false] ∧
    ¬ InStep passkeyCrypto passkeyKeys w.returned := by
  have hrun : (runPasskeys takenTogether).map (fun w =>
      (w.returned.map (·.signCount), w.returned.map (·.credentialIdB64u),
        w.returned.map fun a => decide (a.overwritten.version = a.taken.version))) =
      some ([6, 6], ["AQ", "AQ"], [true, false]) := by
    decide +kernel
  obtain ⟨w, hw, hreturned⟩ := Option.map_eq_some_iff.mp hrun
  rw [Prod.mk.injEq, Prod.mk.injEq] at hreturned
  refine ⟨w, hw, hreturned.1, hreturned.2.2, fun hstep => ?_⟩
  have hincrease := hstep.increase
  match hlist : w.returned, hincrease with
  | [a, b], hincrease =>
    rw [hlist] at hreturned
    simp only [List.map_cons, List.map_nil, List.cons.injEq] at hreturned
    have hlt := (List.pairwise_cons.mp hincrease).1 b (List.mem_singleton_self b)
      (hreturned.2.1.1.trans hreturned.2.1.2.1.symm)
    omega
  | [], _ => simp [hlist] at hreturned
  | [_], _ => simp [hlist] at hreturned
  | _ :: _ :: _ :: _, _ => simp [hlist] at hreturned

end Nopass
