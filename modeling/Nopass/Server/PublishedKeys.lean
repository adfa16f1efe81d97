import Nopass.Core.Sql.Requests
import Nopass.Server.Handshakes
import Nopass.Server.OrgOwners
import Nopass.Server.RecoveryTokens
import Nopass.Server.Registration

/-!
# Published keys

An account publishes a public key at its registration or with its first organization, and
later an identity key with a signature. Whether publishing the identity key takes a proof
of the password is decided on a read before the write. What is published stays, so a write
that was let through without a proof finds the key in place and changes nothing.
-/

namespace Nopass

open ReadCommitted

/-- Requests on accounts. -/
inductive AccountRequest where
  | registerFinish (fresh : Auth.RegisterFresh) (req : Auth.OpaqueRegisterFinishRequest)
  | handshake (request : HandshakeRequest)
  | recovery (request : RecoveryRequest)
  | orgs (request : OrgsRequest)

/-- The program of a request. -/
def AccountRequest.run (o : Opaque) (srp : Srp) (config : Config) : AccountRequest → Request Unit
  | .registerFinish fresh req => do
    let _ ← Auth.registerFinish o config fresh req
  | .handshake request => do
    let _ ← request.run o srp config
  | .recovery request => request.run o config
  | .orgs request => request.run config

/-- The keys that an account has published. -/
structure PublishedKeys where
  publicKey : Option String := none
  identityPublicKey : Option String := none
  publicKeySignature : Option String := none
  deriving DecidableEq, Repr

/-- The published keys of a row. -/
def User.published (u : User) : PublishedKeys where
  publicKey := u.publicKey
  identityPublicKey := u.identityPublicKey
  publicKeySignature := u.publicKeySignature

/-- The published keys of an account; none for an account that is not there. -/
def publishedOf (userId : Uuid) (d : Db) : PublishedKeys :=
  ((userOf userId d).map User.published).getD {}

/-- What is published stays as it is. -/
structure PublishedKeys.Stays (keys keys' : PublishedKeys) : Prop where
  publicKey : ∀ key ∈ keys.publicKey, keys'.publicKey = some key
  identityPublicKey : ∀ key ∈ keys.identityPublicKey, keys'.identityPublicKey = some key
  publicKeySignature : ∀ signature ∈ keys.publicKeySignature,
    keys'.publicKeySignature = some signature

/-- What the database keeps of accounts: their ids are unique, and an identity key comes with its
signature. -/
structure UsersConsistent (d : Db) : Prop where
  ids : (d.users.map (·.id)).Nodup
  signed : ∀ userId, (publishedOf userId d).identityPublicKey.isSome =
    (publishedOf userId d).publicKeySignature.isSome

/-- The OPAQUE handshake that a commit consumes. -/
def Tag.login : Tag → Option PendingOpaqueLogin
  | .consumed (some (.login p)) => some p
  | _ => none

/-- The request publishes this identity key and signature for the account. -/
def AccountRequest.Publishes (request : AccountRequest) (userId : Uuid) (keys : PublishedKeys) :
    Prop :=
  ∃ now auth body, request = .handshake (.setIdentity now auth body) ∧ auth.userId = userId ∧
    keys.identityPublicKey = some body.identityPublicKey ∧
      keys.publicKeySignature = some body.publicKeySignature

/-- The handshake proves the password of the account to a publication of its identity key. -/
def AccountRequest.ProvedBy (o : Opaque) (request : AccountRequest) (userId : Uuid)
    (p : PendingOpaqueLogin) : Prop :=
  ∃ now auth body, request = .handshake (.setIdentity now auth body) ∧ ∃ proof ∈ body.proof,
    Nopass.ProvedBy o now proof.proofId proof.finishLoginRequest .identityKey userId p

section Runs

variable {I : Type} [Fintype I] [DecidableEq I]

/-- A request redeemed a handshake: one of its commits found the row and deleted it. -/
def Redeemed (i : I) (p : PendingOpaqueLogin) (events : List (Event I Db Tag)) : Prop :=
  ∃ e ∈ events, e.proc = i ∧ e.tag.login = some p ∧ p ∈ e.before.pendingOpaqueLogins ∧
    p ∉ e.after.pendingOpaqueLogins

/-- What holds of the published keys of a run from `start` to `s`. -/
structure KeysHold (o : Opaque) (reqs : I → AccountRequest)
    (start : State I Db RowId Tag ApiError Unit) (sched : List (I × Act))
    (s : State I Db RowId Tag ApiError Unit) : Prop where
  /-- What any state of the run had published, the last one has. -/
  stays : ∀ before after s₁, sched = before ++ after → start.exec before = some s₁ →
    ∀ userId, (publishedOf userId s₁.db).Stays (publishedOf userId s.db)
  /-- A commit that changes an identity key or its signature sets both as its request says, which
  redeemed a fresh proof of that account before. -/
  published : ∀ earlier e later, start.history sched = earlier ++ e :: later → ∀ userId,
    ((publishedOf userId e.after).identityPublicKey ≠
        (publishedOf userId e.before).identityPublicKey ∨
      (publishedOf userId e.after).publicKeySignature ≠
        (publishedOf userId e.before).publicKeySignature) →
    (reqs e.proc).Publishes userId (publishedOf userId e.after) ∧
      ∃ p, (reqs e.proc).ProvedBy o userId p ∧ Redeemed e.proc p earlier

end Runs

/-- Nothing has to stay but what is there. -/
theorem PublishedKeys.Stays.refl (keys : PublishedKeys) : keys.Stays keys where
  publicKey _ h := h
  identityPublicKey _ h := h
  publicKeySignature _ h := h

/-- What stays and stays again has stayed. -/
theorem PublishedKeys.Stays.trans {a b c : PublishedKeys} (h : a.Stays b) (h' : b.Stays c) :
    a.Stays c where
  publicKey key hk := h'.publicKey key (h.publicKey key hk)
  identityPublicKey key hk := h'.identityPublicKey key (h.identityPublicKey key hk)
  publicKeySignature s hs := h'.publicKeySignature s (h.publicKeySignature s hs)

section Published

variable {d d' : Db} {userId : Uuid}

/-- The published keys depend on the accounts alone. -/
theorem publishedOf_congr (h : d'.users = d.users) (userId : Uuid) :
    publishedOf userId d' = publishedOf userId d := by
  rw [publishedOf, userOf_congr h, publishedOf]

/-- With unique ids, a row of an account is its row. -/
theorem publishedOf_of_mem (hd : (d.users.map (·.id)).Nodup) {u : User} (hu : u ∈ d.users) :
    publishedOf u.id d = u.published := by
  have hfind : userOf u.id d = some u := by
    rw [userOf, List.find?_eq_some_iff_append]
    obtain ⟨before, after, hsplit⟩ := List.append_of_mem hu
    refine ⟨by simp, before, after, hsplit, fun v hv => ?_⟩
    rw [hsplit, List.map_append, List.nodup_append] at hd
    have hne := hd.2.2 v.id (List.mem_map_of_mem hv) u.id (by simp)
    simp [hne]
  rw [publishedOf, hfind]
  rfl

/-- Changing rows changes what they have published. -/
theorem publishedOf_edit (keys : List RowId) {f : User → User} (hid : ∀ u, (f u).id = u.id)
    (userId : Uuid) (d : Db) : publishedOf userId (Tables.users.edit keys f d) =
      ((userOf userId d).map fun u =>
        (if RowId.user userId ∈ keys then f u else u).published).getD {} := by
  rw [publishedOf, userOf_edit keys hid, Option.map_map]
  rfl

/-- A new account does not change what the others have published. -/
theorem publishedOf_push {row : User} (h : userId ≠ row.id ∨ (userOf userId d).isSome) :
    publishedOf userId (Tables.users.push row d) = publishedOf userId d := by
  have hfind : userOf userId (Tables.users.push row d) =
      (userOf userId d).or (if row.id = userId then some row else none) := by
    change (d.users ++ [row]).find? _ = _
    rw [List.find?_append, userOf]
    congr 1
    by_cases hid : row.id = userId <;> simp [hid]
  rw [publishedOf, hfind, publishedOf]
  rcases h with hne | hsome
  · rw [if_neg (Ne.symm hne), Option.or_none]
  · obtain ⟨u, hu⟩ := Option.isSome_iff_exists.mp hsome
    rw [hu, Option.some_or]

/-- A new account has published what its row says. -/
theorem publishedOf_push_self {row : User} (h : row.id ∉ d.users.map (·.id)) :
    publishedOf row.id (Tables.users.push row d) = row.published := by
  have hfind : userOf row.id (Tables.users.push row d) = some row := by
    change (d.users ++ [row]).find? _ = _
    rw [List.find?_append, List.find?_eq_none.mpr, Option.none_or]
    · simp
    · intro u hu hid
      exact h (List.mem_map.mpr ⟨u, hu, of_decide_eq_true hid⟩)
  rw [publishedOf, hfind]
  rfl

/-- An account that is not there has published nothing. -/
theorem publishedOf_of_not_mem (h : userId ∉ d.users.map (·.id)) : publishedOf userId d = {} := by
  rw [publishedOf, userOf, List.find?_eq_none.mpr]
  · rfl
  · intro u hu hid
    exact h (List.mem_map.mpr ⟨u, hu, of_decide_eq_true hid⟩)

end Published

/-- The identity key and its signature are the same. -/
structure PublishedKeys.SameIdentity (keys keys' : PublishedKeys) : Prop where
  identityPublicKey : keys'.identityPublicKey = keys.identityPublicKey
  publicKeySignature : keys'.publicKeySignature = keys.publicKeySignature

/-- What stays stays the same. -/
theorem PublishedKeys.SameIdentity.refl (keys : PublishedKeys) : keys.SameIdentity keys := ⟨rfl, rfl⟩

/-- The same and the same again. -/
theorem PublishedKeys.SameIdentity.trans {a b c : PublishedKeys} (h : a.SameIdentity b)
    (h' : b.SameIdentity c) : a.SameIdentity c :=
  ⟨h'.identityPublicKey.trans h.identityPublicKey,
    h'.publicKeySignature.trans h.publicKeySignature⟩

/-- What is published stays; its lock keeps it, and the lock of a handshake keeps the handshake. An
identity key changes under a proof, as the request says. -/
def keysSpec : Spec Db RowId (AccountRequest × Tag) ApiError where
  inv := UsersConsistent
  guar d d' := ∀ userId, (publishedOf userId d).Stays (publishedOf userId d')
  guar_refl _ _ := .refl _
  guar_trans h h' userId := (h userId).trans (h' userId)
  keeps k m d d' :=
    (m = .noKeyUpdate → ∀ userId, k = .user userId → publishedOf userId d' = publishedOf userId d) ∧
    (m = .update → (∀ userId, k = .user userId → userId ∉ d.users.map (·.id) →
        userId ∉ d'.users.map (·.id)) ∧
      ∀ p ∈ d.pendingOpaqueLogins, k = .pendingOpaqueLogin p.id → p ∈ d'.pendingOpaqueLogins)
  keeps_refl _ _ _ := ⟨fun _ _ _ => rfl, fun _ => ⟨fun _ _ h => h, fun _ h _ => h⟩⟩
  keeps_trans h h' := by
    refine ⟨fun hm userId hk => (h'.1 hm userId hk).trans (h.1 hm userId hk), fun hm => ?_⟩
    obtain ⟨hid, hlogin⟩ := h.2 hm
    obtain ⟨hid', hlogin'⟩ := h'.2 hm
    exact ⟨fun userId hk hu => hid' userId hk (hid userId hk hu),
      fun p hp hk => hlogin' p (hlogin p hp hk) hk⟩
  allow _ _ := True
  asserts x d d' :=
    (∀ userId, (publishedOf userId d).SameIdentity (publishedOf userId d') ∨
      x.1.Publishes userId (publishedOf userId d') ∧
        ∃ proved atTake, x.2 = .authorized userId proved atTake) ∧
    ∀ p ∈ x.2.login, p ∈ d.pendingOpaqueLogins ∧ p ∉ d'.pendingOpaqueLogins

/-- Writes that leave identity keys alone, change a public key only where there is none and under
the lock of its account, and delete handshakes only under their locks. -/
structure KeepsPublished (L : List (RowId × LockMode)) (w : Db → Db) : Prop where
  ids : ∀ d, (w d).users.map (·.id) = d.users.map (·.id)
  same : ∀ d userId, (publishedOf userId d).SameIdentity (publishedOf userId (w d))
  publicKey : ∀ d userId, ∀ key ∈ (publishedOf userId d).publicKey,
    (publishedOf userId (w d)).publicKey = some key
  locked : ∀ d userId, publishedOf userId (w d) = publishedOf userId d ∨
    (.user userId, .noKeyUpdate) ∈ L
  logins : ∀ d, ∀ p ∈ d.pendingOpaqueLogins, p ∈ (w d).pendingOpaqueLogins ∨
    (.pendingOpaqueLogin p.id, .update) ∈ L

/-- A program that keeps what is published and consumes no OPAQUE handshake. -/
abbrev KeepsKeys {O : Type} (prog : Request O) : Prop :=
  prog.Statements KeepsPublished fun tag => tag.login = none

section Keeps

variable {L L' : List (RowId × LockMode)} {w w' : Db → Db} {d : Db}

/-- Writes elsewhere. -/
theorem keepsPublished_of_eq (L : List (RowId × LockMode)) (hu : ∀ d, (w d).users = d.users)
    (hp : ∀ d, (w d).pendingOpaqueLogins = d.pendingOpaqueLogins) : KeepsPublished L w where
  ids d := by rw [hu]
  same d _ := by
    rw [publishedOf_congr (hu d)]
    exact .refl _
  publicKey d _ _ hk := by
    rw [publishedOf_congr (hu d)]
    exact hk
  locked d userId := .inl (publishedOf_congr (hu d) userId)
  logins d _ hpd := .inl (hp d ▸ hpd)

/-- One write after the other. -/
theorem KeepsPublished.comp (h : KeepsPublished L w) (h' : KeepsPublished L' w') :
    KeepsPublished (L ++ L') (w' ∘ w) where
  ids d := (h'.ids (w d)).trans (h.ids d)
  same d userId := (h.same d userId).trans (h'.same (w d) userId)
  publicKey d userId key hk := h'.publicKey (w d) userId key (h.publicKey d userId key hk)
  locked d userId := by
    rcases h.locked d userId with heq | hl
    · rcases h'.locked (w d) userId with heq' | hl'
      · exact .inl (heq'.trans heq)
      · exact .inr (List.mem_append_right _ hl')
    · exact .inr (List.mem_append_left _ hl)
  logins d p hp := by
    rcases h.logins d p hp with hp | hl
    · exact (h'.logins (w d) p hp).imp id (List.mem_append_right _)
    · exact .inr (List.mem_append_left _ hl)

/-- What a commit of such writes owes. -/
theorem KeepsPublished.owes {x : AccountRequest × Tag} (hw : KeepsPublished L w)
    (hi : UsersConsistent d)
    (hp : ∀ p ∈ x.2.login, p ∈ d.pendingOpaqueLogins ∧ p ∉ (w d).pendingOpaqueLogins) :
    keysSpec.Owes L x d (w d) := by
  have hinv : UsersConsistent (w d) := by
    refine ⟨hw.ids d ▸ hi.ids, fun userId => ?_⟩
    rw [(hw.same d userId).identityPublicKey, (hw.same d userId).publicKeySignature]
    exact hi.signed userId
  refine ⟨⟨fun userId => .inl (hw.same d userId), hp⟩, hinv, fun userId => ?_, fun k m hcompat => ?_⟩
  · have hsame := hw.same d userId
    exact ⟨hw.publicKey d userId, fun key hk => hsame.identityPublicKey.trans hk,
      fun s hs => hsame.publicKeySignature.trans hs⟩
  · constructor
    · rintro rfl userId rfl
      refine (hw.locked d userId).resolve_right fun hl => ?_
      cases hcompat _ hl rfl
    · rintro rfl
      refine ⟨fun userId _ hu => (hw.ids d).symm ▸ hu, ?_⟩
      rintro p hp rfl
      refine (hw.logins d p hp).resolve_right fun hl => ?_
      cases hcompat _ hl rfl

/-- Such writes are routine. -/
theorem keysSpec_routine : keysSpec.Routine KeepsPublished fun x => x.2.login = none where
  nil := keepsPublished_of_eq _ (fun _ => rfl) fun _ => rfl
  comp := KeepsPublished.comp
  never _ := id
  owes hi hP hw := hw.owes hi fun p hp => by
    rw [hP] at hp
    cases hp

/-- A change of accounts that keeps their ids. -/
theorem ids_edit (keys : List RowId) {f : User → User} (hid : ∀ u, (f u).id = u.id) (d : Db) :
    (Tables.users.edit keys f d).users.map (·.id) = d.users.map (·.id) := by
  change (d.users.map fun u => if Tables.users.key u ∈ keys then f u else u).map _ = _
  rw [List.map_map]
  apply List.map_congr_left
  intro u _
  rw [Function.comp_apply]
  split
  · exact hid u
  · rfl

/-- Changes of locked accounts that keep identity keys and replace no public key. -/
theorem keepsPublished_editUsers {keys : List RowId} {f : User → User} (hid : ∀ u, (f u).id = u.id)
    (hsame : ∀ u : User, u.published.SameIdentity (f u).published)
    (hpublic : ∀ u : User, ∀ key ∈ u.publicKey, (f u).publicKey = some key)
    (hL : ∀ k ∈ keys, (k, .noKeyUpdate) ∈ L) : KeepsPublished L (Tables.users.edit keys f) where
  ids := ids_edit keys hid
  same d userId := by
    rw [publishedOf_edit keys hid, publishedOf]
    cases userOf userId d with
    | none => exact .refl _
    | some u =>
      rw [Option.map_some, Option.map_some, Option.getD_some, Option.getD_some]
      split
      · exact hsame u
      · exact .refl _
  publicKey d userId key hk := by
    rw [publishedOf_edit keys hid]
    rw [publishedOf] at hk
    cases hu : userOf userId d with
    | none =>
      rw [hu] at hk
      cases hk
    | some u =>
      rw [hu] at hk
      rw [Option.map_some, Option.getD_some]
      split
      · exact hpublic u key hk
      · exact hk
  locked d userId := by
    by_cases hk : RowId.user userId ∈ keys
    · exact .inr (hL _ hk)
    · left
      rw [publishedOf_edit keys hid, publishedOf]
      simp only [hk, if_false]
  logins _ _ hp := .inl hp

/-- Handshakes that are deleted under their locks. -/
theorem keepsPublished_dropLogins {keys : List RowId} (hL : ∀ k ∈ keys, (k, .update) ∈ L) :
    KeepsPublished L (Tables.pendingOpaqueLogins.drop keys) where
  ids _ := rfl
  same _ _ := .refl _
  publicKey _ _ _ hk := hk
  locked _ _ := .inl rfl
  logins _ p hp := by
    by_cases hk : RowId.pendingOpaqueLogin p.id ∈ keys
    · exact .inr (hL _ hk)
    · exact .inl ((Tables.pendingOpaqueLogins.mem_drop).mpr ⟨hp, hk⟩)

/-- A new handshake. -/
theorem keepsPublished_pushLogin (L : List (RowId × LockMode)) (p : PendingOpaqueLogin) :
    KeepsPublished L (Tables.pendingOpaqueLogins.push p) where
  ids _ := rfl
  same _ _ := .refl _
  publicKey _ _ _ hk := hk
  locked _ _ := .inl rfl
  logins _ _ hq := .inl ((Tables.pendingOpaqueLogins.mem_push).mpr (.inl hq))

end Keeps

/-- A table that holds neither accounts nor OPAQUE handshakes. -/
def Away {R : Type} (t : Table Db RowId R) : Prop :=
  ∀ rows d, (t.set rows d).users = d.users ∧
    (t.set rows d).pendingOpaqueLogins = d.pendingOpaqueLogins

section Walks

variable {O R : Type} {t : Table Db RowId R}

/-- A change elsewhere. -/
theorem Away.keepsPublished (h : Away t) (L : List (RowId × LockMode)) (g : Db → List R) :
    KeepsPublished L fun d => t.set (g d) d :=
  keepsPublished_of_eq L (fun d => (h (g d) d).1) fun d => (h (g d) d).2

/-- An update elsewhere. -/
theorem Away.update (h : Away t) (cond : Db → R → Bool) (f : R → R)
    (refs : R → List (Ref Db RowId)) : KeepsKeys (t.update cond f refs) :=
  Table.statements_update fun _ _ L _ => h.keepsPublished L _

/-- A deletion elsewhere. -/
theorem Away.delete (h : Away t) (cond : Db → R → Bool) : KeepsKeys (t.delete cond) :=
  Table.statements_delete fun _ _ L _ => h.keepsPublished L _

/-- An insertion elsewhere. -/
theorem Away.insert (h : Away t) (row : R) (refs : List (Ref Db RowId)) :
    KeepsKeys (t.insert row refs) :=
  Table.statements_insert fun L => h.keepsPublished L _

/-- A locking read. -/
theorem keepsKeys_selectFor (m : LockMode) (cond : Db → R → Bool) :
    KeepsKeys (t.selectFor m cond) :=
  Table.statements_selectFor fun _ _ => keepsPublished_of_eq _ (fun _ => rfl) fun _ => rfl

theorem away_sessions : Away Tables.sessions := fun _ _ => ⟨rfl, rfl⟩

theorem away_devices : Away Tables.devices := fun _ _ => ⟨rfl, rfl⟩

theorem away_vaultItems : Away Tables.vaultItems := fun _ _ => ⟨rfl, rfl⟩

theorem away_organizations : Away Tables.organizations := fun _ _ => ⟨rfl, rfl⟩

theorem away_organizationMembers : Away Tables.organizationMembers := fun _ _ => ⟨rfl, rfl⟩

theorem away_pendingSrpSessions : Away Tables.pendingSrpSessions := fun _ _ => ⟨rfl, rfl⟩

theorem away_pendingRecoverySessions : Away Tables.pendingRecoverySessions := fun _ _ => ⟨rfl, rfl⟩

/-- A change of accounts that leaves what they have published. -/
theorem keepsKeys_updateUsers (cond : Db → User → Bool) (f : User → User)
    (hid : ∀ u, (f u).id = u.id) (hf : ∀ u, (f u).published = u.published) :
    KeepsKeys (Tables.users.update cond f) := by
  refine Table.statements_update fun s n L hL => keepsPublished_editUsers hid (fun u => ?_) ?_ hL
  · rw [hf]
    exact .refl _
  · intro u key hk
    exact (congrArg PublishedKeys.publicKey (hf u)).trans hk

/-- Dropping OPAQUE handshakes. -/
theorem keepsKeys_deleteLogins (cond : Db → PendingOpaqueLogin → Bool) :
    KeepsKeys (Tables.pendingOpaqueLogins.delete cond) :=
  Table.statements_delete fun _ _ _ hL => keepsPublished_dropLogins hL

/-- A final check. -/
theorem keepsKeys_require (cond : Bool) (e : ApiError) : KeepsKeys (require cond e) :=
  (reads_require cond e).statements

/-- Storing an OPAQUE handshake. -/
theorem keepsKeys_insertOpaqueLogin (p : PendingOpaqueLogin) :
    KeepsKeys (DbPending.insertOpaqueLogin p) := by
  refine Prog.Statements.bind ?_ fun _ => (keepsKeys_deleteLogins _).bind fun _ => ⟨rfl, trivial⟩
  exact Table.statements_insert fun L => keepsPublished_pushLogin L p

/-- Starting a proof. -/
theorem keepsKeys_startProof (o : Opaque) (fresh : Fresh) (user : User) (start : String)
    (purpose : Purpose) : KeepsKeys (Proof.startProof o fresh user start purpose) := by
  refine (reads_decodeOpaque _ _).statements.bind fun request => ?_
  refine (reads_okOr _ _).statements.bind fun record => ?_
  refine (reads_okOr _ _).statements.bind fun started => ?_
  exact (keepsKeys_insertOpaqueLogin _).bind fun _ => trivial

/-- Storing an SRP handshake. -/
theorem keepsKeys_insertSrp (p : PendingSrpSession) : KeepsKeys (DbPending.insertSrp p) :=
  (away_pendingSrpSessions.insert _ _).bind fun _ =>
    (away_pendingSrpSessions.delete _).bind fun _ => ⟨rfl, trivial⟩

/-- Consuming an SRP handshake. -/
theorem keepsKeys_takeSrp (id : Uuid) : KeepsKeys (DbPending.takeSrp id) := by
  refine (Table.statements_autocommit (away_pendingSrpSessions.delete _) fun rows => ?_).bind
    fun _ => trivial
  cases rows.head? <;> rfl

/-- Dropping the handshakes of an account. -/
theorem keepsKeys_dropPendingLogins (userId : Uuid) : KeepsKeys (DbAuth.dropPendingLogins userId) :=
  (keepsKeys_deleteLogins _).bind fun _ => (away_pendingSrpSessions.delete _).bind fun _ => trivial

/-- Creating a session for a user who proved the password. -/
theorem keepsKeys_issueSession (o : Opaque) {tag : Tag} (ht : tag.login = none) (fresh : Fresh)
    (user : User) (deviceId : Option Uuid) (proved : Option Bytes) :
    KeepsKeys (Auth.issueSession o tag fresh user deviceId proved) := by
  refine Prog.Statements.bind ?_ fun deviceId => ?_
  · cases deviceId with
    | none => trivial
    | some deviceId =>
      refine Table.reads_select.statements.bind fun devices => Prog.Statements.ite ?_ trivial
      exact (Table.statements_autocommit (away_devices.update _ _ _) fun _ => rfl).bind
        fun _ => trivial
  · refine Prog.Statements.bind (fun _ => trivial) fun vaults => ?_
    refine (reads_okOr _ _).statements.bind fun vault => Prog.Statements.bind ?_ fun _ => trivial
    exact Table.statements_autocommit (away_sessions.insert _ _) fun _ => ht

/-- Setting the account key. -/
theorem keepsKeys_setAccountKey {tag : Tag} (ht : tag.login = none) (userId : Uuid)
    (wrapped : Bytes × Bytes) (privateKey : Option (String × String)) :
    KeepsKeys (DbAuth.setAccountKey tag userId wrapped privateKey) := by
  have hupdate : KeepsKeys (Tables.users.update
      (fun d u => DbAuth.isUser userId d u && u.wrappedAccountKey.isNone)
      (DbAuth.setKeys wrapped privateKey)) :=
    keepsKeys_updateUsers _ _ (fun _ => rfl) fun _ => rfl
  refine (Table.statements_autocommit hupdate fun rows => ?_).bind fun _ => trivial
  split
  · rfl
  · exact ht

/-- Replacing an SRP verifier. -/
theorem keepsKeys_completeSrpUpgrade (userId keepSession : Uuid) (record : Bytes)
    (wrapped : Bytes × Bytes) (privateKey : Option (String × String)) :
    KeepsKeys (DbAuth.completeSrpUpgrade userId keepSession record wrapped privateKey) := by
  refine (keepsKeys_updateUsers _ (DbAuth.upgrade record wrapped privateKey) (fun _ => rfl)
    fun _ => rfl).bind fun rows => ?_
  refine Prog.Statements.ite trivial ((keepsKeys_dropPendingLogins userId).bind fun _ => ?_)
  exact (away_sessions.delete _).bind fun _ => ⟨rfl, trivial⟩

/-- Swapping in re-encrypted items. -/
theorem keepsKeys_swapItems (userId : Uuid) (items : List DbRecovery.ReencryptedItemRow) :
    KeepsKeys (DbRecovery.swapItems userId items) := by
  induction items with
  | nil => trivial
  | cons item rest ih =>
    exact (away_vaultItems.update _ _ _).bind fun rows => Prog.Statements.ite trivial ih

/-- Replacing the credential and the key wraps of an account. -/
theorem keepsKeys_rotateMasterPassword {tag : Tag} (ht : tag.login = none)
    (authority : DbRecovery.RotationAuthority) (userId : Uuid)
    (rotation : DbRecovery.PasswordRotation) :
    KeepsKeys (DbRecovery.rotateMasterPassword tag authority userId rotation) := by
  refine (keepsKeys_selectFor _ _).bind fun _ => Prog.Statements.bind ?_ fun _ => ?_
  · cases authority with
    | session id => trivial
    | recoveryToken token =>
      exact (away_pendingRecoverySessions.delete _).bind fun _ => Prog.Statements.ite trivial trivial
  refine (keepsKeys_updateUsers _ (rotation.rotated authority.keepSession) (fun _ => rfl)
    fun _ => rfl).bind fun _ => ?_
  refine Prog.Statements.bind ?_ fun _ => ?_
  · cases rotation.reencryptedItems with
    | none => trivial
    | some items =>
      refine (keepsKeys_swapItems userId items).bind fun _ => ?_
      exact Prog.Statements.bind (fun _ => trivial) fun _ => Prog.Statements.ite trivial trivial
  refine (keepsKeys_dropPendingLogins userId).bind fun _ => ?_
  refine (away_pendingRecoverySessions.delete _).bind fun _ => ?_
  exact (away_sessions.delete _).bind fun _ => ⟨ht, trivial⟩

/-- Replacing a recovery kit. -/
theorem keepsKeys_replaceKit (userId : Uuid) (kit : Option DbRecovery.NewRecoveryKit) :
    KeepsKeys (DbRecovery.replaceKit userId kit) :=
  (keepsKeys_updateUsers _ (DbRecovery.withKit kit) (fun _ => rfl) fun _ => rfl).bind fun _ =>
    (away_pendingRecoverySessions.delete _).bind fun _ => ⟨rfl, trivial⟩

/-- Storing new wraps. -/
theorem keepsKeys_rewrapMembers {tag : Tag} (ht : tag.login = none) (orgId ownerId : Uuid)
    (wraps : List RewrapEntry) : KeepsKeys (DbOrgs.rewrapMembers orgId ownerId tag wraps) := by
  induction wraps with
  | nil => exact ⟨ht, trivial⟩
  | cons x wraps ih =>
    exact (away_organizationMembers.update _ _ _).bind fun rows => Prog.Statements.ite trivial ih

/-- Rotating the key of an organization. -/
theorem keepsKeys_rotateKey (orgId ownerId : Uuid) (r : Rotation) :
    KeepsKeys (DbOrgs.rotateKey orgId ownerId r) := by
  have hitems : ∀ items, KeepsKeys (DbOrgs.reencryptItems orgId items) := by
    intro items
    induction items with
    | nil => trivial
    | cons item items ih => exact (away_vaultItems.update _ _ _).bind fun _ => ih
  have hwraps : ∀ wraps, KeepsKeys (DbOrgs.wrapMembers orgId ownerId wraps) := by
    intro wraps
    induction wraps with
    | nil => trivial
    | cons x wraps ih => exact (away_organizationMembers.update _ _ _).bind fun _ => ih
  have hremove : KeepsKeys (DbOrgs.removeMember orgId r.removeUserId) := by
    cases r.removeUserId with
    | none => trivial
    | some removed => exact (away_organizationMembers.delete _).bind fun _ => trivial
  refine (keepsKeys_selectFor _ _).bind fun rows => Prog.Statements.bind ?_ fun org => ?_
  · cases rows <;> trivial
  refine Prog.Statements.ite trivial (hremove.bind fun removed => Prog.Statements.ite trivial ?_)
  refine (keepsKeys_selectFor _ _).bind fun members => Prog.Statements.ite trivial ?_
  refine (keepsKeys_selectFor _ _).bind fun existing => Prog.Statements.ite trivial ?_
  refine (away_vaultItems.delete _).bind fun _ => (hitems _).bind fun _ => (hwraps _).bind fun _ => ?_
  exact (away_organizations.update _ _ _).bind fun _ => ⟨rfl, trivial⟩

/-- Requests inside an organization. -/
theorem OrgRequest.keepsKeys (config : Config) (orgId : Uuid) (r : OrgRequest) :
    KeepsKeys (r.run config orgId) := by
  cases r with
  | inviteMember auth body =>
    refine (DbOrgs.reads_getOrgMember orgId auth).statements.bind fun caller => ?_
    refine (reads_okOr _ _).statements.bind fun caller => (keepsKeys_require _ _).bind fun _ => ?_
    refine (keepsKeys_require _ _).bind fun _ => ?_
    refine (Orgs.reads_requireSeat orgId auth).statements.bind fun _ => ?_
    refine (reads_getPublicKeyByAccountKey _).statements.bind fun invitee => ?_
    refine (reads_okOr _ _).statements.bind fun invitee => (keepsKeys_require _ _).bind fun _ => ?_
    refine Prog.Statements.bind ?_ fun invited => keepsKeys_require _ _
    refine (keepsKeys_selectFor _ _).bind fun rows => Prog.Statements.bind ?_ fun org => ?_
    · cases rows <;> trivial
    refine Prog.Statements.ite trivial ?_
    split
    · trivial
    · refine Prog.Statements.bind (Table.statements_insertOrIgnore ?_ ?_) fun _ => ⟨rfl, trivial⟩
      · exact fun L => keepsPublished_of_eq L (fun _ => rfl) fun _ => rfl
      · exact fun L => away_organizationMembers.keepsPublished L _
  | rewrapMembers auth body =>
    refine (Orgs.reads_requireOwner orgId auth).statements.bind fun _ => ?_
    refine (DbOrgs.reads_currentKeyEpoch orgId).statements.bind fun epoch => ?_
    refine (keepsKeys_require _ _).bind fun _ => ?_
    refine (keepsKeys_rewrapMembers ?_ orgId auth body.wraps).bind fun _ => keepsKeys_require _ _
    split <;> rfl
  | acceptInvite auth =>
    refine Prog.Statements.bind ?_ fun accepted => keepsKeys_require _ _
    refine (Table.statements_autocommit (away_organizationMembers.update _ _ _) fun rows => ?_).bind
      fun _ => trivial
    split <;> rfl
  | rotateKey auth body =>
    refine (Orgs.reads_requireOwner orgId auth).statements.bind fun _ => ?_
    refine (keepsKeys_require _ _).bind fun _ => (keepsKeys_require _ _).bind fun _ => ?_
    split
    · trivial
    · refine (keepsKeys_rotateKey orgId auth _).bind fun outcome => ?_
      split <;> trivial

/-- Storing the caller's key pair where there is none. -/
theorem keepsKeys_publishKeys (auth : Uuid) (body : CreateOrgBody) :
    KeepsKeys (Tables.users.update (fun _ u => decide (u.id = auth)) (Orgs.publishKeys body)) := by
  refine Table.statements_update fun s n L hL => keepsPublished_editUsers (fun _ => rfl) ?_ ?_ hL
  · exact fun u => ⟨rfl, rfl⟩
  · intro u key hk
    change u.publicKey.or _ = _
    rw [Option.mem_def.mp hk, Option.some_or]

/-- Requests about organizations. -/
theorem OrgsRequest.keepsKeys (config : Config) (r : OrgsRequest) : KeepsKeys (r.run config) := by
  cases r with
  | createOrg fresh auth body =>
    refine (keepsKeys_require _ _).bind fun _ => (reads_bindTexts _).statements.bind fun _ => ?_
    refine (Table.statements_autocommit (keepsKeys_publishKeys auth body) fun _ => rfl).bind
      fun _ => ?_
    refine (reads_bindTexts _).statements.bind fun _ => ?_
    refine (Table.statements_autocommit (away_organizations.insert _ _) fun _ => rfl).bind
      fun _ => ?_
    refine (reads_bindTexts _).statements.bind fun _ => ?_
    exact Table.statements_autocommit (away_organizationMembers.insert _ _) fun _ => rfl
  | removeMember => trivial
  | within orgId request => exact request.keepsKeys config orgId

end Walks

section Wp

variable {O : Type} {d : Db} {r : AccountRequest}

/-- The specification for the commits of one request. -/
abbrev keysSpecOf (r : AccountRequest) : Spec Db RowId Tag ApiError := keysSpec.comap (Prod.mk r)

/-- A program that keeps what is published keeps the specification. -/
theorem KeepsKeys.wp {prog : Request O} (h : KeepsKeys prog) :
    (keysSpecOf r).wp (fun _ _ _ _ => True) prog [] (fun d => d) d :=
  (keysSpec_routine.comap (Prod.mk r)).wp h keysSpec_routine.nil

/-- Consuming an OPAQUE handshake finds it and deletes it. -/
theorem takeOpaqueLogin_keys_wp (id : Uuid) :
    (keysSpecOf r).wp (fun _ L w _ => L = [] ∧ w = fun d => d) (DbPending.takeOpaqueLogin id)
      [] (fun d => d) d := by
  intro s hs n hn d₁ h₁ _
  refine ⟨Spec.owes_comap (KeepsPublished.owes ?_ h₁.inv fun p hp => ?_), fun _ _ => ⟨rfl, rfl⟩⟩
  · refine keepsPublished_dropLogins fun k hk => ?_
    obtain ⟨p, hp, rfl⟩ := List.mem_map.mp hk
    exact Tables.pendingOpaqueLogins.locked_of_mem_hits hp .update
  · have hhit : p ∈ Tables.pendingOpaqueLogins.hits (DbPending.isLogin id) s n := by
      cases htaken : DbPending.taken id s n with
      | none =>
        rw [htaken] at hp
        cases hp
      | some t =>
        rw [htaken] at hp
        cases hp
        obtain ⟨q, hq, rfl⟩ := Option.map_eq_some_iff.mp htaken
        exact List.mem_of_head? hq
    constructor
    · have hlock := Tables.pendingOpaqueLogins.locked_of_mem_hits hhit .update
      have hmem := ((Tables.pendingOpaqueLogins.mem_hits).mp hhit).1
      exact ((h₁.keeps _ hlock).2 rfl).2 p hmem rfl
    · intro hafter
      exact ((Tables.pendingOpaqueLogins.mem_drop).mp hafter).2 (List.mem_map_of_mem hhit)

/-- Redeeming a proof; the label of what it authorizes names the account. -/
theorem verifyPasswordProof_keys_wp (o : Opaque) (now : Nat) (auth : AuthUser)
    (proof : Proof.PasswordProof) (purpose : Purpose) (hd : UsersConsistent d) :
    (keysSpecOf r).wp (fun tag L w _ => L = [] ∧ (w = fun d => d) ∧
        ∃ proved atTake, tag = .authorized auth.userId proved atTake)
      (Proof.verifyPasswordProof o now auth proof purpose) [] (fun d => d) d := by
  refine Spec.wp_reads_bind (reads_decodeOpaque _ _) (fun _ => id) (fun fin d₁ h₁ => ?_) hd
  refine Spec.wp_bind h₁.inv (Spec.wp_mono ?_ (takeOpaqueLogin_keys_wp proof.proofId))
  rintro taken L w d₂ ⟨rfl, rfl⟩ hi₂
  refine wp_okOr_bind id fun t _ => ?_
  refine wp_require_bind id fun _ => wp_require_bind id fun _ d₃ _ => ?_
  exact ⟨rfl, rfl, t.1.serverState.record, t.2, rfl⟩

/-- What the publication of an identity key owes, for an account that has a public key and no
identity key. -/
theorem owes_publish {now : Nat} {auth : AuthUser} {body : Keys.SetIdentityBody}
    {L : List (RowId × LockMode)} {keys : List RowId} {proved atTake : Option Bytes}
    (hr : r = .handshake (.setIdentity now auth body)) (hi : UsersConsistent d)
    (hpublic : (publishedOf auth.userId d).publicKey.isSome = true)
    (hnone : (publishedOf auth.userId d).identityPublicKey = none)
    (hkeys : ∀ userId, RowId.user userId ∈ keys ↔ userId = auth.userId)
    (hL : (RowId.user auth.userId, LockMode.noKeyUpdate) ∈ L) :
    keysSpec.Owes L (r, .authorized auth.userId proved atTake) d
      (Tables.users.edit keys
        (DbKeys.publish body.identityPublicKey body.publicKeySignature) d) := by
  have hid : ∀ u, (DbKeys.publish body.identityPublicKey body.publicKeySignature u).id = u.id :=
    fun _ => rfl
  have hids := ids_edit keys hid d
  have hother : ∀ userId, userId ≠ auth.userId → publishedOf userId (Tables.users.edit keys
      (DbKeys.publish body.identityPublicKey body.publicKeySignature) d) =
      publishedOf userId d := by
    intro userId hne
    rw [publishedOf_edit keys hid, publishedOf]
    simp only [(hkeys userId).not.mpr hne, if_false]
  have hself : publishedOf auth.userId (Tables.users.edit keys
      (DbKeys.publish body.identityPublicKey body.publicKeySignature) d) =
      { publicKey := (publishedOf auth.userId d).publicKey
        identityPublicKey := some body.identityPublicKey
        publicKeySignature := some body.publicKeySignature } := by
    rw [publishedOf_edit keys hid, publishedOf]
    rw [publishedOf] at hpublic
    simp only [(hkeys auth.userId).mpr rfl, if_true]
    cases hu : userOf auth.userId d with
    | none =>
      rw [hu] at hpublic
      cases hpublic
    | some u => rfl
  refine ⟨⟨fun userId => ?_, nofun⟩, ⟨hids ▸ hi.ids, fun userId => ?_⟩, fun userId => ?_,
    fun k m hcompat => ?_⟩
  · by_cases hu : userId = auth.userId
    · subst hu
      rw [hself]
      exact .inr ⟨⟨now, auth, body, hr, rfl, rfl, rfl⟩, proved, atTake, rfl⟩
    · rw [hother userId hu]
      exact .inl (.refl _)
  · by_cases hu : userId = auth.userId
    · subst hu
      rw [hself]
      rfl
    · rw [hother userId hu]
      exact hi.signed userId
  · by_cases hu : userId = auth.userId
    · subst hu
      have hunsigned : (publishedOf auth.userId d).publicKeySignature = none := by
        have hsigned := hi.signed auth.userId
        rw [hnone, Option.isSome_none] at hsigned
        exact Option.isSome_eq_false_iff.mp hsigned.symm |> Option.isNone_iff_eq_none.mp
      rw [hself]
      refine ⟨fun key hk => hk, fun key hk => ?_, fun signature hs => ?_⟩
      · rw [hnone] at hk
        cases hk
      · rw [hunsigned] at hs
        cases hs
    · rw [hother userId hu]
      exact .refl _
  · constructor
    · rintro rfl userId rfl
      apply hother
      rintro rfl
      cases hcompat _ hL rfl
    · rintro rfl
      exact ⟨fun userId _ hu => hids.symm ▸ hu, fun _ hp _ => hp⟩

/-- What the guarded update owes, whose request saw the account without an identity key and has a
proof, or saw it with one. -/
theorem owes_setIdentity {now : Nat} {auth : AuthUser} {body : Keys.SetIdentityBody} {tag : Tag}
    {cond : Db → User → Bool} {s n d₁ : Db} {L : List (RowId × LockMode)}
    (hr : r = .handshake (.setIdentity now auth body))
    (ht : (∃ proved atTake, tag = .authorized auth.userId proved atTake) ∨
      (publishedOf auth.userId d).identityPublicKey.isSome = true)
    (hcond : ∀ s u, cond s u = true →
      u.id = auth.userId ∧ u.publicKey.isSome = true ∧ u.identityPublicKey = none)
    (hn : keysSpec.Rely [] d n) (h₁ : keysSpec.Rely L n d₁)
    (hL : ∀ l ∈ Tables.users.locked cond .noKeyUpdate s n, l ∈ L) :
    keysSpec.Owes L (r, if (Tables.users.hits cond s n).isEmpty then .plain else tag) d₁
      (Tables.users.edit ((Tables.users.hits cond s n).map Tables.users.key)
        (DbKeys.publish body.identityPublicKey body.publicKeySignature) d₁) := by
  cases hrows : Tables.users.hits cond s n with
  | nil =>
    have hnothing : Tables.users.edit []
        (DbKeys.publish body.identityPublicKey body.publicKeySignature) = id :=
      funext (Tables.users.edit_nil _)
    have hkeeps : KeepsPublished L (Tables.users.edit []
        (DbKeys.publish body.identityPublicKey body.publicKeySignature)) :=
      hnothing ▸ keepsPublished_of_eq L (fun _ => rfl) fun _ => rfl
    exact hkeeps.owes h₁.inv fun p hp => by cases hp
  | cons u rows =>
    rw [← hrows]
    have hown : ∀ v ∈ Tables.users.hits cond s n, v ∈ n.users ∧ v.id = auth.userId ∧
        v.publicKey.isSome = true ∧ v.identityPublicKey = none := by
      intro v hv
      obtain ⟨hmem, -, hv⟩ := (Tables.users.mem_hits).mp hv
      exact ⟨hmem, hcond s v hv⟩
    have hu : u ∈ Tables.users.hits cond s n := hrows ▸ List.mem_cons_self
    obtain ⟨hmem, hid, hpublic, hnone⟩ := hown u hu
    have hfound : publishedOf auth.userId n = u.published :=
      hid ▸ publishedOf_of_mem hn.inv.ids hmem
    have hauthorized : ∃ proved atTake, tag = .authorized auth.userId proved atTake := by
      refine ht.resolve_right fun hsome => ?_
      -- a key that was there when the request looked is there still
      obtain ⟨key, hkey⟩ := Option.isSome_iff_exists.mp hsome
      have hstays := (hn.guar auth.userId).identityPublicKey key hkey
      rw [hfound] at hstays
      cases hnone.symm.trans hstays
    obtain ⟨proved, atTake, rfl⟩ := hauthorized
    have hlock : (RowId.user auth.userId, LockMode.noKeyUpdate) ∈ L :=
      hL _ (hid ▸ Tables.users.locked_of_mem_hits hu .noKeyUpdate)
    have hkept : publishedOf auth.userId d₁ = u.published :=
      ((h₁.keeps _ hlock).1 rfl auth.userId rfl).trans hfound
    rw [if_neg (by simp [hrows])]
    refine owes_publish hr h₁.inv (hkept ▸ hpublic) (hkept ▸ hnone) (fun userId => ?_) hlock
    rw [List.mem_map]
    constructor
    · rintro ⟨v, hv, hkey⟩
      cases hkey
      exact (hown v hv).2.1
    · rintro rfl
      exact ⟨u, hu, congrArg RowId.user hid⟩

/-- An identity key is stored for an account that had none, under a proof; an account that has one
is left as it is. -/
theorem setIdentity_keys_wp {now : Nat} {auth : AuthUser} {body : Keys.SetIdentityBody} {tag : Tag}
    (hr : r = .handshake (.setIdentity now auth body))
    (ht : (∃ proved atTake, tag = .authorized auth.userId proved atTake) ∨
      (publishedOf auth.userId d).identityPublicKey.isSome = true) :
    (keysSpecOf r).wp (fun _ _ _ _ => True)
      (DbKeys.setIdentity tag auth.userId body.identityPublicKey body.publicKeySignature)
      [] (fun d => d) d := by
  simp only [DbKeys.setIdentity, autocommit, bind_assoc]
  refine Table.wp_update_bind fun s hs n hn _ d₁ h₁ _ => ⟨Spec.owes_comap ?_, ?_⟩
  · refine owes_setIdentity hr ht (fun s u hcond => ?_) (Spec.rely_comap.mp (hs.trans hn))
      (Spec.rely_comap.mp h₁) fun l hl => ?_
    · rw [Bool.and_eq_true, Bool.and_eq_true, Option.isNone_iff_eq_none] at hcond
      exact ⟨of_decide_eq_true hcond.1.1, hcond.1.2, hcond.2⟩
    · exact List.mem_append_right _ (List.mem_append_left _ hl)
  · refine KeepsKeys.wp (Prog.Statements.ite trivial ?_)
    refine (DbKeys.reads_getBundle _).statements.bind fun key => ?_
    cases key <;> trivial

/-- An account whose bundle has an identity key has published it. -/
theorem published_of_bundle {userId : Uuid} (hi : UsersConsistent d)
    (h : ((d.users.find? fun u => decide (u.id = userId) && u.publicKey.isSome).map
      (·.identityPublicKey)).join.isSome = true) :
    (publishedOf userId d).identityPublicKey.isSome = true := by
  cases hu : d.users.find? fun u => decide (u.id = userId) && u.publicKey.isSome with
  | none =>
    rw [hu] at h
    cases h
  | some u =>
    rw [hu] at h
    have hid : u.id = userId := by
      have hcond := List.find?_some hu
      rw [Bool.and_eq_true] at hcond
      exact of_decide_eq_true hcond.1
    rw [← hid, publishedOf_of_mem hi.ids (List.mem_of_find?_eq_some hu)]
    exact h

/-- Publishing an identity key. -/
theorem keys_setIdentity_wp (o : Opaque) (now : Nat) (auth : AuthUser)
    (body : Keys.SetIdentityBody) :
    (keysSpecOf (.handshake (.setIdentity now auth body))).wp (fun _ _ _ _ => True)
      (Keys.setIdentity o now auth body) [] (fun d => d) d := by
  refine wp_require_bind id fun _ => wp_require_bind id fun _ => ?_
  refine Spec.wp_read_bind fun d₁ h₁ => ?_
  by_cases hpublished : ((d₁.users.find? fun u =>
      decide (u.id = auth.userId) && u.publicKey.isSome).map (·.identityPublicKey)).join.isSome
  · rw [Keys.proofOfFirst, if_pos hpublished, pure_bind]
    refine Spec.wp_bind h₁.inv (Spec.wp_mono ?_ (setIdentity_keys_wp rfl (.inr
      (published_of_bundle h₁.inv hpublished))))
    intro outcome L w d _ _
    cases outcome with
    | stored => exact fun _ _ => trivial
    | unchanged => exact fun _ _ => trivial
    | conflict => exact wp_refuse id
    | noPublicKey => exact wp_refuse id
  · rw [Keys.proofOfFirst, if_neg hpublished, bind_assoc]
    refine wp_okOr_bind id fun proof _ => ?_
    refine Spec.wp_bind h₁.inv (Spec.wp_mono ?_
      (verifyPasswordProof_keys_wp o now auth proof .identityKey h₁.inv))
    rintro tag L w d₂ ⟨rfl, rfl, htag⟩ hi₂
    refine Spec.wp_bind hi₂ (Spec.wp_mono ?_ (setIdentity_keys_wp rfl (.inl htag)))
    intro outcome L w d _ _
    cases outcome with
    | stored => exact fun _ _ => trivial
    | unchanged => exact fun _ _ => trivial
    | conflict => exact wp_refuse id
    | noPublicKey => exact wp_refuse id

/-- What the commit of a new account owes, whose id was vacant when it was locked. -/
theorem owes_pushUser {L : List (RowId × LockMode)} {row : User} {tag : Tag} {w : Db → Db}
    (hi : UsersConsistent d) (ht : tag.login = none) (hvacant : row.id ∉ d.users.map (·.id))
    (hidentity : row.identityPublicKey = none) (hsignature : row.publicKeySignature = none)
    (hL : (RowId.user row.id, LockMode.update) ∈ L)
    (hu : (w d).users = (Tables.users.push row d).users)
    (hp : (w d).pendingOpaqueLogins = d.pendingOpaqueLogins) :
    keysSpec.Owes L (r, tag) d (w d) := by
  have hids : (w d).users.map (·.id) = d.users.map (·.id) ++ [row.id] := by
    rw [hu]
    exact List.map_append
  have hother : ∀ userId, userId ≠ row.id → publishedOf userId (w d) = publishedOf userId d := by
    intro userId hne
    rw [publishedOf_congr hu, publishedOf_push (.inl hne)]
  have hself : publishedOf row.id (w d) = row.published := by
    rw [publishedOf_congr hu, publishedOf_push_self hvacant]
  have hbefore := publishedOf_of_not_mem hvacant
  have hsame : ∀ userId, (publishedOf userId d).SameIdentity (publishedOf userId (w d)) := by
    intro userId
    by_cases hne : userId = row.id
    · subst hne
      rw [hself, hbefore]
      exact ⟨hidentity, hsignature⟩
    · rw [hother userId hne]
      exact .refl _
  refine ⟨⟨fun userId => .inl (hsame userId), ?_⟩, ⟨?_, fun userId => ?_⟩, fun userId => ?_,
    fun k m hcompat => ?_⟩
  · rw [ht]
    exact nofun
  · rw [hids, List.nodup_append]
    refine ⟨hi.ids, List.nodup_singleton _, fun a ha b hb hab => ?_⟩
    rw [List.mem_singleton.mp hb] at hab
    exact hvacant (hab ▸ ha)
  · rw [(hsame userId).identityPublicKey, (hsame userId).publicKeySignature]
    exact hi.signed userId
  · by_cases hne : userId = row.id
    · subst hne
      rw [hbefore]
      exact ⟨nofun, nofun, nofun⟩
    · rw [hother userId hne]
      exact .refl _
  · constructor
    · rintro rfl userId rfl
      apply hother
      rintro rfl
      cases hcompat _ hL rfl
    · rintro rfl
      constructor
      · rintro userId rfl hid
        rw [hids, List.mem_append, List.mem_singleton, not_or]
        refine ⟨hid, ?_⟩
        rintro rfl
        cases hcompat _ hL rfl
      · intro p hpd _
        rwa [hp]

/-- Storing a new account and its vault. -/
theorem createUser_keys_wp (userId vaultId : Uuid) (now : Nat) (new : DbAuth.NewUser)
    (hd : UsersConsistent d) :
    (keysSpecOf r).wp (fun _ _ _ _ => True) (DbAuth.createUser userId vaultId now new)
      [] (fun d => d) d := by
  refine Spec.wp_reads_bind (reads_bindTexts _) (fun _ => id) (fun _ d₁ h₁ => ?_) hd
  intro s hs n hn
  dsimp only
  by_cases hfree : DbAuth.emailFree (new.row userId).emailHash n = true
  · simp only [hfree, if_true]
    by_cases hvacant : (Tables.users.vacant (new.row userId) n &&
        Tables.users.check (new.row userId)) = true
    · rw [if_pos hvacant]
      refine Table.wp_insert_bind (fun n₂ h₂ _ _ d₂ h₃ _ => ⟨Spec.owes_comap ?_, ?_⟩)
        fun x hx => absurd hx (Option.not_mem_none x)
      · have hlock : (RowId.user userId, LockMode.update) ∈ ([] : List (RowId × LockMode)) ++
            [(RowId.user userId, .update), (.emailHash (new.row userId).emailHash, .update)] := by simp
        have hfresh : userId ∉ n.users.map (·.id) := by
          rw [Bool.and_eq_true] at hvacant
          have hall := List.all_eq_true.mp hvacant.1
          rw [List.mem_map]
          rintro ⟨u, hu, hid⟩
          exact of_decide_eq_true (hall u hu) (congrArg RowId.user hid)
        have hfresh₂ := ((h₂.keeps _ hlock).2 rfl).1 userId rfl hfresh
        have hlock₂ := List.mem_append_left ((Tables.vaults.key
          { id := vaultId, userId := userId, nameBlob := "default".toList.map fun c => c.toNat.toUInt8,
            nameIv := List.replicate 12 48, createdAt := now }, LockMode.update) ::
              [userRef userId].map fun ref => (ref.row, LockMode.keyShare)) hlock
        have hfresh₃ := ((h₃.keeps _ hlock₂).2 rfl).1 userId rfl hfresh₂
        exact owes_pushUser h₃.inv rfl hfresh₃ rfl rfl hlock₂ rfl rfl
      · exact fun _ _ => trivial
    · rw [if_neg hvacant]
      exact fun _ _ x hx => absurd hx (Option.not_mem_none x)
  · simp only [hfree, Bool.false_eq_true, if_false]
    exact fun _ _ _ _ => trivial

/-- Registering an account. -/
theorem registerFinish_keys_wp (o : Opaque) (config : Config) (fresh : Auth.RegisterFresh)
    (req : Auth.OpaqueRegisterFinishRequest) (hd : UsersConsistent d) :
    (keysSpecOf r).wp (fun _ _ _ _ => True) (Auth.registerFinish o config fresh req)
      [] (fun d => d) d := by
  refine Spec.wp_reads_bind (reads_parseEmailHash _) (fun _ => id) (fun emailHash d₁ h₁ => ?_) hd
  refine wp_okOr_bind id fun upload _ => wp_okOr_bind id fun record _ => ?_
  refine wp_require_bind id fun _ => wp_okOr_bind id fun key _ => wp_okOr_bind id fun iv _ => ?_
  refine Spec.wp_read_bind fun d₂ h₂ => wp_require_bind id fun _ => ?_
  refine Spec.wp_bind h₂.inv (Spec.wp_mono ?_ (createUser_keys_wp _ _ _ _ h₂.inv))
  rintro created L w d₃ - -
  exact wp_require_bind id fun _ _ _ => trivial

/-- What a handshake request does after its handshake is consumed keeps what is published. -/
theorem keysSpecOf_take_bind {id : Uuid} {f : Option (PendingOpaqueLogin × Option Bytes) → Request O}
    (hd : UsersConsistent d) (hf : ∀ taken, KeepsKeys (f taken)) :
    (keysSpecOf r).wp (fun _ _ _ _ => True) (DbPending.takeOpaqueLogin id >>= f)
      [] (fun d => d) d := by
  refine Spec.wp_bind hd (Spec.wp_mono ?_ (takeOpaqueLogin_keys_wp id))
  rintro taken L w d₁ ⟨rfl, rfl⟩ -
  exact (hf taken).wp

/-- What a request does after its proof is redeemed keeps what is published. -/
theorem keysSpecOf_proof_bind {o : Opaque} {now : Nat} {auth : AuthUser}
    {proof : Proof.PasswordProof} {purpose : Purpose} {f : Tag → Request O}
    (hd : UsersConsistent d) (hf : ∀ tag, tag.login = none → KeepsKeys (f tag)) :
    (keysSpecOf r).wp (fun _ _ _ _ => True)
      (Proof.verifyPasswordProof o now auth proof purpose >>= f) [] (fun d => d) d := by
  refine Spec.wp_bind hd (Spec.wp_mono ?_ (verifyPasswordProof_keys_wp o now auth proof purpose hd))
  rintro tag L w d₁ ⟨rfl, rfl, proved, atTake, rfl⟩ -
  exact (hf _ rfl).wp

/-- Changing the password. -/
theorem passwordFinish_keys_wp (o : Opaque) (now : Nat) (auth : AuthUser)
    (req : Password.PasswordChangeFinishRequest) (hd : UsersConsistent d) :
    (keysSpecOf r).wp (fun _ _ _ _ => True) (Password.finish o now auth req) [] (fun d => d) d := by
  refine Spec.wp_reads_bind (Proof.reads_requireRecentSession _ _ _ _) (fun _ => id)
    (fun sessionId d₁ h₁ => ?_) hd
  refine wp_okOr_bind id fun upload _ => wp_okOr_bind id fun record _ => ?_
  refine wp_okOr_bind id fun wrapped _ => wp_okOr_bind id fun iv _ => ?_
  exact keysSpecOf_proof_bind h₁.inv fun tag ht => keepsKeys_rotateMasterPassword ht _ _ _

/-- Requests of the login, proof, upgrade and password-change routes. -/
theorem HandshakeRequest.keys_valid (o : Opaque) (srp : Srp) (config : Config)
    (request : HandshakeRequest) :
    (keysSpecOf (.handshake request)).Valid (request.run o srp config) fun _ _ => True := by
  intro d hd
  cases request with
  | loginStart fresh emailHash start =>
    apply KeepsKeys.wp
    refine Prog.Statements.bind ?_ fun _ => trivial
    refine (reads_parseEmailHash _).statements.bind fun emailHash => ?_
    refine (reads_decodeOpaque _ _).statements.bind fun request => ?_
    refine (DbAuth.reads_findUser _ _).statements.bind fun user => ?_
    refine (reads_okOr _ _).statements.bind fun started => ?_
    exact (keepsKeys_insertOpaqueLogin _).bind fun _ => trivial
  | loginFinish fresh loginId fin deviceId =>
    simp only [HandshakeRequest.run, Auth.loginFinish, bind_assoc]
    refine wp_okOr_bind id fun fin _ => keysSpecOf_take_bind hd fun taken => ?_
    refine (reads_okOr _ _).statements.bind fun t => (keepsKeys_require _ _).bind fun _ => ?_
    refine (reads_okOr _ _).statements.bind fun userId => ?_
    refine (DbAuth.reads_getUserById _).statements.bind fun found => ?_
    refine (reads_okOr _ _).statements.bind fun user => ?_
    exact (keepsKeys_issueSession o rfl _ _ _ _).bind fun _ => trivial
  | srpInit fresh emailHash clientPublicA =>
    apply KeepsKeys.wp
    refine Prog.Statements.bind ?_ fun _ => trivial
    refine (reads_parseEmailHash _).statements.bind fun emailHash => ?_
    refine (reads_decodeField _ _).statements.bind fun clientPublicA => ?_
    refine (keepsKeys_require _ _).bind fun _ => ?_
    refine (DbAuth.reads_findUser _ _).statements.bind fun user => ?_
    split
    · trivial
    · exact (keepsKeys_insertSrp _).bind fun _ => trivial
  | srpVerify fresh sessionId clientProofM1 deviceId =>
    apply KeepsKeys.wp
    refine Prog.Statements.bind ?_ fun _ => trivial
    refine (keepsKeys_takeSrp _).bind fun taken => (reads_okOr _ _).statements.bind fun p => ?_
    refine (keepsKeys_require _ _).bind fun _ => (reads_decodeField _ _).statements.bind fun m1 => ?_
    refine (DbAuth.reads_getUserById _).statements.bind fun found => ?_
    refine (reads_okOr _ _).statements.bind fun user => (keepsKeys_require _ _).bind fun _ => ?_
    exact keepsKeys_issueSession o rfl _ _ _ _
  | proofStart fresh auth emailHash start purpose =>
    apply KeepsKeys.wp
    refine Prog.Statements.bind ?_ fun _ => trivial
    exact (Proof.reads_sessionUser _ _ _).statements.bind fun user => keepsKeys_startProof o _ _ _ _
  | setAccountKey now auth req =>
    simp only [HandshakeRequest.run, Auth.setAccountKey, bind_assoc]
    refine wp_okOr_bind id fun wrapped _ => wp_okOr_bind id fun iv _ => ?_
    refine Spec.wp_reads_bind (Auth.reads_privateKeyPair _ _) (fun _ => id)
      (fun privateKey d₁ h₁ => ?_) hd
    refine keysSpecOf_proof_bind h₁.inv fun tag ht => ?_
    refine (keepsKeys_setAccountKey ht _ _ _).bind fun done => (keepsKeys_require _ _).bind fun _ => ?_
    refine (DbAuth.reads_getUserById _).statements.bind fun found => ?_
    exact (reads_okOr _ _).statements.bind fun _ => trivial
  | setIdentity now auth body =>
    refine Spec.wp_bind hd (Spec.wp_mono ?_ (keys_setIdentity_wp o now auth body))
    exact fun _ _ _ _ _ _ _ _ => trivial
  | upgradeStart fresh auth req =>
    apply KeepsKeys.wp
    refine Prog.Statements.bind ?_ fun _ => trivial
    refine (Proof.reads_sessionUser _ _ _).statements.bind fun user => ?_
    refine (reads_decodeField _ _).statements.bind fun clientPublicA => ?_
    refine (keepsKeys_require _ _).bind fun _ => (reads_decodeOpaque _ _).statements.bind fun _ => ?_
    refine (reads_okOr _ _).statements.bind fun account => ?_
    refine (reads_okOr _ _).statements.bind fun response => ?_
    exact (keepsKeys_insertSrp _).bind fun _ => trivial
  | upgradeFinish now auth req =>
    apply KeepsKeys.wp
    refine Prog.Statements.bind ?_ fun _ => trivial
    refine (reads_decodeField _ _).statements.bind fun m1 => ?_
    refine (reads_decodeOpaque _ _).statements.bind fun upload => ?_
    refine (reads_okOr _ _).statements.bind fun record => ?_
    refine (reads_decodeField _ _).statements.bind fun wrapped => ?_
    refine (reads_decodeField _ _).statements.bind fun iv => ?_
    refine (Auth.reads_privateKeyPair _ _).statements.bind fun privateKey => ?_
    refine (keepsKeys_takeSrp _).bind fun taken => (reads_okOr _ _).statements.bind fun p => ?_
    refine (keepsKeys_require _ _).bind fun _ => ?_
    refine (DbAuth.reads_getUserById _).statements.bind fun found => ?_
    refine (reads_okOr _ _).statements.bind fun user => (keepsKeys_require _ _).bind fun _ => ?_
    refine (DbSessions.reads_findSessionByToken _ _).statements.bind fun session => ?_
    refine (reads_okOr _ _).statements.bind fun session => ?_
    exact (keepsKeys_completeSrpUpgrade _ _ _ _ _).bind fun _ => keepsKeys_require _ _
  | passwordStart fresh auth req =>
    apply KeepsKeys.wp
    refine Prog.Statements.bind ?_ fun _ => trivial
    refine (Proof.reads_requireRecentSession _ _ _ _).statements.bind fun _ => ?_
    refine (Proof.reads_sessionUser _ _ _).statements.bind fun user => ?_
    refine (reads_decodeOpaque _ _).statements.bind fun request => ?_
    refine (reads_okOr _ _).statements.bind fun wrapped => ?_
    refine (reads_okOr _ _).statements.bind fun iv => ?_
    refine (keepsKeys_startProof o _ _ _ _).bind fun _ => ?_
    exact (reads_okOr _ _).statements.bind fun _ => trivial
  | passwordFinish now auth req =>
    refine Spec.wp_bind hd (Spec.wp_mono ?_ (passwordFinish_keys_wp o now auth req hd))
    exact fun _ _ _ _ _ _ _ _ => trivial

/-- Requests on the recovery of accounts. -/
theorem RecoveryRequest.keys_valid (o : Opaque) (config : Config) (request : RecoveryRequest) :
    (keysSpecOf r).Valid (request.run o config) fun _ _ => True := by
  intro d hd
  cases request with
  | init fresh emailHash recoveryAuthKey =>
    apply KeepsKeys.wp
    refine Prog.Statements.bind ?_ fun _ => trivial
    refine (Recovery.reads_decodeB64 _ _).statements.bind fun authKey => ?_
    refine (reads_parseEmailHash _).statements.bind fun emailHash => ?_
    refine (DbAuth.reads_findUser _ _).statements.bind fun found => ?_
    refine (reads_okOr _ _).statements.bind fun user => ?_
    refine (reads_okOr _ _).statements.bind fun stored => (keepsKeys_require _ _).bind fun _ => ?_
    refine (reads_okOr _ _).statements.bind fun blob => (reads_okOr _ _).statements.bind fun iv => ?_
    refine (Recovery.reads_encodeAllItems _).statements.bind fun items => ?_
    refine Prog.Statements.bind ?_ fun _ => trivial
    exact Table.statements_autocommit (away_pendingRecoverySessions.insert _ _) fun _ => rfl
  | setRecovery auth req =>
    apply KeepsKeys.wp
    refine (Recovery.reads_decodeB64 _ _).statements.bind fun authKey => ?_
    refine (Recovery.reads_decodeB64 _ _).statements.bind fun blob => ?_
    refine (Recovery.reads_decodeB64 _ _).statements.bind fun blobIv => ?_
    exact (keepsKeys_require _ _).bind fun _ => keepsKeys_replaceKit _ _
  | disable auth => exact (keepsKeys_replaceKit auth.userId none).wp
  | complete now req =>
    apply KeepsKeys.wp
    refine (Recovery.reads_liveRecoverySession now _).statements.bind fun session => ?_
    refine (Recovery.reads_credentialOf o req).statements.bind fun credential => ?_
    refine (Recovery.reads_decodeB64 _ _).statements.bind fun key => ?_
    refine (Recovery.reads_decodeB64 _ _).statements.bind fun iv => ?_
    refine (Recovery.reads_decodeB64 _ _).statements.bind fun authKey => ?_
    refine (Recovery.reads_decodeB64 _ _).statements.bind fun blob => ?_
    refine (Recovery.reads_decodeB64 _ _).statements.bind fun blobIv => ?_
    refine (keepsKeys_require _ _).bind fun _ => ?_
    refine (Recovery.reads_wrapOf req).statements.bind fun wrapped => ?_
    refine (Recovery.reads_itemsOf _ _ _).statements.bind fun items => ?_
    exact keepsKeys_rotateMasterPassword rfl _ _ _
  | passwordFinish now auth req => exact passwordFinish_keys_wp o now auth req hd

/-- Every request keeps the specification. -/
theorem AccountRequest.keys_valid (o : Opaque) (srp : Srp) (config : Config) (r : AccountRequest) :
    (keysSpecOf r).Valid (r.run o srp config) fun _ _ => True := by
  intro d hd
  cases r with
  | registerFinish fresh req =>
    refine Spec.wp_bind hd (Spec.wp_mono ?_ (registerFinish_keys_wp o config fresh req hd))
    exact fun _ _ _ _ _ _ _ _ => trivial
  | handshake request =>
    refine Spec.wp_bind hd (Spec.wp_mono ?_ (request.keys_valid o srp config d hd))
    exact fun _ _ _ _ _ _ _ _ => trivial
  | recovery request => exact request.keys_valid o config d hd
  | orgs request => exact (request.keepsKeys config).wp

end Wp

section Order

variable {O : Type} {P : List Tag → Prop} {rs : List Tag}

/-- No commit under a proof without one that consumed a handshake which proves the password. -/
def ProvedFirst (o : Opaque) (r : AccountRequest) (userId : Uuid) (tags : List Tag) : Prop :=
  ∀ before tag after, tags = before ++ tag :: after →
    (∃ proved atTake, tag = .authorized userId proved atTake) →
      ∃ p, (∃ earlier ∈ before, earlier.login = some p) ∧ r.ProvedBy o userId p

/-- One more commit, that is not under a proof or comes after it. -/
theorem ProvedFirst.append {o : Opaque} {r : AccountRequest} {userId : Uuid} {tag : Tag}
    (h : ProvedFirst o r userId rs)
    (ht : (∃ proved atTake, tag = .authorized userId proved atTake) →
      ∃ p, (∃ earlier ∈ rs, earlier.login = some p) ∧ r.ProvedBy o userId p) :
    ProvedFirst o r userId (rs ++ [tag]) := by
  intro before tag' after hsplit htag'
  rcases List.eq_nil_or_concat after with rfl | ⟨after, last, rfl⟩
  · obtain ⟨rfl, hlast⟩ := List.append_inj' hsplit rfl
    cases hlast
    exact ht htag'
  · rw [List.concat_eq_append, ← List.cons_append, ← List.append_assoc] at hsplit
    obtain ⟨rfl, -⟩ := List.append_inj' hsplit rfl
    exact h before tag' after rfl htag'

/-- One more commit that is not under a proof. -/
theorem ProvedFirst.append_other {o : Opaque} {r : AccountRequest} {userId : Uuid} {tag : Tag}
    (h : ProvedFirst o r userId rs)
    (ht : ∀ proved atTake, tag ≠ .authorized userId proved atTake) :
    ProvedFirst o r userId (rs ++ [tag]) := by
  refine h.append fun hproved => ?_
  obtain ⟨proved, atTake, htag⟩ := hproved
  exact absurd htag (ht proved atTake)

/-- What follows a check comes after it. -/
theorem throughout_require_bind {cond : Bool} {e : ApiError} {k : Unit → Request O} (hP : P rs)
    (h : cond = true → (k ()).Throughout some P rs) :
    (require cond e >>= k).Throughout some P rs := by
  cases cond
  · exact hP
  · exact h rfl

/-- What follows a value that must be there comes after it. -/
theorem throughout_okOr_bind {α : Type} {a : Option α} {e : ApiError} {k : α → Request O}
    (hP : P rs) (h : ∀ x ∈ a, (k x).Throughout some P rs) :
    (okOr e a >>= k).Throughout some P rs := by
  cases a with
  | none => exact hP
  | some x => exact h x rfl

/-- Consuming an OPAQUE handshake; it is the one that was asked for. -/
theorem throughout_takeOpaqueLogin_bind {id : Uuid}
    {f : Option (PendingOpaqueLogin × Option Bytes) → Request O} (hP : P rs)
    (hf : ∀ taken, (∀ t ∈ taken, t.1.id = id) →
      (f taken).Throughout some P (rs ++ [.consumed (taken.map fun t => .login t.1)])) :
    (DbPending.takeOpaqueLogin id >>= f).Throughout some P rs :=
  ⟨hP, fun _ _ => ⟨hP, hf _ fun _ ht => (DbPending.mem_taken (Option.mem_def.mpr ht)).2.1⟩⟩

/-- Storing an identity key commits once, under the label or a plain one. -/
theorem throughout_setIdentity_bind {tag : Tag} {userId : Uuid} {key signature : String}
    {f : DbKeys.SetIdentityOutcome → Request O} (hf : ∀ outcome, (f outcome).NeverCommits)
    (hP : P rs) (hplain : P (rs ++ [.plain])) (htag : P (rs ++ [tag])) :
    (DbKeys.setIdentity tag userId key signature >>= f).Throughout some P rs := by
  rw [DbKeys.setIdentity, bind_assoc]
  refine throughout_autocommit_bind (neverCommits_update _ _ _) hP fun rows => ?_
  apply Prog.Labels.throughout
  · apply Prog.NeverCommits.labels
    refine Prog.NeverCommits.bind ?_ hf
    split
    · trivial
    · refine (DbKeys.reads_getBundle userId).neverCommits.bind fun found => ?_
      cases found <;> trivial
  · split
    · exact hplain
    · exact htag

/-- A publication commits under a proof only after it consumed a handshake that proves the password
of its account. -/
theorem provedFirst_setIdentity (o : Opaque) (srp : Srp) (config : Config) (now : Nat)
    (auth : AuthUser) (body : Keys.SetIdentityBody) :
    ((AccountRequest.handshake (.setIdentity now auth body)).run o srp config).Throughout some
      (ProvedFirst o (.handshake (.setIdentity now auth body)) auth.userId) [] := by
  have hnil : ProvedFirst o (.handshake (.setIdentity now auth body)) auth.userId [] := by
    intro before tag after hsplit
    simp at hsplit
  simp only [AccountRequest.run, HandshakeRequest.run, Keys.setIdentity, bind_assoc]
  refine throughout_require_bind hnil fun _ => throughout_require_bind hnil fun _ => ?_
  refine (DbKeys.reads_getBundle _).neverCommits.labels.throughout_bind hnil fun current => ?_
  by_cases hpublished : current.join.isSome
  · rw [Keys.proofOfFirst, if_pos hpublished, pure_bind]
    refine throughout_setIdentity_bind (fun outcome => ?_) hnil
      (hnil.append_other fun _ _ h => (by cases h)) (hnil.append_other fun _ _ h => (by cases h))
    cases outcome <;> trivial
  · rw [Keys.proofOfFirst, if_neg hpublished, bind_assoc]
    refine throughout_okOr_bind hnil fun proof hproof => ?_
    simp only [Proof.verifyPasswordProof, bind_assoc]
    refine throughout_okOr_bind hnil fun fin hfin => ?_
    refine throughout_takeOpaqueLogin_bind hnil fun taken hid => ?_
    have htaken : ProvedFirst o (.handshake (.setIdentity now auth body)) auth.userId
        ([] ++ [.consumed (taken.map fun t => .login t.1)]) :=
      hnil.append_other fun _ _ h => (by cases h)
    refine throughout_okOr_bind htaken fun t ht => throughout_require_bind htaken fun httl => ?_
    refine throughout_require_bind htaken fun hproved => ?_
    rw [pure_bind]
    refine throughout_setIdentity_bind (fun outcome => by cases outcome <;> trivial) htaken
      (htaken.append_other fun _ _ h => (by cases h)) (htaken.append fun _ => ?_)
    obtain ⟨hmem, hcond⟩ := Option.filter_eq_some_iff.mp ht
    obtain ⟨huser, hpurpose⟩ := Bool.and_eq_true_iff.mp hcond
    rw [hmem]
    refine ⟨t.1, ⟨_, List.mem_cons_self, rfl⟩, now, auth, body, rfl, proof, hproof, ?_⟩
    exact ⟨hid t hmem, of_decide_eq_true huser, of_decide_eq_true hpurpose, of_decide_eq_true httl,
      fin, hfin, hproved⟩

end Order

section Runs

variable {I : Type} [Fintype I] [DecidableEq I]

/-- Under any interleaving of registrations, first organizations, publications of identity keys,
logins, proofs, upgrades, password changes, recoveries and requests inside organizations, what an
account has published stays, and an identity key comes with its signature from one request, which
redeemed a fresh proof of the password of that account before. -/
theorem keysHold (o : Opaque) (srp : Srp) (config : Config) (reqs : I → AccountRequest) {db : Db}
    (hdb : UsersConsistent db) {sched : List (I × Act)} {s : State I Db RowId Tag ApiError Unit}
    (h : (State.start db fun i => (reqs i).run o srp config).exec sched = some s) :
    KeysHold o reqs (State.start db fun i => (reqs i).run o srp config) sched s := by
  obtain ⟨-, hstays, hasserts⟩ := Spec.holds_of_relabel (g := fun i => Prod.mk (reqs i))
    (fun _ _ => trivial) hdb (fun i => (reqs i).keys_valid o srp config) h
  refine ⟨hstays, fun earlier e later hsplit userId hchanged => ?_⟩
  have hmem : e ∈ (State.start db fun i => (reqs i).run o srp config).history sched :=
    hsplit ▸ List.mem_append_right _ List.mem_cons_self
  have hpublishes := ((hasserts e hmem).1 userId).resolve_left fun hsame =>
    hchanged.elim (· hsame.identityPublicKey) (· hsame.publicKeySignature)
  obtain ⟨hpub, hauthorized⟩ := hpublishes
  refine ⟨hpub, ?_⟩
  obtain ⟨now, auth, body, hreq, rfl, -⟩ := hpub
  have hthroughout := provedFirst_setIdentity o srp config now auth body
  rw [← hreq] at hthroughout
  have hfirst := State.throughout (i := e.proc) h hthroughout
  have hown : Event.taken some e.proc e = some e.tag := if_pos rfl
  rw [List.nil_append, State.taken, hsplit, List.filterMap_append,
    List.filterMap_cons_some hown] at hfirst
  obtain ⟨p, ⟨tag, htag, hlogin⟩, hproved⟩ := hfirst _ _ _ rfl hauthorized
  obtain ⟨e', he', htaken⟩ := List.mem_filterMap.mp htag
  obtain ⟨hproc, hlabel⟩ := Event.taken_eq_some.mp htaken
  cases hlabel
  refine ⟨p, hproved, e', he', hproc, hlogin, ?_⟩
  exact (hasserts e' (hsplit ▸ List.mem_append_left _ he')).2 p hlogin

end Runs

/-- A password is its own proof. -/
private def shownRecord : Opaque where
  validRequest _ := true
  registrationStart request _ := some request
  registrationFinish := some
  proves finalization record _ := decide (finalization = record)
  srpVerify _ _ _ _ := false
  hashToken := id
  hashAuthKey := id

/-- An account registers with a public key, proves its password and publishes an identity key. -/
private def publishing : Fin 3 → AccountRequest
  | 0 => .registerFinish { now := 0, userId := 1, vaultId := 2 }
      { emailHash := "".pushn '0' 64, registrationRecord := "AQ", kdfParams := {}
        protectedSymmetricKey := "", protectedSymmetricKeyIv := "", publicKey := some "rsa" }
  | 1 => .handshake (.proofStart { now := 0, id := 5 } ⟨1, ""⟩ ("".pushn '0' 64) "" .identityKey)
  | 2 => .handshake (.setIdentity 0 ⟨1, ""⟩
      { identityPublicKey := Base64.encode (List.replicate 32 0)
        publicKeySignature := Base64.encode (List.replicate 64 0)
        proof := some { proofId := 5, finishLoginRequest := "AQ" } })

/-- The three requests in turn. -/
private def oneAfterAnother : List (Fin 3 × Act) :=
  Act.inTurn [(0, 6), (1, 6), (2, 7)]

private def plainChallenge : Srp where
  publicEphemeral _ _ := []
  fakeSrpSalt _ := []

/-- Every email has the same key; there is one account. -/
private def oneKey : Config := ⟨fun _ => "key"⟩

/-- The account ends with the keys that its requests published. -/
theorem keysHold_publishing : ∃ s,
    (State.start {} fun i => (publishing i).run shownRecord plainChallenge oneKey).exec
        oneAfterAnother = some s ∧
      publishedOf 1 s.db =
        { publicKey := some "rsa"
          identityPublicKey := some (Base64.encode (List.replicate 32 0))
          publicKeySignature := some (Base64.encode (List.replicate 64 0)) } ∧
      KeysHold shownRecord publishing
        (State.start {} fun i => (publishing i).run shownRecord plainChallenge oneKey)
        oneAfterAnother s := by
  have hrun : ((State.start {} fun i => (publishing i).run shownRecord plainChallenge oneKey).exec
      oneAfterAnother).map (fun s => publishedOf 1 s.db) = some
        { publicKey := some "rsa"
          identityPublicKey := some (Base64.encode (List.replicate 32 0))
          publicKeySignature := some (Base64.encode (List.replicate 64 0)) } := by
    decide +kernel
  obtain ⟨s, hs, hkeys⟩ := Option.map_eq_some_iff.mp hrun
  have hempty : UsersConsistent {} := ⟨List.nodup_nil, fun _ => rfl⟩
  exact ⟨s, hs, hkeys, keysHold shownRecord plainChallenge oneKey publishing hempty hs⟩

end Nopass
