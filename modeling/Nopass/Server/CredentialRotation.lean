import Nopass.Server.Recovery

/-!
# Handshakes across a credential rotation

A rotation drops the handshakes and sessions that it finds. A handshake whose record was
read before the rotation may be stored after it, and a session whose handshake was
consumed before the rotation may be created after it. When every handshake is stored,
and every authorized write is committed, while the account's record is still the one
that was read, nothing that was proved of a replaced password remains.
-/

namespace Nopass

open ReadCommitted

/-- Requests on the credential of an account. -/
inductive CredentialRequest where
  | loginStart (fresh : Fresh) (emailHash startLoginRequest : String)
  | loginFinish (fresh : Fresh) (loginId : Uuid) (finishLoginRequest : String)
      (deviceId : Option Uuid)
  | proofStart (fresh : Fresh) (auth : AuthUser) (emailHash startLoginRequest : String)
      (purpose : Purpose)
  | setAccountKey (now : Nat) (auth : AuthUser) (req : Auth.SetAccountKeyRequest)
  | setIdentity (now : Nat) (auth : AuthUser) (body : Keys.SetIdentityBody)
  | passwordStart (fresh : Fresh) (auth : AuthUser) (req : Password.PasswordChangeStartRequest)
  | passwordFinish (now : Nat) (auth : AuthUser) (req : Password.PasswordChangeFinishRequest)
  | recoveryComplete (now : Nat) (req : Recovery.RecoveryCompleteRequest)

/-- The program of a request. -/
def CredentialRequest.run (o : Opaque) (config : Config) : CredentialRequest → Request Unit
  | .loginStart fresh emailHash start => do
    let _ ← Auth.loginStart o config fresh emailHash start
  | .loginFinish fresh loginId fin deviceId => do
    let _ ← Auth.loginFinish o fresh loginId fin deviceId
  | .proofStart fresh auth emailHash start purpose => do
    let _ ← Proof.start o config fresh auth emailHash start purpose
  | .setAccountKey now auth req => Auth.setAccountKey o now auth req
  | .setIdentity now auth body => Keys.setIdentity o now auth body
  | .passwordStart fresh auth req => do
    let _ ← Password.start o config fresh auth req
  | .passwordFinish now auth req => Password.finish o now auth req
  | .recoveryComplete now req => Recovery.recoveryComplete o now req

/-- The session is the one that the last password change kept. -/
def IsKept (s : Session) (d : Db) : Prop :=
  ∃ u ∈ userOf s.userId d, u.keptSession = some s.id

instance (s : Session) (d : Db) : Decidable (IsKept s d) :=
  inferInstanceAs (Decidable (∃ u ∈ userOf s.userId d, u.keptSession = some s.id))

/-- No handshake of a replaced record is waiting, and no session stands on a proof of one, but
for the session that a password change kept. -/
structure ProofsCurrent (d : Db) : Prop where
  /-- Handshakes were computed from the current record. -/
  handshakes : ∀ p ∈ d.pendingOpaqueLogins, ∀ userId ∈ p.userId, ∀ record ∈ p.serverState.record,
    DbPending.recordOf (some userId) d = some record
  /-- Sessions stand on the current record. -/
  sessions : ∀ s ∈ d.sessions, ∀ record ∈ s.provedRecord,
    DbPending.recordOf (some s.userId) d = some record ∨ IsKept s d

/-- A handshake is stored, and what it authorizes is committed, while the account's record is
still the one that the request read. -/
def RecordKept : Tag → Db → Prop
  | .handshake (some userId) record, d => DbPending.recordOf (some userId) d = record
  | .authorized userId _ atTake, d => DbPending.recordOf (some userId) d = atTake
  | _, _ => True

instance : ∀ tag d, Decidable (RecordKept tag d)
  | .handshake (some userId) record, d =>
      inferInstanceAs (Decidable (DbPending.recordOf (some userId) d = record))
  | .authorized userId _ atTake, d =>
      inferInstanceAs (Decidable (DbPending.recordOf (some userId) d = atTake))
  | .plain, _ | .rewrap _ _, _ | .handshake none _, _ | .deleteVault _ _, _ |
    .consumed _, _ | .issued _ _, _ | .replacedKit _ _, _ | .wrote _ _ _, _ |
    .rekeyed _ _, _ | .reencrypted _, _ |
    .published _, _ | .organized _, _ | .owned _ _, _ | .accepted _, _ =>
      inferInstanceAs (Decidable True)

/-- What a proof authorizes is committed while the proved record is the current one. -/
def ProvesCurrent : Tag → Db → Prop
  | .authorized userId proved _, d => DbPending.recordOf (some userId) d = proved
  | _, _ => True

/-- The lock of an account row, taken for update, keeps the row and lets no handshake or session
of the account appear. -/
def credentialSpec : Spec Db RowId Tag ApiError where
  inv := ProofsCurrent
  guar d d' := ∀ userId, userOf userId d = none → userOf userId d' = none
  guar_refl := userOf_absent_refl
  guar_trans := @userOf_absent_trans
  keeps k m d d' := ∀ userId, k = .user userId → m = .update →
    userOf userId d' = userOf userId d ∧
      (∀ p ∈ d'.pendingOpaqueLogins, p.userId = some userId → p ∈ d.pendingOpaqueLogins) ∧
      ∀ s ∈ d'.sessions, s.userId = userId → s ∈ d.sessions
  keeps_refl _ _ _ _ _ _ := ⟨rfl, fun _ hp _ => hp, fun _ hs _ => hs⟩
  keeps_trans h h' userId hk hm := by
    obtain ⟨hu, hp, hs⟩ := h userId hk hm
    obtain ⟨hu', hp', hs'⟩ := h' userId hk hm
    exact ⟨hu'.trans hu, fun p hpc hpu => hp p (hp' p hpc hpu) hpu,
      fun s hsc hsu => hs s (hs' s hsc hsu) hsu⟩
  allow := RecordKept
  asserts tag d _ := ProvesCurrent tag d

variable {d d' : Db} {L : List (RowId × LockMode)} {userId : Uuid}

/-- The record of an account is in its row. -/
theorem recordOf_eq (userId : Uuid) (d : Db) :
    DbPending.recordOf (some userId) d = (userOf userId d).bind (·.opaqueRecord) := rfl

/-- Commits that leave accounts alone and add neither handshakes nor sessions. -/
theorem owes_of_narrowed {tag : Tag} (hi : ProofsCurrent d) (ha : ProvesCurrent tag d)
    (hu : d'.users = d.users) (hp : ∀ p ∈ d'.pendingOpaqueLogins, p ∈ d.pendingOpaqueLogins)
    (hs : ∀ s ∈ d'.sessions, s ∈ d.sessions) : credentialSpec.Owes L tag d d' := by
  have hrow : ∀ userId, userOf userId d' = userOf userId d := fun userId => by
    rw [userOf, hu, userOf]
  have hrecord : ∀ userId,
      DbPending.recordOf (some userId) d' = DbPending.recordOf (some userId) d := fun userId => by
    rw [recordOf_eq, hrow, recordOf_eq]
  refine ⟨ha, ⟨fun p hpd userId hpu record hr => ?_, fun s hsd record hr => ?_⟩, ?_, ?_⟩
  · rw [hrecord]
    exact hi.handshakes p (hp p hpd) userId hpu record hr
  · rw [hrecord, IsKept, hrow]
    exact hi.sessions s (hs s hsd) record hr
  · intro userId hn
    rw [hrow]
    exact hn
  · intro k m _ userId _ _
    exact ⟨hrow userId, fun p hpd _ => hp p hpd, fun s hsd _ => hs s hsd⟩

/-- Commits that change locked account rows, but neither their records nor their kept sessions. -/
theorem owes_of_editUsers {tag : Tag} {keys : List RowId} {f : User → User}
    (hi : ProofsCurrent d) (ha : ProvesCurrent tag d) (hid : ∀ u, (f u).id = u.id)
    (hrecord : ∀ u, (f u).opaqueRecord = u.opaqueRecord)
    (hkept : ∀ u, (f u).keptSession = u.keptSession)
    (hlock : ∀ k ∈ keys, (k, LockMode.noKeyUpdate) ∈ L) :
    credentialSpec.Owes L tag d (Tables.users.edit keys f d) := by
  have hrow := userOf_edit keys hid
  have hrecordOf : ∀ userId, DbPending.recordOf (some userId) (Tables.users.edit keys f d) =
      DbPending.recordOf (some userId) d := by
    intro userId
    rw [recordOf_eq, recordOf_eq, hrow]
    cases userOf userId d with
    | none => rfl
    | some u =>
      rw [Option.map_some, Option.bind_some, Option.bind_some]
      split
      · exact hrecord u
      · rfl
  refine ⟨ha, ⟨fun p hp userId hpu record hr => ?_, fun s hs record hr => ?_⟩, ?_, ?_⟩
  · rw [hrecordOf]
    exact hi.handshakes p hp userId hpu record hr
  · rw [hrecordOf]
    rcases hi.sessions s hs record hr with hcur | ⟨u, hu, hk⟩
    · exact Or.inl hcur
    · refine Or.inr ⟨if RowId.user s.userId ∈ keys then f u else u, ?_, ?_⟩
      · rw [hrow, Option.mem_def.mp hu]
        rfl
      · split
        · exact (hkept u).trans hk
        · exact hk
  · intro userId hn
    rw [hrow, hn, Option.map_none]
  · rintro _ _ hcompat userId rfl rfl
    have hfree : RowId.user userId ∉ keys := fun hk => by
      simpa using hcompat _ (hlock _ hk) rfl
    refine ⟨?_, fun _ hp _ => hp, fun _ hs _ => hs⟩
    rw [hrow]
    simp only [hfree, if_false, Option.map_id']

/-- A label whose write is authorized by the current record whenever no rotation came between. -/
def Backed (tag : Tag) : Prop := ∀ d, RecordKept tag d → ProvesCurrent tag d

/-- A write without a proof. -/
theorem backed_plain : Backed .plain := fun _ _ => trivial

/-- A write authorized by a recovery token. -/
theorem backed_consumed (row : Option OneTimeRow) : Backed (.consumed row) := fun _ _ => trivial

/-- A write whose handshake was consumed while its record was current. -/
theorem backed_authorized (userId : Uuid) (proved : Option Bytes) :
    Backed (.authorized userId proved proved) := fun _ h => h

/-- Storing a handshake of the current record. -/
theorem insertOpaqueLogin_wp (p : PendingOpaqueLogin) :
    credentialSpec.wp (fun _ L w _ => L = [] ∧ w = id) (DbPending.insertOpaqueLogin p) [] id d := by
  refine Table.wp_insert_bind (fun n hn _ _ => ?_) nofun
  refine Table.wp_delete_bind fun s hs n' hn' d₁ h₁ ha => ⟨?_, fun _ _ => ⟨rfl, rfl⟩⟩
  refine ⟨trivial, ⟨fun q hq userId hqu record hr => ?_, h₁.inv.sessions⟩, fun _ h => h, ?_⟩
  · rcases (Tables.pendingOpaqueLogins.mem_push).mp
      ((Tables.pendingOpaqueLogins.mem_drop).mp hq).1 with hq | rfl
    · exact h₁.inv.handshakes q hq userId hqu record hr
    · have hkept : RecordKept (.handshake q.userId q.serverState.record) d₁ := ha
      rw [Option.mem_def.mp hqu, Option.mem_def.mp hr] at hkept
      exact hkept
  · rintro _ _ hcompat userId rfl rfl
    refine ⟨rfl, fun q hq hqu => ?_, fun _ hs _ => hs⟩
    rcases (Tables.pendingOpaqueLogins.mem_push).mp
      ((Tables.pendingOpaqueLogins.mem_drop).mp hq).1 with hq | rfl
    · exact hq
    · have hlock : (RowId.user userId, LockMode.keyShare) ∈
          q.userId.toList.map (fun id => ((userRef id).row, LockMode.keyShare)) := by
        simp [hqu, userRef]
      refine absurd (hcompat (.user userId, .keyShare) ?_ rfl) Bool.false_ne_true
      simp only [List.nil_append, List.mem_append, List.mem_cons, List.map_map]
      exact Or.inl (Or.inr hlock)

/-- Consuming a handshake; its record is the account's at that time. -/
theorem takeOpaqueLogin_wp (id : Uuid) :
    credentialSpec.wp (fun out L w _ => L = [] ∧ w = (fun d => d) ∧ ∀ t ∈ out,
        ∀ userId ∈ t.1.userId, ∀ record ∈ t.1.serverState.record, t.2 = some record)
      (DbPending.takeOpaqueLogin id) [] (fun d => d) d := by
  intro s hs n hn d₁ h₁ _
  refine ⟨owes_of_narrowed h₁.inv trivial rfl
    (fun _ hp => ((Tables.pendingOpaqueLogins.mem_drop).mp hp).1) fun _ hs => hs, fun d₂ h₂ => ?_⟩
  refine ⟨rfl, rfl, fun t ht userId hu record hr => ?_⟩
  obtain ⟨hpending, _, hrecord⟩ := DbPending.mem_taken ht
  rw [hrecord, Option.mem_def.mp hu]
  exact hn.inv.handshakes t.1 hpending userId hu record hr

/-- Linking a device touches no credential. -/
theorem linkDevice_credential_wp (fresh : Fresh) (user : Uuid) (deviceId : Option Uuid) :
    credentialSpec.wp (fun _ L w _ => L = [] ∧ w = id) (Auth.linkDevice fresh user deviceId)
      [] id d := by
  cases deviceId with
  | none => exact fun _ _ => ⟨rfl, rfl⟩
  | some deviceId =>
    refine Table.wp_select_bind fun d₁ h₁ => ?_
    split
    · simp only [autocommit, bind_assoc]
      refine Table.wp_update_bind fun s hs n hn _ d₂ h₂ _ => ⟨?_, fun _ _ => ⟨rfl, rfl⟩⟩
      exact owes_of_narrowed h₂.inv trivial rfl (fun _ hp => hp) fun _ hs => hs
    · exact fun _ _ => ⟨rfl, rfl⟩

/-- Creating a session for a proof of the current record. -/
theorem issueSession_credential_wp (o : Opaque) (fresh : Fresh) (user : User)
    (deviceId : Option Uuid) (proved : Option Bytes) (hd : ProofsCurrent d) :
    credentialSpec.wp (fun _ _ _ _ => True)
      (Auth.issueSession o (.authorized user.id proved proved) fresh user deviceId proved)
      [] id d := by
  refine Spec.wp_bind hd (Spec.wp_mono ?_ (linkDevice_credential_wp fresh user.id deviceId))
  rintro deviceId _ _ d₁ ⟨rfl, rfl⟩ _
  refine Spec.wp_read_bind fun d₂ h₂ => wp_okOr_bind id fun vault _ => ?_
  simp only [DbSessions.createSession, autocommit, bind_assoc]
  refine Table.wp_insert_bind (fun n hn _ _ d₃ h₃ ha => ⟨?_, fun _ _ => trivial⟩)
    fun x hx => absurd hx (Option.not_mem_none x)
  have hcur : DbPending.recordOf (some user.id) d₃ = proved := ha
  refine ⟨hcur, ⟨h₃.inv.handshakes, fun s hs record hr => ?_⟩, fun _ h => h, ?_⟩
  · rcases (Tables.sessions.mem_push).mp hs with hs | rfl
    · exact h₃.inv.sessions s hs record hr
    · exact Or.inl (hcur.trans (Option.mem_def.mp hr))
  · rintro _ _ hcompat userId rfl rfl
    refine ⟨rfl, fun _ hp _ => hp, fun s hs hsu => ?_⟩
    rcases (Tables.sessions.mem_push).mp hs with hs | rfl
    · exact hs
    · refine absurd (hcompat (.user userId, .keyShare) ?_ rfl) Bool.false_ne_true
      refine List.mem_append_right _ (List.mem_cons_of_mem _ (List.mem_map.mpr ?_))
      exact ⟨userRef user.id, List.mem_cons_self, by rw [← hsu]; rfl⟩

/-- Finishing a login. -/
theorem loginFinish_credential_wp (o : Opaque) (fresh : Fresh) (loginId : Uuid) (fin : String)
    (deviceId : Option Uuid) (hd : ProofsCurrent d) :
    credentialSpec.wp (fun _ _ _ _ => True) (Auth.loginFinish o fresh loginId fin deviceId)
      [] id d := by
  refine wp_okOr_bind nofun fun finalization _ => ?_
  refine Spec.wp_bind hd (Spec.wp_mono ?_ (takeOpaqueLogin_wp loginId))
  rintro taken _ _ d₁ ⟨rfl, rfl, htaken⟩ _
  refine wp_okOr_bind nofun fun t ht => wp_require_bind nofun fun _ => ?_
  refine wp_okOr_bind nofun fun user huser => ?_
  refine Spec.wp_read_bind fun d₂ h₂ => wp_okOr_bind nofun fun account haccount => ?_
  obtain ⟨hmem, _⟩ := Option.filter_eq_some_iff.mp (Option.mem_def.mp ht)
  obtain ⟨hu, hproof⟩ := Option.filter_eq_some_iff.mp (Option.mem_def.mp huser)
  obtain ⟨record, hrecord⟩ := Option.isSome_iff_exists.mp (Opaque.isSome_of_loginFinish hproof)
  have hatTake : t.2 = t.1.serverState.record :=
    (htaken t hmem user hu record hrecord).trans hrecord.symm
  rw [hatTake]
  exact issueSession_credential_wp o fresh account deviceId _ h₂.inv

/-- Redeeming a proof; what it authorizes is backed. -/
theorem verifyPasswordProof_wp (o : Opaque) (now : Nat) (auth : AuthUser)
    (proof : Proof.PasswordProof) (purpose : Purpose) (hd : ProofsCurrent d) :
    credentialSpec.wp (fun tag L w _ => L = [] ∧ w = id ∧ Backed tag)
      (Proof.verifyPasswordProof o now auth proof purpose) [] id d := by
  refine wp_okOr_bind nofun fun finalization _ => ?_
  refine Spec.wp_bind hd (Spec.wp_mono ?_ (takeOpaqueLogin_wp proof.proofId))
  rintro taken _ _ d₁ ⟨rfl, rfl, htaken⟩ _
  refine wp_okOr_bind nofun fun t ht => wp_require_bind nofun fun _ => ?_
  refine wp_require_bind nofun fun hproof d₂ _ => ?_
  obtain ⟨hmem, hcond⟩ := Option.filter_eq_some_iff.mp (Option.mem_def.mp ht)
  have hu : t.1.userId = some auth.userId :=
    of_decide_eq_true (Bool.and_eq_true_iff.mp hcond).1
  obtain ⟨record, hrecord⟩ := Option.isSome_iff_exists.mp (Opaque.isSome_of_loginFinish hproof)
  have hatTake : t.2 = t.1.serverState.record :=
    (htaken t hmem auth.userId hu record hrecord).trans hrecord.symm
  refine ⟨rfl, rfl, ?_⟩
  rw [hatTake]
  exact backed_authorized auth.userId t.1.serverState.record

/-- A write to an account's keys under a proof. -/
theorem updateUser_wp {tag : Tag} (ht : Backed tag) {cond : Db → User → Bool} {f : User → User}
    (hid : ∀ u, (f u).id = u.id) (hrecord : ∀ u, (f u).opaqueRecord = u.opaqueRecord)
    (hkept : ∀ u, (f u).keptSession = u.keptSession) :
    credentialSpec.wp (fun _ L w _ => L = [] ∧ w = (fun d => d))
      (autocommit (Tables.users.update cond f) fun rows => if rows.isEmpty then .plain else tag)
      [] (fun d => d) d := by
  have hbacked : ∀ rows : List User, Backed (if rows.isEmpty then .plain else tag) := by
    intro rows
    split
    · exact backed_plain
    · exact ht
  refine Table.wp_update_bind fun s hs n hn _ d₁ h₁ ha => ⟨?_, fun _ _ => ⟨rfl, rfl⟩⟩
  refine owes_of_editUsers h₁.inv (hbacked _ d₁ ha) hid hrecord hkept fun k hk => ?_
  obtain ⟨u, hu, rfl⟩ := List.mem_map.mp hk
  have hlock := Tables.users.locked_of_mem_hits hu .noKeyUpdate
  exact List.mem_append_right _ (List.mem_append_left _ hlock)

/-- Setting the account key under a proof. -/
theorem setAccountKey_wp (o : Opaque) (now : Nat) (auth : AuthUser) (req : Auth.SetAccountKeyRequest)
    (hd : ProofsCurrent d) :
    credentialSpec.wp (fun _ _ _ _ => True) (Auth.setAccountKey o now auth req) [] id d := by
  refine wp_okOr_bind nofun fun wrapped _ => wp_okOr_bind nofun fun wrappedIv _ => ?_
  refine Spec.wp_reads_bind (Auth.reads_privateKeyPair _ _) nofun (fun privateKey d₁ h₁ => ?_) hd
  refine Spec.wp_bind h₁.inv
    (Spec.wp_mono ?_ (verifyPasswordProof_wp o now auth req.proof .accountKey h₁.inv))
  rintro tag _ _ d₂ ⟨rfl, rfl, ht⟩ hi₂
  simp only [DbAuth.setAccountKey, bind_assoc]
  refine Spec.wp_bind hi₂ (Spec.wp_mono ?_
    (updateUser_wp ht (fun _ => rfl) (fun _ => rfl) fun _ => rfl))
  rintro rows _ _ d₃ ⟨rfl, rfl⟩ hi₃
  simp only [pure_bind]
  refine wp_require_bind nofun fun _ => Spec.wp_read_bind fun d₄ h₄ => ?_
  exact wp_okOr_bind nofun fun _ _ _ _ => trivial

/-- Publishing the identity key under a proof. -/
theorem setIdentity_wp (o : Opaque) (now : Nat) (auth : AuthUser) (body : Keys.SetIdentityBody) :
    credentialSpec.wp (fun _ _ _ _ => True) (Keys.setIdentity o now auth body) [] id d := by
  refine wp_require_bind nofun fun _ => ?_
  refine wp_require_bind nofun fun _ => Spec.wp_read_bind fun d₁ h₁ => ?_
  refine Spec.wp_bind (Q := fun _ _ _ _ => True) h₁.inv (Spec.wp_mono
    (Q := fun tag L w _ => L = [] ∧ w = (fun d => d) ∧ Backed tag) ?_ ?_)
  · rintro tag _ _ d₂ ⟨rfl, rfl, ht⟩ hi₂
    simp only [DbKeys.setIdentity, bind_assoc]
    refine Spec.wp_bind hi₂ (Spec.wp_mono ?_
      (updateUser_wp ht (fun _ => rfl) (fun _ => rfl) fun _ => rfl))
    rintro rows _ _ d₃ ⟨rfl, rfl⟩ hi₃
    refine Spec.wp_reads_bind ?_ nofun (fun outcome d₄ _ => ?_) hi₃
    · split
      · trivial
      · refine (DbKeys.reads_getBundle _).bind fun key => ?_
        cases key with
        | none => trivial
        | some key => trivial
    · cases outcome with
      | stored => exact fun _ _ => trivial
      | unchanged => exact fun _ _ => trivial
      | conflict => exact wp_refuse nofun
      | noPublicKey => exact wp_refuse nofun
  · unfold Keys.proofOfFirst
    split
    · exact fun _ _ => ⟨rfl, rfl, backed_plain⟩
    · refine wp_okOr_bind nofun fun proof _ => ?_
      exact verifyPasswordProof_wp o now auth proof .identityKey h₁.inv

/-- The specification keeps locked accounts. -/
theorem credential_locksAccounts : LocksAccounts credentialSpec where
  row h := (h _ rfl rfl).1
  absent h := h _

/-- No handshake of a held account appears. -/
theorem Held.handshake (h : Held userId L d) (hr : credentialSpec.Rely L d d')
    {p : PendingOpaqueLogin} (hp : p ∈ d'.pendingOpaqueLogins) (hu : p.userId = some userId)
    {record : Bytes} (hrecord : p.serverState.record = some record) :
    p ∈ d.pendingOpaqueLogins := by
  rcases h with hl | hn
  · exact (hr.keeps _ hl userId rfl rfl).2.1 p hp hu
  · have hcur := hr.inv.handshakes p hp userId hu record hrecord
    rw [recordOf_eq, hr.guar userId hn] at hcur
    cases hcur

/-- A session that stands on a proof has an account. -/
theorem ProofsCurrent.exists_user (hi : ProofsCurrent d) {s : Session} (hs : s ∈ d.sessions)
    {record : Bytes} (hrecord : s.provedRecord = some record) :
    ∃ u, userOf s.userId d = some u := by
  rcases hi.sessions s hs record hrecord with hcur | ⟨u, hu, _⟩
  · rw [recordOf_eq] at hcur
    obtain ⟨u, hu, _⟩ := Option.bind_eq_some_iff.mp hcur
    exact ⟨u, hu⟩
  · exact ⟨u, hu⟩

/-- No session of a held account appears. -/
theorem Held.session (h : Held userId L d) (hr : credentialSpec.Rely L d d') {s : Session}
    (hs : s ∈ d'.sessions) (hu : s.userId = userId) {record : Bytes}
    (hrecord : s.provedRecord = some record) : s ∈ d.sessions := by
  rcases h with hl | hn
  · exact (hr.keeps _ hl userId rfl rfl).2.2 s hs hu
  · obtain ⟨u, hrow⟩ := hr.inv.exists_user hs hrecord
    rw [hu, hr.guar userId hn] at hrow
    cases hrow

/-- A commit that replaces the credential of a held account, and leaves none of its handshakes
and only the kept session. -/
theorem owes_of_rotation (userId : Uuid) (keep : Option Uuid) {tag : Tag} {f : User → User}
    (hi : ProofsCurrent d) (ha : ProvesCurrent tag d) (hheld : Held userId L d)
    (hkept : ∀ u, (f u).keptSession = keep)
    (hrow : ∀ v, userOf v d' = if v = userId then (userOf v d).map f else userOf v d)
    (hp : ∀ p ∈ d'.pendingOpaqueLogins, p ∈ d.pendingOpaqueLogins ∧
      ∀ record ∈ p.serverState.record, p.userId ≠ some userId)
    (hs : ∀ s ∈ d'.sessions, s ∈ d.sessions ∧
      ∀ record ∈ s.provedRecord, s.userId = userId → keep = some s.id) :
    credentialSpec.Owes L tag d d' := by
  have hother : ∀ v, v ≠ userId → userOf v d' = userOf v d := by
    intro v hv
    rw [hrow, if_neg hv]
  refine ⟨ha, ⟨fun p hpd v hpv record hr => ?_, fun s hsd record hr => ?_⟩, ?_, ?_⟩
  · have hv : v ≠ userId := by
      rintro rfl
      exact (hp p hpd).2 record hr hpv
    rw [recordOf_eq, hother v hv]
    exact hi.handshakes p (hp p hpd).1 v hpv record hr
  · by_cases hv : s.userId = userId
    · obtain ⟨u, hu⟩ := hi.exists_user (hs s hsd).1 hr
      refine Or.inr ⟨f u, ?_, (hkept u).trans ((hs s hsd).2 record hr hv)⟩
      rw [hrow, if_pos hv, hu]
      rfl
    · rw [recordOf_eq, IsKept, hother _ hv]
      exact hi.sessions s (hs s hsd).1 record hr
  · intro v hn
    rw [hrow, hn]
    split
    · rfl
    · rfl
  · rintro _ _ hcompat v rfl rfl
    refine ⟨?_, fun p hpd _ => (hp p hpd).1, fun s hsd _ => (hs s hsd).1⟩
    by_cases hv : v = userId
    · subst hv
      rcases hheld with hl | hn
      · exact absurd (hcompat _ hl rfl) Bool.false_ne_true
      · rw [hrow, if_pos rfl, hn]
        rfl
    · exact hother v hv

/-- The accounts, the handshakes and the sessions. -/
def logins (d : Db) : List User × List PendingOpaqueLogin × List Session :=
  (d.users, d.pendingOpaqueLogins, d.sessions)

/-- A rotation leaves no handshake of its account and only the kept session. -/
theorem rotateMasterPassword_wp {tag : Tag} (ht : Backed tag)
    (authority : DbRecovery.RotationAuthority) (userId : Uuid)
    (rotation : DbRecovery.PasswordRotation) :
    credentialSpec.wp (fun _ _ _ _ => True)
      (DbRecovery.rotateMasterPassword tag authority userId rotation) [] id d := by
  refine Table.wp_selectFor_bind fun s₀ hs₀ n₀ hn₀ => ?_
  have hS := credential_locksAccounts
  have hheld₀ : Held userId _ n₀ := hS.held_of_locked hn₀
  have htoken : Spec.Leaves logins (DbRecovery.consumeToken authority) :=
    leaves_consumeToken (fun _ _ => rfl) authority
  refine Spec.wp_bind hn₀.inv (Spec.wp_mono ?_ (Spec.wp_leaves htoken nofun))
  rintro _ L₁ w₁ d₁ ⟨hL₁, hw₁, hr₁⟩ hi₁
  have hheld₁ := hS.held hheld₀ hr₁ hL₁
  refine Table.wp_update_bind fun s₂ hs₂ n₂ hn₂ _ => ?_
  have hheld₂ := hS.held hheld₁ hs₂ fun _ hl => hl
  have hitems : Spec.Leaves logins
      (DbRecovery.reencryptItems userId rotation.reencryptedItems) :=
    leaves_reencryptItems (fun _ _ => rfl) userId rotation.reencryptedItems
  refine Spec.wp_bind hn₂.inv (Spec.wp_mono ?_ (Spec.wp_leaves hitems nofun))
  rintro _ L₃ w₃ d₃ ⟨hL₃, hw₃, hr₃⟩ hi₃
  have hheldₙ := hS.held hheld₂ hn₂ fun _ hl => hl
  have hheld₃ := hS.held hheldₙ hr₃.of_append fun l hl => hL₃ l (List.mem_append_left _ hl)
  simp only [DbAuth.dropPendingLogins, bind_assoc]
  refine Table.wp_delete_bind fun s₄ hs₄ n₄ hn₄ => ?_
  refine Table.wp_delete_bind fun s₅ hs₅ n₅ hn₅ => ?_
  refine Table.wp_delete_bind fun s₆ hs₆ n₆ hn₆ => ?_
  refine Table.wp_delete_bind fun s₇ hs₇ n₇ hn₇ d₈ h₈ ha => ⟨?_, fun _ _ => trivial⟩
  have h₄₇ : credentialSpec.Rely L₃ n₄ s₇ := hs₅.of_append.trans (hn₅.of_append.trans
    (hs₆.of_append.of_append.trans (hn₆.of_append.of_append.trans
      hs₇.of_append.of_append.of_append)))
  have h₇₇ : credentialSpec.Rely L₃ s₇ n₇ := hn₇.of_append.of_append.of_append
  have h₇₈ : credentialSpec.Rely L₃ n₇ d₈ := h₈.of_append.of_append.of_append.of_append
  have h₄₈ := h₄₇.trans (h₇₇.trans h₇₈)
  have hheld₄ := hS.held hheld₃ hs₄ fun _ hl => hl
  have hheld₅ := hS.held hheld₄ hn₄ fun _ hl => hl
  have hheld₇ := hS.held hheld₅ h₄₇ fun _ hl => hl
  have hheld₈ := hS.held hheld₇ h₇₇ fun _ hl => hl
  have hpending : ∀ x p, p ∈ (w₃ x).pendingOpaqueLogins ↔ p ∈ x.pendingOpaqueLogins := by
    intro x p
    have h₃ : (w₃ x).pendingOpaqueLogins = (w₁ x).pendingOpaqueLogins := congrArg (·.2.1) (hw₃ x)
    have h₁ : (w₁ x).pendingOpaqueLogins = x.pendingOpaqueLogins := congrArg (·.2.1) (hw₁ x)
    rw [h₃, h₁]
  have hsession : ∀ x s, s ∈ (w₃ x).sessions ↔ s ∈ x.sessions := by
    intro x s
    have h₃ : (w₃ x).sessions = (w₁ x).sessions := congrArg (·.2.2) (hw₃ x)
    have h₁ : (w₁ x).sessions = x.sessions := congrArg (·.2.2) (hw₁ x)
    rw [h₃, h₁]
  refine owes_of_rotation userId authority.keepSession (f := rotation.rotated authority.keepSession)
    h₈.inv (ht d₈ ha) (hS.held hheld₈ h₇₈ fun _ hl => by simp [hl]) (fun _ => rfl)
    (fun v => ?_) (fun p hp => ?_) fun s hs => ?_
  · have hn₂s₂ := hS.userOf_eq hheld₂ hn₂
    have hd₃n₂ := hS.userOf_eq hheldₙ hr₃.of_append
    have hd₈d₃ := hS.userOf_eq hheld₃ (hs₄.trans (hn₄.trans h₄₈))
    have hw : ∀ x v, userOf v (w₁ x) = userOf v x := fun x v =>
      userOf_congr (congrArg (·.1) (hw₁ x)) v
    have hn : userOf userId (w₁ n₂) = userOf userId (w₁ d₈) := by
      rw [hw, hw, hd₈d₃, hd₃n₂]
    have hs : userOf userId (w₁ s₂) = userOf userId (w₁ d₈) := by
      rw [← hn, hw, hw, hn₂s₂]
    have hrotated := userOf_rotated (f := rotation.rotated authority.keepSession) (fun _ => rfl)
      hs hn v
    rw [hw] at hrotated
    exact (userOf_congr (congrArg (·.1) (hw₃ d₈)) v).trans hrotated
  · obtain ⟨hp₃, hkeep⟩ := (Tables.pendingOpaqueLogins.mem_drop).mp hp
    have hp₈ : p ∈ d₈.pendingOpaqueLogins := (hpending d₈ p).mp hp₃
    refine ⟨hp₈, fun record hr hu => hkeep (List.mem_map.mpr ⟨p, ?_, rfl⟩)⟩
    have hp₅ := hheld₅.handshake h₄₈ hp₈ hu hr
    have hp₄ := hheld₄.handshake (hn₄.trans h₄₈) hp₈ hu hr
    exact (Tables.pendingOpaqueLogins.mem_hits).mpr ⟨(hpending n₄ p).mpr hp₅,
      ⟨p, (hpending s₄ p).mpr hp₄, decide_eq_true hu, rfl⟩, decide_eq_true hu⟩
  · obtain ⟨hs₃, hkeep⟩ := (Tables.sessions.mem_drop).mp hs
    have hs₈ : s ∈ d₈.sessions := (hsession d₈ s).mp hs₃
    refine ⟨hs₈, fun record hr hu => ?_⟩
    by_contra hne
    refine hkeep (List.mem_map.mpr ⟨s, ?_, rfl⟩)
    have hsn := hheld₈.session h₇₈ hs₈ hu hr
    have hss := hheld₇.session (h₇₇.trans h₇₈) hs₈ hu hr
    have hcond : (decide (s.userId = userId) && decide (authority.keepSession ≠ some s.id)) =
        true := by simp [hu, hne]
    exact (Tables.sessions.mem_hits).mpr ⟨(hsession n₇ s).mpr hsn,
      ⟨s, (hsession s₇ s).mpr hss, hcond, rfl⟩, hcond⟩

/-- Starting a proof. -/
theorem startProof_wp (o : Opaque) (fresh : Fresh) (user : User) (start : String)
    (purpose : Purpose) (hd : ProofsCurrent d) :
    credentialSpec.wp (fun _ L w _ => L = [] ∧ w = id)
      (Proof.startProof o fresh user start purpose) [] id d := by
  refine wp_okOr_bind nofun fun request _ => wp_okOr_bind nofun fun record _ => ?_
  refine wp_okOr_bind nofun fun started _ => ?_
  refine Spec.wp_bind hd (Spec.wp_mono ?_ (insertOpaqueLogin_wp _))
  rintro _ _ _ d₁ ⟨rfl, rfl⟩ _
  exact fun _ _ => ⟨rfl, rfl⟩

/-- Each request keeps the specification. -/
theorem CredentialRequest.valid (o : Opaque) (config : Config) (r : CredentialRequest) :
    credentialSpec.Valid (r.run o config) fun _ _ => True := by
  intro d hd
  cases r with
  | loginStart fresh emailHash start =>
    refine Spec.wp_bind hd (Spec.wp_reads_bind (reads_parseEmailHash _) nofun
      (fun emailHash d₁ h₁ => ?_) hd)
    refine wp_okOr_bind nofun fun request _ => Spec.wp_read_bind fun d₂ h₂ => ?_
    refine wp_okOr_bind nofun fun started _ => ?_
    refine Spec.wp_bind h₂.inv (Spec.wp_mono ?_ (insertOpaqueLogin_wp _))
    exact fun _ _ _ _ _ _ _ _ _ _ _ => trivial
  | loginFinish fresh loginId fin deviceId =>
    refine Spec.wp_bind hd (Spec.wp_mono ?_
      (loginFinish_credential_wp o fresh loginId fin deviceId hd))
    exact fun _ _ _ _ _ _ _ _ => trivial
  | proofStart fresh auth emailHash start purpose =>
    refine Spec.wp_bind hd (Spec.wp_reads_bind (Proof.reads_sessionUser _ _ _) nofun
      (fun user d₁ h₁ => ?_) hd)
    refine Spec.wp_mono ?_ (startProof_wp o fresh user start purpose h₁.inv)
    exact fun _ _ _ _ _ _ _ _ => trivial
  | setAccountKey now auth req => exact setAccountKey_wp o now auth req hd
  | setIdentity now auth body => exact setIdentity_wp o now auth body
  | passwordStart fresh auth req =>
    refine Spec.wp_bind hd (Spec.wp_reads_bind (Proof.reads_requireRecentSession _ _ _ _) nofun
      (fun _ d₁ h₁ => ?_) hd)
    refine Spec.wp_reads_bind (Proof.reads_sessionUser _ _ _) nofun (fun user d₂ h₂ => ?_) h₁.inv
    refine wp_okOr_bind nofun fun _ _ => wp_okOr_bind nofun fun _ _ => ?_
    refine wp_okOr_bind nofun fun _ _ => ?_
    refine Spec.wp_bind h₂.inv (Spec.wp_mono ?_ (startProof_wp o fresh user _ _ h₂.inv))
    rintro changeId _ _ d₃ ⟨rfl, rfl⟩ _
    exact wp_okOr_bind nofun fun _ _ _ _ _ _ _ => trivial
  | passwordFinish now auth req =>
    refine Spec.wp_reads_bind (Proof.reads_requireRecentSession _ _ _ _) nofun
      (fun sessionId d₁ h₁ => ?_) hd
    refine wp_okOr_bind nofun fun _ _ => wp_okOr_bind nofun fun _ _ => ?_
    refine wp_okOr_bind nofun fun _ _ => wp_okOr_bind nofun fun _ _ => ?_
    refine Spec.wp_bind h₁.inv (Spec.wp_mono ?_
      (verifyPasswordProof_wp o now auth _ .passwordChange h₁.inv))
    rintro tag _ _ d₂ ⟨rfl, rfl, ht⟩ _
    exact rotateMasterPassword_wp ht (.session sessionId) auth.userId _
  | recoveryComplete now req =>
    refine Spec.wp_reads_bind (Recovery.reads_liveRecoverySession _ _) nofun
      (fun session d₁ h₁ => ?_) hd
    refine Spec.wp_reads_bind (Recovery.reads_credentialOf _ _) nofun
      (fun credential d₂ h₂ => ?_) h₁.inv
    refine wp_okOr_bind nofun fun _ _ => wp_okOr_bind nofun fun _ _ => ?_
    refine wp_okOr_bind nofun fun _ _ => ?_
    refine wp_okOr_bind nofun fun _ _ => wp_okOr_bind nofun fun _ _ => ?_
    refine wp_require_bind nofun fun _ => ?_
    refine Spec.wp_reads_bind (Recovery.reads_wrapOf _) nofun (fun wrapped d₃ h₃ => ?_) h₂.inv
    refine Spec.wp_reads_bind (Recovery.reads_itemsOf _ _ _) nofun (fun items d₄ h₄ => ?_) h₃.inv
    exact rotateMasterPassword_wp (backed_consumed _) (.recoveryToken session.token) session.userId _

section Runs

variable {I : Type} [Fintype I] [DecidableEq I]

/-- Under any interleaving of logins, password proofs, password changes and recoveries, as long as
handshakes are stored and authorized writes are committed while the record that they read is
still the account's, no handshake and no session of a replaced record is there at any time, but
for the session that a password change kept, and no write is committed on the strength of a proof
of a replaced record. -/
theorem proofsCurrent_of_recordKept (o : Opaque) (config : Config) (reqs : I → CredentialRequest)
    {db : Db} (hdb : ProofsCurrent db) {sched : List (I × Act)}
    (hc : (State.start db fun i => (reqs i).run o config).Commits RecordKept sched)
    {s : State I Db RowId Tag ApiError Unit}
    (h : (State.start db fun i => (reqs i).run o config).exec sched = some s) :
    ProofsCurrent s.db ∧
      (State.start db fun i => (reqs i).run o config).Commits ProvesCurrent sched := by
  have hstart := Spec.Good.start (S := credentialSpec) (Q := fun _ _ _ => True) hdb
    fun i => (reqs i).valid o config
  obtain ⟨hg, _, hasserts⟩ := hstart.exec hc h
  exact ⟨hg.inv, State.commits_of_history h hasserts⟩

end Runs

/-- Account 1 with the OPAQUE record 1, one vault and a recovery under way. -/
private def recovering : Db where
  users := [{ id := 1, emailHash := "".pushn '0' 64, opaqueRecord := some [1] }]
  vaults := [{ id := 10, userId := 1, nameBlob := [], nameIv := [], createdAt := 0 }]
  pendingRecoverySessions := [{ token := 7, userId := 1, createdAt := 0 }]

/-- A finalization proves the record that it names. -/
private def namedProof : Opaque where
  validRequest _ := true
  registrationStart request _ := some request
  registrationFinish := some
  proves finalization record _ := decide (finalization = record)
  srpVerify _ _ _ _ := false
  hashToken := id
  hashAuthKey := id

/-- Both rounds of a login, and a recovery that replaces the record by the record 2. -/
private def loginAndRecovery (fin : String) : Fin 3 → CredentialRequest
  | 0 => .loginStart { now := 0, id := 5 } ("".pushn '0' 64) ""
  | 1 => .recoveryComplete 0
      { recoveryToken := some 7, registrationRecord := some "Ag", srpSalt := none
        srpVerifier := none, protectedSymmetricKey := "", protectedSymmetricKeyIv := ""
        protectedPrivateKey := none, protectedPrivateKeyIv := none, wrappedAccountKey := some ""
        wrappedAccountKeyIv := some "", items := []
        recoveryAuthKey := "AAAAAAAAAAAAAAAAAAAAAAAAAAAAAAAAAAAAAAAAAAA=", recoveryBlob := ""
        recoveryBlobIv := "" }
  | 2 => .loginFinish { now := 0, id := 6 } 5 fin none

/-- The login reads the record after `before` steps, then the recovery runs to its end. -/
private def recovered (before : Nat) : List (Fin 3 × Act) :=
  Act.inTurn [(0, before), (1, 16)]

/-- The rest of the login. -/
private def loggedIn (before : Nat) : List (Fin 3 × Act) :=
  Act.inTurn [(0, 6 - before), (2, 8)]

private def recoveryRun (fin : String) (sched : List (Fin 3 × Act)) :
    Option (State (Fin 3) Db RowId Tag ApiError Unit) :=
  (State.start recovering fun i => (loginAndRecovery fin i).run namedProof ⟨id⟩).exec sched

/-- A login after the recovery stands on a proof of the new record. -/
theorem proofsCurrent_of_recordKept_serial :
    ∃ s, recoveryRun "Ag" (recovered 0 ++ loggedIn 0) = some s ∧ s.db.sessions ≠ [] ∧
      ProofsCurrent s.db ∧
      (State.start recovering fun i => (loginAndRecovery "Ag" i).run namedProof ⟨id⟩).Commits
        ProvesCurrent (recovered 0 ++ loggedIn 0) := by
  have hrun : (recoveryRun "Ag" (recovered 0 ++ loggedIn 0)).map
      (fun s => s.db.sessions.isEmpty) = some false := by decide +kernel
  obtain ⟨s, hs, hne⟩ := Option.map_eq_some_iff.mp hrun
  have hstart : ProofsCurrent recovering :=
    ⟨fun _ hp => absurd hp List.not_mem_nil, fun _ hs => absurd hs List.not_mem_nil⟩
  refine ⟨s, hs, by simpa using hne, ?_⟩
  exact proofsCurrent_of_recordKept namedProof ⟨id⟩ (loginAndRecovery "Ag") hstart
    (show State.Commits RecordKept _ _ by decide +kernel) hs

/-- A handshake computed before the recovery is stored after it, and a proof of the replaced
record then creates a session. -/
theorem not_proofsCurrent_of_stored_late :
    ∃ s₁ s₂, recoveryRun "AQ" (recovered 1) = some s₁ ∧
      DbPending.recordOf (some 1) s₁.db = some [2] ∧ s₁.exec (loggedIn 1) = some s₂ ∧
      ∃ s ∈ s₂.db.sessions, s ∉ s₁.db.sessions ∧ s.userId = 1 ∧ s.provedRecord = some [1] ∧
        ¬ IsKept s s₂.db := by
  have hrun : (recoveryRun "AQ" (recovered 1)).bind (fun s₁ =>
      (s₁.exec (loggedIn 1)).map fun s₂ => decide (DbPending.recordOf (some 1) s₁.db = some [2] ∧
        ∃ s ∈ s₂.db.sessions, s ∉ s₁.db.sessions ∧ s.userId = 1 ∧ s.provedRecord = some [1] ∧
          ¬ IsKept s s₂.db)) = some true := by decide +kernel
  obtain ⟨s₁, h₁, hrun⟩ := Option.bind_eq_some_iff.mp hrun
  obtain ⟨s₂, h₂, hrun⟩ := Option.map_eq_some_iff.mp hrun
  obtain ⟨hrotated, hsession⟩ := of_decide_eq_true hrun
  exact ⟨s₁, s₂, h₁, hrotated, h₂, hsession⟩

end Nopass
