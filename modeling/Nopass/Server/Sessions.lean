import Nopass.Core.Sql.Requests
import Nopass.Server.StaleKeys

/-!
# Sessions and devices

A login may link its session to a device of the account. The account removes a device with its
sessions, ends every session but one, or the one it is in. These requests run beside each other
and beside logins that have looked for their device and not created their session yet; the
foreign key of a session makes one of the two wait. The activity log is left out.
-/

namespace Nopass

open ReadCommitted

namespace DbSessions

/-- `delete_session_by_token`. -/
def deleteSessionByToken (tokenHash : String) : Request Unit := do
  let _ ← autocommit (Tables.sessions.delete fun _ s => s.tokenHash = tokenHash) fun _ => .plain

/-- `delete_other_sessions`. -/
def deleteOtherSessions (userId : Uuid) (keepTokenHash : String) : Request Nat := do
  let rows ← autocommit (Tables.sessions.delete fun _ s =>
    decide (s.userId = userId) && decide (s.tokenHash ≠ keepTokenHash)) fun _ => .plain
  pure rows.length

/-- `prune_expired`. -/
def pruneExpired (now : Nat) : Request Nat := do
  let rows ← autocommit (Tables.sessions.delete fun _ s => decide (s.expiresAt ≤ now))
    fun _ => .plain
  pure rows.length

end DbSessions

namespace DbDevices

/-- `create_device`; its id is drawn by the database. -/
def createDevice (id userId : Uuid) : Request Unit :=
  autocommit (Tables.devices.insert { id := id, userId := userId } [userRef userId])
    fun _ => .plain

/-- A session of a device. -/
def ofDevice (v : Device) (s : Session) : Bool := s.deviceId = some v.id

/-- The account's device with this id. -/
def isDevice (deviceId userId : Uuid) (_ : Db) (v : Device) : Bool :=
  decide (v.id = deviceId) && decide (v.userId = userId)

/-- The account's sessions on this device. -/
def onDevice (deviceId userId : Uuid) (_ : Db) (s : Session) : Bool :=
  decide (s.deviceId = some deviceId) && decide (s.userId = userId)

/-- `delete_device`; the foreign key of `sessions` cascades. -/
def deleteDevice (deviceId userId : Uuid) : Request Bool := do
  let rows ← Tables.devices.deleteCascade Tables.sessions ofDevice (isDevice deviceId userId)
  let deleted := !rows.isEmpty
  let _ ← if deleted then Tables.sessions.delete (onDevice deviceId userId) else pure []
  .commit .plain (.ret deleted)

end DbDevices

namespace Devices

/-- Body of a registration. -/
structure RegisterDeviceRequest where
  deviceName : String
  deviceType : String
  devicePublicKey : String
  protectedDeviceKey : Option String := none
  protectedDeviceKeyIv : Option String := none

/-- A base64 field that may be missing. -/
def decodeOptional (text : Option String) (message : String) : Request (Option Bytes) :=
  match text with
  | none => pure none
  | some text => do
    let bytes ← decodeField text message
    pure (some bytes)

@[simp] theorem reads_decodeOptional (text : Option String) (message : String) :
    (decodeOptional text message).Reads := by
  cases text with
  | none => trivial
  | some text => exact (reads_decodeField text message).bind fun _ => trivial

/-- Register a device of the caller. -/
def registerDevice (fresh : Fresh) (auth : AuthUser) (req : RegisterDeviceRequest) :
    Request Uuid := do
  let _ ← decodeField req.devicePublicKey "invalid device_public_key"
  let _ ← decodeOptional req.protectedDeviceKey "invalid protected_device_key"
  let _ ← decodeOptional req.protectedDeviceKeyIv "invalid protected_device_key_iv"
  DbDevices.createDevice fresh.id auth.userId
  pure fresh.id

/-- Remove a device of the caller. -/
def removeDevice (auth : AuthUser) (deviceId : Uuid) : Request Unit := do
  let deleted ← DbDevices.deleteDevice deviceId auth.userId
  require deleted (.notFound "device not found")

/-- End every session except the caller's own. -/
def signOutOthers (o : Opaque) (auth : AuthUser) : Request Nat :=
  DbSessions.deleteOtherSessions auth.userId (o.hashToken auth.rawToken)

end Devices

/-- End the caller's session. -/
def Auth.logout (o : Opaque) (auth : AuthUser) : Request Unit :=
  DbSessions.deleteSessionByToken (o.hashToken auth.rawToken)

/-! ## Requests -/

/-- Statements that keep the devices, whatever they note about them, and create no session. -/
structure KeepsSessions (L : List (RowId × LockMode)) (w : Db → Db) : Prop where
  devices : ∀ d, (w d).devices.map (·.id) = d.devices.map (·.id)
  sessions : ∀ d, (w d).sessions ⊆ d.sessions

/-- A program of such statements. -/
abbrev LeavesSessions {O : Type} (prog : Request O) : Prop :=
  prog.Statements KeepsSessions fun _ => True

/-- Another request of the server. -/
structure OtherRequest where
  prog : Request Unit
  leaves : LeavesSessions prog

/-- Requests on sessions and devices, and others. -/
inductive SessionRequest where
  | loginFinish (fresh : Fresh) (loginId : Uuid) (finishLoginRequest : String)
      (deviceId : Option Uuid)
  | srpVerify (fresh : Fresh) (sessionId : Uuid) (clientProofM1 : String) (deviceId : Option Uuid)
  | registerDevice (fresh : Fresh) (bearer : Option String) (req : Devices.RegisterDeviceRequest)
  | removeDevice (now : Nat) (bearer : Option String) (deviceId : Uuid)
  | signOutOthers (now : Nat) (bearer : Option String)
  | logout (now : Nat) (bearer : Option String)
  | pruneExpired (now : Nat)
  | other (request : OtherRequest)

/-- What a request answers. -/
inductive SessionAnswer where
  | loggedIn (response : LoginResponse)
  | registered (deviceId : Uuid)
  | removed
  | signedOut (ended : Nat)
  | loggedOut
  | pruned (count : Nat)
  | done
  deriving DecidableEq, Repr

/-- The program of a request. -/
def SessionRequest.run (o : Opaque) : SessionRequest → Request SessionAnswer
  | .loginFinish fresh loginId finishLoginRequest deviceId => do
    let response ← Auth.loginFinish o fresh loginId finishLoginRequest deviceId
    pure (.loggedIn response)
  | .srpVerify fresh sessionId clientProofM1 deviceId => do
    let response ← Auth.srpVerify o fresh sessionId clientProofM1 deviceId
    pure (.loggedIn response)
  | .registerDevice fresh bearer req => do
    let (auth, _) ← requireAuth o fresh.now bearer
    let deviceId ← Devices.registerDevice fresh auth req
    pure (.registered deviceId)
  | .removeDevice now bearer deviceId => do
    let (auth, _) ← requireAuth o now bearer
    Devices.removeDevice auth deviceId
    pure .removed
  | .signOutOthers now bearer => do
    let (auth, _) ← requireAuth o now bearer
    let ended ← Devices.signOutOthers o auth
    pure (.signedOut ended)
  | .logout now bearer => do
    let (auth, _) ← requireAuth o now bearer
    Auth.logout o auth
    pure .loggedOut
  | .pruneExpired now => do
    let count ← DbSessions.pruneExpired now
    pure (.pruned count)
  | .other request => do
    request.prog
    pure .done

/-! ## What revocation promises -/

/-- The device is there. -/
def HasDevice (id : Uuid) (d : Db) : Prop := id ∈ d.devices.map (·.id)

/-- A session names a device that is there, or none. -/
def SessionsLinked (d : Db) : Prop :=
  ∀ r ∈ d.sessions, ∀ id ∈ r.deviceId, HasDevice id d

section Requests

variable {I : Type} (o : Opaque) (calls : I → SessionRequest)

/-- Some login draws the id and the token of this session. -/
def Issues (r : Session) : Prop :=
  ∃ (i : I) (fresh : Fresh) (deviceId : Option Uuid),
    ((∃ loginId fin, calls i = .loginFinish fresh loginId fin deviceId) ∨
      ∃ sessionId proof, calls i = .srpVerify fresh sessionId proof deviceId) ∧
    fresh.id = r.id ∧ o.hashToken fresh.rawToken = r.tokenHash

/-- Some registration draws the id of this device. -/
def Registers (id : Uuid) : Prop :=
  ∃ (i : I) (fresh : Fresh) (bearer : Option String) (req : Devices.RegisterDeviceRequest),
    calls i = .registerDevice fresh bearer req ∧ fresh.id = id

/-- From one moment to a later one, whatever runs in between: every session names a device that
is there; a device whose removal was acknowledged is gone with all of its sessions, those that
logins were about to create included; whoever has signed out the others has ended every other
session that the account had when the request came; and a token that was logged out has no
session. What is gone stays gone as long as nobody draws its id again. -/
structure RevocationHolds (s₁ s₂ : State I Db RowId Tag ApiError SessionAnswer) : Prop where
  linked : SessionsLinked s₂.db
  removed : ∀ i now bearer deviceId, calls i = .removeDevice now bearer deviceId →
    (s₁.procs i).prog = .ret .removed → ¬ Registers calls deviceId →
      ¬ HasDevice deviceId s₂.db ∧ ∀ r ∈ s₂.db.sessions, r.deviceId ≠ some deviceId
  signedOut : ∀ i now token, calls i = .signOutOthers now (some token) →
    s₁.procs i = { prog := (calls i).run o } → ∀ ended,
      (s₂.procs i).prog = .ret (.signedOut ended) → ∀ r ∈ s₁.db.sessions,
        r.tokenHash ≠ o.hashToken token → ¬ Issues o calls r →
        (∀ own ∈ s₁.db.sessions, own.tokenHash = o.hashToken token → own.userId = r.userId) →
        (∀ own, Issues o calls own → own.tokenHash ≠ o.hashToken token) → r ∉ s₂.db.sessions
  loggedOut : ∀ i now token, calls i = .logout now (some token) →
    (s₁.procs i).prog = .ret .loggedOut → ∀ r ∈ s₂.db.sessions,
      r.tokenHash = o.hashToken token → Issues o calls r

/-! ## The specification -/

/-- Sessions and devices appear only where a request draws them. The lock of a device's row keeps
the device, and the strongest one keeps sessions from being linked to it. -/
def sessionSpec : Spec Db RowId Tag ApiError where
  inv := SessionsLinked
  guar d d' := (∀ r ∈ d'.sessions, ¬ Issues o calls r → r ∈ d.sessions) ∧
    ∀ id, ¬ Registers calls id → HasDevice id d' → HasDevice id d
  guar_refl _ := ⟨fun _ hr _ => hr, fun _ _ hid => hid⟩
  guar_trans h h' := ⟨fun r hr hi => h.1 r (h'.1 r hr hi) hi,
    fun id hi hid => h.2 id hi (h'.2 id hi hid)⟩
  keeps k m d d' := ∀ id, k = .device id → (HasDevice id d → HasDevice id d') ∧
    (m = .update → ∀ r ∈ d'.sessions, r.deviceId = some id → r ∈ d.sessions)
  keeps_refl _ _ _ _ _ := ⟨fun h => h, fun _ _ hr _ => hr⟩
  keeps_trans h h' id hk := ⟨fun hid => (h' id hk).1 ((h id hk).1 hid),
    fun hm r hr hd => (h id hk).2 hm r ((h' id hk).2 hm r hr hd) hd⟩
  allow _ _ := True
  asserts _ _ _ := True

end Requests

section Steps

variable {I : Type} {o : Opaque} {calls : I → SessionRequest} {d d' : Db}
  {L : List (RowId × LockMode)} {w : Db → Db}

/-- The devices after such statements. -/
theorem KeepsSessions.hasDevice (h : KeepsSessions L w) {id : Uuid} :
    HasDevice id (w d) ↔ HasDevice id d := by
  rw [HasDevice, HasDevice, h.devices]

/-- Doing nothing. -/
theorem keepsSessions_nil : KeepsSessions [] id := ⟨fun _ => rfl, fun _ _ hr => hr⟩

/-- Such statements owe nothing more. -/
theorem sessionSpec_routine : (sessionSpec o calls).Routine KeepsSessions fun _ => True where
  nil := keepsSessions_nil
  comp h h' := ⟨fun d => (h'.devices _).trans (h.devices d),
    fun d _ hr => h.sessions d (h'.sessions _ hr)⟩
  owes hi _ h := by
    refine ⟨trivial, ?_, ⟨?_, ?_⟩, ?_⟩
    · intro r hr id hid
      exact h.hasDevice.mpr (hi r (h.sessions _ hr) id hid)
    · intro r hr _
      exact h.sessions _ hr
    · intro id _ hid
      exact h.hasDevice.mp hid
    · intro k m _ id _
      exact ⟨h.hasDevice.mpr, fun _ r hr _ => h.sessions _ hr⟩
  never _ := id

end Steps

/-! ## Requests that leave sessions and devices -/

section Walks

variable {R : Type} {t : Table Db RowId R}

/-- The locks do not matter. -/
theorem KeepsSessions.locks {L L' : List (RowId × LockMode)} {w : Db → Db}
    (h : KeepsSessions L w) : KeepsSessions L' w :=
  ⟨h.devices, h.sessions⟩

/-- A table of neither sessions nor devices. -/
def Aside (t : Table Db RowId R) : Prop :=
  ∀ rows d, (t.set rows d).sessions = d.sessions ∧ (t.set rows d).devices = d.devices

theorem Aside.keepsSessions (h : Aside t) (L : List (RowId × LockMode)) (g : Db → List R) :
    KeepsSessions L fun d => t.set (g d) d where
  devices d := congrArg _ (h (g d) d).2
  sessions d := by rw [(h (g d) d).1]; exact List.Subset.refl _

theorem Aside.update (h : Aside t) (cond : Db → R → Bool) (f : R → R)
    (refs : R → List (Ref Db RowId)) : LeavesSessions (t.update cond f refs) :=
  Table.statements_update fun _ _ _ _ => h.keepsSessions _ _

theorem Aside.delete (h : Aside t) (cond : Db → R → Bool) : LeavesSessions (t.delete cond) :=
  Table.statements_delete fun _ _ _ _ => h.keepsSessions _ _

/-- Sessions are deleted. -/
theorem leavesSessions_delete (cond : Db → Session → Bool) :
    LeavesSessions (Tables.sessions.delete cond) :=
  Table.statements_delete fun _ _ _ _ =>
    ⟨fun _ => rfl, fun _ _ hr => ((Tables.sessions.mem_drop).mp hr).1⟩

theorem aside_users : Aside Tables.users := fun _ _ => ⟨rfl, rfl⟩

theorem aside_vaultItems : Aside Tables.vaultItems := fun _ _ => ⟨rfl, rfl⟩

theorem aside_pendingOpaqueLogins : Aside Tables.pendingOpaqueLogins := fun _ _ => ⟨rfl, rfl⟩

theorem aside_pendingSrpSessions : Aside Tables.pendingSrpSessions := fun _ _ => ⟨rfl, rfl⟩

theorem aside_pendingRecoverySessions : Aside Tables.pendingRecoverySessions :=
  fun _ _ => ⟨rfl, rfl⟩

/-- Consuming an OPAQUE handshake. -/
theorem leavesSessions_takeOpaqueLogin (id : Uuid) :
    LeavesSessions (DbPending.takeOpaqueLogin id) :=
  fun _ _ => ⟨aside_pendingOpaqueLogins.keepsSessions _ _, trivial, trivial⟩

/-- Consuming an SRP handshake. -/
theorem leavesSessions_takeSrp (id : Uuid) : LeavesSessions (DbPending.takeSrp id) :=
  (Table.statements_autocommit (aside_pendingSrpSessions.delete _) fun _ => trivial).bind
    fun _ => trivial

/-- Linking a session notes that the device was seen. -/
theorem leavesSessions_linkDevice (fresh : Fresh) (userId : Uuid) (deviceId : Option Uuid) :
    LeavesSessions (Auth.linkDevice fresh userId deviceId) := by
  cases deviceId with
  | none => trivial
  | some deviceId =>
    refine Table.reads_select.statements.bind fun devices => Prog.Statements.ite ?_ trivial
    refine (Table.statements_autocommit ?_ fun _ => trivial).bind fun _ => trivial
    refine Table.statements_update fun s n L _ => ⟨fun d => ?_, fun d r hr => hr⟩
    rw [Table.edit]
    change (List.map _ d.devices).map _ = _
    rw [List.map_map]
    apply List.map_congr_left
    intro v _
    rw [Function.comp_apply]
    split
    · rfl
    · rfl

/-- Dropping the handshakes of an account. -/
theorem leavesSessions_dropPendingLogins (userId : Uuid) :
    LeavesSessions (DbAuth.dropPendingLogins userId) :=
  (aside_pendingOpaqueLogins.delete _).bind fun _ =>
    (aside_pendingSrpSessions.delete _).bind fun _ => trivial

/-- The move from SRP to OPAQUE. -/
theorem leavesSessions_completeSrpUpgrade (userId keepSession : Uuid) (record : Bytes)
    (wrapped : Bytes × Bytes) (privateKey : Option (String × String)) :
    LeavesSessions (DbAuth.completeSrpUpgrade userId keepSession record wrapped privateKey) := by
  refine (aside_users.update _ _ _).bind fun rows => Prog.Statements.ite trivial ?_
  refine (leavesSessions_dropPendingLogins userId).bind fun _ => ?_
  exact (leavesSessions_delete _).bind fun _ => ⟨trivial, trivial⟩

/-- A password change or a recovery. -/
theorem leavesSessions_rotateMasterPassword (tag : Tag) (authority : DbRecovery.RotationAuthority)
    (userId : Uuid) (rotation : DbRecovery.PasswordRotation) :
    LeavesSessions (DbRecovery.rotateMasterPassword tag authority userId rotation) := by
  have hswap : ∀ items, LeavesSessions (DbRecovery.swapItems userId items) := by
    intro items
    induction items with
    | nil => trivial
    | cons item rest ih =>
      exact (aside_vaultItems.update _ _ _).bind fun rows => Prog.Statements.ite trivial ih
  refine Prog.Statements.bind ?_ fun _ => Prog.Statements.bind ?_ fun _ => ?_
  · exact Table.statements_selectFor fun _ _ => ⟨fun _ => rfl, fun _ => List.Subset.refl _⟩
  · cases authority with
    | session id => trivial
    | recoveryToken token =>
      exact (aside_pendingRecoverySessions.delete _).bind fun _ =>
        Prog.Statements.ite trivial trivial
  refine (aside_users.update _ _ _).bind fun _ => Prog.Statements.bind ?_ fun _ => ?_
  · cases rotation.reencryptedItems with
    | none => trivial
    | some items =>
      refine (hswap items).bind fun _ => ?_
      exact Prog.Statements.bind (fun _ => trivial) fun _ => Prog.Statements.ite trivial trivial
  refine (leavesSessions_dropPendingLogins userId).bind fun _ => ?_
  refine (aside_pendingRecoverySessions.delete _).bind fun _ => ?_
  exact (leavesSessions_delete _).bind fun _ => ⟨trivial, trivial⟩

end Walks

/-- The move from SRP to OPAQUE beside the others. -/
def OtherRequest.srpUpgrade (userId keepSession : Uuid) (record : Bytes) (wrapped : Bytes × Bytes)
    (privateKey : Option (String × String)) : OtherRequest where
  prog := do
    let _ ← DbAuth.completeSrpUpgrade userId keepSession record wrapped privateKey
  leaves := (leavesSessions_completeSrpUpgrade userId keepSession record wrapped privateKey).bind
    fun _ => trivial

/-- A password change or a recovery beside the others. -/
def OtherRequest.rotation (tag : Tag) (authority : DbRecovery.RotationAuthority) (userId : Uuid)
    (rotation : DbRecovery.PasswordRotation) : OtherRequest where
  prog := DbRecovery.rotateMasterPassword tag authority userId rotation
  leaves := leavesSessions_rotateMasterPassword tag authority userId rotation

/-! ## Each request -/

section Wp

variable {I : Type} {o : Opaque} {calls : I → SessionRequest} {d d' : Db}
  {L : List (RowId × LockMode)} {w : Db → Db}

/-- A session that a login draws is created, on a device that its foreign key finds. -/
theorem createSession_sessions_wp {tag : Tag} {id : Uuid} {now : Nat} {tokenHash : String}
    {userId : Uuid} {deviceId : Option Uuid} {proved : Option Bytes} (hw : KeepsSessions L w)
    (hdraws : ∀ r : Session, r.id = id → r.tokenHash = tokenHash → Issues o calls r) :
    (sessionSpec o calls).wp (fun _ _ _ _ => True)
      (DbSessions.createSession tag id now tokenHash userId deviceId proved) L w d := by
  refine Table.wp_insert_bind (fun n hn _ hrefs d₁ h₁ _ => ⟨?_, fun _ _ => trivial⟩) (by simp)
  have hlink (dev : Uuid) (hdev : dev ∈ deviceId) : deviceRef dev ∈
      userRef userId :: deviceId.toList.map deviceRef :=
    List.mem_cons_of_mem _ (List.mem_map_of_mem (Option.mem_toList.mpr hdev))
  have hlock (dev : Uuid) (hdev : dev ∈ deviceId) : (RowId.device dev, LockMode.keyShare) ∈
      L ++ ((RowId.session id, .update) ::
        (userRef userId :: deviceId.toList.map deviceRef).map fun ref => (ref.row, .keyShare)) :=
    List.mem_append_right _ (List.mem_cons_of_mem _ (List.mem_map_of_mem (hlink dev hdev)))
  refine ⟨trivial, ?_, ⟨?_, ?_⟩, ?_⟩
  · intro r hr dev hdev
    rcases (Tables.sessions.mem_push).mp hr with hold | rfl
    · exact hw.hasDevice.mpr (h₁.inv r (hw.sessions _ hold) dev hdev)
    · have hlive := hrefs _ (hlink dev hdev)
      have hthere : HasDevice dev (w n) := by
        obtain ⟨v, hv, hid⟩ := List.any_eq_true.mp hlive
        exact List.mem_map.mpr ⟨v, hv, of_decide_eq_true hid⟩
      exact hw.hasDevice.mpr
        ((h₁.keeps _ (hlock dev hdev) dev rfl).1 (hw.hasDevice.mp hthere))
  · intro r hr hno
    rcases (Tables.sessions.mem_push).mp hr with hold | rfl
    · exact hw.sessions _ hold
    · exact absurd (hdraws _ rfl rfl) hno
  · intro dev _ hdev
    exact hw.hasDevice.mp hdev
  · intro k m hcompat dev hk
    refine ⟨hw.hasDevice.mpr, ?_⟩
    rintro rfl r hr hdev
    rcases (Tables.sessions.mem_push).mp hr with hold | rfl
    · exact hw.sessions _ hold
    · exact absurd (hcompat _ (hlock dev hdev) hk.symm) Bool.false_ne_true

/-- What a login ends with. -/
theorem issueSession_sessions_wp {tag : Tag} {fresh : Fresh} {user : User}
    {deviceId : Option Uuid} {proved : Option Bytes} (hd : SessionsLinked d)
    (hw : KeepsSessions L w) (hdraws : ∀ r : Session, r.id = fresh.id →
      r.tokenHash = o.hashToken fresh.rawToken → Issues o calls r) :
    (sessionSpec o calls).wp (fun _ _ _ _ => True)
      (Auth.issueSession o tag fresh user deviceId proved) L w d := by
  refine sessionSpec_routine.wp_bind (leavesSessions_linkDevice fresh user.id deviceId) hd hw ?_
  intro linked L₁ w₁ d₁ hd₁ hw₁
  refine Spec.wp_reads_bind (fun _ => trivial) (fun _ => id) (fun vaults d₂ h₂ => ?_) hd₁
  refine wp_okOr_bind id fun vault _ => Spec.wp_bind h₂.inv ?_
  exact Spec.wp_mono (fun _ _ _ _ _ _ _ _ => trivial) (createSession_sessions_wp hw₁ hdraws)

/-- The end of an OPAQUE login. -/
theorem loginFinish_sessions_wp {fresh : Fresh} {loginId : Uuid} {fin : String}
    {deviceId : Option Uuid} (hd : SessionsLinked d) (hdraws : ∀ r : Session, r.id = fresh.id →
      r.tokenHash = o.hashToken fresh.rawToken → Issues o calls r) :
    (sessionSpec o calls).wp (fun _ _ _ _ => True)
      (Auth.loginFinish o fresh loginId fin deviceId) [] id d := by
  refine Spec.wp_reads_bind (reads_decodeOpaque _ _) (fun _ => id) (fun _ d₁ h₁ => ?_) hd
  refine sessionSpec_routine.wp_bind (leavesSessions_takeOpaqueLogin loginId) h₁.inv
    keepsSessions_nil fun taken L w d₂ hd₂ hw => ?_
  refine wp_okOr_bind id fun t _ => wp_require_bind id fun _ => wp_okOr_bind id fun userId _ => ?_
  refine Spec.wp_reads_bind (DbAuth.reads_getUserById userId) (fun _ => id)
    (fun user d₃ h₃ => ?_) hd₂
  exact wp_okOr_bind id fun user _ => issueSession_sessions_wp h₃.inv hw hdraws

/-- The end of an SRP login. -/
theorem srpVerify_sessions_wp {fresh : Fresh} {sessionId : Uuid} {proof : String}
    {deviceId : Option Uuid} (hd : SessionsLinked d) (hdraws : ∀ r : Session, r.id = fresh.id →
      r.tokenHash = o.hashToken fresh.rawToken → Issues o calls r) :
    (sessionSpec o calls).wp (fun _ _ _ _ => True)
      (Auth.srpVerify o fresh sessionId proof deviceId) [] id d := by
  refine sessionSpec_routine.wp_bind (leavesSessions_takeSrp sessionId) hd
    keepsSessions_nil fun taken L w d₁ hd₁ hw => ?_
  refine wp_okOr_bind id fun p _ => wp_require_bind id fun _ => ?_
  refine Spec.wp_reads_bind (reads_decodeField _ _) (fun _ => id) (fun bytes d₂ h₂ => ?_) hd₁
  refine Spec.wp_reads_bind (DbAuth.reads_getUserById p.userId) (fun _ => id)
    (fun user d₃ h₃ => ?_) h₂.inv
  refine wp_okOr_bind id fun user _ => wp_require_bind id fun _ => ?_
  exact issueSession_sessions_wp h₃.inv hw hdraws

/-- A device is registered under the id that was drawn for it. -/
theorem createDevice_sessions_wp {id userId : Uuid} (hdraws : Registers calls id) :
    (sessionSpec o calls).wp (fun _ _ _ _ => True) (DbDevices.createDevice id userId) []
      (fun d => d) d := by
  refine Table.wp_insert_bind (fun n hn _ _ d₁ h₁ _ => ⟨?_, fun _ _ => trivial⟩) (by simp)
  have hgrows {dev : Uuid} (h : HasDevice dev d₁) :
      HasDevice dev (Tables.devices.push { id := id, userId := userId } d₁) := by
    obtain ⟨v, hv, hid⟩ := List.mem_map.mp h
    exact List.mem_map.mpr ⟨v, (Tables.devices.mem_push).mpr (.inl hv), hid⟩
  refine ⟨trivial, ?_, ⟨fun r hr _ => hr, ?_⟩, ?_⟩
  · intro r hr dev hdev
    exact hgrows (h₁.inv r hr dev hdev)
  · intro dev hno hdev
    obtain ⟨v, hv, rfl⟩ := List.mem_map.mp hdev
    rcases (Tables.devices.mem_push).mp hv with hold | rfl
    · exact List.mem_map_of_mem hold
    · exact absurd hdraws hno
  · intro k m _ dev _
    exact ⟨hgrows, fun _ r hr _ => hr⟩

/-- A session that no login draws, and that a deletion must find when it is there, is gone. -/
theorem not_mem_of_deleted {cond : Db → Session → Bool} {s n : Db} {r : Session}
    {L L' : List (RowId × LockMode)} (hn : (sessionSpec o calls).Rely L s n)
    (hd : (sessionSpec o calls).Rely L' n d) (hno : ¬ Issues o calls r) (hcond : cond s r = true) :
    r ∉ (Tables.sessions.drop ((Tables.sessions.hits cond s n).map Tables.sessions.key)
      d).sessions := by
  intro hr
  obtain ⟨hthere, hkey⟩ := (Tables.sessions.mem_drop).mp hr
  have hrn := hd.guar.1 r hthere hno
  have hrs := hn.guar.1 r hrn hno
  exact hkey (List.mem_map_of_mem ((Tables.sessions.mem_hits).mpr
    ⟨hrn, ⟨r, hrs, hcond, rfl⟩, hcond⟩))

/-- Deleting sessions on its own; those that it must find are gone for good. -/
theorem deleteSessions_wp {cond : Db → Session → Bool} :
    (sessionSpec o calls).wp (fun _ _ _ d' => ∀ r, ¬ Issues o calls r → (∀ s, cond s r = true) →
        r ∉ d'.sessions)
      (autocommit (Tables.sessions.delete cond) fun _ => .plain) [] (fun d => d) d := by
  refine Table.wp_delete_bind fun s hs n hn d₁ h₁ _ => ⟨?_, fun d₂ h₂ r hno hcond hr => ?_⟩
  · refine sessionSpec_routine.owes h₁.inv trivial ⟨fun _ => rfl, fun _ r hr => ?_⟩
    exact ((Tables.sessions.mem_drop).mp hr).1
  · exact not_mem_of_deleted hn h₁ hno (hcond s) (h₂.guar.1 r hr hno)

/-- A removal that has deleted a device of its account; `n` are the rows that it has seen. -/
structure Removes (deviceId : Uuid) (n : Db) (L : List (RowId × LockMode)) (w : Db → Db) :
    Prop where
  lock : (.device deviceId, .update) ∈ L
  devices : ∀ d id, HasDevice id (w d) ↔ HasDevice id d ∧ id ≠ deviceId
  sessions : ∀ d, (w d).sessions ⊆ d.sessions
  cut : ∀ d, ∀ r ∈ (w d).sessions, r.deviceId = some deviceId → r ∉ n.sessions

/-- It owes nothing when nobody has linked a session to the device since. -/
theorem Removes.owes {deviceId : Uuid} {n : Db} (h : Removes deviceId n L w)
    (hi : SessionsLinked d)
    (hkeeps : ∀ r ∈ d.sessions, r.deviceId = some deviceId → r ∈ n.sessions) :
    (sessionSpec o calls).Owes L .plain d (w d) := by
  refine ⟨trivial, ?_, ⟨fun r hr _ => h.sessions d hr, ?_⟩, ?_⟩
  · intro r hrow id hid
    refine (h.devices d id).mpr ⟨hi r (h.sessions d hrow) id hid, ?_⟩
    rintro rfl
    exact h.cut d r hrow hid (hkeeps r (h.sessions d hrow) hid)
  · intro id _ hid
    exact ((h.devices d id).mp hid).1
  · intro k m hcompat id hk
    refine ⟨fun hid => (h.devices d id).mpr ⟨hid, ?_⟩, fun _ r hrow _ => h.sessions d hrow⟩
    rintro rfl
    have habsurd : LockMode.compatible .update m = true := hcompat _ h.lock hk.symm
    rw [LockMode.compatible_comm, LockMode.compatible_update] at habsurd
    cases habsurd

/-- The first statement of a removal, when it has found the device. -/
theorem removes_of_hits {deviceId userId : Uuid} {s n : Db}
    (hne : Tables.devices.hits (DbDevices.isDevice deviceId userId) s n ≠ []) :
    let cond := DbDevices.isDevice deviceId userId
    let orphans := Tables.devices.orphans Tables.sessions DbDevices.ofDevice cond s n
    Removes deviceId n (Tables.devices.locked cond .update s n ++
        orphans.map fun c => (Tables.sessions.key c, .update))
      fun d => Tables.sessions.drop (orphans.map Tables.sessions.key)
        (Tables.devices.drop ((Tables.devices.hits cond s n).map Tables.devices.key) d) := by
  intro cond orphans
  have hhit : ∀ v ∈ Tables.devices.hits cond s n, v.id = deviceId := by
    intro v hv
    have hcond := ((Tables.devices.mem_hits).mp hv).2.2
    simp only [cond, DbDevices.isDevice, Bool.and_eq_true, decide_eq_true_eq] at hcond
    exact hcond.1
  obtain ⟨v, hv⟩ := List.exists_mem_of_ne_nil _ hne
  have hkeys (x : Device) : Tables.devices.key x ∈
      (Tables.devices.hits cond s n).map Tables.devices.key ↔ x.id = deviceId := by
    constructor
    · intro hx
      obtain ⟨y, hy, hkey⟩ := List.mem_map.mp hx
      exact (RowId.device.inj hkey).symm.trans (hhit y hy)
    · intro hx
      refine List.mem_map.mpr ⟨v, hv, ?_⟩
      change RowId.device v.id = RowId.device x.id
      rw [hx, hhit v hv]
  constructor
  · have hlock := Tables.devices.locked_of_mem_hits hv .update
    rw [← hhit v hv]
    exact List.mem_append_left _ hlock
  · intro d id
    change id ∈ (Tables.devices.get (Tables.devices.drop _ d)).map (·.id) ↔ _
    constructor
    · intro hid
      obtain ⟨x, hx, rfl⟩ := List.mem_map.mp hid
      obtain ⟨hthere, hkey⟩ := (Tables.devices.mem_drop).mp hx
      exact ⟨List.mem_map_of_mem hthere, fun habsurd => hkey ((hkeys x).mpr habsurd)⟩
    · rintro ⟨hid, hne⟩
      obtain ⟨x, hx, rfl⟩ := List.mem_map.mp hid
      exact List.mem_map_of_mem ((Tables.devices.mem_drop).mpr
        ⟨hx, fun habsurd => hne ((hkeys x).mp habsurd)⟩)
  · intro d r hr
    exact ((Tables.sessions.mem_drop).mp hr).1
  · intro d r hr hdev hn
    refine ((Tables.sessions.mem_drop).mp hr).2 (List.mem_map_of_mem ?_)
    refine List.mem_filter.mpr ⟨hn, List.any_eq_true.mpr ⟨v, hv, ?_⟩⟩
    rw [DbDevices.ofDevice, decide_eq_true_eq, hhit v hv]
    exact hdev

/-- Sessions that are deleted besides. -/
theorem Removes.delete {deviceId : Uuid} {n : Db} (h : Removes deviceId n L w)
    (L' : List (RowId × LockMode)) (keys : List RowId) :
    Removes deviceId n (L ++ L') (Tables.sessions.drop keys ∘ w) where
  lock := List.mem_append_left _ h.lock
  devices := h.devices
  sessions d _ hr := h.sessions d ((Tables.sessions.mem_drop).mp hr).1
  cut d r hr := h.cut d r ((Tables.sessions.mem_drop).mp hr).1

/-- A removal that has found the device leaves nothing of it. -/
theorem deleteDevice_sessions_wp {deviceId userId : Uuid} :
    (sessionSpec o calls).wp (fun deleted _ _ d' => deleted = true → ¬ Registers calls deviceId →
        ¬ HasDevice deviceId d')
      (DbDevices.deleteDevice deviceId userId) [] (fun d => d) d := by
  refine Table.wp_deleteCascade_bind fun s hs n hn => ?_
  by_cases hne : Tables.devices.hits (DbDevices.isDevice deviceId userId) s n = []
  · simp only [hne, List.isEmpty_nil, Bool.not_true, Bool.false_eq_true, if_false]
    refine fun d₁ h₁ _ => ⟨sessionSpec_routine.owes h₁.inv trivial ?_, fun d₂ _ habsurd => ?_⟩
    · refine ⟨fun d => ?_, fun d r hr => ?_⟩
      · change (Tables.devices.get (Tables.devices.drop _ d)).map _ = _
        simp [Table.drop, Tables.devices]
      · exact ((Tables.sessions.mem_drop).mp hr).1
    · cases habsurd
  · have hremoves := removes_of_hits hne
    have hdeleted : (!(Tables.devices.hits (DbDevices.isDevice deviceId userId) s n).isEmpty) =
        true := by
      rw [Bool.not_eq_true', List.isEmpty_eq_false_iff]
      exact hne
    simp only [hdeleted, if_true]
    refine Table.wp_delete_bind fun s' hs' n' hn' d₁ h₁ _ => ?_
    have hall := hremoves.delete
    refine ⟨(hall _ _).owes h₁.inv ?_, fun d₂ h₂ _ hno hdev => ?_⟩
    · -- the lock of the device has kept others from it since the first statement
      have hkept := (hs'.trans hn').trans h₁.of_append
      exact (hkept.keeps _ hremoves.lock deviceId rfl).2 rfl
    · exact (((hall [] _).devices d₁ deviceId).mp (h₂.guar.2 deviceId hno hdev)).2 rfl

/-- What a request has done once it has answered. -/
structure RequestDone (o : Opaque) (calls : I → SessionRequest) (call : SessionRequest)
    (out : SessionAnswer) (d : Db) : Prop where
  removed : ∀ now bearer deviceId, call = .removeDevice now bearer deviceId → out = .removed →
    ¬ Registers calls deviceId → ¬ HasDevice deviceId d
  loggedOut : ∀ now token, call = .logout now (some token) → out = .loggedOut →
    ∀ r ∈ d.sessions, r.tokenHash = o.hashToken token → Issues o calls r

theorem requestDone_of_ne {call : SessionRequest} {out : SessionAnswer} (hremoved : out ≠ .removed)
    (hloggedOut : out ≠ .loggedOut) : RequestDone o calls call out d where
  removed _ _ _ _ hout := absurd hout hremoved
  loggedOut _ _ _ hout := absurd hout hloggedOut

/-- The caller of a request is the account of the session that its token has. -/
theorem requireAuth_sessions_wp {O : Type} {Q : O → List (RowId × LockMode) → (Db → Db) → Db → Prop}
    {now : Nat} {token : String} {f : AuthUser × Option (Bytes × Bytes) → Request O}
    (h : ∀ auth d', (sessionSpec o calls).Rely [] d d' → auth.1.rawToken = token →
      (∃ own ∈ d'.sessions, own.tokenHash = o.hashToken token ∧ own.userId = auth.1.userId) →
        (sessionSpec o calls).wp Q (f auth) [] (fun d => d) d') :
    (sessionSpec o calls).wp Q (requireAuth o now (some token) >>= f) [] (fun d => d) d := by
  simp only [requireAuth, bind_assoc]
  refine wp_okOr_bind id fun text htext => ?_
  rw [Option.mem_some_iff] at htext
  subst htext
  refine Spec.wp_read_bind fun d₁ h₁ => wp_okOr_bind id fun found hfound => ?_
  obtain ⟨own, hown, rfl⟩ := Option.map_eq_some_iff.mp hfound
  have hcond := List.find?_some hown
  rw [Bool.and_eq_true, decide_eq_true_eq] at hcond
  exact h _ d₁ h₁ rfl ⟨own, List.mem_of_find?_eq_some hown, hcond.1, rfl⟩

/-- Every request keeps the specification. -/
theorem SessionRequest.valid (calls : I → SessionRequest) (i : I) :
    (sessionSpec o calls).Valid ((calls i).run o) (RequestDone o calls (calls i)) := by
  intro d hd
  cases hcall : calls i with
  | loginFinish fresh loginId fin deviceId =>
    have hdraws : ∀ r : Session, r.id = fresh.id → r.tokenHash = o.hashToken fresh.rawToken →
        Issues o calls r := fun r hid htoken =>
      ⟨i, fresh, deviceId, .inl ⟨loginId, fin, hcall⟩, hid.symm, htoken.symm⟩
    refine Spec.wp_bind hd (Spec.wp_mono (fun _ _ _ _ _ _ => ?_)
      (loginFinish_sessions_wp hd hdraws))
    exact fun _ _ => requestDone_of_ne (by simp) (by simp)
  | srpVerify fresh sessionId proof deviceId =>
    have hdraws : ∀ r : Session, r.id = fresh.id → r.tokenHash = o.hashToken fresh.rawToken →
        Issues o calls r := fun r hid htoken =>
      ⟨i, fresh, deviceId, .inr ⟨sessionId, proof, hcall⟩, hid.symm, htoken.symm⟩
    refine Spec.wp_bind hd (Spec.wp_mono (fun _ _ _ _ _ _ => ?_)
      (srpVerify_sessions_wp hd hdraws))
    exact fun _ _ => requestDone_of_ne (by simp) (by simp)
  | registerDevice fresh bearer req =>
    have hdraws : Registers calls fresh.id := ⟨i, fresh, bearer, req, hcall, rfl⟩
    refine Spec.wp_reads_bind (reads_requireAuth o fresh.now bearer) (fun _ => id)
      (fun auth d₁ h₁ => ?_) hd
    simp only [Devices.registerDevice, bind_assoc]
    refine Spec.wp_reads_bind (reads_decodeField _ _) (fun _ => id) (fun _ d₂ h₂ => ?_) h₁.inv
    refine Spec.wp_reads_bind (Devices.reads_decodeOptional _ _) (fun _ => id)
      (fun _ d₃ h₃ => ?_) h₂.inv
    refine Spec.wp_reads_bind (Devices.reads_decodeOptional _ _) (fun _ => id)
      (fun _ d₄ h₄ => ?_) h₃.inv
    refine Spec.wp_bind h₄.inv (Spec.wp_mono (fun _ _ _ _ _ _ => ?_)
      (createDevice_sessions_wp hdraws))
    exact fun _ _ => requestDone_of_ne (by simp) (by simp)
  | removeDevice now bearer deviceId =>
    refine Spec.wp_reads_bind (reads_requireAuth o now bearer) (fun _ => id)
      (fun auth d₁ h₁ => ?_) hd
    simp only [Devices.removeDevice, bind_assoc]
    refine Spec.wp_bind h₁.inv (Spec.wp_mono (fun deleted _ _ d₂ hgone _ => ?_)
      deleteDevice_sessions_wp)
    refine wp_require_bind id fun hdeleted d₃ h₃ => ⟨?_, ?_⟩
    · rintro _ _ _ ⟨⟩ - hno hdev
      exact hgone hdeleted hno (h₃.guar.2 _ hno hdev)
    · intro _ _ habsurd
      cases habsurd
  | signOutOthers now bearer =>
    refine Spec.wp_reads_bind (reads_requireAuth o now bearer) (fun _ => id)
      (fun auth d₁ h₁ => ?_) hd
    simp only [Devices.signOutOthers, DbSessions.deleteOtherSessions, bind_assoc]
    refine Spec.wp_bind h₁.inv (Spec.wp_mono (fun _ _ _ _ _ _ => ?_) deleteSessions_wp)
    exact fun _ _ => requestDone_of_ne (by simp) (by simp)
  | logout now bearer =>
    cases bearer with
    | none => exact wp_refuse id
    | some token =>
      refine requireAuth_sessions_wp fun auth d₁ h₁ htoken _ => ?_
      simp only [Auth.logout, DbSessions.deleteSessionByToken, bind_assoc]
      refine Spec.wp_bind h₁.inv (Spec.wp_mono (fun _ _ _ d₂ hgone _ => ?_) deleteSessions_wp)
      refine fun d₃ h₃ => ⟨?_, ?_⟩
      · intro _ _ _ habsurd
        cases habsurd
      · rintro _ _ ⟨⟩ - r hr hhash
        by_contra hno
        refine hgone r hno (fun _ => ?_) (h₃.guar.1 r hr hno)
        rw [decide_eq_true_eq, htoken]
        exact hhash
  | pruneExpired now =>
    simp only [SessionRequest.run, DbSessions.pruneExpired, bind_assoc]
    refine Spec.wp_bind hd (Spec.wp_mono (fun _ _ _ _ _ _ => ?_) deleteSessions_wp)
    exact fun _ _ => requestDone_of_ne (by simp) (by simp)
  | other request =>
    refine Spec.wp_bind hd (Spec.wp_mono (fun _ _ _ _ _ _ => ?_)
      (sessionSpec_routine.wp request.leaves keepsSessions_nil))
    exact fun _ _ => requestDone_of_ne (by simp) (by simp)

/-- Who has signed out the others has ended a session that was there. -/
theorem signOutOthers_ends {now : Nat} {token : String} {r : Session}
    (hr : r.tokenHash ≠ o.hashToken token) (hno : ¬ Issues o calls r)
    (hown : ∀ own ∈ d.sessions, own.tokenHash = o.hashToken token → own.userId = r.userId)
    (hdrawn : ∀ own, Issues o calls own → own.tokenHash ≠ o.hashToken token) :
    (sessionSpec o calls).wp (fun _ _ _ d' => r ∉ d'.sessions)
      ((SessionRequest.signOutOthers now (some token)).run o) [] (fun d => d) d := by
  refine requireAuth_sessions_wp fun auth d₁ h₁ htoken hauth => ?_
  obtain ⟨own, hthere, hhash, huser⟩ := hauth
  have hsame : own.userId = r.userId := by
    refine hown own (h₁.guar.1 own hthere fun hissued => ?_) hhash
    exact hdrawn own hissued hhash
  simp only [Devices.signOutOthers, DbSessions.deleteOtherSessions, bind_assoc]
  refine Spec.wp_bind h₁.inv (Spec.wp_mono (fun _ _ _ d₂ hgone _ => ?_) deleteSessions_wp)
  refine fun d₃ h₃ hlater => hgone r hno (fun _ => ?_) (h₃.guar.1 r hlater hno)
  rw [Bool.and_eq_true, decide_eq_true_eq, decide_eq_true_eq, htoken, ← huser, hsame]
  exact ⟨rfl, hr⟩

end Wp

section Runs

variable {I : Type} [DecidableEq I] [Fintype I] {o : Opaque} {d : Db}
  {s₁ s₂ : State I Db RowId Tag ApiError SessionAnswer}

/-- The requests at their start. -/
def startSessions (o : Opaque) (d : Db) (calls : I → SessionRequest) :
    State I Db RowId Tag ApiError SessionAnswer :=
  State.start d fun i => (calls i).run o

/-- In every interleaving of these requests with logins and with whatever else the server does,
what was revoked stays revoked. -/
theorem revocationHolds_of_exec (calls : I → SessionRequest) (hd : SessionsLinked d)
    {before after : List (I × Act)} (h₁ : (startSessions o d calls).exec before = some s₁)
    (h₂ : s₁.exec after = some s₂) : RevocationHolds o calls s₁ s₂ := by
  have hcommits {s s' : State I Db RowId Tag ApiError SessionAnswer} {sched : List (I × Act)}
      (h : s.exec sched = some s') : s.Commits (sessionSpec o calls).allow sched :=
    State.commits_of_history h fun _ _ => trivial
  have hstart : (sessionSpec o calls).Good (fun i => RequestDone o calls (calls i))
      (startSessions o d calls) := Spec.Good.start hd (SessionRequest.valid calls)
  have hgood₁ := (hstart.exec (hcommits h₁) h₁).1
  obtain ⟨hgood₂, hguar, -⟩ := hgood₁.exec (hcommits h₂) h₂
  refine ⟨hgood₂.inv, ?_, ?_, ?_⟩
  · intro i now bearer deviceId hcall hout hno
    have hgone := (hgood₁.safe i).ret hout hgood₁.inv
    have hlater : ¬ HasDevice deviceId s₂.db := fun hdev =>
      hgone.removed now bearer deviceId hcall rfl hno (hguar.2 deviceId hno hdev)
    exact ⟨hlater, fun r hr hdev => hlater (hgood₂.inv r hr deviceId hdev)⟩
  · intro i now token hcall hproc ended hout r hr hother hno hown hdrawn
    have hfree₁ : (sessionSpec o calls).Good
        (fun j (_ : SessionAnswer) d' => j = i → r ∉ d'.sessions) s₁ := by
      refine ⟨hgood₁.inv, hgood₁.excl, fun j => ?_⟩
      by_cases hj : j = i
      · subst hj
        rw [hproc, hcall]
        exact Spec.wp_mono (fun _ _ _ _ hgone _ => hgone)
          (signOutOthers_ends hother hno hown hdrawn)
      · exact (hgood₁.safe j).mono fun _ _ _ habsurd => absurd habsurd hj
    exact (((hfree₁.exec (hcommits h₂) h₂).1.safe i).ret hout hgood₂.inv) rfl
  · intro i now token hcall hout r hr hhash
    have hgone := (hgood₁.safe i).ret hout hgood₁.inv
    by_contra hno
    exact hno (hgone.loggedOut now token hcall rfl r (hguar.1 r hr hno) hhash)

end Runs

/-- Every proof is accepted, and a token is its own hash. -/
private def acceptsAll : Opaque where
  validRequest _ := true
  registrationStart request _ := some request
  registrationFinish := some
  proves _ _ _ := true
  srpVerify _ _ _ _ := false
  hashToken := id
  hashAuthKey := id

/-- An account with a device, a session on it, the caller's session and a login under way. -/
private def lostPhone : Db where
  users := [{ id := 1, opaqueRecord := some [7] }]
  sessions :=
    [{ id := 4, userId := 1, deviceId := some 5, tokenHash := "phone", createdAt := 0
       expiresAt := 9 },
     { id := 6, userId := 1, tokenHash := "laptop", createdAt := 0, expiresAt := 9 }]
  devices := [{ id := 5, userId := 1 }]
  vaults := [{ id := 10, userId := 1, nameBlob := [], nameIv := [], createdAt := 0 }]
  pendingOpaqueLogins :=
    [{ id := 8, accountKey := "", userId := some 1, serverState := ⟨some [7], []⟩, createdAt := 0
       purpose := .login }]

/-- A login from the device, and its removal. -/
private def loginAndRemoval (i : Fin 2) : SessionRequest :=
  if i.val = 0 then .loginFinish { now := 1, id := 11, rawToken := "new" } 8 "AQ" (some 5)
  else .removeDevice 1 (some "laptop") 5

/-- The login has found its device when the removal runs. -/
private def removedMeanwhile : Option (State (Fin 2) Db RowId Tag ApiError SessionAnswer) :=
  (startSessions acceptsAll lostPhone loginAndRemoval).exec (Act.inTurn [(0, 9), (1, 6)])

theorem sessionsLinked_lostPhone : SessionsLinked lostPhone := by
  intro r hr id hid
  rcases List.mem_cons.mp hr with rfl | hr
  · rw [← Option.mem_some_iff.mp hid]
    exact List.mem_cons_self
  · rw [List.mem_singleton.mp hr] at hid
    cases hid

/-- The login creates no session on the device that is gone. -/
theorem revocationHolds_of_exec_lostPhone : ∃ s₁ s₂, removedMeanwhile = some s₁ ∧
    s₁.exec (Act.inTurn [(0, 2)]) = some s₂ ∧ (s₁.procs 1).prog = .ret .removed ∧
      s₂.db.sessions.map (·.id) = [6] ∧ RevocationHolds acceptsAll loginAndRemoval s₁ s₂ := by
  have hrun : removedMeanwhile.bind (fun s₁ => (s₁.exec (Act.inTurn [(0, 2)])).map fun s₂ =>
      ((s₁.procs 1).prog.answer, s₂.db.sessions.map (·.id))) = some (some .removed, [6]) := by
    decide
  obtain ⟨s₁, h₁, hrun⟩ := Option.bind_eq_some_iff.mp hrun
  obtain ⟨s₂, h₂, hend⟩ := Option.map_eq_some_iff.mp hrun
  rw [Prod.mk.injEq, Prog.answer_eq_some] at hend
  exact ⟨s₁, s₂, h₁, h₂, hend.1, hend.2,
    revocationHolds_of_exec loginAndRemoval sessionsLinked_lostPhone h₁ h₂⟩

end Nopass
