import Nopass.Server.Auth

/-!
# The last vault

A vault deletion counts the user's vaults in the snapshot of its own statement. Two
deletions of different vaults write different rows, so neither waits for the other
nor counts again: from two vaults both can succeed. When every deletion still finds
its count above one at its commit, the user keeps a vault and can log in.
-/

namespace Nopass

open ReadCommitted

/-- Vault requests and logins; the account of a login is that of its handshake. -/
inductive VaultRequest where
  | createVault (auth id : Uuid) (now : Nat) (req : CreateVaultRequest)
  | deleteVault (auth vaultId : Uuid)
  | login (fresh : Fresh) (loginId : Uuid) (finishLoginRequest : String) (deviceId : Option Uuid)
  | srpLogin (fresh : Fresh) (sessionId : Uuid) (clientProofM1 : String) (deviceId : Option Uuid)

/-- The program of a request. -/
def VaultRequest.run (o : Opaque) : VaultRequest → Request Unit
  | .createVault auth id now req => Vaults.createVault auth id now req
  | .deleteVault auth vaultId => Vaults.deleteVault auth vaultId
  | .login fresh loginId fin deviceId => do
    let _ ← Auth.loginFinish o fresh loginId fin deviceId
    pure ()
  | .srpLogin fresh sessionId proof deviceId => do
    let _ ← Auth.srpVerify o fresh sessionId proof deviceId
    pure ()

/-- The handshake that a login consumes. -/
def VaultRequest.loginId : VaultRequest → Option Uuid
  | .login _ loginId _ _ => some loginId
  | .srpLogin _ sessionId _ _ => some sessionId
  | _ => none

/-- The user has a vault. -/
def HasVault (userId : Uuid) (d : Db) : Prop := ∃ v ∈ d.vaults, v.userId = userId

instance (userId : Uuid) (d : Db) : Decidable (HasVault userId d) :=
  inferInstanceAs (Decidable (∃ v ∈ d.vaults, v.userId = userId))

/-- `vaults` has its primary key. -/
def VaultIdsDistinct (d : Db) : Prop := (d.vaults.map (·.id)).Nodup

instance (d : Db) : Decidable (VaultIdsDistinct d) :=
  inferInstanceAs (Decidable (d.vaults.map (·.id)).Nodup)

/-- A deletion commits while its user still has more than one vault. -/
def StillCounts : Tag → Db → Prop
  | .deleteVault userId _, d => 1 < DbVaults.countVaults userId d
  | _, _ => True

instance : ∀ tag d, Decidable (StillCounts tag d)
  | .deleteVault userId _, d => inferInstanceAs (Decidable (1 < DbVaults.countVaults userId d))
  | .plain, _ | .rewrap _ _, _ | .handshake _ _, _ | .authorized _ _ _, _ |
    .consumed _, _ | .issued _ _, _ | .replacedKit _ _, _ | .wrote _ _ _, _ |
    .rekeyed _ _, _ | .reencrypted _, _ |
    .published _, _ | .organized _, _ | .owned _ _, _ | .accepted _, _ =>
      inferInstanceAs (Decidable True)

/-- The handshakes with these ids are the user's. -/
def LoginsOf (userId : Uuid) (ids : Set Uuid) (d : Db) : Prop :=
  (∀ p ∈ d.pendingOpaqueLogins, p.id ∈ ids → p.userId = some userId) ∧
    ∀ p ∈ d.pendingSrpSessions, p.id ∈ ids → p.userId = userId

/-- What vault requests and logins keep together. The lock of a vault row protects the row. -/
def vaultSpec (userId : Uuid) (ids : Set Uuid) : Spec Db RowId Tag ApiError where
  inv d := HasVault userId d ∧ VaultIdsDistinct d ∧ LoginsOf userId ids d
  guar _ _ := True
  guar_refl _ := trivial
  guar_trans _ _ := trivial
  keeps k m d d' := ∀ id, k = .vault id → m = .update →
    ∀ v ∈ d'.vaults, v.id = id → v ∈ d.vaults
  keeps_refl _ _ _ _ _ _ _ hv _ := hv
  keeps_trans h h' id hk hm v hv hid := h id hk hm v (h' id hk hm v hv hid) hid
  allow := StillCounts
  asserts _ _ _ := True
  never e := e = Auth.noVault

variable {userId : Uuid} {ids : Set Uuid} {d d' : Db} {L : List (RowId × LockMode)}

/-- Commits that leave vaults alone and add no handshake. -/
private theorem owes_of_vaults_eq {tag : Tag} (hi : (vaultSpec userId ids).inv d)
    (hv : d'.vaults = d.vaults) (hp : ∀ p ∈ d'.pendingOpaqueLogins, p ∈ d.pendingOpaqueLogins)
    (hs : ∀ p ∈ d'.pendingSrpSessions, p ∈ d.pendingSrpSessions) :
    (vaultSpec userId ids).Owes L tag d d' := by
  refine ⟨trivial, ⟨?_, ?_, fun p hm => hi.2.2.1 p (hp p hm), fun p hm => hi.2.2.2 p (hs p hm)⟩,
    trivial, fun k m _ id _ _ v hv' _ => ?_⟩
  · rw [HasVault, hv]
    exact hi.1
  · rw [VaultIdsDistinct, hv]
    exact hi.2.1
  · rwa [hv] at hv'

/-- Rows with one id are one row. -/
theorem VaultIdsDistinct.eq (h : VaultIdsDistinct d) {v v' : Vault} (hv : v ∈ d.vaults)
    (hv' : v' ∈ d.vaults) (hid : v.id = v'.id) : v = v' :=
  List.inj_on_of_nodup_map h hv hv' hid

/-- Creating a vault takes no vault away. -/
theorem createVault_wp (auth id : Uuid) (now : Nat) (req : CreateVaultRequest) :
    (vaultSpec userId ids).wp (fun _ _ _ _ => True) (Vaults.createVault auth id now req)
      [] (fun d => d) d := by
  refine wp_okOr_bind nofun fun nameBlob _ => wp_okOr_bind nofun fun nameIv _ d₁ h₁ => ?_
  refine wp_require_bind nofun fun _ => Table.wp_insert_bind (fun n hn hv _ d₂ h₂ _ => ?_) nofun
  -- the id is still free when the row appears
  have hfree : ∀ v ∈ d₂.vaults, v.id ≠ id := by
    intro v hv₂ hid
    have hvn := h₂.keeps _ (List.mem_append_right _ List.mem_cons_self) id rfl rfl v hv₂ hid
    have hne := of_decide_eq_true (List.all_eq_true.mp hv v hvn)
    exact hne (congrArg RowId.vault hid)
  obtain ⟨⟨v, hv₂, hu⟩, hdistinct, hlogins⟩ := h₂.inv
  refine ⟨⟨trivial, ⟨⟨v, ?_, hu⟩, ?_, hlogins⟩, trivial, ?_⟩, fun _ _ => trivial⟩
  · exact (Tables.vaults.mem_push).mpr (Or.inl hv₂)
  · change (List.map (·.id) (d₂.vaults ++ [_])).Nodup
    rw [List.map_append, List.nodup_append]
    refine ⟨hdistinct, List.nodup_singleton _, fun x hx y hy => ?_⟩
    obtain ⟨v, hv₂, rfl⟩ := List.mem_map.mp hx
    rw [List.map_singleton, List.mem_singleton] at hy
    rw [hy]
    exact hfree v hv₂
  · rintro _ _ hcompat id' rfl rfl v hv₃ hid
    rcases (Tables.vaults.mem_push).mp hv₃ with hv₃ | rfl
    · exact hv₃
    · simpa using hcompat _ (List.mem_append_right _ List.mem_cons_self) (congrArg RowId.vault hid)

/-- Of more than one vault, one has another id. -/
theorem exists_other_vault (h : VaultIdsDistinct d) {auth : Uuid} (vaultId : Uuid)
    (hc : 1 < DbVaults.countVaults auth d) :
    ∃ v ∈ d.vaults, v.userId = auth ∧ v.id ≠ vaultId := by
  have hsub : ((d.vaults.filter (DbVaults.isUserVault auth d)).map (·.id)).Nodup :=
    List.Nodup.sublist (List.filter_sublist.map _) h
  have hmem : ∀ v ∈ d.vaults.filter (DbVaults.isUserVault auth d), v ∈ d.vaults ∧ v.userId = auth :=
    fun v hv => ⟨(List.mem_filter.mp hv).1, of_decide_eq_true (List.mem_filter.mp hv).2⟩
  unfold DbVaults.countVaults at hc
  match hl : d.vaults.filter (DbVaults.isUserVault auth d) with
  | [] => simp [hl] at hc
  | [_] => simp [hl] at hc
  | a :: b :: rest =>
    rw [hl] at hsub hmem
    have hne : a.id ≠ b.id := fun he => by simp [he] at hsub
    by_cases ha : a.id = vaultId
    · have hb := hmem b (List.mem_cons_of_mem a List.mem_cons_self)
      exact ⟨b, hb.1, hb.2, fun he => hne (ha.trans he.symm)⟩
    · exact ⟨a, (hmem a List.mem_cons_self).1, (hmem a List.mem_cons_self).2, ha⟩

/-- Deleting a vault that still is not the only one leaves a vault. -/
theorem deleteVault_wp (auth vaultId : Uuid) :
    (vaultSpec userId ids).wp (fun _ _ _ _ => True) (Vaults.deleteVault auth vaultId)
      [] (fun d => d) d := by
  intro d₁ h₁
  refine wp_okOr_bind nofun fun _ _ s hs n hn d₂ h₂ ha => ?_
  refine ⟨?_, wp_require nofun fun _ _ => trivial⟩
  have hhit : ∀ r ∈ Tables.vaults.hits (DbVaults.isSafeToDelete vaultId auth) s n,
      r ∈ n.vaults ∧ r.id = vaultId ∧ r.userId = auth := by
    intro r hr
    obtain ⟨hr, _, hc⟩ := (Tables.vaults.mem_hits).mp hr
    simp only [DbVaults.isSafeToDelete, DbVaults.isVault, Bool.and_eq_true,
      decide_eq_true_eq] at hc
    exact ⟨hr, hc.1.1.1, hc.1.1.2⟩
  obtain ⟨⟨v, hv, hu⟩, hdistinct, hlogins⟩ := h₂.inv
  refine ⟨trivial, ⟨?_, ?_, hlogins⟩, trivial, ?_⟩
  · -- the deleted rows all have this id, and some vault of the user has another one
    suffices hother : ∃ v ∈ d₂.vaults, v.userId = userId ∧
        (v.id = vaultId → Tables.vaults.hits (DbVaults.isSafeToDelete vaultId auth) s n = []) by
      obtain ⟨v, hv, hu, hid⟩ := hother
      refine ⟨v, (Tables.vaults.mem_drop).mpr ⟨hv, fun hk => ?_⟩, hu⟩
      obtain ⟨r, hr, he⟩ := List.mem_map.mp hk
      have hvid : v.id = vaultId := (RowId.vault.inj he).symm.trans (hhit r hr).2.1
      change r ∈ Tables.vaults.hits (DbVaults.isSafeToDelete vaultId auth) s n at hr
      rw [hid hvid] at hr
      cases hr
    by_cases hrows : Tables.vaults.hits (DbVaults.isSafeToDelete vaultId auth) s n = []
    · exact ⟨v, hv, hu, fun _ => hrows⟩
    · obtain ⟨r, hr⟩ := List.exists_mem_of_ne_nil _ hrows
      obtain ⟨hrn, hrid, hru⟩ := hhit r hr
      by_cases hauth : auth = userId
      · have hcount : 1 < DbVaults.countVaults auth d₂ := by
          have hne : (Tables.vaults.hits (DbVaults.isSafeToDelete vaultId auth) s n).isEmpty =
              false := by simpa using hrows
          simp only [hne, Bool.false_eq_true, if_false] at ha
          exact ha
        obtain ⟨v, hv, hu, hid⟩ := exists_other_vault hdistinct vaultId hcount
        exact ⟨v, hv, hu.trans hauth, fun h => absurd h hid⟩
      · refine ⟨v, hv, hu, fun hid => absurd ?_ hauth⟩
        have hlock := Tables.vaults.locked_of_mem_hits hr .update
        change (RowId.vault r.id, LockMode.update) ∈ _ at hlock
        have hvn := h₂.keeps (.vault r.id, .update)
          (List.mem_append_right _ (List.mem_append_left _ hlock)) r.id rfl rfl v hv
          (hid.trans hrid.symm)
        rw [← hru, ← hn.inv.2.1.eq hvn hrn (hid.trans hrid.symm), hu]
  · exact List.Nodup.sublist (List.filter_sublist.map _) hdistinct
  · intro _ _ _ id _ _ v hv _
    exact ((Tables.vaults.mem_drop).mp hv).1

/-- Linking a device touches no vault. -/
theorem linkDevice_wp (fresh : Fresh) (user : Uuid) (deviceId : Option Uuid) :
    (vaultSpec userId ids).wp (fun _ L w _ => L = [] ∧ w = id)
      (Auth.linkDevice fresh user deviceId) [] id d := by
  cases deviceId with
  | none => exact fun _ _ => ⟨rfl, rfl⟩
  | some deviceId =>
    refine Table.wp_select_bind fun d₁ h₁ => ?_
    split
    · simp only [autocommit, bind_assoc]
      refine Table.wp_update_bind fun s hs n hn _ d₂ h₂ _ => ⟨?_, fun _ _ => ⟨rfl, rfl⟩⟩
      exact owes_of_vaults_eq h₂.inv rfl (fun _ hp => hp) fun _ hp => hp
    · exact fun _ _ => ⟨rfl, rfl⟩

/-- A user with a vault gets a session. -/
theorem issueSession_wp (o : Opaque) {tag : Tag} (fresh : Fresh) {user : User}
    (deviceId : Option Uuid) (proved : Option Bytes) (hu : user.id = userId)
    (hd : (vaultSpec userId ids).inv d) :
    (vaultSpec userId ids).wp (fun _ _ _ _ => True)
      (Auth.issueSession o tag fresh user deviceId proved) [] id d := by
  refine Spec.wp_bind hd (Spec.wp_mono ?_ (linkDevice_wp fresh user.id deviceId))
  rintro deviceId _ _ d₁ ⟨rfl, rfl⟩ _
  refine Spec.wp_read_bind fun d₂ h₂ => ?_
  obtain ⟨v, hv, hvu⟩ := h₂.inv.1
  obtain ⟨vault, hvault⟩ : ∃ vault, ((d₂.vaults.filter
      (DbVaults.isUserVault user.id d₂)).insertionSort fun a b => a.createdAt ≤ b.createdAt).head? =
      some vault := by
    refine Option.isSome_iff_exists.mp (List.isSome_head?.mpr ?_)
    refine List.ne_nil_of_mem ((List.mem_insertionSort _).mpr (List.mem_filter.mpr ⟨hv, ?_⟩))
    exact decide_eq_true (hvu.trans hu.symm)
  rw [id_eq, hvault]
  simp only [okOr, Prog.ret_bind, DbSessions.createSession, autocommit, bind_assoc]
  refine Table.wp_insert_bind (fun n hn _ _ d₃ h₃ _ => ⟨?_, fun _ _ => trivial⟩)
    fun x hx => absurd hx (Option.not_mem_none x)
  exact owes_of_vaults_eq h₃.inv rfl (fun _ hp => hp) fun _ hp => hp

/-- A login with a handshake of the user finds a vault. -/
theorem loginFinish_wp (o : Opaque) (fresh : Fresh) {loginId : Uuid} (fin : String)
    (deviceId : Option Uuid) (hid : loginId ∈ ids) :
    (vaultSpec userId ids).wp (fun _ _ _ _ => True)
      (Auth.loginFinish o fresh loginId fin deviceId) [] id d := by
  refine wp_okOr_bind nofun fun finalization _ => ?_
  intro s hs n hn d₁ h₁ _
  refine ⟨owes_of_vaults_eq h₁.inv rfl
    (fun _ hp => ((Tables.pendingOpaqueLogins.mem_drop).mp hp).1) fun _ hp => hp, ?_⟩
  refine wp_okOr_bind nofun fun taken htaken => ?_
  refine wp_require_bind nofun fun _ => wp_okOr_bind nofun fun user huser d₂ h₂ => ?_
  refine wp_okOr_bind nofun fun account haccount => ?_
  refine issueSession_wp o fresh deviceId _ ?_ h₂.inv
  obtain ⟨hpending, hpid, _⟩ := DbPending.mem_taken (Option.eq_some_of_filter_eq_some htaken)
  have howner := hn.inv.2.2.1 taken.1 hpending (hpid ▸ hid)
  have huser : taken.1.userId = some user := Option.eq_some_of_filter_eq_some huser
  have haccount : account.id = user := by
    simpa using List.find?_some (Option.mem_def.mp haccount)
  rw [haccount]
  exact Option.some.inj (huser.symm.trans howner)

/-- A legacy login with a handshake of the user finds a vault. -/
theorem srpVerify_wp (o : Opaque) (fresh : Fresh) {sessionId : Uuid} (proof : String)
    (deviceId : Option Uuid) (hid : sessionId ∈ ids) :
    (vaultSpec userId ids).wp (fun _ _ _ _ => True)
      (Auth.srpVerify o fresh sessionId proof deviceId) [] id d := by
  intro s hs n hn d₁ h₁ _
  refine ⟨owes_of_vaults_eq h₁.inv rfl (fun _ hp => hp)
    fun _ hp => ((Tables.pendingSrpSessions.mem_drop).mp hp).1, ?_⟩
  refine wp_okOr_bind nofun fun pending hpending => wp_require_bind nofun fun _ => ?_
  refine wp_okOr_bind nofun fun _ _ => Spec.wp_read_bind fun d₂ h₂ => ?_
  refine wp_okOr_bind nofun fun account haccount => wp_require_bind nofun fun _ => ?_
  refine issueSession_wp o fresh deviceId _ ?_ h₂.inv
  obtain ⟨hpn, _, hpid⟩ := (Tables.pendingSrpSessions.mem_hits).mp (List.mem_of_head? hpending)
  have haccount : account.id = pending.userId := by
    simpa using List.find?_some (Option.mem_def.mp haccount)
  rw [haccount]
  exact hn.inv.2.2.2 pending hpn ((of_decide_eq_true hpid).symm ▸ hid)

/-- Each request keeps the specification. -/
theorem VaultRequest.valid (o : Opaque) (r : VaultRequest) (hr : ∀ id ∈ r.loginId, id ∈ ids) :
    (vaultSpec userId ids).Valid (r.run o) fun _ _ => True := by
  intro d hd
  cases r with
  | createVault auth id now req => exact createVault_wp auth id now req
  | deleteVault auth vaultId => exact deleteVault_wp auth vaultId
  | login fresh loginId fin deviceId =>
    refine Spec.wp_bind hd (Spec.wp_mono (fun _ _ _ _ _ _ => ?_)
      (loginFinish_wp o fresh fin deviceId (hr loginId rfl)))
    exact fun _ _ => trivial
  | srpLogin fresh sessionId proof deviceId =>
    refine Spec.wp_bind hd (Spec.wp_mono (fun _ _ _ _ _ _ => ?_)
      (srpVerify_wp o fresh proof deviceId (hr sessionId rfl)))
    exact fun _ _ => trivial

section Runs

variable {I : Type} [Fintype I] [DecidableEq I]

end Runs

/-- Account 1 with these vaults and a login under way. -/
private def withVaults (ids : List Uuid) : Db where
  users := [{ id := 1, opaqueRecord := some [1] }]
  vaults := ids.map fun id =>
    { id := id, userId := 1, nameBlob := [], nameIv := [], createdAt := 0 }
  pendingOpaqueLogins :=
    [{ id := 5, accountKey := "", userId := some 1, serverState := ⟨some [1], []⟩, createdAt := 0,
       purpose := .login }]

private def anyProof : Opaque where
  validRequest _ := true
  registrationStart request _ := some request
  registrationFinish := some
  proves _ _ _ := true
  srpVerify _ _ _ _ := false
  hashToken := id
  hashAuthKey := id

/-- Two deletions of different vaults, and a login. -/
private def twoDeletions : Fin 3 → VaultRequest
  | 0 => .deleteVault 1 10
  | 1 => .deleteVault 1 11
  | 2 => .login { now := 0, id := 6 } 5 "" none

/-- Both deletions take their snapshots before either completes; the login comes last. -/
private def crossed : List (Fin 3 × Act) :=
  Act.inTurn [(0, 2), (1, 2), (0, 2), (1, 2), (2, 5)]

private def crossedFrom (ids : List Uuid) : Option (State (Fin 3) Db RowId Tag ApiError Unit) :=
  (State.start (withVaults ids) fun i => (twoDeletions i).run anyProof).exec crossed

end Nopass
