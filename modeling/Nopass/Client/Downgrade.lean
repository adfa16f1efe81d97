import Nopass.Client.PasswordLogin

/-!
# No way back to SRP, legacy keys or weak hashing

Whatever the server answers, an account that this device has seen on OPAQUE is not logged in
over SRP again, one whose account key it has recorded is not unlocked with legacy keys again,
and Argon2id never runs below the floor for anything that is sent.
-/

namespace Nopass

/-- The flags of an account state that are set stay set. -/
def AccountState.Within (state state' : AccountState) : Prop :=
  (state.opaqueSeen = true → state'.opaqueSeen = true) ∧
    (state.accountKey = true → state'.accountKey = true)

/-- A patch that unsets nothing. -/
def AccountPatch.Sets (patch : AccountPatch) : Prop :=
  patch.opaqueSeen ≠ some false ∧ patch.accountKey ≠ some false

/-- Everything stretched was stretched at the floor or above, and what was sent of it was
stretched before. -/
structure FloorKept (events : List PasswordEvent) : Prop where
  stretched : ∀ params text, .stretched params text ∈ events → params.belowFloor = false
  sent : ∀ before message after, events = before ++ .sent message :: after →
    ∀ text ∈ message.stretched, ∃ params, .stretched params text ∈ before

section Guard

variable {S : Type} {store : AccountStateStore S} {c : AccountCrypto} {peer : PasswordPeer}

theorem AccountState.Within.refl (state : AccountState) : state.Within state := ⟨id, id⟩

theorem AccountState.Within.trans {a b d : AccountState} (h : a.Within b) (h' : b.Within d) :
    a.Within d :=
  ⟨h'.1 ∘ h.1, h'.2 ∘ h.2⟩

/-- A patch that unsets nothing keeps the flags. -/
theorem within_patched {state : AccountState} {patch : AccountPatch} (h : patch.Sets) :
    state.Within (state.patched patch) := by
  obtain ⟨hseen, hkey⟩ := h
  constructor
  · intro hs
    rw [AccountState.patched]
    cases hp : patch.opaqueSeen with
    | none => exact hs
    | some b =>
      cases b with
      | false => exact absurd hp hseen
      | true => rfl
  · intro hs
    rw [AccountState.patched]
    cases hp : patch.accountKey with
    | none => exact hs
    | some b =>
      cases b with
      | false => exact absurd hp hkey
      | true => rfl

/-- An event that sends nothing that was stretched. -/
theorem FloorKept.append {events : List PasswordEvent} {e : PasswordEvent} (h : FloorKept events)
    (hparams : ∀ params text, e = .stretched params text → params.belowFloor = false)
    (hsent : ∀ message, e = .sent message →
      ∀ text ∈ message.stretched, ∃ params, .stretched params text ∈ events) :
    FloorKept (events ++ [e]) := by
  constructor
  · intro params text hmem
    rcases List.mem_append.mp hmem with hmem | hmem
    · exact h.stretched params text hmem
    · exact hparams params text (List.mem_singleton.mp hmem).symm
  · intro before message after hsplit text htext
    rcases List.eq_nil_or_concat after with rfl | ⟨after, last, rfl⟩
    · obtain ⟨rfl, hlast⟩ := List.append_inj' hsplit rfl
      exact hsent message (List.singleton_inj.mp hlast) text htext
    · rw [List.concat_eq_append, ← List.cons_append, ← List.append_assoc] at hsplit
      obtain ⟨hinit, -⟩ := List.append_inj' hsplit rfl
      exact h.sent before message after hinit text htext

/-- What a run may have done by a point of it. -/
structure Guarded (store : AccountStateStore S) (emailHash : String) (states : S)
    (run : PasswordRun S) : Prop where
  /-- Nothing that the device knew is forgotten. -/
  within : ∀ id, (store.get states id).Within (store.get run.states id)
  /-- SRP logins are for accounts that were not seen on OPAQUE. -/
  srp : ∀ message, .sent message ∈ run.events → message.isSrpLogin = true →
    (store.get states emailHash).opaqueSeen = false
  /-- Accounts are moved to an account key that were not seen with one. -/
  moves : ∀ message, .sent message ∈ run.events → message.movesAccountKey = true →
    (store.get states emailHash).accountKey = false
  /-- What was recorded is there. -/
  recorded : ∀ id patch, .remembered id patch ∈ run.events → patch.accountKey = some true →
    id = emailHash ∧ (store.get run.states emailHash).accountKey = true
  floor : FloorKept run.events

/-- A run begins. -/
theorem guarded_start (emailHash : String) (states : S) :
    Guarded store emailHash states ⟨states, []⟩ := by
  constructor
  · intro id
    exact .refl _
  · intro message hmem
    cases hmem
  · intro message hmem
    cases hmem
  · intro id patch hmem
    cases hmem
  · constructor
    · intro params text hmem
      cases hmem
    · intro before message after hsplit
      simp at hsplit

variable {emailHash : String} {states : S} {run : PasswordRun S}

/-- A message is sent. -/
theorem Guarded.send (h : Guarded store emailHash states run) {message : AuthMessage}
    (hsrp : message.isSrpLogin = true → (store.get states emailHash).opaqueSeen = false)
    (hmoves : message.movesAccountKey = true → (store.get states emailHash).accountKey = false)
    (hstretched : ∀ text ∈ message.stretched, ∃ params, .stretched params text ∈ run.events) :
    Guarded store emailHash states { run with events := run.events ++ [.sent message] } := by
  constructor
  · exact h.within
  · intro m hm hs
    rcases List.mem_append.mp hm with hm | hm
    · exact h.srp m hm hs
    · cases List.mem_singleton.mp hm
      exact hsrp hs
  · intro m hm hs
    rcases List.mem_append.mp hm with hm | hm
    · exact h.moves m hm hs
    · cases List.mem_singleton.mp hm
      exact hmoves hs
  · intro id patch hm
    rcases List.mem_append.mp hm with hm | hm
    · exact h.recorded id patch hm
    · cases List.mem_singleton.mp hm
  · apply h.floor.append
    · intro params text he
      cases he
    · intro m he
      cases he
      exact hstretched

/-- A password is stretched. -/
theorem Guarded.stretch (h : Guarded store emailHash states run) {params : KdfParams}
    (text : String) (hparams : params.belowFloor = false) :
    Guarded store emailHash states
      { run with events := run.events ++ [.stretched params text] } := by
  constructor
  · exact h.within
  · intro m hm
    rcases List.mem_append.mp hm with hm | hm
    · exact h.srp m hm
    · cases List.mem_singleton.mp hm
  · intro m hm
    rcases List.mem_append.mp hm with hm | hm
    · exact h.moves m hm
    · cases List.mem_singleton.mp hm
  · intro id patch hm
    rcases List.mem_append.mp hm with hm | hm
    · exact h.recorded id patch hm
    · cases List.mem_singleton.mp hm
  · apply h.floor.append
    · intro params' text' he
      cases he
      exact hparams
    · intro m he
      cases he

/-- The device remembers something of the account. -/
theorem Guarded.remember (h : Guarded store emailHash states run) {patch : AccountPatch}
    (hsets : patch.Sets) : Guarded store emailHash states
      { states := store.update run.states emailHash patch
        events := run.events ++ [.remembered emailHash patch] } := by
  have hkept : ∀ id, (store.get run.states id).Within
      (store.get (store.update run.states emailHash patch) id) := by
    intro id
    rw [store.get_update]
    split
    · rename_i hid
      rw [hid]
      exact within_patched hsets
    · exact .refl _
  constructor
  · intro id
    exact (h.within id).trans (hkept id)
  · intro m hm
    rcases List.mem_append.mp hm with hm | hm
    · exact h.srp m hm
    · cases List.mem_singleton.mp hm
  · intro m hm
    rcases List.mem_append.mp hm with hm | hm
    · exact h.moves m hm
    · cases List.mem_singleton.mp hm
  · intro id patch' hm hpatch
    rcases List.mem_append.mp hm with hm | hm
    · obtain ⟨hid, hkey⟩ := h.recorded id patch' hm hpatch
      exact ⟨hid, (hkept emailHash).2 hkey⟩
    · cases List.mem_singleton.mp hm
      refine ⟨rfl, ?_⟩
      dsimp only
      rw [store.get_update, if_pos rfl, AccountState.patched, hpatch]
      rfl
  · apply h.floor.append
    · intro params text he
      cases he
    · intro m he
      cases he

open PasswordFlow

section Ends

variable {α : Type} {thrown : String → PasswordRun S → Prop}

@[simp] theorem ends_lift {x : Client α} {returned : α → PasswordRun S → Prop} :
    EStateM.Ends (PasswordFlow.lift x) run returned thrown ↔
      (∀ a, x = .ok a → returned a run) ∧ (∀ e, x = .error e → thrown e run) := by
  cases x with
  | ok a => simp [PasswordFlow.lift]
  | error e => simp [PasswordFlow.lift]

@[simp] theorem ends_note {e : PasswordEvent} {returned : Unit → PasswordRun S → Prop} :
    EStateM.Ends (note e) run returned thrown ↔
      returned () { run with events := run.events ++ [e] } := Iff.rfl

@[simp] theorem ends_getState {returned : AccountState → PasswordRun S → Prop} :
    EStateM.Ends (getState store emailHash) run returned thrown ↔
      returned (store.get run.states emailHash) run := Iff.rfl

@[simp] theorem ends_updateState {patch : AccountPatch}
    {returned : Unit → PasswordRun S → Prop} :
    EStateM.Ends (updateState store emailHash patch) run returned thrown ↔
      returned () { states := store.update run.states emailHash patch
                    events := run.events ++ [.remembered emailHash patch] } := Iff.rfl

/-- A request is sent whether or not it is answered. -/
theorem ends_send {message : AuthMessage} {answer : Client α}
    {returned : α → PasswordRun S → Prop} :
    EStateM.Ends (send message answer) run returned thrown ↔
      (∀ a, answer = .ok a → returned a { run with events := run.events ++ [.sent message] }) ∧
        (∀ e, answer = .error e →
          thrown e { run with events := run.events ++ [.sent message] }) := by
  rw [send, EStateM.ends_bind, ends_note, ends_lift]

end Ends

/-- Parameters that pass are at the floor or above. -/
theorem assertKdfFloor_ends (h : Guarded store emailHash states run) (params : KdfParams) :
    EStateM.Ends (assertKdfFloor params) run
      (fun params' run' => run' = run ∧ params'.belowFloor = false)
      (fun _ => Guarded store emailHash states) := by
  rw [assertKdfFloor, EStateM.ends_bind, EStateM.ends_throwUnless]
  constructor
  · intro hfloor
    exact ⟨rfl, by simpa using hfloor⟩
  · intro _
    exact h

/-- A login that is finished was stretched at the floor or above. -/
theorem finishLogin_ends (h : Guarded store emailHash states run)
    (clientLoginState password : String) (started : OpaqueStartResponse) :
    EStateM.Ends (finishLogin peer clientLoginState password started) run
      (fun finished run' => Guarded store emailHash states run' ∧ run'.states = run.states ∧
        ∀ text ∈ finished, ∃ params, .stretched params text ∈ run'.events)
      (fun _ => Guarded store emailHash states) := by
  rw [finishLogin, EStateM.ends_bind]
  apply (assertKdfFloor_ends h started.kdfParams).mono _ fun _ _ h' => h'
  rintro params run' ⟨rfl, hparams⟩
  rw [EStateM.ends_bind, ends_lift]
  constructor
  · intro finished _
    cases finished with
    | none => exact ⟨h, rfl, nofun⟩
    | some text =>
      refine ⟨h.stretch text hparams, rfl, ?_⟩
      intro text' htext
      cases htext
      exact ⟨params, List.mem_append_right _ (List.mem_singleton_self _)⟩
  · intro _ _
    exact h

/-- So was a registration. -/
theorem finishRegistration_ends (h : Guarded store emailHash states run)
    (clientRegistrationState password : String) (started : UpgradeStartResponse) :
    EStateM.Ends (finishRegistration peer clientRegistrationState password started) run
      (fun text run' => Guarded store emailHash states run' ∧ run'.states = run.states ∧
        ∃ params, .stretched params text ∈ run'.events)
      (fun _ => Guarded store emailHash states) := by
  rw [finishRegistration, EStateM.ends_bind]
  apply (assertKdfFloor_ends h started.kdfParams).mono _ fun _ _ h' => h'
  rintro params run' ⟨rfl, hparams⟩
  rw [EStateM.ends_bind, ends_lift]
  constructor
  · intro text _
    exact ⟨h.stretch text hparams, rfl, params,
      List.mem_append_right _ (List.mem_singleton_self _)⟩
  · intro _ _
    exact h

/-- A message is sent, and answered or not. -/
theorem send_ends (h : Guarded store emailHash states run) {α : Type} {message : AuthMessage}
    (hsrp : message.isSrpLogin = true → (store.get states emailHash).opaqueSeen = false)
    (hmoves : message.movesAccountKey = true → (store.get states emailHash).accountKey = false)
    (hstretched : ∀ text ∈ message.stretched, ∃ params, .stretched params text ∈ run.events)
    (answer : Client α) :
    EStateM.Ends (send message answer) run
      (fun _ run' => Guarded store emailHash states run' ∧ run'.states = run.states)
      (fun _ => Guarded store emailHash states) := by
  have hsent := h.send hsrp hmoves hstretched
  rw [ends_send]
  constructor
  · intro _ _
    exact ⟨hsent, rfl⟩
  · intro _ _
    exact hsent

variable (store c peer) in
/-- A login over OPAQUE is remembered, and one over SRP is for an account not seen there. -/
theorem loginWithPassword_ends (email password : String) (deviceId : Option String)
    (states : S) :
    EStateM.Ends (loginWithPassword store c peer email password deviceId) ⟨states, []⟩
      (fun result run' => Guarded store (c.computeEmailHash email) states run' ∧
        (result.2 = .opaqueLogin →
          (store.get run'.states (c.computeEmailHash email)).opaqueSeen = true))
      (fun _ => Guarded store (c.computeEmailHash email) states) := by
  have hstart : Guarded store (c.computeEmailHash email) states ⟨states, []⟩ :=
    guarded_start _ _
  rw [loginWithPassword]
  dsimp only
  rw [EStateM.ends_bind]
  apply (send_ends hstart (by nofun) (by nofun) (by nofun) peer.opaqueLoginStart).mono _ fun _ _ h => h
  rintro started run ⟨h, hstates⟩
  rw [EStateM.ends_bind]
  apply (finishLogin_ends h _ password started).mono _ fun _ _ h => h
  rintro finished run' ⟨h, hstates', hstretched⟩
  have hsame : run'.states = states := hstates'.trans hstates
  cases finished with
  | some finishLoginRequest =>
    dsimp only
    rw [EStateM.ends_bind]
    apply (send_ends h (by nofun) (by nofun) _ peer.opaqueLoginFinish).mono _ fun _ _ h => h
    · intro text htext
      exact hstretched text htext
    · rintro session run'' ⟨h, -⟩
      rw [EStateM.ends_bind, ends_updateState, EStateM.ends_pure]
      refine ⟨h.remember ⟨nofun, nofun⟩, fun _ => ?_⟩
      rw [store.get_update, if_pos rfl]
      rfl
  | none =>
    dsimp only
    rw [EStateM.ends_bind, ends_getState, EStateM.ends_bind, EStateM.ends_throwUnless]
    constructor
    · intro hseen
      rw [hsame, Bool.not_eq_true'] at hseen
      rw [EStateM.ends_bind]
      apply (send_ends h (fun _ => hseen) (by nofun) (by nofun) peer.srpInit).mono _ fun _ _ h => h
      rintro init run₁ ⟨h, -⟩
      rw [EStateM.ends_bind, ends_lift]
      constructor
      · rintro ⟨clientProofM1, verifyServerProof⟩ _
        dsimp only
        rw [EStateM.ends_bind]
        apply (send_ends h (fun _ => hseen) (by nofun) (by nofun) peer.srpVerify).mono _ fun _ _ h => h
        rintro verified run₂ ⟨h, -⟩
        rw [EStateM.ends_bind, ends_lift]
        constructor
        · intro _ _
          exact ⟨h, nofun⟩
        · intro _ _
          exact h
      · intro _ _
        exact h
    · intro _
      exact h

/-- A proof of the password was stretched at the floor or above. -/
theorem provePassword_ends (h : Guarded store emailHash states run)
    (email password purpose : String) :
    EStateM.Ends (provePassword c peer email password purpose) run
      (fun proof run' => Guarded store emailHash states run' ∧ run'.states = run.states ∧
        ∃ params, .stretched params proof.finishLoginRequest ∈ run'.events)
      (fun _ => Guarded store emailHash states) := by
  rw [provePassword]
  dsimp only
  rw [EStateM.ends_bind]
  apply (send_ends h (by nofun) (by nofun) (by nofun) peer.proofStart).mono _ fun _ _ h => h
  rintro started run₁ ⟨h, hstates⟩
  rw [EStateM.ends_bind]
  apply (finishLogin_ends h _ password started).mono _ fun _ _ h => h
  rintro finished run₂ ⟨h, hstates', hstretched⟩
  rw [EStateM.ends_bind]
  cases finished with
  | none => exact h
  | some text => exact ⟨h, hstates'.trans hstates, hstretched text rfl⟩

/-- An upgrade is for an account not seen with an account key. -/
theorem upgradeFromSrp_ends (h : Guarded store emailHash states run)
    (hkey : (store.get states emailHash).accountKey = false) (email password : String)
    (wrapped : WrappedAccountKey) (privateKey : Option (String × String)) :
    EStateM.Ends (upgradeFromSrp c peer email password wrapped privateKey) run
      (fun _ run' => Guarded store emailHash states run' ∧ run'.states = run.states)
      (fun _ => Guarded store emailHash states) := by
  rw [upgradeFromSrp]
  dsimp only
  rw [EStateM.ends_bind]
  apply (send_ends h (by nofun) (fun _ => hkey) (by nofun) peer.upgradeStart).mono _ fun _ _ h => h
  rintro started run₁ ⟨h, hstates₁⟩
  rw [EStateM.ends_bind, ends_lift]
  constructor
  · rintro ⟨clientProofM1, verifyServerProof⟩ _
    dsimp only
    rw [EStateM.ends_bind]
    apply (finishRegistration_ends h _ password started).mono _ fun _ _ h => h
    rintro text run₂ ⟨h, hstates₂, hstretched⟩
    rw [EStateM.ends_bind]
    apply (send_ends h (by nofun) (fun _ => hkey) _ peer.upgradeFinish).mono _ fun _ _ h => h
    · intro text' htext
      cases htext
      exact hstretched
    · rintro serverProofM2 run₃ ⟨h, hstates₃⟩
      rw [ends_lift]
      constructor
      · intro _ _
        exact ⟨h, hstates₃.trans (hstates₂.trans hstates₁)⟩
      · intro _ _
        exact h
  · intro _ _
    exact h

/-- What a move to an account key records. -/
def movedPatch : LoginMethod → AccountPatch
  | .srp => { opaqueSeen := some true, accountKey := some true }
  | .opaqueLogin => { accountKey := some true }

/-- A move to an account key records it, and OPAQUE with an upgrade. -/
theorem moveAccount_ends {email : String}
    (h : Guarded store (c.computeEmailHash email) states run) (hstates : run.states = states)
    (hkey : (store.get states (c.computeEmailHash email)).accountKey = false) (password : String)
    (wrapped : WrappedAccountKey) (privateKey : Option (String × String)) (method : LoginMethod) :
    EStateM.Ends (moveAccount store c peer email password wrapped privateKey method) run
      (fun _ run' => Guarded store (c.computeEmailHash email) states run' ∧
        run'.states = store.update states (c.computeEmailHash email) (movedPatch method))
      (fun _ => Guarded store (c.computeEmailHash email) states) := by
  cases method with
  | srp =>
    rw [moveAccount, EStateM.ends_bind]
    apply (upgradeFromSrp_ends h hkey email password wrapped privateKey).mono _ fun _ _ h => h
    rintro _ run₁ ⟨h, hstates₁⟩
    rw [ends_updateState]
    refine ⟨h.remember ⟨nofun, nofun⟩, ?_⟩
    rw [hstates₁, hstates]
    rfl
  | opaqueLogin =>
    rw [moveAccount, EStateM.ends_bind]
    apply (provePassword_ends h email password "account_key").mono _ fun _ _ h => h
    rintro proof run₁ ⟨h, hstates₁, hstretched⟩
    rw [EStateM.ends_bind]
    apply (send_ends h (by nofun) (fun _ => hkey) _ peer.setAccountKey).mono _ fun _ _ h => h
    · intro text htext
      cases htext
      exact hstretched
    · rintro _ run₂ ⟨h, hstates₂⟩
      rw [ends_updateState]
      refine ⟨h.remember ⟨nofun, nofun⟩, ?_⟩
      rw [hstates₂, hstates₁, hstates]
      rfl

/-- The wrap that a session carries. -/
def sessionWrap (session : LoginResponse) : Option WrappedAccountKey :=
  (truthyPair session.wrappedAccountKey session.wrappedAccountKeyIv).map fun wrap =>
    ⟨wrap.1, wrap.2⟩

variable (store c peer) in
/-- Without a wrap an unlock moves the account, which it does for one not seen with an account
key; the keys that it returns otherwise were unwrapped. -/
theorem unlockAccount_ends (ivs : UnlockIvs) (email password : String) (session : LoginResponse)
    (method : LoginMethod) (states : S) :
    EStateM.Ends (PasswordFlow.unlockAccount store c peer ivs email password session method)
      ⟨states, []⟩
      (fun account run' => Guarded store (c.computeEmailHash email) states run' ∧
        (sessionWrap session = none → method = .srp →
          (store.get run'.states (c.computeEmailHash email)).opaqueSeen = true) ∧
        ((store.get states (c.computeEmailHash email)).accountKey = true →
          ∃ wrap ∈ sessionWrap session,
            unwrapAccountKey c wrap (c.deriveMasterKey password email) email = .ok account.key) ∧
        ∀ api : AccountKeyApi,
          (∀ wrapped privateKey, api.setAccountKey password wrapped privateKey = .ok () ∧
            api.upgradeFromSrp password wrapped privateKey = .ok ()) →
          Nopass.unlockAccount c api ivs email password session method
            (store.get states (c.computeEmailHash email)) =
              .ok (account, store.get run'.states (c.computeEmailHash email)))
      (fun _ => Guarded store (c.computeEmailHash email) states) := by
  have hstart : Guarded store (c.computeEmailHash email) states ⟨states, []⟩ :=
    guarded_start _ _
  rw [PasswordFlow.unlockAccount]
  dsimp only
  cases hwrap : truthyPair session.wrappedAccountKey session.wrappedAccountKeyIv with
  | some wrap =>
    have hsession : sessionWrap session = some ⟨wrap.1, wrap.2⟩ := by
      rw [sessionWrap, hwrap]
      rfl
    dsimp only
    rw [EStateM.ends_bind, ends_lift]
    constructor
    · intro key hkey
      rw [EStateM.ends_bind, ends_updateState, EStateM.ends_pure]
      refine ⟨hstart.remember ⟨nofun, nofun⟩, ?_, fun _ => ⟨_, hsession, hkey⟩, ?_⟩
      · intro hnone
        rw [hsession] at hnone
        cases hnone
      · intro api _
        rw [Nopass.unlockAccount, hwrap, store.get_update, if_pos rfl]
        dsimp only
        rw [hkey]
        rfl
    · intro _ _
      exact hstart
  | none =>
    dsimp only
    rw [EStateM.ends_bind, ends_getState, EStateM.ends_bind, EStateM.ends_throwUnless]
    constructor
    · intro hkey
      rw [Bool.not_eq_true'] at hkey
      rw [EStateM.ends_bind, ends_lift]
      constructor
      · intro privateKey hprivate
        rw [EStateM.ends_bind]
        apply (moveAccount_ends hstart rfl hkey password _ privateKey method).mono _
          fun _ _ h => h
        rintro _ run₁ ⟨h, hstates⟩
        rw [EStateM.ends_pure]
        refine ⟨h, ?_, ?_, ?_⟩
        · intro _ hmethod
          rw [hstates, store.get_update, if_pos rfl, hmethod]
          rfl
        · intro hset
          rw [hkey] at hset
          cases hset
        · intro api haccepts
          rw [Nopass.unlockAccount, hwrap, hstates, store.get_update, if_pos rfl]
          dsimp only
          rw [hkey, if_neg Bool.false_ne_true, unlockLegacy, hprivate]
          cases method with
          | srp =>
            change (migrate api password _ privateKey _ .srp >>= _) = _
            rw [migrate, (haccepts _ _).2]
            rfl
          | opaqueLogin =>
            change (migrate api password _ privateKey _ .opaqueLogin >>= _) = _
            rw [migrate, (haccepts _ _).1]
            rfl
      · intro _ _
        exact hstart
    · intro _
      exact hstart

/-- An unlock that returns is the unlock of an account whose requests are granted. -/
theorem unlockAccount_refines {ivs : UnlockIvs} {email password : String}
    {session : LoginResponse} {method : LoginMethod} {account : UnlockedAccount}
    (h : PasswordFlow.unlockAccount store c peer ivs email password session method ⟨states, []⟩ =
      .ok account run) (api : AccountKeyApi)
    (haccepts : ∀ wrapped privateKey, api.setAccountKey password wrapped privateKey = .ok () ∧
      api.upgradeFromSrp password wrapped privateKey = .ok ()) :
    Nopass.unlockAccount c api ivs email password session method
      (store.get states (c.computeEmailHash email)) =
        .ok (account, store.get run.states (c.computeEmailHash email)) :=
  ((unlockAccount_ends store c peer ivs email password session method states).of_ok h).2.2.2 api
    haccepts

end Guard

/-! ## Sequences of runs -/

/-- A run that a client begins, with what it meets. -/
inductive PasswordCall where
  | login (peer : PasswordPeer) (email password : String) (deviceId : Option String)
  | unlock (peer : PasswordPeer) (ivs : UnlockIvs) (email password : String)
      (session : LoginResponse) (method : LoginMethod)

/-- What a run came to. -/
inductive PasswordOutcome where
  | loggedIn (method : LoginMethod)
  | unlocked (account : UnlockedAccount)
  | failed

/-- A run that has ended. -/
structure EndedRun where
  call : PasswordCall
  events : List PasswordEvent
  outcome : PasswordOutcome

/-- The email of a run. -/
def PasswordCall.email : PasswordCall → String
  | .login _ email _ _ => email
  | .unlock _ _ email _ _ _ => email

section Sequences

variable {S : Type} (store : AccountStateStore S) (c : AccountCrypto)

/-- One run: what it leaves in the store, and its record. -/
def PasswordCall.perform (states : S) : PasswordCall → S × EndedRun
  | .login peer email password deviceId =>
    match PasswordFlow.loginWithPassword store c peer email password deviceId ⟨states, []⟩ with
    | .ok (_, method) run =>
      (run.states, ⟨.login peer email password deviceId, run.events, .loggedIn method⟩)
    | .error _ run => (run.states, ⟨.login peer email password deviceId, run.events, .failed⟩)
  | .unlock peer ivs email password session method =>
    match PasswordFlow.unlockAccount store c peer ivs email password session method
        ⟨states, []⟩ with
    | .ok account run =>
      (run.states, ⟨.unlock peer ivs email password session method, run.events,
        .unlocked account⟩)
    | .error _ run =>
      (run.states, ⟨.unlock peer ivs email password session method, run.events, .failed⟩)

/-- A sequence of runs. -/
def performAll : List PasswordCall → S → List EndedRun
  | [], _ => []
  | call :: rest, states =>
    let (states', run) := call.perform store c states
    run :: performAll rest states'

/-- The first run, and the rest from what it left in the store. -/
theorem performAll_cons (call : PasswordCall) (rest : List PasswordCall) (states : S) :
    performAll store c (call :: rest) states =
      (call.perform store c states).2 ::
        performAll store c rest (call.perform store c states).1 := rfl

variable (run : EndedRun)

/-- A login succeeded over OPAQUE, or an SRP upgrade completed. -/
def EndedRun.overOpaque : Bool :=
  match run.outcome, run.call with
  | .loggedIn .opaqueLogin, _ => true
  | .unlocked _, .unlock _ _ _ _ session .srp => (sessionWrap session).isNone
  | _, _ => false

/-- The account key was recorded. -/
def EndedRun.RecordedAccountKey : Prop :=
  ∃ patch, .remembered (c.computeEmailHash run.call.email) patch ∈ run.events ∧
    patch.accountKey = some true

/-- Keys that a run returns were unwrapped from what the server sent. -/
def EndedRun.Unwraps : Prop :=
  match run.outcome, run.call with
  | .unlocked account, .unlock _ _ email password session _ =>
    ∃ wrap ∈ sessionWrap session,
      unwrapAccountKey c wrap (c.deriveMasterKey password email) email = .ok account.key
  | _, _ => True

/-- No run goes back behind what an earlier run of the account has shown, and none stretches
below the floor. -/
structure DowngradeResistant (runs : List EndedRun) : Prop where
  srp : runs.Pairwise fun run run' => run.overOpaque = true →
    c.computeEmailHash run'.call.email = c.computeEmailHash run.call.email →
    ∀ message, .sent message ∈ run'.events → message.isSrpLogin = false
  accountKey : runs.Pairwise fun run run' => run.RecordedAccountKey c →
    c.computeEmailHash run'.call.email = c.computeEmailHash run.call.email →
    (∀ message, .sent message ∈ run'.events → message.movesAccountKey = false) ∧ run'.Unwraps c
  floor : ∀ run ∈ runs, FloorKept run.events

/-- What one run has done, given what the device knew before it. -/
structure RunSpec (states states' : S) (run : EndedRun) : Prop where
  guarded : Guarded store (c.computeEmailHash run.call.email) states ⟨states', run.events⟩
  overOpaque : run.overOpaque = true →
    (store.get states' (c.computeEmailHash run.call.email)).opaqueSeen = true
  unwraps : (store.get states (c.computeEmailHash run.call.email)).accountKey = true →
    run.Unwraps c

variable {store c}

variable (store c) in
/-- Every run keeps to it. -/
theorem runSpec_perform (call : PasswordCall) (states : S) :
    RunSpec store c states (call.perform store c states).1 (call.perform store c states).2 := by
  cases call with
  | login peer email password deviceId =>
    have h := loginWithPassword_ends store c peer email password deviceId states
    rw [PasswordCall.perform]
    unfold EStateM.Ends at h
    cases hrun : PasswordFlow.loginWithPassword store c peer email password deviceId
        ⟨states, []⟩ with
    | ok result run =>
      rw [hrun] at h
      obtain ⟨session, method⟩ := result
      refine ⟨h.1, fun hover => h.2 ?_, fun _ => trivial⟩
      cases method with
      | opaqueLogin => rfl
      | srp => cases hover
    | error e run =>
      rw [hrun] at h
      exact ⟨h, nofun, fun _ => trivial⟩
  | unlock peer ivs email password session method =>
    have h := unlockAccount_ends store c peer ivs email password session method states
    rw [PasswordCall.perform]
    unfold EStateM.Ends at h
    cases hrun : PasswordFlow.unlockAccount store c peer ivs email password session method
        ⟨states, []⟩ with
    | ok account run =>
      rw [hrun] at h
      refine ⟨h.1, fun hover => ?_, h.2.2.1⟩
      cases method with
      | opaqueLogin => cases hover
      | srp => exact h.2.1 (Option.isNone_iff_eq_none.mp hover) rfl
    | error e run =>
      rw [hrun] at h
      exact ⟨h, nofun, fun _ => trivial⟩

/-- Later runs begin with at least what the device knew before. -/
theorem exists_runSpec_of_mem {calls : List PasswordCall} {states : S} {run : EndedRun}
    (h : run ∈ performAll store c calls states) :
    ∃ before after, (∀ id, (store.get states id).Within (store.get before id)) ∧
      RunSpec store c before after run := by
  induction calls generalizing states with
  | nil => cases h
  | cons call rest ih =>
    have hspec := runSpec_perform store c call states
    rcases List.mem_cons.mp h with rfl | h
    · exact ⟨states, _, fun _ => .refl _, hspec⟩
    · obtain ⟨before, after, hwithin, hrun⟩ := ih h
      exact ⟨before, after, fun id => (hspec.guarded.within id).trans (hwithin id), hrun⟩

/-- Whatever the server answers, no sequence of logins and unlocks is taken back to SRP, to
legacy keys or to weak hashing. -/
theorem downgradeResistant (store : AccountStateStore S) (c : AccountCrypto) (states : S)
    (calls : List PasswordCall) : DowngradeResistant c (performAll store c calls states) := by
  constructor
  · induction calls generalizing states with
    | nil => exact .nil
    | cons call rest ih =>
      have hspec := runSpec_perform store c call states
      rw [performAll_cons]
      apply List.Pairwise.cons _ (ih _)
      intro run' hrun' hover hemail message hmem
      obtain ⟨before, after, hwithin, hspec'⟩ := exists_runSpec_of_mem hrun'
      have hseen := (hwithin _).1 (hspec.overOpaque hover)
      by_contra hsrp
      have hunseen := hspec'.guarded.srp message hmem (by simpa using hsrp)
      rw [hemail, hseen] at hunseen
      cases hunseen
  · induction calls generalizing states with
    | nil => exact .nil
    | cons call rest ih =>
      have hspec := runSpec_perform store c call states
      rw [performAll_cons]
      apply List.Pairwise.cons _ (ih _)
      rintro run' hrun' ⟨patch, hremembered, hpatch⟩ hemail
      obtain ⟨before, after, hwithin, hspec'⟩ := exists_runSpec_of_mem hrun'
      have hset := (hwithin _).2 (hspec.guarded.recorded _ patch hremembered hpatch).2
      constructor
      · intro message hmem
        by_contra hmoves
        have hunset := hspec'.guarded.moves message hmem (by simpa using hmoves)
        rw [hemail, hset] at hunset
        cases hunset
      · apply hspec'.unwraps
        rw [hemail]
        exact hset
  · intro run hrun
    obtain ⟨before, after, -, hspec⟩ := exists_runSpec_of_mem hrun
    exact hspec.guarded.floor

end Sequences

end Nopass
