import Nopass.Client.Envelope
import Nopass.Core.Run

/-!
# The extension's lock

Unlocking, locking and the restore after a restart of the service worker each run up to an
`await` and go on when it is answered, in any order. A lock counts up a generation, and a
restore that was in flight then gives up. An unlock in flight does not look at the
generation, and a restore that starts while a lock still waits for the storage reads the new
one: both bring the vault back after the lock. Without them, a lock that has completed is
final.
-/

namespace Nopass

/-- `PersistedSession`, the record in `storage.session`. -/
structure PersistedSession where
  sessionToken : String
  defaultVaultId : String
  encKeyB64 : String
  macKeyB64 : String
  deriving DecidableEq, Repr

/-- The unlocked vault of the service worker, with imported keys and a revision store. -/
structure VaultState (Key Revisions : Type) where
  sessionToken : String
  defaultVaultId : String
  vaultEncKey : Key
  vaultMacKey : Key
  items : List EncryptedVaultItem
  revisions : Revisions
  deriving DecidableEq

/-- Where a flow waits, with what it holds there. -/
inductive Flow (Key : Type) where
  /-- UNLOCK: the keys are imported. -/
  | unlockImport (message : PersistedSession)
  /-- The items are fetched. -/
  | unlockItems (message : PersistedSession) (keys : Key × Key)
  /-- The revisions are loaded. -/
  | unlockRevisions (message : PersistedSession) (keys : Key × Key)
      (items : List EncryptedVaultItem)
  /-- The alarm is set. -/
  | unlockAlarm (message : PersistedSession)
  /-- The session is persisted. -/
  | unlockPersist (message : PersistedSession)
  /-- `lockVault`: the persisted session is read for its token. -/
  | lockGet
  /-- The persisted session is removed. -/
  | lockRemove
  /-- The alarm is cleared. -/
  | lockAlarm
  /-- `restoreVaultState`: the persisted session is read. -/
  | restoreGet (generation : Nat)
  | restoreImport (generation : Nat) (stored : PersistedSession)
  | restoreItems (generation : Nat) (stored : PersistedSession) (keys : Key × Key)
  | restoreRevisions (generation : Nat) (stored : PersistedSession) (keys : Key × Key)
      (items : List EncryptedVaultItem)
  /-- A session that the server rejected is dropped. -/
  | restoreDrop
  /-- A lock that has completed. -/
  | locked
  /-- Any other end. -/
  | ended
  deriving DecidableEq

/-- What an `await` comes to. -/
inductive Answer (Key Revisions : Type) where
  | done
  | keys (keys : Key × Key)
  | items (items : List EncryptedVaultItem)
  | revisions (revisions : Revisions)
  | failed

/-- The service worker and its session storage. -/
structure ServiceWorker (Key Revisions : Type) where
  vaultState : Option (VaultState Key Revisions)
  session : Option PersistedSession
  lockGeneration : Nat
  /-- A restore is in flight. -/
  restoring : Bool
  /-- The flows in the order in which they began. -/
  flows : List (Flow Key)

/-- What happens to the service worker. -/
inductive WorkerEvent (Key Revisions : Type) where
  | unlock (message : PersistedSession)
  /-- LOCK, the alarm or the idle state. -/
  | lock
  /-- Any other message while the vault is locked. -/
  | restore
  /-- A flow goes on with the answer that it waited for. -/
  | resume (flow : Nat) (answer : Answer Key Revisions)

namespace ServiceWorker

variable {Key Revisions : Type}

/-- A flow waits somewhere else. -/
def goOn (w : ServiceWorker Key Revisions) (i : Nat) (flow : Flow Key) :
    ServiceWorker Key Revisions :=
  { w with flows := w.flows.set i flow }

/-- A restore ends. -/
def endRestore (w : ServiceWorker Key Revisions) (i : Nat) : ServiceWorker Key Revisions :=
  { w with flows := w.flows.set i .ended, restoring := false }

/-- A new flow. -/
def begin_ (w : ServiceWorker Key Revisions) (flow : Flow Key) : ServiceWorker Key Revisions :=
  { w with flows := w.flows ++ [flow] }

/-- The vault of a session with its keys, items and revisions. -/
def opened (stored : PersistedSession) (keys : Key × Key) (items : List EncryptedVaultItem)
    (revisions : Revisions) : VaultState Key Revisions where
  sessionToken := stored.sessionToken
  defaultVaultId := stored.defaultVaultId
  vaultEncKey := keys.1
  vaultMacKey := keys.2
  items := items
  revisions := revisions

/-- `lockVault` up to its first `await`. -/
def lockVault (w : ServiceWorker Key Revisions) : ServiceWorker Key Revisions :=
  let w := { w with lockGeneration := w.lockGeneration + 1 }
  match w.vaultState with
  | some _ => { w with vaultState := none }.begin_ .lockRemove
  | none => w.begin_ .lockGet

/-- `restoreVaultState` up to its first `await`. -/
def restoreVaultState (w : ServiceWorker Key Revisions) : ServiceWorker Key Revisions :=
  if w.restoring then w
  else if w.vaultState.isSome then w
  else { w with restoring := true }.begin_ (.restoreGet w.lockGeneration)

/-- The handler of a restore that failed. -/
def restoreFailed (w : ServiceWorker Key Revisions) (i generation : Nat) :
    ServiceWorker Key Revisions :=
  if w.lockGeneration = generation then w.goOn i .restoreDrop else w.endRestore i

/-- A flow goes on. -/
def resume (w : ServiceWorker Key Revisions) (i : Nat) (flow : Flow Key) :
    Answer Key Revisions → Option (ServiceWorker Key Revisions)
  | .done =>
    match flow with
    | .unlockAlarm message => some (w.goOn i (.unlockPersist message))
    | .unlockPersist message => some ({ w with session := some message }.goOn i .ended)
    | .lockGet => some ({ w with vaultState := none }.goOn i .lockRemove)
    | .lockRemove => some ({ w with session := none }.goOn i .lockAlarm)
    | .lockAlarm => some (w.goOn i .locked)
    | .restoreGet generation =>
      match w.session with
      | none => some (w.endRestore i)
      | some stored => some (w.goOn i (.restoreImport generation stored))
    | .restoreDrop => some ({ w with session := none }.endRestore i)
    | _ => none
  | .keys keys =>
    match flow with
    | .unlockImport message => some (w.goOn i (.unlockItems message keys))
    | .restoreImport generation stored => some (w.goOn i (.restoreItems generation stored keys))
    | _ => none
  | .items items =>
    match flow with
    | .unlockItems message keys =>
      some ({ w with lockGeneration := w.lockGeneration + 1 }.goOn i
        (.unlockRevisions message keys items))
    | .restoreItems generation stored keys =>
      some (w.goOn i (.restoreRevisions generation stored keys items))
    | _ => none
  | .revisions revisions =>
    match flow with
    | .unlockRevisions message keys items =>
      some ({ w with vaultState := some (opened message keys items revisions) }.goOn i
        (.unlockAlarm message))
    | .restoreRevisions generation stored keys items =>
      if w.lockGeneration ≠ generation ∨ w.vaultState.isSome then some (w.endRestore i)
      else some ({ w with vaultState := some (opened stored keys items revisions) }.endRestore i)
    | _ => none
  | .failed =>
    match flow with
    | .unlockImport _ | .unlockItems _ _ | .unlockRevisions _ _ _ | .unlockAlarm _ |
      .unlockPersist _ | .lockGet | .lockRemove | .lockAlarm => some (w.goOn i .ended)
    | .restoreGet _ | .restoreDrop => some (w.endRestore i)
    | .restoreImport generation _ | .restoreItems generation _ _ |
      .restoreRevisions generation _ _ _ => some (w.restoreFailed i generation)
    | .locked | .ended => none

/-- One event. -/
def step (w : ServiceWorker Key Revisions) :
    WorkerEvent Key Revisions → Option (ServiceWorker Key Revisions)
  | .unlock message => some (w.begin_ (.unlockImport message))
  | .lock => some w.lockVault
  | .restore => some w.restoreVaultState
  | .resume i answer => w.flows[i]?.bind fun flow => w.resume i flow answer

/-- The service worker has started; a session may have been persisted. -/
def started (session : Option PersistedSession) : ServiceWorker Key Revisions where
  vaultState := none
  session := session
  lockGeneration := 0
  restoring := false
  flows := []

end ServiceWorker

/-- An unlock in flight. -/
def Flow.unlocking {Key : Type} : Flow Key → Bool
  | .unlockImport _ | .unlockItems _ _ | .unlockRevisions _ _ _ | .unlockAlarm _ |
    .unlockPersist _ => true
  | _ => false

/-- An unlock that is about to open the vault. -/
def Flow.opensVault {Key : Type} : Flow Key → Bool
  | .unlockRevisions _ _ _ => true
  | _ => false

/-- An unlock that is about to persist the session. -/
def Flow.persists {Key : Type} : Flow Key → Bool
  | .unlockPersist _ => true
  | _ => false

/-- What opens the vault is an unlock in flight. -/
theorem Flow.unlocking_of_opensVault {Key : Type} {f : Flow Key} (h : f.opensVault = true) :
    f.unlocking = true := by
  cases f with
  | unlockRevisions => rfl
  | _ => cases h

/-- What persists the session is an unlock in flight. -/
theorem Flow.unlocking_of_persists {Key : Type} {f : Flow Key} (h : f.persists = true) :
    f.unlocking = true := by
  cases f with
  | unlockPersist => rfl
  | _ => cases h

/-- A lock that has not removed the session yet. -/
def Flow.locking {Key : Type} : Flow Key → Bool
  | .lockGet | .lockRemove => true
  | _ => false

/-- A lock that has closed the vault. -/
def Flow.closedVault {Key : Type} : Flow Key → Bool
  | .lockRemove | .lockAlarm | .locked => true
  | _ => false

/-- A lock that has removed the session. -/
def Flow.removedSession {Key : Type} : Flow Key → Bool
  | .lockAlarm | .locked => true
  | _ => false

/-- The generation that a restore goes by. -/
def Flow.generation {Key : Type} : Flow Key → Option Nat
  | .restoreGet generation | .restoreImport generation _ | .restoreItems generation _ _ |
    .restoreRevisions generation _ _ _ => some generation
  | _ => none

/-- A restore of this generation that is about to read the session. -/
def Flow.readsSession {Key : Type} (generation : Nat) : Flow Key → Bool
  | .restoreGet g => g == generation
  | _ => false

section Final

variable {Key Revisions : Type}

/-- A lock that has completed keeps the vault locked and the session away up to the next unlock. -/
def LockIsFinal (events : List (WorkerEvent Key Revisions)) (w₀ : ServiceWorker Key Revisions) :
    Prop :=
  ∀ before after, events = before ++ .lock :: after →
    (∀ e ∈ after, ∀ message, e ≠ .unlock message) →
    ∀ w₁ w₂, runEvents ServiceWorker.step before w₀ = some w₁ →
      runEvents ServiceWorker.step (.lock :: after) w₁ = some w₂ →
      w₂.flows[w₁.flows.length]? = some .locked → w₂.vaultState = none ∧ w₂.session = none

/-- No unlock opens the vault or persists its session once a lock that began after it has
closed the one or removed the other, and no restore reads, under the current generation, a
session that a lock is about to remove. -/
def LockUndisturbed (w : ServiceWorker Key Revisions) : WorkerEvent Key Revisions → Prop
  | .resume i (.revisions _) =>
    ∀ flow ∈ w.flows[i]?, flow.opensVault = true →
      ∀ later ∈ w.flows.drop (i + 1), later.closedVault = false
  | .resume i .done =>
    ∀ flow ∈ w.flows[i]?,
      (flow.persists = true → ∀ later ∈ w.flows.drop (i + 1), later.removedSession = false) ∧
      (flow.readsSession w.lockGeneration = true → w.session.isSome = true →
        ∀ f ∈ w.flows, f.locking = false)
  | _ => True

instance (w : ServiceWorker Key Revisions) : ∀ e, Decidable (LockUndisturbed w e)
  | .resume i (.revisions _) => inferInstanceAs (Decidable (∀ flow ∈ w.flows[i]?,
      flow.opensVault = true → ∀ later ∈ w.flows.drop (i + 1), later.closedVault = false))
  | .resume i .done => inferInstanceAs (Decidable (∀ flow ∈ w.flows[i]?,
      (flow.persists = true → ∀ later ∈ w.flows.drop (i + 1), later.removedSession = false) ∧
      (flow.readsSession w.lockGeneration = true → w.session.isSome = true →
        ∀ f ∈ w.flows, f.locking = false)))
  | .unlock _ | .lock | .restore | .resume _ (.keys _) | .resume _ (.items _) |
    .resume _ .failed => inferInstanceAs (Decidable True)

variable {w w' : ServiceWorker Key Revisions}

/-- No restore is ahead of the generation. -/
def GenerationsPast (w : ServiceWorker Key Revisions) : Prop :=
  ∀ f ∈ w.flows, ∀ g ∈ f.generation, g ≤ w.lockGeneration

/-- A lock counts up the generation and locks the vault at once. -/
theorem lockVault_eq (w : ServiceWorker Key Revisions) :
    ∃ f, f.locking = true ∧ w.lockVault = { w with
      vaultState := none
      lockGeneration := w.lockGeneration + 1
      flows := w.flows ++ [f] } := by
  cases hv : w.vaultState with
  | none =>
    refine ⟨.lockGet, rfl, ?_⟩
    simp only [ServiceWorker.lockVault, ServiceWorker.begin_, hv]
  | some vault =>
    refine ⟨.lockRemove, rfl, ?_⟩
    simp only [ServiceWorker.lockVault, ServiceWorker.begin_, hv]

/-- A restore begins with the current generation, or there is nothing to do. -/
theorem restoreVaultState_cases (w : ServiceWorker Key Revisions) :
    w.restoreVaultState = w ∨
      (w.restoring = false ∧ w.vaultState = none ∧ w.restoreVaultState = { w with
        restoring := true
        flows := w.flows ++ [.restoreGet w.lockGeneration] }) := by
  unfold ServiceWorker.restoreVaultState
  by_cases hr : w.restoring = true
  · rw [if_pos hr]
    exact .inl rfl
  · rw [if_neg hr]
    by_cases hv : w.vaultState.isSome = true
    · rw [if_pos hv]
      exact .inl rfl
    · rw [if_neg hv]
      exact .inr ⟨by simpa using hr, by simpa using hv, rfl⟩

/-- What most flows do: the vault and the session stay or go, and a restore keeps its
generation. It leaves the storage with the session that it found there. -/
structure Recedes (w w' : ServiceWorker Key Revisions) (i : Nat) (f f' : Flow Key)
    (answer : Answer Key Revisions) : Prop where
  vaultState : w'.vaultState = w.vaultState ∨ w'.vaultState = none
  session : w'.session = w.session ∨ w'.session = none
  lockGeneration : w.lockGeneration ≤ w'.lockGeneration
  flows : w'.flows = w.flows.set i f'
  unlocking : f'.unlocking = true → f.unlocking = true
  generation : ∀ g ∈ f'.generation, f.generation = some g ∧
    (f = .restoreGet g → answer = .done ∧ w.session.isSome = true)

variable {answer : Answer Key Revisions}

/-- A flow that goes on to a place without a generation. -/
theorem recedes_goOn {i : Nat} {f f' : Flow Key} (hf : f'.unlocking = true → f.unlocking = true)
    (hg : f'.generation = none) : Recedes w (w.goOn i f') i f f' answer :=
  ⟨.inl rfl, .inl rfl, Nat.le_refl _, rfl, hf, fun g h => by simp [hg] at h⟩

/-- A restore that goes on with the generation that it had. -/
theorem recedes_restore {i g : Nat} {f f' : Flow Key} (hf : f'.unlocking = false)
    (hg : f'.generation = some g) (hfg : f.generation = some g)
    (hs : f = .restoreGet g → answer = .done ∧ w.session.isSome = true) :
    Recedes w (w.goOn i f') i f f' answer := by
  constructor
  · exact .inl rfl
  · exact .inl rfl
  · exact Nat.le_refl _
  · rfl
  · intro h
    rw [hf] at h
    cases h
  · intro g' h
    rw [hg] at h
    cases h
    exact ⟨hfg, hs⟩

/-- A restore that ends. -/
theorem recedes_endRestore {i : Nat} {f : Flow Key} :
    Recedes w (w.endRestore i) i f .ended answer :=
  ⟨.inl rfl, .inl rfl, Nat.le_refl _, rfl, nofun, nofun⟩

/-- A restore that failed. -/
theorem recedes_restoreFailed {i g : Nat} {f : Flow Key} :
    ∃ f', Recedes w (w.restoreFailed i g) i f f' answer := by
  unfold ServiceWorker.restoreFailed
  split
  · exact ⟨_, recedes_goOn nofun rfl⟩
  · exact ⟨_, recedes_endRestore⟩

/-- What else a flow does: an unlock opens the vault or persists the session, or a restore of
the current generation opens the vault. -/
inductive Brings (w w' : ServiceWorker Key Revisions) (i : Nat) :
    Flow Key → Answer Key Revisions → Prop
  | opens (message : PersistedSession) (keys : Key × Key) (items : List EncryptedVaultItem)
      (revisions : Revisions) (session : w'.session = w.session)
      (lockGeneration : w'.lockGeneration = w.lockGeneration)
      (flows : w'.flows = w.flows.set i (.unlockAlarm message)) :
      Brings w w' i (.unlockRevisions message keys items) (.revisions revisions)
  | persists (message : PersistedSession) (vaultState : w'.vaultState = w.vaultState)
      (lockGeneration : w'.lockGeneration = w.lockGeneration)
      (flows : w'.flows = w.flows.set i .ended) : Brings w w' i (.unlockPersist message) .done
  | restores (stored : PersistedSession) (keys : Key × Key) (items : List EncryptedVaultItem)
      (revisions : Revisions) (lockGeneration : w'.lockGeneration = w.lockGeneration)
      (flows : w'.flows = w.flows.set i .ended) :
      Brings w w' i (.restoreRevisions w.lockGeneration stored keys items) (.revisions revisions)

/-- An unlock recedes until it brings the vault or the session. -/
theorem resume_unlock {i : Nat} {f : Flow Key}
    (hf : f.unlocking = true) (h : w.resume i f answer = some w') :
    (∃ f', Recedes w w' i f f' answer) ∨ Brings w w' i f answer := by
  cases f with
  | unlockImport message =>
    cases answer <;> cases h <;> exact .inl ⟨_, recedes_goOn (fun _ => rfl) rfl⟩
  | unlockItems message keys =>
    cases answer <;> cases h
    · exact .inl ⟨_, .inl rfl, .inl rfl, Nat.le_succ _, rfl, fun _ => rfl, nofun⟩
    · exact .inl ⟨_, recedes_goOn (fun _ => rfl) rfl⟩
  | unlockRevisions message keys items =>
    cases answer <;> cases h
    · exact .inr (.opens message keys items _ rfl rfl rfl)
    · exact .inl ⟨_, recedes_goOn (fun _ => rfl) rfl⟩
  | unlockAlarm message =>
    cases answer <;> cases h <;> exact .inl ⟨_, recedes_goOn (fun _ => rfl) rfl⟩
  | unlockPersist message =>
    cases answer <;> cases h
    · exact .inr (.persists message rfl rfl rfl)
    · exact .inl ⟨_, recedes_goOn (fun _ => rfl) rfl⟩
  | _ => cases hf

/-- A lock or a restore recedes unless the restore opens the vault. -/
theorem resume_cases {i : Nat} {f : Flow Key}
    (h : w.resume i f answer = some w') :
    (∃ f', Recedes w w' i f f' answer) ∨ Brings w w' i f answer := by
  cases f with
  | unlockImport | unlockItems | unlockRevisions | unlockAlarm | unlockPersist =>
    exact resume_unlock rfl h
  | locked | ended => cases answer <;> cases h
  | lockGet =>
    cases answer <;> cases h
    · exact .inl ⟨.lockRemove, .inr rfl, .inl rfl, Nat.le_refl _, rfl, nofun, nofun⟩
    · exact .inl ⟨_, recedes_goOn nofun rfl⟩
  | lockRemove =>
    cases answer <;> cases h
    · exact .inl ⟨.lockAlarm, .inl rfl, .inr rfl, Nat.le_refl _, rfl, nofun, nofun⟩
    · exact .inl ⟨_, recedes_goOn nofun rfl⟩
  | lockAlarm => cases answer <;> cases h <;> exact .inl ⟨_, recedes_goOn nofun rfl⟩
  | restoreDrop =>
    cases answer <;> cases h
    · exact .inl ⟨.ended, .inl rfl, .inr rfl, Nat.le_refl _, rfl, nofun, nofun⟩
    · exact .inl ⟨_, recedes_endRestore⟩
  | restoreGet g =>
    cases answer with
    | done =>
      simp only [ServiceWorker.resume] at h
      split at h
      · cases h
        exact .inl ⟨_, recedes_endRestore⟩
      · cases h
        rename_i stored hs
        exact .inl ⟨_, recedes_restore rfl rfl rfl (fun _ => ⟨rfl, by simp [hs]⟩)⟩
    | failed =>
      cases h
      exact .inl ⟨_, recedes_endRestore⟩
    | keys | items | revisions => cases h
  | restoreImport g stored =>
    cases answer <;> cases h
    · exact .inl ⟨_, recedes_restore rfl rfl rfl nofun⟩
    · exact .inl recedes_restoreFailed
  | restoreItems g stored keys =>
    cases answer <;> cases h
    · exact .inl ⟨_, recedes_restore rfl rfl rfl nofun⟩
    · exact .inl recedes_restoreFailed
  | restoreRevisions g stored keys items =>
    cases answer with
    | revisions revisions =>
      simp only [ServiceWorker.resume] at h
      split at h
      · cases h
        exact .inl ⟨_, recedes_endRestore⟩
      · rename_i hg
        rw [not_or, not_not] at hg
        cases h
        rw [← hg.1]
        exact .inr (.restores stored keys items revisions rfl rfl)
    | failed =>
      cases h
      exact .inl recedes_restoreFailed
    | done | keys | items => cases h

/-- A flow that goes on gets no other generation, and the worker's only grows. -/
theorem resume_flows {i : Nat} {f : Flow Key}
    (h : w.resume i f answer = some w') :
    ∃ f', w'.flows = w.flows.set i f' ∧ (f'.unlocking = true → f.unlocking = true) ∧
      (∀ g ∈ f'.generation, f.generation = some g) ∧ w.lockGeneration ≤ w'.lockGeneration := by
  rcases resume_cases h with ⟨f', hr⟩ | hb
  · exact ⟨f', hr.flows, hr.unlocking, fun g hg => (hr.generation g hg).1, hr.lockGeneration⟩
  · cases hb with
    | opens _ _ _ _ _ hgen hflows => exact ⟨_, hflows, fun _ => rfl, nofun, hgen.ge⟩
    | persists _ _ hgen hflows => exact ⟨_, hflows, nofun, nofun, hgen.ge⟩
    | restores _ _ _ _ hgen hflows => exact ⟨_, hflows, nofun, nofun, hgen.ge⟩

/-- A restore is never ahead of the generation. -/
theorem generationsPast_step (e : WorkerEvent Key Revisions) (hw : GenerationsPast w)
    (h : ServiceWorker.step w e = some w') : GenerationsPast w' := by
  cases e with
  | unlock message =>
    cases h
    intro f hf g hg
    rcases List.mem_append.mp hf with hf | hf
    · exact hw f hf g hg
    · rw [List.mem_singleton.mp hf] at hg
      cases hg
  | lock =>
    cases h
    obtain ⟨f₀, hf₀, hw'⟩ := lockVault_eq w
    rw [hw']
    intro f hf g hg
    rcases List.mem_append.mp hf with hf | hf
    · exact (hw f hf g hg).trans (Nat.le_succ _)
    · rw [List.mem_singleton.mp hf] at hg
      cases f₀ <;> cases hf₀ <;> cases hg
  | restore =>
    cases h
    rcases restoreVaultState_cases w with hw' | ⟨-, -, hw'⟩
    · rw [hw']
      exact hw
    · rw [hw']
      intro f hf g hg
      rcases List.mem_append.mp hf with hf | hf
      · exact hw f hf g hg
      · rw [List.mem_singleton.mp hf] at hg
        cases hg
        exact Nat.le_refl _
  | resume i answer =>
    obtain ⟨f, hf, h⟩ := Option.bind_eq_some_iff.mp h
    obtain ⟨f', hflows, -, hgen, hle⟩ := resume_flows h
    intro f₁ hf₁ g hg
    rw [hflows] at hf₁
    rcases List.mem_or_eq_of_mem_set hf₁ with hf₁ | rfl
    · exact (hw f₁ hf₁ g hg).trans hle
    · exact (hw f (List.mem_of_getElem? hf) g (hgen g hg)).trans hle

/-- The restores of the current generation have not read the session yet. -/
def RestoresBehind (w : ServiceWorker Key Revisions) : Prop :=
  ∀ f ∈ w.flows, ∀ g ∈ f.generation,
    g < w.lockGeneration ∨ (f = .restoreGet g ∧ g = w.lockGeneration)

/-- What a lock has reached where it waits. -/
def LockHolds (w : ServiceWorker Key Revisions) : Flow Key → Prop
  | .lockGet => RestoresBehind w
  | .lockRemove => w.vaultState = none ∧ RestoresBehind w
  | .lockAlarm | .locked => w.vaultState = none ∧ w.session = none ∧ RestoresBehind w
  | .ended => True
  | _ => False

/-- The `i`-th flow is a lock that holds, and no unlock began after it. -/
structure LockedSince (i : Nat) (w : ServiceWorker Key Revisions) : Prop where
  unlocking : ∀ j f, w.flows[j]? = some f → f.unlocking = true → j < i
  holds : ∃ own, w.flows[i]? = some own ∧ LockHolds w own

/-- Restores that are behind stay behind under a later generation and a new lock. -/
theorem RestoresBehind.lock (hr : ∀ f ∈ w.flows, ∀ g ∈ f.generation, g ≤ w.lockGeneration) :
    RestoresBehind w.lockVault := by
  obtain ⟨f₀, hf₀, hw'⟩ := lockVault_eq w
  rw [hw']
  intro f hf g hg
  rcases List.mem_append.mp hf with hf | hf
  · exact .inl (Nat.lt_succ_of_le (hr f hf g hg))
  · rw [List.mem_singleton.mp hf] at hg
    cases f₀ <;> cases hf₀ <;> cases hg

/-- The restores that are behind are not ahead. -/
theorem RestoresBehind.le (hr : RestoresBehind w) : GenerationsPast w := by
  intro f hf g hg
  rcases hr f hf g hg with hlt | ⟨-, heq⟩
  · exact hlt.le
  · exact heq.le

/-- A restore that begins is behind. -/
theorem RestoresBehind.restore (hr : RestoresBehind w) : RestoresBehind w.restoreVaultState := by
  rcases restoreVaultState_cases w with hw' | ⟨-, -, hw'⟩
  · rw [hw']
    exact hr
  · rw [hw']
    intro f hf g hg
    rcases List.mem_append.mp hf with hf | hf
    · exact hr f hf g hg
    · rw [List.mem_singleton.mp hf] at hg ⊢
      cases hg
      exact .inr ⟨rfl, rfl⟩

/-- Restores stay behind when a flow goes on, unless it reads a session under the current
generation. -/
theorem RestoresBehind.set {j : Nat} {f f' : Flow Key} (hr : RestoresBehind w) (hf : f ∈ w.flows)
    (hflows : w'.flows = w.flows.set j f') (hle : w.lockGeneration ≤ w'.lockGeneration)
    (hgen : ∀ g ∈ f'.generation, f.generation = some g ∧ f ≠ .restoreGet w.lockGeneration) :
    RestoresBehind w' := by
  intro f₁ hf₁ g hg
  rw [hflows] at hf₁
  rcases List.mem_or_eq_of_mem_set hf₁ with hf₁ | rfl
  · rcases hr f₁ hf₁ g hg with hlt | ⟨hget, heq⟩
    · exact .inl (hlt.trans_le hle)
    · rcases hle.eq_or_lt with h | h
      · exact .inr ⟨hget, heq.trans h⟩
      · exact .inl (heq ▸ h)
  · obtain ⟨hfg, hne⟩ := hgen g hg
    rcases hr f hf g hfg with hlt | ⟨hget, heq⟩
    · exact .inl (hlt.trans_le hle)
    · exact absurd (heq ▸ hget) hne

/-- A new flow that is no unlock comes after the lock. -/
theorem LockedSince.unlocking_append {i : Nat} {f₀ : Flow Key} (hl : LockedSince i w)
    (hf₀ : f₀.unlocking = false) :
    ∀ j f, (w.flows ++ [f₀])[j]? = some f → f.unlocking = true → j < i := by
  intro j f hf hu
  by_cases hj : j < w.flows.length
  · rw [List.getElem?_append_left hj] at hf
    exact hl.unlocking j f hf hu
  · rw [List.getElem?_append_right (Nat.le_of_not_lt hj)] at hf
    rw [List.mem_singleton.mp (List.mem_of_getElem? hf), hf₀] at hu
    cases hu

/-- A flow that goes on becomes no unlock. -/
theorem LockedSince.unlocking_set {i j : Nat} {f f' : Flow Key} (hl : LockedSince i w)
    (hf : w.flows[j]? = some f) (hu : f'.unlocking = true → f.unlocking = true) :
    ∀ k f₁, (w.flows.set j f')[k]? = some f₁ → f₁.unlocking = true → k < i := by
  intro k f₁ hf₁ hu₁
  by_cases hkj : j = k
  · rw [hkj, List.getElem?_set_self' ] at hf₁
    rw [hkj] at hf
    rw [hf] at hf₁
    cases hf₁
    exact hl.unlocking k f hf (hu hu₁)
  · rw [List.getElem?_set_ne hkj] at hf₁
    exact hl.unlocking k f₁ hf₁ hu₁

/-- A lock that begins holds. -/
theorem lockedSince_lock (hw : GenerationsPast w) : LockedSince w.flows.length w.lockVault := by
  have hbehind := RestoresBehind.lock hw
  obtain ⟨f₀, hf₀, hw'⟩ := lockVault_eq w
  constructor
  · rw [hw']
    intro j f hf hu
    by_contra hj
    rw [List.getElem?_append_right (Nat.le_of_not_lt hj)] at hf
    rw [List.mem_singleton.mp (List.mem_of_getElem? hf)] at hu
    cases f₀ <;> cases hf₀ <;> cases hu
  · refine ⟨f₀, ?_, ?_⟩
    · rw [hw']
      exact List.getElem?_concat_length
    · have hvault : w.lockVault.vaultState = none := by rw [hw']
      cases f₀ <;> cases hf₀
      · exact hbehind
      · exact ⟨hvault, hbehind⟩

/-- Another lock changes nothing about one that holds. -/
theorem lockedSince_again {i : Nat} (hl : LockedSince i w) : LockedSince i w.lockVault := by
  obtain ⟨own, hown, hholds⟩ := hl.holds
  have hbehind : RestoresBehind w → RestoresBehind w.lockVault := fun hr => .lock hr.le
  obtain ⟨f₀, hf₀, hw'⟩ := lockVault_eq w
  have hvault : w.lockVault.vaultState = none := by rw [hw']
  have hsession : w.lockVault.session = w.session := by rw [hw']
  constructor
  · rw [hw']
    exact hl.unlocking_append (by cases f₀ <;> cases hf₀ <;> rfl)
  · refine ⟨own, ?_, ?_⟩
    · rw [hw', List.getElem?_append_left (List.getElem?_eq_some_iff.mp hown).1]
      exact hown
    · cases own with
      | lockGet => exact hbehind hholds
      | lockRemove => exact ⟨hvault, hbehind hholds.2⟩
      | lockAlarm | locked => exact ⟨hvault, hsession.trans hholds.2.1, hbehind hholds.2.2⟩
      | ended => trivial
      | _ => exact hholds.elim

/-- A restore that begins changes nothing about a lock that holds. -/
theorem lockedSince_restore {i : Nat} (hl : LockedSince i w) :
    LockedSince i w.restoreVaultState := by
  obtain ⟨own, hown, hholds⟩ := hl.holds
  have hbehind : RestoresBehind w → RestoresBehind w.restoreVaultState := .restore
  rcases restoreVaultState_cases w with hw' | ⟨-, hv, hw'⟩
  · rw [hw']
    exact hl
  · have hvault : w.restoreVaultState.vaultState = none := by rw [hw', hv]
    have hsession : w.restoreVaultState.session = w.session := by rw [hw']
    constructor
    · rw [hw']
      exact hl.unlocking_append rfl
    · refine ⟨own, ?_, ?_⟩
      · rw [hw', List.getElem?_append_left (List.getElem?_eq_some_iff.mp hown).1]
        exact hown
      · cases own with
        | lockGet => exact hbehind hholds
        | lockRemove => exact ⟨hvault, hbehind hholds.2⟩
        | lockAlarm | locked => exact ⟨hvault, hsession.trans hholds.2.1, hbehind hholds.2.2⟩
        | ended => trivial
        | _ => exact hholds.elim

/-- The lock itself goes on. -/
theorem LockHolds.own {i : Nat} {f : Flow Key} (hf : w.flows[i]? = some f) (hl : LockHolds w f)
    (h : w.resume i f answer = some w') : ∃ own, w'.flows[i]? = some own ∧ LockHolds w' own := by
  have hmem : f ∈ w.flows := List.mem_of_getElem? hf
  have hown : ∀ f' : Flow Key, (w.flows.set i f')[i]? = some f' := by
    intro f'
    rw [List.getElem?_set_self (List.getElem?_eq_some_iff.mp hf).1]
  cases f with
  | lockGet =>
    cases answer <;> cases h
    · exact ⟨.lockRemove, hown _, rfl, hl.set hmem rfl (Nat.le_refl _) nofun⟩
    · exact ⟨.ended, hown _, trivial⟩
  | lockRemove =>
    cases answer <;> cases h
    · exact ⟨.lockAlarm, hown _, hl.1, rfl, hl.2.set hmem rfl (Nat.le_refl _) nofun⟩
    · exact ⟨.ended, hown _, trivial⟩
  | lockAlarm =>
    cases answer <;> cases h
    · exact ⟨.locked, hown _, hl.1, hl.2.1, hl.2.2.set hmem rfl (Nat.le_refl _) nofun⟩
    · exact ⟨.ended, hown _, trivial⟩
  | locked | ended => cases answer <;> cases h
  | _ => exact hl.elim

/-- A flow that recedes leaves a lock that holds, if it reads no session before the lock has
removed it. -/
theorem LockHolds.recede {j : Nat} {own f f' : Flow Key} (hf : f ∈ w.flows)
    (hr : Recedes w w' j f f' answer) (hl : LockHolds w own)
    (hread : own.locking = true → answer = .done → w.session.isSome = true →
      f ≠ .restoreGet w.lockGeneration) : LockHolds w' own := by
  have hvault : w.vaultState = none → w'.vaultState = none := by
    intro hnone
    rcases hr.vaultState with h | h
    · rw [h, hnone]
    · exact h
  have hbehind : own.locking = true → RestoresBehind w → RestoresBehind w' := by
    intro hlock hb
    apply hb.set hf hr.flows hr.lockGeneration
    intro g hg
    obtain ⟨hfg, hsession⟩ := hr.generation g hg
    refine ⟨hfg, fun hget => ?_⟩
    have hcur : w.lockGeneration = g := by
      rw [hget] at hfg
      exact Option.some.inj hfg
    obtain ⟨hdone, hsome⟩ := hsession (hcur ▸ hget)
    exact hread hlock hdone hsome hget
  have hafter : w.session = none → RestoresBehind w → RestoresBehind w' := by
    intro hnone hb
    apply hb.set hf hr.flows hr.lockGeneration
    intro g hg
    obtain ⟨hfg, hsession⟩ := hr.generation g hg
    refine ⟨hfg, fun hget => ?_⟩
    have hcur : w.lockGeneration = g := by
      rw [hget] at hfg
      exact Option.some.inj hfg
    -- the storage was empty, so a restore that waited for it has ended
    have hsome := (hsession (hcur ▸ hget)).2
    rw [hnone] at hsome
    cases hsome
  cases own with
  | lockGet => exact hbehind rfl hl
  | lockRemove => exact ⟨hvault hl.1, hbehind rfl hl.2⟩
  | lockAlarm | locked =>
    refine ⟨hvault hl.1, ?_, hafter hl.2.1 hl.2.2⟩
    rcases hr.session with h | h
    · rw [h, hl.2.1]
    · exact h
  | ended => trivial
  | _ => exact hl.elim

/-- A flow that brings the vault or the session leaves a lock that holds, if the lock has not
closed the one or removed the other yet. -/
theorem LockHolds.bring {j : Nat} {own f : Flow Key} (hf : f ∈ w.flows)
    (hb : Brings w w' j f answer) (hl : LockHolds w own)
    (hopens : ∀ revisions, answer = .revisions revisions → f.opensVault = true →
      own.closedVault = false)
    (hpersists : answer = .done → f.persists = true → own.removedSession = false) :
    LockHolds w' own := by
  cases hb with
  | opens message keys items revisions hsession hgen hflows =>
    have hclosed := hopens revisions rfl rfl
    cases own with
    | lockGet => exact RestoresBehind.set hl hf hflows hgen.ge nofun
    | lockRemove | lockAlarm | locked => cases hclosed
    | ended => trivial
    | _ => exact hl.elim
  | persists message hvault hgen hflows =>
    have hremoved := hpersists rfl rfl
    cases own with
    | lockGet => exact RestoresBehind.set hl hf hflows hgen.ge nofun
    | lockRemove => exact ⟨hvault.trans hl.1, hl.2.set hf hflows hgen.ge nofun⟩
    | lockAlarm | locked => cases hremoved
    | ended => trivial
    | _ => exact hl.elim
  -- a restore that opens the vault has the current generation, and the lock counted it up
  | restores stored keys items revisions hgen hflows =>
    have hahead : ¬ RestoresBehind w := by
      intro hr
      rcases hr _ hf _ rfl with hlt | ⟨hget, -⟩
      · exact Nat.lt_irrefl _ hlt
      · cases hget
    cases own with
    | lockGet => exact absurd hl hahead
    | lockRemove => exact absurd hl.2 hahead
    | lockAlarm | locked => exact absurd hl.2.2 hahead
    | ended => trivial
    | _ => exact hl.elim

/-- Nothing that goes on undisturbed changes that a lock holds. -/
theorem lockedSince_resume {i j : Nat} (hl : LockedSince i w)
    (hc : LockUndisturbed w (.resume j answer))
    (h : ServiceWorker.step w (.resume j answer) = some w') : LockedSince i w' := by
  obtain ⟨f, hf, h⟩ := Option.bind_eq_some_iff.mp h
  obtain ⟨own, hown, hholds⟩ := hl.holds
  have hmem : f ∈ w.flows := List.mem_of_getElem? hf
  obtain ⟨f', hflows, hunlock, -, -⟩ := resume_flows h
  constructor
  · rw [hflows]
    exact hl.unlocking_set hf hunlock
  · by_cases hij : j = i
    · rw [hij] at hf h
      rw [hf] at hown
      cases hown
      exact hholds.own hf h
    · refine ⟨own, by rw [hflows, List.getElem?_set_ne hij, hown], ?_⟩
      have hlater : f.unlocking = true → own ∈ w.flows.drop (j + 1) := by
        intro hu
        have hj := hl.unlocking j f hf hu
        apply List.mem_of_getElem? (i := i - (j + 1))
        rw [List.getElem?_drop, ← hown]
        congr 1
        omega
      rcases resume_cases h with ⟨f₁, hr⟩ | hb
      · apply hholds.recede hmem hr
        intro hlock hdone hsome hget
        rw [hdone] at hc
        have hno := (hc f hf).2 (by rw [hget]; exact beq_self_eq_true _) hsome own
          (List.mem_of_getElem? hown)
        rw [hno] at hlock
        cases hlock
      · apply hholds.bring hmem hb
        · intro revisions hanswer hopens
          rw [hanswer] at hc
          exact hc f hf hopens own (hlater (Flow.unlocking_of_opensVault hopens))
        · intro hdone hpersists
          rw [hdone] at hc
          exact (hc f hf).1 hpersists own (hlater (Flow.unlocking_of_persists hpersists))

/-- A lock is final in a run that leaves the locks undisturbed. -/
theorem lockIsFinal_of_undisturbed (events : List (WorkerEvent Key Revisions))
    (session : Option PersistedSession)
    (hc : EventsMeet ServiceWorker.step LockUndisturbed events (.started session)) :
    LockIsFinal events (.started session) := by
  intro before after hsplit hnone w₁ w₂ hbefore hafter hlocked
  rw [hsplit] at hc
  have hcond := hc.of_append.2 w₁ hbefore
  have hpast : GenerationsPast w₁ := by
    apply invariant_of_events _ _ hc.of_append.1 hbefore
    · intro e _ w w' hw _ hstep
      exact generationsPast_step e hw hstep
    · intro f hf
      cases hf
  obtain ⟨w, hlock, hrun⟩ := Option.bind_eq_some_iff.mp hafter
  cases hlock
  have hsince : LockedSince w₁.flows.length w₂ := by
    apply invariant_of_events _ (lockedSince_lock hpast) (hcond.2 _ rfl) hrun
    intro e he w w' hw hce hstep
    cases e with
    | unlock message => exact absurd rfl (hnone _ he message)
    | lock =>
      cases hstep
      exact lockedSince_again hw
    | restore =>
      cases hstep
      exact lockedSince_restore hw
    | resume j answer => exact lockedSince_resume hw hce hstep
  obtain ⟨own, hown, hholds⟩ := hsince.holds
  rw [hlocked] at hown
  cases hown
  exact ⟨hholds.1, hholds.2.1⟩

end Final

/-- A session with its keys. -/
private def unlockedSession : PersistedSession where
  sessionToken := "token"
  defaultVaultId := "vault"
  encKeyB64 := "AQ=="
  macKeyB64 := "Ag=="

/-- A lock between the steps of an unlock that is through before the session is removed. -/
private def lockDuringUnlock : List (WorkerEvent Unit Unit) :=
  [.unlock unlockedSession, .resume 0 (.keys ((), ())), .resume 0 (.items []), .resume 0 (.revisions ()),
    .lock, .resume 0 .done, .resume 0 .done, .resume 1 .done, .resume 1 .done]

theorem lockIsFinal_of_undisturbed_unlock :
    ((runEvents ServiceWorker.step lockDuringUnlock (.started none)).map (·.flows) =
      some [.ended, .locked]) ∧ LockIsFinal lockDuringUnlock (.started none) :=
  ⟨by decide, lockIsFinal_of_undisturbed lockDuringUnlock none (by decide)⟩

/-- A lock while the unlock before it still fetches the items. -/
private def unlockAfterLock : List (WorkerEvent Unit Unit) :=
  [.resume 1 .done, .resume 1 .done, .resume 1 .done, .resume 0 (.keys ((), ())),
    .resume 0 (.items []), .resume 0 (.revisions ())]

/-- A restore that begins while the lock before it still reads the session. -/
private def restoreAfterLock : List (WorkerEvent Unit Unit) :=
  [.restore, .resume 0 .done, .resume 1 .done, .resume 0 .done, .resume 0 .done,
    .resume 1 (.keys ((), ())), .resume 1 (.items []), .resume 1 (.revisions ())]

/-- The vault is open again after a lock that has completed: an unlock in flight opens it, or a
restore that read the session before the lock removed it. -/
theorem not_lockIsFinal_of_inFlight :
    ¬ LockIsFinal ([.unlock unlockedSession] ++ .lock :: unlockAfterLock) (.started none) ∧
      ¬ LockIsFinal ([] ++ .lock :: restoreAfterLock) (.started (some unlockedSession)) := by
  constructor
  · intro h
    have hnone := h [.unlock unlockedSession] unlockAfterLock rfl (by simp [unlockAfterLock]) _ _ rfl rfl
      (by decide)
    exact absurd hnone.1 (by decide)
  · intro h
    have hnone := h [] restoreAfterLock rfl (by simp [restoreAfterLock]) _ _ rfl rfl
      (by decide)
    exact absurd hnone.1 (by decide)

end Nopass
