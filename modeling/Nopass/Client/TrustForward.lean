import Nopass.Client.TrustState

/-!
# When the trust state never goes backwards

A store writes its own copy back whole, so a write that is made from a copy which lacks
something persisted loses it. A run loses nothing exactly when each write is made from a
copy that holds everything persisted, except for what that write itself puts there.
-/

namespace Nopass

open SharedRecord

/-- A later state of the revisions: none is lower, and legacy items stay refused. -/
structure RevisionsHeld (store store' : MemoryRevisionStore) : Prop where
  revisions : ∀ itemId, ∀ revision ∈ store.revisions itemId,
    ∃ revision' ∈ store'.revisions itemId, revision ≤ revision'
  v2Only : store.legacyClosed = true → store'.legacyClosed = true

/-- A later state of the pins: every pin is there with its key. -/
def PinsHeld (pins pins' : KeyPins) : Prop :=
  ∀ userId, ∀ identityKey ∈ pins userId, pins' userId = some identityKey

/-- A later state of the epochs: none is lower. -/
def EpochsHeld (epochs epochs' : OrgEpochs) : Prop :=
  ∀ orgId, ∀ epoch ∈ epochs orgId, ∃ epoch' ∈ epochs' orgId, epoch ≤ epoch'

/-- A later state of the ledger: every id is there, or was forgotten. -/
def LedgerHeld (gone ledger ledger' : OrgLedger) : Prop :=
  ∀ orgId, (ledger orgId).items ⊆ (ledger' orgId).items ++ (gone orgId).items ∧
    (ledger orgId).members ⊆ (ledger' orgId).members ++ (gone orgId).members

/-- What an operation forgets. -/
def TrustEvent.forgets : TrustEvent → OrgLedger
  | .forget _ orgId gone => fun id => if id = orgId then gone else {}
  | _ => fun _ => {}

/-- What a run forgets. -/
def forgotten (events : List TrustEvent) : OrgLedger := fun orgId =>
  { items := events.flatMap fun e => (e.forgets orgId).items
    members := events.flatMap fun e => (e.forgets orgId).members }

/-- Nothing went backwards from one time to a later one: the records hold what they held, and a
store that was opened since holds what every store of the earlier time had learned. Ids may be
missing from the ledger that were forgotten since (`gone`), or at any time before (`everGone`). -/
structure TrustForward (gone everGone : OrgLedger) (w w' : TrustWorld) : Prop where
  revisions : Forward RevisionsHeld RevisionsHeld w.revisions w'.revisions
  pins : Forward PinsHeld PinsHeld w.pins w'.pins
  epochs : Forward EpochsHeld EpochsHeld w.epochs w'.epochs
  ledger : Forward (LedgerHeld gone) (LedgerHeld everGone) w.ledger w'.ledger

/-- In a run that starts without open stores, nothing goes backwards between any two times. -/
def NeverBack (trustId : String) (records : TrustRecords) (events : List TrustEvent) : Prop :=
  ∀ before between after, events = before ++ between ++ after → ∀ w w',
    runEvents (TrustWorld.step trustId) before records.noneOpen = some w →
    runEvents (TrustWorld.step trustId) between w = some w' →
    TrustForward (forgotten between) (forgotten (before ++ between)) w w'

/-- The copy that an operation writes back lacks nothing persisted but what the operation itself
puts there. -/
def TrustWorld.UpToDate (w : TrustWorld) : TrustEvent → Prop
  | .record store itemId revision => ∀ copy ∈ w.revisions.copies[store]?,
      (∀ seen ∈ copy.revisions itemId, seen < revision) →
        (∀ id ≠ itemId, ∀ seen ∈ w.revisions.persisted.revisions id,
          ∃ seen' ∈ copy.revisions id, seen ≤ seen') ∧
        (∀ seen ∈ w.revisions.persisted.revisions itemId, seen ≤ revision) ∧
        (w.revisions.persisted.legacyClosed = true → copy.legacyClosed = true)
  | .markV2Only store => ∀ copy ∈ w.revisions.copies[store]?, copy.legacyClosed = false →
      ∀ id, ∀ seen ∈ w.revisions.persisted.revisions id, ∃ seen' ∈ copy.revisions id, seen ≤ seen'
  | .setPin store userId identityKey => ∀ copy ∈ w.pins.copies[store]?,
      (∀ id ≠ userId, ∀ pinned ∈ w.pins.persisted id, copy id = some pinned) ∧
        ∀ pinned ∈ w.pins.persisted userId, pinned = identityKey
  | .recordEpoch store orgId epoch => ∀ copy ∈ w.epochs.copies[store]?,
      (copy orgId).getD 0 < epoch →
        (∀ id ≠ orgId, ∀ highest ∈ w.epochs.persisted id, ∃ highest' ∈ copy id,
          highest ≤ highest') ∧
        ∀ highest ∈ w.epochs.persisted orgId, highest ≤ epoch
  | .remember store orgId seen => ∀ copy ∈ w.ledger.copies[store]?,
      LedgerHeld (fun id => if id = orgId then seen else {}) w.ledger.persisted copy
  | .forget store orgId gone => ∀ copy ∈ w.ledger.copies[store]?,
      LedgerHeld (fun id => if id = orgId then gone else {}) w.ledger.persisted copy
  | _ => True

/-! ## The orders -/

instance : IsPreorder MemoryRevisionStore RevisionsHeld where
  refl := by
    intro store
    exact ⟨fun _ revision h => ⟨revision, h, Nat.le_refl _⟩, id⟩
  trans := by
    intro a b c hab hbc
    constructor
    · intro itemId revision h
      obtain ⟨revision', h', hle⟩ := hab.revisions itemId revision h
      obtain ⟨revision'', h'', hle'⟩ := hbc.revisions itemId revision' h'
      exact ⟨revision'', h'', Nat.le_trans hle hle'⟩
    · intro h
      exact hbc.v2Only (hab.v2Only h)

instance : IsPreorder KeyPins PinsHeld where
  refl := by
    intro pins userId identityKey h
    exact h
  trans := by
    intro a b c hab hbc userId identityKey h
    exact hbc userId identityKey (hab userId identityKey h)

instance : IsPreorder OrgEpochs EpochsHeld where
  refl := by
    intro epochs orgId epoch h
    exact ⟨epoch, h, Nat.le_refl _⟩
  trans := by
    intro a b c hab hbc orgId epoch h
    obtain ⟨epoch', h', hle⟩ := hab orgId epoch h
    obtain ⟨epoch'', h'', hle'⟩ := hbc orgId epoch' h'
    exact ⟨epoch'', h'', Nat.le_trans hle hle'⟩

/-- Ids that are kept, or forgotten on the way. -/
private theorem subset_append_trans {a b c gone : List String} (hab : a ⊆ b ++ gone)
    (hbc : b ⊆ c ++ gone) : a ⊆ c ++ gone := by
  intro id h
  rcases List.mem_append.mp (hab h) with hb | hgone
  · exact hbc hb
  · exact List.mem_append_right c hgone

instance (gone : OrgLedger) : IsPreorder OrgLedger (LedgerHeld gone) where
  refl := by
    intro ledger orgId
    exact ⟨List.subset_append_left _ _, List.subset_append_left _ _⟩
  trans := by
    intro a b c hab hbc orgId
    exact ⟨subset_append_trans (hab orgId).1 (hbc orgId).1,
      subset_append_trans (hab orgId).2 (hbc orgId).2⟩

/-- One set of forgotten ids is in another. -/
def Forgets (gone gone' : OrgLedger) : Prop :=
  ∀ orgId, (gone orgId).items ⊆ (gone' orgId).items ∧ (gone orgId).members ⊆ (gone' orgId).members

/-- What is held but for some forgotten ids is held but for more. -/
theorem LedgerHeld.mono {gone gone' : OrgLedger} (h : Forgets gone gone') (ledger ledger' : OrgLedger)
    (hl : LedgerHeld gone ledger ledger') : LedgerHeld gone' ledger ledger' := by
  intro orgId
  constructor
  · exact fun id hid => (List.mem_append.mp ((hl orgId).1 hid)).elim
      (List.mem_append_left _) fun hg => List.mem_append_right _ ((h orgId).1 hg)
  · exact fun id hid => (List.mem_append.mp ((hl orgId).2 hid)).elim
      (List.mem_append_left _) fun hg => List.mem_append_right _ ((h orgId).2 hg)

/-- What one event of a run forgets, the run forgets. -/
theorem forgets_forgotten {e : TrustEvent} {events : List TrustEvent} (h : e ∈ events) :
    Forgets e.forgets (forgotten events) := by
  intro orgId
  exact ⟨fun id hid => List.mem_flatMap.mpr ⟨e, h, hid⟩,
    fun id hid => List.mem_flatMap.mpr ⟨e, h, hid⟩⟩

/-! ## What one operation does -/

section Operations

variable {trustId : String} {w w' : TrustWorld} {e : TrustEvent}

/-- The records hold what they held, but for some forgotten ids of the ledger. -/
structure PersistedHeld (gone : OrgLedger) (w w' : TrustWorld) : Prop where
  revisions : RevisionsHeld w.revisions.persisted w'.revisions.persisted
  pins : PinsHeld w.pins.persisted w'.pins.persisted
  epochs : EpochsHeld w.epochs.persisted w'.epochs.persisted
  ledger : LedgerHeld gone w.ledger.persisted w'.ledger.persisted

/-- Nothing is lost where the revisions alone change and lose nothing. -/
theorem persistedHeld_revisions_iff {gone : OrgLedger} {revisions : SharedRecord MemoryRevisionStore}
    {legacy : LegacyRecords} :
    PersistedHeld gone w { w with revisions := revisions, legacy := legacy } ↔
      RevisionsHeld w.revisions.persisted revisions.persisted :=
  ⟨fun h => h.revisions, fun h => ⟨h, refl_of _ _, refl_of _ _, refl_of _ _⟩⟩

/-- Nothing is lost where the pins alone change and lose nothing. -/
theorem persistedHeld_pins_iff {gone : OrgLedger} {pins : SharedRecord KeyPins}
    {legacy : LegacyRecords} : PersistedHeld gone w { w with pins := pins, legacy := legacy } ↔
      PinsHeld w.pins.persisted pins.persisted :=
  ⟨fun h => h.pins, fun h => ⟨refl_of _ _, h, refl_of _ _, refl_of _ _⟩⟩

/-- Nothing is lost where the epochs alone change and lose nothing. -/
theorem persistedHeld_epochs_iff {gone : OrgLedger} {epochs : SharedRecord OrgEpochs} :
    PersistedHeld gone w { w with epochs := epochs } ↔
      EpochsHeld w.epochs.persisted epochs.persisted :=
  ⟨fun h => h.epochs, fun h => ⟨refl_of _ _, refl_of _ _, h, refl_of _ _⟩⟩

/-- Nothing is lost where the ledger alone changes and loses nothing but forgotten ids. -/
theorem persistedHeld_ledger_iff {gone : OrgLedger} {ledger : SharedRecord OrgLedger} :
    PersistedHeld gone w { w with ledger := ledger } ↔
      LedgerHeld gone w.ledger.persisted ledger.persisted :=
  ⟨fun h => h.ledger, fun h => ⟨refl_of _ _, refl_of _ _, refl_of _ _, h⟩⟩

/-- `record` on a store raises what it holds. -/
theorem revisionsHeld_record (store : MemoryRevisionStore) (itemId : String) (revision : Nat) :
    RevisionsHeld store (store.record itemId revision) := by
  constructor
  · intro id seen h
    rw [MemoryRevisionStore.revisions_record]
    by_cases hid : id = itemId
    · subst hid
      rw [if_pos rfl, Option.mem_def.mp h, Option.getD_some]
      exact ⟨_, rfl, Nat.le_max_left seen revision⟩
    · rw [if_neg hid]
      exact ⟨seen, h, Nat.le_refl seen⟩
  · intro h
    rw [MemoryRevisionStore.legacyClosed_record]
    exact h

/-- Taking over legacy revisions lowers nothing. -/
theorem revisionsHeld_recordAll (store : MemoryRevisionStore) (legacy : List (List (String × Nat))) :
    RevisionsHeld store (store.recordAll legacy) := by
  rw [MemoryRevisionStore.recordAll]
  induction legacy.flatten generalizing store with
  | nil => exact refl_of _ store
  | cons entry rest ih =>
    exact trans_of RevisionsHeld (revisionsHeld_record store entry.1 entry.2) (ih _)

/-- A pin of a legacy record replaces none. -/
theorem pinsHeld_setIfUnset (pins : KeyPins) (userId identityKey : String) :
    PinsHeld pins (KeyPins.setIfUnset pins userId identityKey) := by
  intro id pinned h
  unfold KeyPins.setIfUnset
  split
  · exact h
  · rename_i hunset
    have hne : id ≠ userId := by
      rintro rfl
      rw [Option.mem_def.mp h] at hunset
      exact hunset (.inr rfl)
    rw [KeyPins.set, if_neg hne]
    exact h

/-- Taking over legacy pins replaces none. -/
theorem pinsHeld_setAll (pins : KeyPins) (legacy : List (List (String × String))) :
    PinsHeld pins (KeyPins.setAll pins legacy) := by
  rw [KeyPins.setAll]
  induction legacy.flatten generalizing pins with
  | nil => exact refl_of _ pins
  | cons entry rest ih =>
    exact trans_of PinsHeld (pinsHeld_setIfUnset pins entry.1 entry.2) (ih _)

/-- What `record` writes. -/
theorem record?_eq_some {store store' : MemoryRevisionStore} {itemId : String} {revision : Nat} :
    store.record? itemId revision = some store' ↔ (∀ seen ∈ store.revisions itemId, seen < revision) ∧
      { store with
        revisions := fun id => if id = itemId then some revision else store.revisions id } =
        store' := by
  rw [MemoryRevisionStore.record?]
  cases store.revisions itemId with
  | none => simp
  | some highest => simp

/-- What `markV2Only` writes. -/
theorem markV2Only?_eq_some {store store' : MemoryRevisionStore} :
    store.markV2Only? = some store' ↔
      store.legacyClosed = false ∧ { store with legacyClosed := true } = store' := by
  rw [MemoryRevisionStore.markV2Only?]
  cases store.legacyClosed with
  | true => simp
  | false => simp

/-- What the epoch store's `record` writes. -/
theorem epochs_record?_eq_some {epochs epochs' : OrgEpochs} {orgId : String} {epoch : Nat} :
    OrgEpochs.record? epochs orgId epoch = some epochs' ↔ (epochs orgId).getD 0 < epoch ∧
      (fun id => if id = orgId then some epoch else epochs id) = epochs' := by
  rw [OrgEpochs.record?, Option.ite_none_left_eq_some, Option.some.injEq, Nat.not_le]

/-- What a recorded revision leaves of the others. -/
theorem revisionsHeld_recorded_iff {store copy : MemoryRevisionStore} {itemId : String}
    {revision : Nat} :
    RevisionsHeld store { copy with
        revisions := fun id => if id = itemId then some revision else copy.revisions id } ↔
      (∀ id ≠ itemId, ∀ seen ∈ store.revisions id, ∃ seen' ∈ copy.revisions id, seen ≤ seen') ∧
      (∀ seen ∈ store.revisions itemId, seen ≤ revision) ∧
      (store.legacyClosed = true → copy.legacyClosed = true) := by
  constructor
  · intro h
    refine ⟨?_, ?_, h.v2Only⟩
    · intro id hid seen hseen
      obtain ⟨seen', hseen', hle⟩ := h.revisions id seen hseen
      exact ⟨seen', by simpa only [if_neg hid] using hseen', hle⟩
    · intro seen hseen
      obtain ⟨seen', hseen', hle⟩ := h.revisions itemId seen hseen
      cases (if_pos rfl).symm.trans (Option.mem_def.mp hseen')
      exact hle
  · rintro ⟨hothers, hitem, hv2⟩
    constructor
    · intro id seen hseen
      by_cases hid : id = itemId
      · subst hid
        exact ⟨revision, if_pos rfl, hitem seen hseen⟩
      · obtain ⟨seen', hseen', hle⟩ := hothers id hid seen hseen
        exact ⟨seen', by simpa only [if_neg hid] using hseen', hle⟩
    · exact hv2

/-- What a recorded epoch leaves of the others. -/
theorem epochsHeld_recorded_iff {epochs copy : OrgEpochs} {orgId : String} {epoch : Nat} :
    EpochsHeld epochs (fun id => if id = orgId then some epoch else copy id) ↔
      (∀ id ≠ orgId, ∀ highest ∈ epochs id, ∃ highest' ∈ copy id, highest ≤ highest') ∧
      ∀ highest ∈ epochs orgId, highest ≤ epoch := by
  constructor
  · intro h
    constructor
    · intro id hid highest hhighest
      obtain ⟨highest', hhighest', hle⟩ := h id highest hhighest
      exact ⟨highest', by simpa only [if_neg hid] using hhighest', hle⟩
    · intro highest hhighest
      obtain ⟨highest', hhighest', hle⟩ := h orgId highest hhighest
      cases (if_pos rfl).symm.trans (Option.mem_def.mp hhighest')
      exact hle
  · rintro ⟨hothers, horg⟩ id highest hhighest
    by_cases hid : id = orgId
    · subst hid
      exact ⟨epoch, if_pos rfl, horg highest hhighest⟩
    · obtain ⟨highest', hhighest', hle⟩ := hothers id hid highest hhighest
      exact ⟨highest', by simpa only [if_neg hid] using hhighest', hle⟩

/-- What a new pin leaves of the others. -/
theorem pinsHeld_set_iff {pins copy : KeyPins} {userId identityKey : String} :
    PinsHeld pins (KeyPins.set copy userId identityKey) ↔
      (∀ id ≠ userId, ∀ pinned ∈ pins id, copy id = some pinned) ∧
      ∀ pinned ∈ pins userId, pinned = identityKey := by
  constructor
  · intro h
    constructor
    · intro id hid pinned hpinned
      have hkept := h id pinned hpinned
      rwa [KeyPins.set, if_neg hid] at hkept
    · intro pinned hpinned
      have hkept := h userId pinned hpinned
      rw [KeyPins.set, if_pos rfl] at hkept
      exact (Option.some.inj hkept).symm
  · rintro ⟨hothers, huser⟩ id pinned hpinned
    by_cases hid : id = userId
    · subst hid
      rw [KeyPins.set, if_pos rfl, huser pinned hpinned]
    · rw [KeyPins.set, if_neg hid]
      exact hothers id hid pinned hpinned

/-- A change to one entry against the copy, when both account for the same ids. -/
theorem ledgerHeld_update_iff {gone gone' ledger copy : OrgLedger} {orgId : String}
    {change : OrgLedgerEntry → OrgLedgerEntry} (hothers : ∀ id ≠ orgId, gone id = gone' id)
    (hitems : ∀ id, id ∈ (change (copy orgId)).items ++ (gone orgId).items ↔
      id ∈ (copy orgId).items ++ (gone' orgId).items)
    (hmembers : ∀ id, id ∈ (change (copy orgId)).members ++ (gone orgId).members ↔
      id ∈ (copy orgId).members ++ (gone' orgId).members) :
    LedgerHeld gone ledger (OrgLedger.update copy orgId change) ↔ LedgerHeld gone' ledger copy := by
  apply forall_congr'
  intro id
  rw [OrgLedger.update]
  by_cases hid : id = orgId
  · subst hid
    simp only [if_pos, List.subset_def, hitems, hmembers]
  · rw [if_neg hid, hothers id hid]

/-- Remembering loses nothing but what the copy and the new ids lack. -/
theorem ledgerHeld_remember_iff {ledger copy : OrgLedger} {orgId : String} {seen : OrgLedgerEntry} :
    LedgerHeld (fun _ => {}) ledger (OrgLedger.update copy orgId (·.remember seen)) ↔
      LedgerHeld (fun id => if id = orgId then seen else {}) ledger copy := by
  apply ledgerHeld_update_iff
  · intro id hid
    rw [if_neg hid]
  · intro id
    simp [OrgLedgerEntry.remember]
  · intro id
    simp [OrgLedgerEntry.remember]

/-- Forgetting loses nothing but what the copy lacks and the forgotten ids. -/
theorem ledgerHeld_forget_iff {ledger copy : OrgLedger} {orgId : String} {gone : OrgLedgerEntry} :
    LedgerHeld (fun id => if id = orgId then gone else {}) ledger
        (OrgLedger.update copy orgId (·.forget gone)) ↔
      LedgerHeld (fun id => if id = orgId then gone else {}) ledger copy := by
  have hmem (ids gone : List String) (id : String) :
      id ∈ (ids.filter fun id => !gone.contains id) ++ gone ↔ id ∈ ids ++ gone := by
    by_cases hgone : id ∈ gone
    · simp [hgone]
    · simp [hgone]
  apply ledgerHeld_update_iff
  · intro id _
    rfl
  · intro id
    rw [if_pos rfl]
    exact hmem _ _ id
  · intro id
    rw [if_pos rfl]
    exact hmem _ _ id

/-- What a mark leaves of the revisions. -/
theorem revisionsHeld_marked_iff {store copy : MemoryRevisionStore} :
    RevisionsHeld store { copy with legacyClosed := true } ↔
      ∀ id, ∀ seen ∈ store.revisions id, ∃ seen' ∈ copy.revisions id, seen ≤ seen' :=
  ⟨fun h => h.revisions, fun h => ⟨h, fun _ => rfl⟩⟩

/-- An operation loses nothing exactly when the copy that it writes back is up to date. -/
theorem upToDate_iff (h : w.step trustId e = some w') :
    w.UpToDate e ↔ PersistedHeld e.forgets w w' := by
  cases e with
  | openRevisionStore accountIds =>
    cases h
    exact iff_of_true trivial (persistedHeld_revisions_iff.mpr (revisionsHeld_recordAll _ _))
  | record store itemId revision =>
    obtain ⟨revisions, hwrite, rfl⟩ := Option.map_eq_some_iff.mp h
    have hholds := writeHolds_iff (R := RevisionsHeld) hwrite
    rw [writeHolds_congr fun copy copy' => record?_eq_some] at hholds
    simp only [revisionsHeld_recorded_iff] at hholds
    exact hholds.trans persistedHeld_revisions_iff.symm
  | markV2Only store =>
    obtain ⟨revisions, hwrite, rfl⟩ := Option.map_eq_some_iff.mp h
    have hholds := writeHolds_iff (R := RevisionsHeld) hwrite
    rw [writeHolds_congr fun copy copy' => markV2Only?_eq_some] at hholds
    simp only [revisionsHeld_marked_iff] at hholds
    exact hholds.trans persistedHeld_revisions_iff.symm
  | openKeyPinStore accountIds =>
    cases h
    exact iff_of_true trivial (persistedHeld_pins_iff.mpr (pinsHeld_setAll _ _))
  | setPin store userId identityKey =>
    obtain ⟨pins, hwrite, rfl⟩ := Option.map_eq_some_iff.mp h
    have hholds := writeHolds_iff (R := PinsHeld) hwrite
    rw [writeHolds_always] at hholds
    simp only [pinsHeld_set_iff] at hholds
    exact hholds.trans persistedHeld_pins_iff.symm
  | openOrgEpochStore =>
    cases h
    exact iff_of_true trivial (persistedHeld_epochs_iff.mpr (refl_of _ _))
  | recordEpoch store orgId epoch =>
    obtain ⟨epochs, hwrite, rfl⟩ := Option.map_eq_some_iff.mp h
    have hholds := writeHolds_iff (R := EpochsHeld) hwrite
    rw [writeHolds_congr fun copy copy' => epochs_record?_eq_some] at hholds
    simp only [epochsHeld_recorded_iff] at hholds
    exact hholds.trans persistedHeld_epochs_iff.symm
  | openOrgLedger =>
    cases h
    exact iff_of_true trivial (persistedHeld_ledger_iff.mpr (refl_of _ _))
  | remember store orgId seen =>
    obtain ⟨ledger, hwrite, rfl⟩ := Option.map_eq_some_iff.mp h
    have hholds := writeHolds_iff (R := LedgerHeld fun _ => {}) hwrite
    rw [writeHolds_always] at hholds
    simp only [ledgerHeld_remember_iff] at hholds
    exact hholds.trans persistedHeld_ledger_iff.symm
  | forget store orgId gone =>
    obtain ⟨ledger, hwrite, rfl⟩ := Option.map_eq_some_iff.mp h
    have hholds := writeHolds_iff
      (R := LedgerHeld fun id => if id = orgId then gone else {}) hwrite
    rw [writeHolds_always] at hholds
    simp only [ledgerHeld_forget_iff] at hholds
    exact hholds.trans persistedHeld_ledger_iff.symm
  | otherAccounts legacy =>
    cases h
    exact iff_of_true trivial (persistedHeld_revisions_iff.mpr (refl_of _ _))

/-- A store that is not open writes nothing. -/
theorem upToDate_of_not_enabled (h : w.step trustId e = none) : w.UpToDate e := by
  have hclosed {S : Type} {r : SharedRecord S} {i : Nat} {change : S → Option S}
      (hr : r.write i change = none) : ∀ copy, copy ∉ r.copies[i]? := by
    intro copy hcopy
    rw [write, Option.map_eq_none_iff] at hr
    rw [hr] at hcopy
    cases hcopy
  cases e with
  | openRevisionStore accountIds => trivial
  | record store itemId revision =>
    exact fun copy hcopy => absurd hcopy (hclosed (Option.map_eq_none_iff.mp h) copy)
  | markV2Only store =>
    exact fun copy hcopy => absurd hcopy (hclosed (Option.map_eq_none_iff.mp h) copy)
  | openKeyPinStore accountIds => trivial
  | setPin store userId identityKey =>
    exact fun copy hcopy => absurd hcopy (hclosed (Option.map_eq_none_iff.mp h) copy)
  | openOrgEpochStore => trivial
  | recordEpoch store orgId epoch =>
    exact fun copy hcopy => absurd hcopy (hclosed (Option.map_eq_none_iff.mp h) copy)
  | openOrgLedger => trivial
  | remember store orgId seen =>
    exact fun copy hcopy => absurd hcopy (hclosed (Option.map_eq_none_iff.mp h) copy)
  | forget store orgId gone =>
    exact fun copy hcopy => absurd hcopy (hclosed (Option.map_eq_none_iff.mp h) copy)
  | otherAccounts legacy => trivial

/-- The four records before and after an operation. -/
structure RecordsMove (w w' : TrustWorld) : Prop where
  revisions : Moves w.revisions w'.revisions
  pins : Moves w.pins w'.pins
  epochs : Moves w.epochs w'.epochs
  ledger : Moves w.ledger w'.ledger

/-- An operation opens one record, writes one, or leaves them all. -/
theorem recordsMove_of_step (h : w.step trustId e = some w') : RecordsMove w w' := by
  cases e with
  | openRevisionStore accountIds =>
    cases h
    exact ⟨.opened (·.recordAll _) rfl, .refl, .refl, .refl⟩
  | record store itemId revision =>
    obtain ⟨_, hwrite, rfl⟩ := Option.map_eq_some_iff.mp h
    exact ⟨.write store _ hwrite, .refl, .refl, .refl⟩
  | markV2Only store =>
    obtain ⟨_, hwrite, rfl⟩ := Option.map_eq_some_iff.mp h
    exact ⟨.write store _ hwrite, .refl, .refl, .refl⟩
  | openKeyPinStore accountIds =>
    cases h
    exact ⟨.refl, .opened (KeyPins.setAll · _) rfl, .refl, .refl⟩
  | setPin store userId identityKey =>
    obtain ⟨_, hwrite, rfl⟩ := Option.map_eq_some_iff.mp h
    exact ⟨.refl, .write store _ hwrite, .refl, .refl⟩
  | openOrgEpochStore =>
    cases h
    exact ⟨.refl, .refl, .opened id rfl, .refl⟩
  | recordEpoch store orgId epoch =>
    obtain ⟨_, hwrite, rfl⟩ := Option.map_eq_some_iff.mp h
    exact ⟨.refl, .refl, .write store _ hwrite, .refl⟩
  | openOrgLedger =>
    cases h
    exact ⟨.refl, .refl, .refl, .opened id rfl⟩
  | remember store orgId seen =>
    obtain ⟨_, hwrite, rfl⟩ := Option.map_eq_some_iff.mp h
    exact ⟨.refl, .refl, .refl, .write store _ hwrite⟩
  | forget store orgId gone =>
    obtain ⟨_, hwrite, rfl⟩ := Option.map_eq_some_iff.mp h
    exact ⟨.refl, .refl, .refl, .write store _ hwrite⟩
  | otherAccounts legacy =>
    cases h
    exact ⟨.refl, .refl, .refl, .refl⟩

end Operations

/-! ## Runs -/

section Runs

variable {trustId : String} {w₀ w w' : TrustWorld} {events : List TrustEvent}
  {gone everGone : OrgLedger}

/-- The records hold what the open stores hold, but for some forgotten ids. -/
structure Learned (everGone : OrgLedger) (w : TrustWorld) : Prop where
  revisions : w.revisions.Covers RevisionsHeld
  pins : w.pins.Covers PinsHeld
  epochs : w.epochs.Covers EpochsHeld
  ledger : w.ledger.Covers (LedgerHeld everGone)

/-- No store has learned anything before one is opened. -/
theorem learned_noneOpen (everGone : OrgLedger) (records : TrustRecords) :
    Learned everGone records.noneOpen := by
  constructor
  · exact fun _ h => absurd h List.not_mem_nil
  · exact fun _ h => absurd h List.not_mem_nil
  · exact fun _ h => absurd h List.not_mem_nil
  · exact fun _ h => absurd h List.not_mem_nil

/-- The records go on holding what the open stores hold. -/
theorem Learned.step (hl : Learned everGone w) (hm : RecordsMove w w')
    (hp : PersistedHeld everGone w w') : Learned everGone w' where
  revisions := hl.revisions.moves hm.revisions hp.revisions
  pins := hl.pins.moves hm.pins hp.pins
  epochs := hl.epochs.moves hm.epochs hp.epochs
  ledger := hl.ledger.moves hm.ledger hp.ledger

/-- One more operation that loses nothing. -/
theorem TrustForward.step (hsub : Forgets gone everGone) (h₀ : Learned everGone w₀)
    (hf : TrustForward gone everGone w₀ w) (hm : RecordsMove w w') (hp : PersistedHeld gone w w') :
    TrustForward gone everGone w₀ w' where
  revisions := hf.revisions.moves (fun _ _ h => h) h₀.revisions hm.revisions hp.revisions
  pins := hf.pins.moves (fun _ _ h => h) h₀.pins hm.pins hp.pins
  epochs := hf.epochs.moves (fun _ _ h => h) h₀.epochs hm.epochs hp.epochs
  ledger := hf.ledger.moves (LedgerHeld.mono hsub) h₀.ledger hm.ledger hp.ledger

/-- What is lost but for some forgotten ids is lost but for more. -/
theorem PersistedHeld.mono (hsub : Forgets gone everGone) (hp : PersistedHeld gone w w') :
    PersistedHeld everGone w w' :=
  ⟨hp.revisions, hp.pins, hp.epochs, hp.ledger.mono hsub _ _⟩

/-- Up-to-date operations lose nothing over a whole run. -/
theorem trustForward_of_run (hsub : Forgets (forgotten events) everGone)
    (h₀ : Learned everGone w₀)
    (hc : EventsMeet (TrustWorld.step trustId) TrustWorld.UpToDate events w₀)
    (h : runEvents (TrustWorld.step trustId) events w₀ = some w) :
    TrustForward (forgotten events) everGone w₀ w ∧ Learned everGone w := by
  have hstep : ∀ e ∈ events, ∀ w w',
      TrustForward (forgotten events) everGone w₀ w ∧ Learned everGone w → w.UpToDate e →
      w.step trustId e = some w' →
      TrustForward (forgotten events) everGone w₀ w' ∧ Learned everGone w' := by
    intro e he w w' ⟨hf, hl⟩ hup hs
    have hm := recordsMove_of_step hs
    have hp := ((upToDate_iff hs).mp hup).mono (forgets_forgotten he)
    exact ⟨hf.step hsub h₀ hm hp, hl.step hm (hp.mono hsub)⟩
  have hstart : TrustForward (forgotten events) everGone w₀ w₀ ∧ Learned everGone w₀ :=
    ⟨⟨.refl _, .refl _, .refl _, .refl _⟩, h₀⟩
  have hend := invariant_of_events hstep hstart hc h
  exact hend

/-- What a part of a run forgets, the run forgets. -/
theorem forgets_of_subset {events' : List TrustEvent} (h : events ⊆ events') :
    Forgets (forgotten events) (forgotten events') := by
  intro orgId
  constructor
  · intro id hid
    obtain ⟨e, he, hid⟩ := List.mem_flatMap.mp hid
    exact (forgets_forgotten (h he) orgId).1 hid
  · intro id hid
    obtain ⟨e, he, hid⟩ := List.mem_flatMap.mp hid
    exact (forgets_forgotten (h he) orgId).2 hid

end Runs

end Nopass
