import Nopass.Client.VaultProvider

/-!
# Marking an account as free of legacy items

The pass visits the items that the client holds when it starts. If these hold every
legacy item of the server, an account that is marked has none left; what makes them do so
is a load whose every request was answered, while no legacy item changed its vault.
-/

namespace Nopass

/-- The pass starts on a complete load, and no legacy item changes its vault while it is on. -/
def Undisturbed (w : VaultWorld) : VaultEvent → Prop
  | .startUpgrade => w.provider.loaded = true
  | .clientsWrite server => w.provider.isFetching = true → StaysPut w.server server
  | _ => True

instance (w : VaultWorld) (e : VaultEvent) : Decidable (Undisturbed w e) := by
  cases e with
  | startUpgrade => exact inferInstanceAs (Decidable (_ = _))
  | clientsWrite server => exact inferInstanceAs (Decidable (_ → _))
  | vaultList ok => exact inferInstanceAs (Decidable True)
  | vaultItems vaultId ok => exact inferInstanceAs (Decidable True)
  | openRevisions store => exact inferInstanceAs (Decidable True)
  | upgradeNext iv delivery => exact inferInstanceAs (Decidable True)
  | publish ok => exact inferInstanceAs (Decidable True)
  | saved item => exact inferInstanceAs (Decidable True)
  | relabelled items => exact inferInstanceAs (Decidable True)

/-- Every legacy item of the server is among these items, as a legacy item. -/
def HoldsLegacy (server : AccountServer) (items : List EncryptedVaultItem) : Prop :=
  ∀ i ∈ server.items, isLegacyItemBlob i.toEncryptedBlob = true → HasLegacy items i.id

/-- Every legacy item of the server is in a listed vault, and in its answer if it was answered. -/
def HoldsServed (server : AccountServer)
    (answers : List (String × Option (List EncryptedVaultItem))) : Prop :=
  ∀ i ∈ server.items, isLegacyItemBlob i.toEncryptedBlob = true →
    ∃ answer ∈ answers, answer.1 = i.vaultId ∧ ∀ served ∈ answer.2, HasLegacy served i.id

/-- What every undisturbed event preserves. -/
structure UpgradeInv (w : VaultWorld) : Prop where
  fetching : ∀ answers, w.provider.load = .fetching answers → HoldsServed w.server answers
  held : w.provider.load = .ended true → w.provider.legacyUpgradeStarted = false →
    HoldsLegacy w.server w.provider.allItems
  pass : ∀ remaining failed, w.provider.upgrade = some ⟨remaining, failed⟩ →
    w.provider.load = .ended true ∧ w.provider.legacyUpgradeStarted = true ∧
      (failed = 0 → HoldsLegacy w.server remaining)
  published : w.provider.published = true → HoldsLegacy w.server []

section Invariant

variable {P : Type} {c : ItemCrypto P} {keys : VaultKeys} {w w' : VaultWorld}

/-- Whether a legacy item is there depends on ids and blobs alone. -/
theorem HasLegacy.congr {items items' : List EncryptedVaultItem} {id : String}
    (h : HasLegacy items id) (hsame : items'.map (fun i => (i.id, i.toEncryptedBlob)) =
      items.map fun i => (i.id, i.toEncryptedBlob)) : HasLegacy items' id := by
  obtain ⟨i, hi, hid, hlegacy⟩ := h
  have hmem : (i.id, i.toEncryptedBlob) ∈ items'.map fun i => (i.id, i.toEncryptedBlob) := by
    rw [hsame]
    exact List.mem_map.mpr ⟨i, hi, rfl⟩
  obtain ⟨i', hi', heq⟩ := List.mem_map.mp hmem
  obtain ⟨hid', hblob⟩ := Prod.mk.inj heq
  exact ⟨i', hi', hid'.trans hid, by rw [hblob, hlegacy]⟩

/-- Putting in another item keeps a legacy item. -/
theorem HasLegacy.upsertItem {items : List EncryptedVaultItem} {id : String}
    (h : HasLegacy items id) {item : EncryptedVaultItem} (hne : id ≠ item.id) :
    HasLegacy (upsertItem item items) id := by
  obtain ⟨i, hi, hid, hlegacy⟩ := h
  rw [Nopass.upsertItem]
  split
  · refine ⟨i, List.mem_map.mpr ⟨i, hi, if_neg ?_⟩, hid, hlegacy⟩
    rw [hid]
    exact hne
  · exact ⟨i, List.mem_append_left _ hi, hid, hlegacy⟩

/-- Current writes keep what holds every legacy item. -/
theorem HoldsLegacy.of_writes {server server' : AccountServer} {items : List EncryptedVaultItem}
    (h : HoldsLegacy server items) (hw : OnlyCurrentWrites server server') :
    HoldsLegacy server' items := by
  intro i hi hlegacy
  obtain ⟨i₀, hi₀, hid, hlegacy₀⟩ := hw i hi hlegacy
  rw [← hid]
  exact h i₀ hi₀ hlegacy₀

/-- Without a change of vaults, answers hold what they held. -/
theorem HoldsServed.of_staysPut {server server' : AccountServer}
    {answers : List (String × Option (List EncryptedVaultItem))} (h : HoldsServed server answers)
    (hw : StaysPut server server') : HoldsServed server' answers := by
  intro i hi hlegacy
  obtain ⟨i₀, hi₀, hid, hlegacy₀⟩ := hw i hi hlegacy
  obtain ⟨hin, hvault⟩ := List.mem_filter.mp hi₀
  obtain ⟨answer, hanswer, hkey, hserved⟩ := h i₀ hin hlegacy₀
  refine ⟨answer, hanswer, hkey.trans (of_decide_eq_true hvault), fun served hs => ?_⟩
  rw [← hid]
  exact hserved served hs

/-- Listing the vaults. -/
theorem holdsServed_listed (server : AccountServer) :
    HoldsServed server (server.vaults.map fun v => (v, none)) := by
  intro i hi _
  exact ⟨(i.vaultId, none), List.mem_map.mpr ⟨i.vaultId, server.vault_mem i hi, rfl⟩, rfl, nofun⟩

/-- An answer for a vault. -/
theorem HoldsServed.answered {server : AccountServer}
    {answers : List (String × Option (List EncryptedVaultItem))} (h : HoldsServed server answers)
    (vaultId : String) : HoldsServed server (answers.map (answerVault server vaultId)) := by
  intro i hi hlegacy
  obtain ⟨answer, hanswer, hkey, hserved⟩ := h i hi hlegacy
  refine ⟨answerVault server vaultId answer, List.mem_map.mpr ⟨answer, hanswer, rfl⟩, ?_, ?_⟩
  · rw [answerVault]
    split
    · exact hkey
    · exact hkey
  · rw [answerVault]
    split
    · rename_i hvault
      rintro served ⟨⟩
      cases ha : answer.2 with
      | none =>
        refine ⟨i, List.mem_filter.mpr ⟨hi, decide_eq_true ?_⟩, rfl, hlegacy⟩
        rw [← hkey, hvault]
      | some served => exact hserved served ha
    · exact hserved

/-- What all entries have is in the list of their values. -/
theorem exists_of_mapM_eq_some {α β : Type} {f : α → Option β} {l : List α} {values : List β}
    (h : l.mapM f = some values) {a : α} (ha : a ∈ l) : ∃ b ∈ values, f a = some b := by
  induction l generalizing values with
  | nil => cases ha
  | cons a' rest ih =>
    rw [List.mapM_cons] at h
    obtain ⟨b, hb, h⟩ := Option.bind_eq_some_iff.mp h
    obtain ⟨tail, htail, h⟩ := Option.bind_eq_some_iff.mp h
    cases h
    rcases List.mem_cons.mp ha with rfl | ha
    · exact ⟨b, List.mem_cons_self, hb⟩
    · obtain ⟨b', hb', hf⟩ := ih htail ha
      exact ⟨b', List.mem_cons_of_mem _ hb', hf⟩

/-- When every vault was answered, the items hold every legacy item. -/
theorem HoldsServed.flatten {server : AccountServer}
    {answers : List (String × Option (List EncryptedVaultItem))} (h : HoldsServed server answers)
    {perVault : List (List EncryptedVaultItem)} (hall : answers.mapM (·.2) = some perVault) :
    HoldsLegacy server perVault.flatten := by
  intro i hi hlegacy
  obtain ⟨answer, hanswer, _, hserved⟩ := h i hi hlegacy
  obtain ⟨served, hin, hsome⟩ := exists_of_mapM_eq_some hall hanswer
  obtain ⟨j, hj, hid, hj'⟩ := hserved served hsome
  exact ⟨j, List.mem_flatten.mpr ⟨served, hin, hj⟩, hid, hj'⟩

/-- The load goes on. -/
theorem UpgradeInv.settle (h : UpgradeInv w) (hloading : w.provider.upgrade = none)
    {answers : List (String × Option (List EncryptedVaultItem))}
    (ha : HoldsServed w.server answers) :
    UpgradeInv { w with provider := w.provider.settle answers } := by
  rw [VaultProvider.settle]
  split
  · rename_i perVault hall
    constructor
    · exact nofun
    · intro _ _
      exact ha.flatten hall
    · intro remaining failed hp
      exact absurd (hloading.symm.trans hp) nofun
    · exact h.published
  · constructor
    · rintro answers' ⟨⟩
      exact ha
    · exact nofun
    · intro remaining failed hp
      exact absurd (hloading.symm.trans hp) nofun
    · exact h.published

/-- The load fails. -/
theorem UpgradeInv.failLoad (h : UpgradeInv w) (hloading : w.provider.upgrade = none) :
    UpgradeInv { w with provider := w.provider.failLoad } := by
  constructor
  · exact nofun
  · exact nofun
  · intro remaining failed hp
    exact absurd (hloading.symm.trans hp) nofun
  · exact h.published

/-- No pass is on while something loads. -/
theorem UpgradeInv.upgrade_eq_none (h : UpgradeInv w) (hload : w.provider.load ≠ .ended true) :
    w.provider.upgrade = none := by
  cases hp : w.provider.upgrade with
  | none => rfl
  | some pass => exact absurd (h.pass pass.remaining pass.failed hp).1 hload

/-- Writes of clients that change no more than they may. -/
theorem UpgradeInv.clientsWrite (h : UpgradeInv w) {server : AccountServer}
    (hw : OnlyCurrentWrites w.server server)
    (hstay : w.provider.isFetching = true → StaysPut w.server server) :
    UpgradeInv { w with server := server } := by
  constructor
  · intro answers ha
    have hfetching : w.provider.isFetching = true := by
      have ha : w.provider.load = .fetching answers := ha
      rw [VaultProvider.isFetching, ha]
    exact (h.fetching answers ha).of_staysPut (hstay hfetching)
  · intro hload hstarted
    exact (h.held hload hstarted).of_writes hw
  · intro remaining failed hp
    obtain ⟨hload, hstarted, hheld⟩ := h.pass remaining failed hp
    exact ⟨hload, hstarted, fun hf => (hheld hf).of_writes hw⟩
  · intro hp
    exact (h.published hp).of_writes hw

/-- The items of the client change, and still hold every legacy item. -/
theorem UpgradeInv.setItems (h : UpgradeInv w) {items : List EncryptedVaultItem}
    (hi : HoldsLegacy w.server w.provider.allItems → HoldsLegacy w.server items) :
    UpgradeInv { w with provider := { w.provider with allItems := items } } := by
  constructor
  · exact h.fetching
  · intro hload hstarted
    exact hi (h.held hload hstarted)
  · exact h.pass
  · exact h.published

/-- A replaced blob is written at the id alone, and leaves no legacy item with it. -/
theorem of_update {server server' : AccountServer} {id : String} {version : Int}
    {encrypted : EncryptedBlob} (h : server.update id version encrypted = some server')
    (he : isLegacyItemBlob encrypted = false) {i : EncryptedVaultItem} (hi : i ∈ server'.items)
    (hlegacy : isLegacyItemBlob i.toEncryptedBlob = true) :
    HasLegacy server.items i.id ∧ i.id ≠ id := by
  obtain ⟨hany, hs⟩ := Option.ite_none_right_eq_some.mp h
  cases hs
  obtain ⟨i₀, hi₀, rfl⟩ := List.mem_map.mp hi
  obtain ⟨i₁, hi₁, hmatch⟩ := List.any_eq_true.mp hany
  rw [Bool.and_eq_true, decide_eq_true_eq, decide_eq_true_eq] at hmatch
  have hother : ¬ (i₀.id = id ∧ i₀.version = version) := by
    intro hm
    rw [replaceBlob, if_pos hm, he] at hlegacy
    cases hlegacy
  rw [replaceBlob, if_neg hother] at hlegacy ⊢
  refine ⟨⟨i₀, hi₀, rfl, hlegacy⟩, fun hid => hother ?_⟩
  -- ids are unique, so the item with this id is the one that was replaced
  have hsame : i₀ = i₁ := List.inj_on_of_nodup_map server.ids_nodup hi₀ hi₁
    (hid.trans hmatch.1.symm)
  rw [hsame]
  exact hmatch

/-- What a pass encrypts is not legacy. -/
theorem isLegacy_upgradeItem {item : EncryptedVaultItem} {iv : Bytes}
    {s s' : Option MemoryRevisionStore} {out : EncryptedBlob × Nat}
    (h : upgradeItem c keys item iv s = .ok out s') : isLegacyItemBlob out.1 = false := by
  simp only [upgradeItem, encryptVaultItem, EStateM.bind_eq_ok, EStateM.pure_eq_ok] at h
  obtain ⟨current, s₁, _, highest, s₂, _, encrypted, s₃, hencrypt, rfl, _⟩ := h
  cases he : encryptItemV2 c current.plaintext (bindingForItem item)
      (max (highest.getD 0) ((some current.revision).getD 0) + 1) keys.vaultEncKey iv with
  | error e =>
    rw [he] at hencrypt
    cases hencrypt
  | ok blob =>
    rw [he] at hencrypt
    cases hencrypt
    simp only [encryptItemV2, client_bind_eq_ok] at he
    obtain ⟨_, _, _, _, _, _, _, _, he⟩ := he
    cases he
    rfl

/-- A failed turn leaves the pass with a failure. -/
theorem UpgradeInv.turnFailed (h : UpgradeInv w) {item : EncryptedVaultItem}
    {rest : List EncryptedVaultItem} {failed : Nat}
    (hp : w.provider.upgrade = some ⟨item :: rest, failed⟩)
    (revisions : Option MemoryRevisionStore) :
    UpgradeInv { w with provider :=
      { w.provider with revisions := revisions, upgrade := some ⟨rest, failed + 1⟩ } } := by
  obtain ⟨hload, hstarted, _⟩ := h.pass _ _ hp
  constructor
  · exact h.fetching
  · exact h.held
  · rintro remaining failed' ⟨⟩
    exact ⟨hload, hstarted, nofun⟩
  · exact h.published

/-- A turn of the pass. -/
theorem UpgradeInv.upgradeTurn (h : UpgradeInv w) {item : EncryptedVaultItem}
    {rest : List EncryptedVaultItem} {failed : Nat}
    (hp : w.provider.upgrade = some ⟨item :: rest, failed⟩) (iv : Bytes) (delivery : Delivery) :
    UpgradeInv (w.upgradeTurn c keys item rest failed iv delivery) := by
  obtain ⟨hload, hstarted, hheld⟩ := h.pass _ _ hp
  rw [VaultWorld.upgradeTurn]
  split
  · rename_i hcurrent
    rw [Bool.not_eq_true'] at hcurrent
    constructor
    · exact h.fetching
    · exact h.held
    · rintro remaining failed' ⟨⟩
      refine ⟨hload, hstarted, fun hf i hi hlegacy => ?_⟩
      obtain ⟨j, hj, hid, hj'⟩ := hheld hf i hi hlegacy
      rcases List.mem_cons.mp hj with rfl | hj
      · rw [hcurrent] at hj'
        cases hj'
      · exact ⟨j, hj, hid, hj'⟩
    · exact h.published
  · split
    · exact h.turnFailed hp _
    · rename_i encrypted revision revisions hitem
      have he := isLegacy_upgradeItem hitem
      split
      · rename_i server hupdate
        have hold : ∀ i ∈ server.items, isLegacyItemBlob i.toEncryptedBlob = true →
            HasLegacy w.server.items i.id ∧ i.id ≠ item.id := fun i => of_update hupdate he
        have hw : OnlyCurrentWrites w.server server := fun i hi hl => (hold i hi hl).1
        constructor
        · intro answers ha
          exact absurd (hload.symm.trans ha) nofun
        · intro _ hnot
          exact absurd (hstarted.symm.trans hnot) nofun
        · rintro remaining failed' ⟨⟩
          refine ⟨hload, hstarted, fun hf i hi hlegacy => ?_⟩
          obtain ⟨j, hj, hid, hj'⟩ := (hheld hf).of_writes hw i hi hlegacy
          rcases List.mem_cons.mp hj with rfl | hj
          · exact absurd hid.symm (hold i hi hlegacy).2
          · exact ⟨j, hj, hid, hj'⟩
        · intro hpub
          exact (h.published hpub).of_writes hw
      · rename_i server hupdate
        refine (h.turnFailed hp revisions).clientsWrite (fun i hi hl => ?_) fun hfetching => ?_
        · exact (of_update hupdate he hi hl).1
        · rw [VaultProvider.isFetching] at hfetching
          simp [hload] at hfetching
      · exact h.turnFailed hp _

/-- Every undisturbed event preserves the invariant. -/
theorem UpgradeInv.step (h : UpgradeInv w) {e : VaultEvent} (hc : Undisturbed w e)
    (hs : w.step c keys e = some w') : UpgradeInv w' := by
  cases e with
  | vaultList ok =>
    rw [VaultWorld.step] at hs
    split at hs
    · rename_i hload
      have hnone := h.upgrade_eq_none (by rw [hload]; nofun)
      cases ok with
      | true =>
        cases hs
        exact h.settle hnone (holdsServed_listed w.server)
      | false =>
        cases hs
        exact h.failLoad hnone
    · cases hs
  | vaultItems vaultId ok =>
    rw [VaultWorld.step] at hs
    split at hs
    · rename_i answers hload
      have hnone := h.upgrade_eq_none (by rw [hload]; nofun)
      cases ok with
      | true =>
        cases hs
        exact h.settle hnone ((h.fetching answers hload).answered vaultId)
      | false =>
        cases hs
        exact h.failLoad hnone
    · cases hs
  | openRevisions store =>
    cases hs
    exact ⟨h.fetching, h.held, h.pass, h.published⟩
  | startUpgrade =>
    obtain ⟨hmay, hs⟩ := Option.ite_none_right_eq_some.mp hs
    cases hs
    have hload : w.provider.load = .ended true := by
      have hc : w.provider.loaded = true := hc
      rw [VaultProvider.loaded] at hc
      split at hc
      · rename_i hended
        rw [hended, hc]
      · cases hc
    simp only [VaultProvider.mayUpgrade, Bool.and_eq_true, Bool.not_eq_true'] at hmay
    constructor
    · exact h.fetching
    · exact nofun
    · rintro remaining failed ⟨⟩
      exact ⟨hload, rfl, fun _ => h.held hload hmay.1.1⟩
    · exact h.published
  | upgradeNext iv delivery =>
    rw [VaultWorld.step] at hs
    split at hs
    · rename_i item rest failed hp
      cases hs
      exact h.upgradeTurn hp iv delivery
    · cases hs
  | publish ok =>
    rw [VaultWorld.step] at hs
    split at hs
    · rename_i hp
      cases hs
      constructor
      · exact h.fetching
      · exact h.held
      · exact nofun
      · intro _
        exact (h.pass _ _ hp).2.2 rfl
    · cases hs
  | clientsWrite server =>
    obtain ⟨hw, hs⟩ := Option.ite_none_right_eq_some.mp hs
    cases hs
    exact h.clientsWrite hw hc
  | saved item =>
    obtain ⟨⟨_, hnone⟩, hs⟩ := Option.ite_none_right_eq_some.mp hs
    cases hs
    refine h.setItems fun hheld i hi hlegacy => (hheld i hi hlegacy).upsertItem fun hid => hnone ?_
    exact ⟨i, hi, hid, hlegacy⟩
  | relabelled items =>
    obtain ⟨hsame, hs⟩ := Option.ite_none_right_eq_some.mp hs
    cases hs
    exact h.setItems fun hheld i hi hlegacy => (hheld i hi hlegacy).congr hsame

/-- After an unlock nothing is loaded, started or published. -/
theorem upgradeInv_unlocked (server : AccountServer) : UpgradeInv ⟨server, .unlocked⟩ :=
  ⟨nofun, nofun, nofun, nofun⟩

/-- A current blob is not refused for being legacy. -/
theorem decryptVaultItem_ne_legacyItemRejected {encrypted : EncryptedBlob}
    (he : isLegacyItemBlob encrypted = false) (binding : ItemBinding) (itemId : String)
    (s s' : Option MemoryRevisionStore) :
    decryptVaultItem c encrypted binding keys s ≠ .error (.legacyItemRejected itemId) s' := by
  intro h
  have hlift : ∀ (x : Client (DecryptedItem P)) s₁, liftItem x s₁ ≠
      .error (.legacyItemRejected itemId) s' := by
    intro x s₁ hx
    cases x with
    | error e => cases hx
    | ok r => cases hx
  have hget : ∀ s₁, getRevision binding.itemId s₁ ≠
      .error (.legacyItemRejected itemId) s' := fun _ => nofun
  simp only [decryptVaultItem, EStateM.bind_eq_error, EStateM.throwUnless_eq_error, he,
    Bool.false_and, Bool.not_false, Bool.true_eq_false, false_and, false_or, reduceCtorEq,
    and_false, hlift, hget] at h
  obtain h | ⟨_, _, _, _, _, _, _, _, _, _, _, _, _, _, _, _, _, _, h | ⟨_, _, _, h⟩⟩ := h
  · cases h
  · cases h
  · cases h

/-- In every run after an unlock whose pass starts on a complete load, while no legacy item changed
its vault during the load, an account that was marked has no legacy item on the server; so the
mark makes no item unreadable, on no device. -/
theorem published_of_undisturbed (server : AccountServer) {events : List VaultEvent}
    (hc : EventsMeet (VaultWorld.step c keys) Undisturbed events ⟨server, .unlocked⟩)
    (h : runEvents (VaultWorld.step c keys) events ⟨server, .unlocked⟩ = some w)
    (hp : w.provider.published = true) :
    ∀ i ∈ w.server.items, isLegacyItemBlob i.toEncryptedBlob = false ∧
      ∀ (binding : ItemBinding) itemId s s', decryptVaultItem c i.toEncryptedBlob binding keys s ≠
        .error (.legacyItemRejected itemId) s' := by
  have hinv := invariant_of_events (fun _ _ w w' hw he hs => UpgradeInv.step hw he hs)
    (upgradeInv_unlocked server) hc h
  intro i hi
  have hcurrent : isLegacyItemBlob i.toEncryptedBlob = false := by
    by_contra hlegacy
    obtain ⟨_, hnil, _⟩ := hinv.published hp i hi (Bool.not_eq_false _ ▸ hlegacy)
    cases hnil
  exact ⟨hcurrent, fun binding itemId s s' =>
    decryptVaultItem_ne_legacyItemRejected hcurrent binding itemId s s'⟩

end Invariant

/-- Encryption in the clear. -/
private def clearItems : ItemCrypto Bytes where
  aes :=
    { encrypt := fun _ _ _ text => text
      decrypt := fun _ _ _ text => some text }
  hmacSign key message := key ++ message
  typeOf _ := some "note"
  serialize := id
  parse := some

private def clearKeys : VaultKeys where
  vaultEncKey := .aesGcm [1]
  vaultMacKey := .hmac [2]

/-- An account with one legacy note. -/
private def oneLegacyNote : AccountServer where
  vaults := ["v"]
  items := [{ blob := Base64.encode [65], blobIv := Base64.encode [3]
              blobMac := Base64.encode [2, 3, 65]
              id := "00000000-0000-0000-0000-00000000000a", vaultId := "v", itemType := "note" }]
  ids_nodup := by decide
  vault_mem := by simp

private def emptyStore : MemoryRevisionStore where
  revisions _ := none
  legacyClosed := false

/-- A complete load, then the pass. -/
private def upgraded : List VaultEvent :=
  [.vaultList true, .vaultItems "v" true, .openRevisions emptyStore, .startUpgrade,
    .upgradeNext [4] .answered, .publish true]

/-- A load whose first request fails, then the pass. -/
private def upgradedNothing : List VaultEvent :=
  [.vaultList false, .openRevisions emptyStore, .startUpgrade, .publish true]

/-- After a complete load the note is upgraded before the account is marked. -/
theorem published_of_undisturbed_note :
    ∃ w, runEvents (VaultWorld.step clearItems clearKeys) upgraded ⟨oneLegacyNote, .unlocked⟩ =
        some w ∧ w.provider.published = true ∧ w.server.items ≠ [] ∧
      ∀ i ∈ w.server.items, isLegacyItemBlob i.toEncryptedBlob = false ∧
        ∀ (binding : ItemBinding) itemId s s',
          decryptVaultItem clearItems i.toEncryptedBlob binding clearKeys s ≠
            .error (.legacyItemRejected itemId) s' := by
  have hrun : (runEvents (VaultWorld.step clearItems clearKeys) upgraded
      ⟨oneLegacyNote, .unlocked⟩).map (fun w => w.provider.published && !w.server.items.isEmpty) =
        some true := by decide
  obtain ⟨w, h, hw⟩ := Option.map_eq_some_iff.mp hrun
  obtain ⟨hp, hne⟩ := Bool.and_eq_true_iff.mp hw
  refine ⟨w, h, hp, by simpa using hne, ?_⟩
  exact published_of_undisturbed oneLegacyNote (by decide) h hp

/-- After a failed load the account is marked while its note is still legacy, and a device that
applies the mark refuses the note. -/
theorem not_published_of_failed_load :
    ∃ w, runEvents (VaultWorld.step clearItems clearKeys) upgradedNothing
        ⟨oneLegacyNote, .unlocked⟩ = some w ∧ w.provider.published = true ∧
      ∃ i ∈ w.server.items, isLegacyItemBlob i.toEncryptedBlob = true ∧
        decryptVaultItem clearItems i.toEncryptedBlob (bindingForItem i) clearKeys
          (some emptyStore.markV2Only) =
            .error (.legacyItemRejected i.id) (some emptyStore.markV2Only) := by
  have hrun : (runEvents (VaultWorld.step clearItems clearKeys) upgradedNothing
      ⟨oneLegacyNote, .unlocked⟩).map (fun w => decide (w.provider.published = true ∧
        ∃ i ∈ w.server.items, isLegacyItemBlob i.toEncryptedBlob = true)) = some true := by
    decide
  obtain ⟨w, h, hw⟩ := Option.map_eq_some_iff.mp hrun
  obtain ⟨hp, i, hi, hlegacy⟩ := of_decide_eq_true hw
  refine ⟨w, h, hp, i, hi, hlegacy, ?_⟩
  have hget : getV2Only (some emptyStore.markV2Only) = .ok true (some emptyStore.markV2Only) := rfl
  rw [decryptVaultItem, EStateM.bind_of_ok hget, hlegacy]
  rfl

end Nopass
