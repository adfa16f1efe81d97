import Nopass.Client.EnvelopeBinding

/-!
# Rollback protection

The revision store is keyed by the item id as it is served, the associated data by the
bytes that the id spells. As long as a server spells each id in one way, no accepted
revision is followed by a lower one or by a legacy blob of the item.
-/

namespace Nopass

/-- Two ids that spell the same bytes. -/
def SameItem (id id' : String) : Prop := ∃ bytes, uuidBytes id = some bytes ∧ uuidBytes id' = some bytes

/-- What happens to a store: an item is served and decrypted, or the account is marked. -/
inductive StoreStep where
  | serve (row : EncryptedVaultItem)
  | markV2Only

/-- Each id that is served is spelled in one way. -/
def SpelledOnce (steps : List StoreStep) : Prop :=
  ∀ row row', .serve row ∈ steps → .serve row' ∈ steps → SameItem row.id row'.id → row.id = row'.id

section Runs

variable {P : Type} (c : ItemCrypto P) (keys : VaultKeys)

/-- What opens under a key with associated data was made for these by `encryptVaultItem`. -/
def ItemCrypto.Authentic (key : CryptoKey) : Prop :=
  ∀ iv ad ciphertext text, c.unseal key iv ad ciphertext = .ok text → ad ≠ [] →
    ∃ plaintext binding current iv' s out s',
      encryptVaultItem c plaintext binding key current iv' s = .ok out s' ∧
        itemAad binding out.2 = .ok ad

/-- What the store accepts in a step, with the id it was served under. -/
def StoreStep.accepted (s : MemoryRevisionStore) : StoreStep → Option (String × DecryptedItem P)
  | .serve row =>
    match decryptVaultItem c row.toEncryptedBlob (bindingForItem row) keys (some s) with
    | .ok result _ => some (row.id, result)
    | .error _ _ => none
  | .markV2Only => none

/-- The store after a step. -/
def StoreStep.next (s : MemoryRevisionStore) : StoreStep → MemoryRevisionStore
  | .serve row =>
    (decryptVaultItem c row.toEncryptedBlob (bindingForItem row) keys (some s)).final.getD s
  | .markV2Only => s.markV2Only

/-- What the store accepts in a run. -/
def acceptedItems : List StoreStep → MemoryRevisionStore → List (String × DecryptedItem P)
  | [], _ => []
  | step :: rest, s =>
    (step.accepted c keys s).toList ++ acceptedItems rest (step.next c keys s)

/-- Once an item was accepted in the current form, what is accepted later is in this form and not
older. -/
def NotRolledBack (e e' : String × DecryptedItem P) : Prop :=
  SameItem e.1 e'.1 → e.2.format = .v2 → e'.2.format = .v2 ∧ e.2.revision ≤ e'.2.revision

variable {c keys}

/-- What decryption accepts, and what it records. -/
theorem decryptVaultItem_eq_ok {encrypted : EncryptedBlob} {binding : ItemBinding}
    {s : MemoryRevisionStore} {s' : Option MemoryRevisionStore} {result : DecryptedItem P}
    (h : decryptVaultItem c encrypted binding keys (some s) = .ok result s') :
    (isLegacyItemBlob encrypted && s.legacyClosed) = false ∧
      openEnvelope c encrypted binding keys = .ok result ∧
      (∀ highest ∈ s.revisions binding.itemId, highest ≤ result.revision) ∧
      s' = some (s.record binding.itemId result.revision) := by
  obtain ⟨hlegacy, hopen, _, hhigh, rfl⟩ := decryptVaultItem_ok_iff.mp h
  exact ⟨hlegacy, hopen, hhigh, rfl⟩

theorem unchanged_liftItem {α : Type} (x : Client α) : EStateM.Unchanged (liftItem x) := by
  cases x with
  | error e => exact EStateM.unchanged_throw _
  | ok a => exact EStateM.unchanged_pure a

/-- A call that throws leaves the store as it was. -/
theorem decryptVaultItem_onThrow (encrypted : EncryptedBlob) (binding : ItemBinding) :
    EStateM.UnchangedOnThrow (decryptVaultItem c encrypted binding keys) := by
  have hv2 : EStateM.Unchanged getV2Only := fun _ => rfl
  have hget : EStateM.Unchanged (getRevision binding.itemId) := fun _ => rfl
  refine hv2.bind_onThrow fun _ => (EStateM.unchanged_throwUnless _ _).bind_onThrow fun _ => ?_
  refine (unchanged_liftItem _).bind_onThrow fun _ => ?_
  refine (EStateM.unchanged_throwUnless _ _).bind_onThrow fun _ => hget.bind_onThrow fun _ => ?_
  exact (EStateM.unchanged_throwUnless _ _).bind_onThrow fun _ _ _ _ h => nomatch h

/-- What an envelope held: a legacy one has revision 0, a current one was bound to its revision. -/
theorem openEnvelope_eq_ok {encrypted : EncryptedBlob} {binding : ItemBinding}
    {result : DecryptedItem P} (h : openEnvelope c encrypted binding keys = .ok result) :
    (isLegacyItemBlob encrypted = true ∧ result.format = .v1 ∧ result.revision = 0) ∨
      (result.format = .v2 ∧ ∃ iv ad ciphertext text, itemAad binding result.revision = .ok ad ∧
        c.unseal keys.vaultEncKey iv ad ciphertext = .ok text) := by
  rw [openEnvelope] at h
  split at h
  · rename_i hlegacy
    obtain ⟨plaintext, _, h⟩ := client_bind_eq_ok.mp h
    cases h
    exact Or.inl ⟨hlegacy, rfl, rfl⟩
  · obtain ⟨_, iv, ciphertext, ad, text, bytes, _, _, _, _, had, hkey, hopen, _, hresult⟩ :=
      decryptItemV2_ok_iff.mp h
    refine Or.inr ⟨?_, iv, ad, ciphertext, text, had, unseal_eq_ok.mpr ⟨bytes, hkey, hopen⟩⟩
    rw [hresult]

/-- A client encrypts at revision 1 or above. -/
theorem one_le_of_encryptVaultItem {plaintext : P} {binding : ItemBinding} {key : CryptoKey}
    {current : Option Nat} {iv : Bytes} {s s' : Option MemoryRevisionStore}
    {out : EncryptedBlob × Nat}
    (h : encryptVaultItem c plaintext binding key current iv s = .ok out s') : 1 ≤ out.2 := by
  simp only [encryptVaultItem, EStateM.bind_eq_ok, EStateM.pure_eq_ok] at h
  obtain ⟨highest, _, _, encrypted, _, _, rfl, _⟩ := h
  exact Nat.le_add_left 1 _

/-- With ideal encryption, what is accepted in the current form has revision 1 or above. -/
theorem one_le_of_openEnvelope (hideal : c.Authentic keys.vaultEncKey) {encrypted : EncryptedBlob}
    {binding : ItemBinding} {result : DecryptedItem P}
    (h : openEnvelope c encrypted binding keys = .ok result) (hv2 : result.format = .v2) :
    1 ≤ result.revision := by
  rcases openEnvelope_eq_ok h with ⟨_, hv1, _⟩ | ⟨_, iv, ad, ciphertext, text, had, hopen⟩
  · rw [hv1] at hv2
    cases hv2
  · obtain ⟨_, _, _, _, _, out, _, hmade, hsame⟩ :=
      hideal iv ad ciphertext text hopen (itemAad_ne_nil had)
    rw [(itemAad_inj had hsame).2]
    exact one_le_of_encryptVaultItem hmade

/-- What a step does to the store: nothing, the mark, or a revision on record. -/
theorem next_cases (c : ItemCrypto P) (keys : VaultKeys) (s : MemoryRevisionStore) (step : StoreStep) :
    step.next c keys s = s ∨ step.next c keys s = s.markV2Only ∨
      ∃ id revision, step.next c keys s = s.record id revision := by
  cases step with
  | markV2Only => exact Or.inr (Or.inl rfl)
  | serve row =>
    rw [StoreStep.next]
    cases h : decryptVaultItem c row.toEncryptedBlob (bindingForItem row) keys (some s) with
    | error e s' =>
      rw [decryptVaultItem_onThrow _ _ _ e s' h]
      exact Or.inl rfl
    | ok result s' =>
      obtain ⟨_, _, _, rfl⟩ := decryptVaultItem_eq_ok h
      exact Or.inr (Or.inr ⟨_, _, rfl⟩)

/-- What is accepted was served, came out of its envelope, is not older than what was on record, and
goes on record. -/
theorem of_mem_accepted {s : MemoryRevisionStore} {step : StoreStep} {e : String × DecryptedItem P}
    (he : e ∈ (step.accepted c keys s).toList) :
    ∃ row, step = .serve row ∧ row.id = e.1 ∧
      (isLegacyItemBlob row.toEncryptedBlob && s.legacyClosed) = false ∧
      openEnvelope c row.toEncryptedBlob (bindingForItem row) keys = .ok e.2 ∧
      (∀ highest ∈ s.revisions e.1, highest ≤ e.2.revision) ∧
      step.next c keys s = s.record e.1 e.2.revision := by
  rw [Option.mem_toList] at he
  cases step with
  | markV2Only => cases he
  | serve row =>
    rw [StoreStep.accepted] at he
    cases h : decryptVaultItem c row.toEncryptedBlob (bindingForItem row) keys (some s) with
    | error e' s' =>
      rw [h] at he
      cases he
    | ok result s' =>
      rw [h] at he
      cases he
      obtain ⟨hlegacy, hopen, hhigh, hs⟩ := decryptVaultItem_eq_ok h
      refine ⟨row, rfl, rfl, hlegacy, hopen, hhigh, ?_⟩
      rw [StoreStep.next, h, EStateM.Result.final, hs]
      rfl

/-- A step never lowers a recorded revision. -/
theorem exists_revision_next (c : ItemCrypto P) (keys : VaultKeys) {s : MemoryRevisionStore}
    {id : String} {n : Nat} (h : s.revisions id = some n) (step : StoreStep) :
    ∃ m, (step.next c keys s).revisions id = some m ∧ n ≤ m := by
  rcases next_cases c keys s step with hs | hs | ⟨id', revision, hs⟩
  · exact ⟨n, by rw [hs, h], le_rfl⟩
  · exact ⟨n, by rw [hs, MemoryRevisionStore.revisions_markV2Only, h], le_rfl⟩
  · rw [hs, MemoryRevisionStore.revisions_record]
    split
    · rename_i heq
      rw [← heq, h, Option.getD_some]
      exact ⟨_, rfl, Nat.le_max_left _ _⟩
    · exact ⟨n, h, le_rfl⟩

/-- What is accepted under an id is not older than the revision recorded for it. -/
theorem le_of_mem_acceptedItems {steps : List StoreStep} {s : MemoryRevisionStore} {n : Nat}
    {e : String × DecryptedItem P} (h : s.revisions e.1 = some n)
    (he : e ∈ acceptedItems c keys steps s) : n ≤ e.2.revision := by
  induction steps generalizing s n with
  | nil => cases he
  | cons step rest ih =>
    rcases List.mem_append.mp he with he | he
    · obtain ⟨_, _, _, _, _, hhigh, _⟩ := of_mem_accepted he
      exact hhigh n h
    · obtain ⟨m, hm, hle⟩ := exists_revision_next c keys h step
      exact hle.trans (ih hm he)

/-- What is accepted was served, and came out of its envelope. -/
theorem exists_row_of_mem_acceptedItems {steps : List StoreStep} {s : MemoryRevisionStore}
    {e : String × DecryptedItem P} (he : e ∈ acceptedItems c keys steps s) :
    ∃ row, .serve row ∈ steps ∧ row.id = e.1 ∧
      openEnvelope c row.toEncryptedBlob (bindingForItem row) keys = .ok e.2 := by
  induction steps generalizing s with
  | nil => cases he
  | cons step rest ih =>
    rcases List.mem_append.mp he with he | he
    · obtain ⟨row, rfl, hid, _, hopen, _⟩ := of_mem_accepted he
      exact ⟨row, List.mem_cons_self, hid, hopen⟩
    · obtain ⟨row, hrow, hid, hopen⟩ := ih he
      exact ⟨row, List.mem_cons_of_mem _ hrow, hid, hopen⟩

/-- When each id is spelled in one way, no item is rolled back. -/
theorem pairwise_notRolledBack (hideal : c.Authentic keys.vaultEncKey) {steps : List StoreStep}
    (hspell : SpelledOnce steps) (s : MemoryRevisionStore) :
    (acceptedItems c keys steps s).Pairwise NotRolledBack := by
  induction steps generalizing s with
  | nil => exact List.Pairwise.nil
  | cons step rest ih =>
    have hrest : SpelledOnce rest := fun row row' hrow hrow' =>
      hspell row row' (List.mem_cons_of_mem _ hrow) (List.mem_cons_of_mem _ hrow')
    rw [acceptedItems, List.pairwise_append]
    refine ⟨?_, ih hrest _, ?_⟩
    · cases step.accepted c keys s with
      | none => exact List.Pairwise.nil
      | some e => exact List.pairwise_singleton _ _
    · intro e he e' he' hitem hv2
      obtain ⟨row, rfl, hid, _, hopen, _, hnext⟩ := of_mem_accepted he
      obtain ⟨row', hrow', hid', hopen'⟩ := exists_row_of_mem_acceptedItems he'
      have hsame : e.1 = e'.1 := by
        rw [← hid, ← hid'] at hitem ⊢
        exact hspell row row' List.mem_cons_self (List.mem_cons_of_mem _ hrow') hitem
      have hstored : (s.record e.1 e.2.revision).revisions e'.1 =
          some (max ((s.revisions e.1).getD e.2.revision) e.2.revision) := by
        rw [MemoryRevisionStore.revisions_record, if_pos hsame.symm]
      rw [hnext] at he'
      have hle := (Nat.le_max_right _ _).trans (le_of_mem_acceptedItems hstored he')
      refine ⟨?_, hle⟩
      -- a legacy blob has revision 0, below every revision of a current one
      have hone := one_le_of_openEnvelope hideal hopen hv2
      rcases openEnvelope_eq_ok hopen' with ⟨_, _, hzero⟩ | ⟨hformat, _⟩
      · rw [hzero] at hle
        exact absurd (hone.trans hle) (by decide)
      · exact hformat

/-- Once legacy items are refused, none is accepted. -/
theorem format_of_legacyClosed {steps : List StoreStep} {s : MemoryRevisionStore}
    (hs : s.legacyClosed = true) {e : String × DecryptedItem P}
    (he : e ∈ acceptedItems c keys steps s) : e.2.format = .v2 := by
  induction steps generalizing s with
  | nil => cases he
  | cons step rest ih =>
    rcases List.mem_append.mp he with he | he
    · obtain ⟨row, _, _, hlegacy, hopen, _⟩ := of_mem_accepted he
      rw [hs, Bool.and_true] at hlegacy
      rcases openEnvelope_eq_ok hopen with ⟨hl, _⟩ | ⟨hformat, _⟩
      · rw [hl] at hlegacy
        cases hlegacy
      · exact hformat
    · refine ih ?_ he
      rcases next_cases c keys s step with hn | hn | ⟨id, revision, hn⟩
      · rw [hn, hs]
      · rw [hn, MemoryRevisionStore.legacyClosed_markV2Only]
      · rw [hn, MemoryRevisionStore.legacyClosed_record, hs]

/-- With ideal encryption, in every run in which each item id is spelled in one way, an item that was
accepted in the current form is never accepted at a lower revision or as a legacy blob; and
always, a call that throws leaves the store as it was, and once legacy items are refused none is
accepted. -/
theorem notRolledBack_of_spelledOnce (hideal : c.Authentic keys.vaultEncKey)
    (steps : List StoreStep) (s : MemoryRevisionStore) :
    (SpelledOnce steps → (acceptedItems c keys steps s).Pairwise NotRolledBack) ∧
      (∀ encrypted binding e s', decryptVaultItem c encrypted binding keys (some s) = .error e s' →
        s' = some s) ∧
      (s.legacyClosed = true → ∀ e ∈ acceptedItems c keys steps s, e.2.format = .v2) := by
  refine ⟨fun hspell => pairwise_notRolledBack hideal hspell s, fun encrypted binding e s' h => ?_,
    fun hs e he => format_of_legacyClosed hs he⟩
  exact decryptVaultItem_onThrow encrypted binding _ e s' h

end Runs

/-- A note with the given id. -/
private def noteRow (id : String) (encrypted : EncryptedBlob) : EncryptedVaultItem where
  toEncryptedBlob := encrypted
  id := id
  vaultId := ""
  itemType := "note"

@[simp] private theorem noteRow_id (id : String) (encrypted : EncryptedBlob) :
    (noteRow id encrypted).id = id := rfl

/-- One id, and another spelling of it. -/
private def noteId : String := "00000000-0000-0000-0000-00000000000a"
private def noteIdUpper : String := "00000000-0000-0000-0000-00000000000A"

private def noteBinding : ItemBinding where
  scope := .personal
  itemId := noteId
  itemType := "note"

private def noteAad (revision : Nat) : Bytes := ((itemAad noteBinding revision).toOption).getD []

/-- Encryption in the clear that opens one note at revisions 1 and 2 and nothing else. -/
private def noteCrypto : ItemCrypto Bytes where
  aes :=
    { encrypt := fun _ _ _ text => text
      decrypt := fun _ _ ad text =>
        if (ad = noteAad 1 ∨ ad = noteAad 2) ∧ text = [65] then some text else none }
  hmacSign key message := key ++ message
  typeOf _ := some "note"
  serialize := id
  parse := some

private def noteKeys : VaultKeys where
  vaultEncKey := .aesGcm [1]
  vaultMacKey := .hmac [2]

/-- The blob of the note at a revision. -/
private def noteBlob (revision : Nat) : EncryptedBlob :=
  ((encryptItemV2 noteCrypto [65] noteBinding revision noteKeys.vaultEncKey [3]).toOption).getD
    ⟨"", "", ""⟩

/-- A client makes the note at revisions 1 and 2. -/
private theorem noteMade (current : Option Nat)
    (h : (encryptItemV2 noteCrypto [65] noteBinding (max 0 (current.getD 0) + 1)
      noteKeys.vaultEncKey [3]).toOption.isSome = true) :
    ∃ out s', encryptVaultItem noteCrypto [65] noteBinding noteKeys.vaultEncKey current [3] none =
      .ok out s' ∧ out.2 = max 0 (current.getD 0) + 1 := by
  cases he : encryptItemV2 noteCrypto [65] noteBinding (max 0 (current.getD 0) + 1)
      noteKeys.vaultEncKey [3] with
  | error e =>
    rw [he] at h
    cases h
  | ok encrypted =>
    refine ⟨(encrypted, max 0 (current.getD 0) + 1), none, ?_, rfl⟩
    have hget : getRevision noteBinding.itemId none = .ok none none := rfl
    have hlift : liftItem (encryptItemV2 noteCrypto [65] noteBinding
        (max ((none : Option Nat).getD 0) (current.getD 0) + 1) noteKeys.vaultEncKey [3]) none =
          .ok encrypted none := by
      rw [Option.getD_none, he]
      rfl
    rw [encryptVaultItem, EStateM.bind_of_ok hget, EStateM.bind_of_ok hlift]
    rfl

private theorem noteCrypto_authentic : noteCrypto.Authentic noteKeys.vaultEncKey := by
  intro iv ad ciphertext text h _
  have hopen : noteCrypto.aes.decrypt [1] iv ad ciphertext = some text := by
    cases hd : noteCrypto.aes.decrypt [1] iv ad ciphertext with
    | none => simp [ItemCrypto.unseal, noteKeys, hd, orThrow] at h
    | some text' => simpa [ItemCrypto.unseal, noteKeys, hd, orThrow] using h
  obtain ⟨⟨had, _⟩, _⟩ := Option.ite_none_right_eq_some.mp hopen
  rcases had with rfl | rfl
  · obtain ⟨out, s', hmade, hout⟩ := noteMade none (by decide)
    refine ⟨[65], noteBinding, none, [3], none, out, s', hmade, ?_⟩
    rw [hout]
    decide
  · obtain ⟨out, s', hmade, hout⟩ := noteMade (some 1) (by decide)
    refine ⟨[65], noteBinding, some 1, [3], none, out, s', hmade, ?_⟩
    rw [hout]
    decide

private def freshStore : MemoryRevisionStore where
  revisions _ := none
  legacyClosed := false

/-- A note that is served at revision 2 and then at revision 1 is refused the second time. -/
theorem notRolledBack_of_spelledOnce_note :
    (acceptedItems noteCrypto noteKeys
      [.serve (noteRow noteId (noteBlob 2)), .serve (noteRow noteId (noteBlob 1))]
      freshStore).Pairwise NotRolledBack := by
  refine (notRolledBack_of_spelledOnce noteCrypto_authentic _ freshStore).1 ?_
  have hid : ∀ row, StoreStep.serve row ∈ [.serve (noteRow noteId (noteBlob 2)),
      .serve (noteRow noteId (noteBlob 1))] → row.id = noteId := by
    intro row hrow
    simp only [List.mem_cons, StoreStep.serve.injEq, List.not_mem_nil, or_false] at hrow
    rcases hrow with h | h
    · rw [h, noteRow_id]
    · rw [h, noteRow_id]
  intro row row' hrow hrow' _
  rw [hid row hrow, hid row' hrow']

/-- With its id spelled differently the second time, the older note is accepted. -/
theorem not_notRolledBack_of_respelled :
    noteCrypto.Authentic noteKeys.vaultEncKey ∧
      ¬ (acceptedItems noteCrypto noteKeys
        [.serve (noteRow noteId (noteBlob 2)), .serve (noteRow noteIdUpper (noteBlob 1))]
        freshStore).Pairwise NotRolledBack := by
  refine ⟨noteCrypto_authentic, fun hpair => ?_⟩
  have hrun : (acceptedItems noteCrypto noteKeys
      [.serve (noteRow noteId (noteBlob 2)), .serve (noteRow noteIdUpper (noteBlob 1))]
      freshStore).map (fun e => (e.1, e.2.format, e.2.revision)) =
        [(noteId, .v2, 2), (noteIdUpper, .v2, 1)] := by decide
  have hpair : ((acceptedItems noteCrypto noteKeys
      [.serve (noteRow noteId (noteBlob 2)), .serve (noteRow noteIdUpper (noteBlob 1))]
      freshStore).map (fun e => (e.1, e.2.format, e.2.revision))).Pairwise
        fun a b => SameItem a.1 b.1 → a.2.1 = .v2 → b.2.1 = .v2 ∧ a.2.2 ≤ b.2.2 :=
    List.pairwise_map.mpr hpair
  rw [hrun, List.pairwise_pair] at hpair
  have hsame : SameItem noteId noteIdUpper :=
    ⟨[0, 0, 0, 0, 0, 0, 0, 0, 0, 0, 0, 0, 0, 0, 0, 10], by decide, by decide⟩
  exact absurd (hpair hsame rfl).2 (by decide)

end Nopass
