import Nopass.Client.Rotations

/-!
# What a plan for a rotation accounts for

Items and members are listed by the server or known to the device, and items may be chosen
to be deleted. A plan moves, deletes or wraps all of them, but for what the owner knows
of: what was acknowledged as gone, and what was to be deleted and is gone already.
-/

namespace Nopass

/-- The ids of the items that a plan moves. -/
def RotationPlan.moved (plan : RotationPlan) : List String := plan.request.items.map (·.id)

/-- The ids of the items that a plan deletes. -/
def RotationPlan.deleted (plan : RotationPlan) : List String := plan.request.deleteItemIds.getD []

/-- Everything that is listed or known has its place in a plan, but for what is excused. -/
structure AccountsFor (input : RotationInput) (excused : String → Prop) (plan : RotationPlan) :
    Prop where
  knownItems : ∀ id ∈ input.known.items,
    id ∈ plan.moved ∨ id ∈ plan.deleted ∨ id ∈ plan.acknowledgedGone.items ∨ excused id
  knownMembers : ∀ id ∈ input.known.members, id ∈ plan.request.wraps.map (·.userId) ∨
    some id = input.removeUserId ∨ id ∈ plan.acknowledgedGone.members
  /-- What is gone is not listed, and the owner acknowledged it. -/
  goneItems : ∀ id ∈ plan.acknowledgedGone.items,
    id ∉ input.items.map (·.id) ∧ id ∈ input.acknowledgedGone.items
  goneMembers : ∀ id ∈ plan.acknowledgedGone.members,
    id ∉ input.members.map (·.userId) ∧ id ∈ input.acknowledgedGone.members
  /-- A listed item is deleted or moved once, not both. -/
  listedItems : ∀ item ∈ input.items,
    if item.id ∈ plan.deleted then item.id ∉ plan.moved else plan.moved.count item.id = 1
  /-- A listed member who is not removed has one wrap, for the new epoch. -/
  listedMembers : ∀ m ∈ input.members, some m.userId ≠ input.removeUserId →
    (plan.request.wraps.filter fun w => decide (w.userId = m.userId)).map (·.keyEpoch) =
      [plan.request.newEpoch]

section Loops

variable {P : Type} {c : SigningCrypto} {ic : ItemCrypto P}

/-- A step that uses no store returned. -/
theorem liftClient_eq_ok {α : Type} {x : Client α} {a : α} {s s' : TrustStores}
    (h : liftClient x s = .ok a s') : x = .ok a := by
  cases x with
  | error e => cases h
  | ok b =>
    cases h
    rfl

/-- A turn wraps the key for its member, or skips them. -/
theorem resignMember_ok {input : ResignInput} {identity : IdentityKey} {seeds : Nat → Bytes}
    {done done' : ResignedWraps} {m : OrgMember} {s s' : TrustStores}
    (h : resignMember c input identity seeds done m s = .ok done' s') :
    done'.skipped = done.skipped ++ [m.userId] ∨
      done'.skipped = done.skipped ∧ ∃ wrap, done'.wraps = done.wraps ++ [wrap] ∧
        wrap.userId = m.userId ∧ wrap.keyEpoch = input.epoch := by
  obtain ⟨key, s₁, -, h⟩ := EStateM.bind_eq_ok.mp h
  cases key with
  | none =>
    cases h
    exact .inl rfl
  | some rsaPublicKey =>
    obtain ⟨wrap, s₂, hwrap, h⟩ := EStateM.bind_eq_ok.mp h
    cases h
    right
    refine ⟨rfl, wrap, rfl, ?_⟩
    have hresign := liftClient_eq_ok hwrap
    simp only [resignWrap, client_bind_eq_ok] at hresign
    obtain ⟨encryptedOrgKey, -, signature, -, hpure⟩ := hresign
    cases hpure
    exact ⟨rfl, rfl⟩

/-- When nobody was skipped, there is one wrap for each member, for the new epoch. -/
theorem buildResignedWraps_ok {input : ResignInput} {seeds : Nat → Bytes} {resigned : ResignedWraps}
    {s s' : TrustStores} (h : buildResignedWraps c input seeds s = .ok resigned s')
    (hskipped : resigned.skipped = []) :
    resigned.wraps.map (fun w => (w.userId, w.keyEpoch)) =
      input.members.map fun m => (m.userId, input.epoch) := by
  obtain ⟨identity, s₁, -, hloop⟩ := EStateM.bind_eq_ok.mp h
  refine EStateM.foldlM_eq_ok (fun seen done => done.skipped = [] →
    done.wraps.map (fun w => (w.userId, w.keyEpoch)) = seen.map fun m => (m.userId, input.epoch))
    ?_ (fun _ => rfl) hloop hskipped
  intro seen done m s done' s' hseen hturn hnone
  rcases resignMember_ok hturn with hskip | ⟨hskip, wrap, hwraps, huser, hepoch⟩
  · rw [hskip] at hnone
    simp at hnone
  · rw [hwraps, List.map_append, List.map_append, hseen (hskip.symm.trans hnone)]
    simp [huser, hepoch]

/-- A turn leaves out an item that is to be deleted, notes one that does not decrypt, or moves it. -/
theorem moveItem_ok {input : RotationInput} {newKey : CryptoKey} {ivs : Nat → Bytes}
    {done done' : MovedItems} {item : EncryptedVaultItem} {s s' : Option MemoryRevisionStore}
    (h : moveItem ic input newKey ivs done item s = .ok done' s') :
    item.id ∈ input.dropItemIds ∧ done' = done ∨
      done'.undecryptable = done.undecryptable ++ [item.id] ∨
      item.id ∉ input.dropItemIds ∧ done'.undecryptable = done.undecryptable ∧
        done'.items.map (·.id) = done.items.map (·.id) ++ [item.id] := by
  rw [moveItem] at h
  by_cases hdrop : item.id ∈ input.dropItemIds
  · rw [if_pos (by simpa using hdrop)] at h
    cases h
    exact .inl ⟨hdrop, rfl⟩
  · rw [if_neg (by simpa using hdrop)] at h
    obtain ⟨current, s₁, -, h⟩ := EStateM.bind_eq_ok.mp h
    cases current with
    | none =>
      cases h
      exact .inr (.inl rfl)
    | some current =>
      obtain ⟨⟨encrypted, revision⟩, s₂, -, h⟩ := EStateM.bind_eq_ok.mp h
      cases h
      exact .inr (.inr ⟨hdrop, rfl, by simp⟩)

/-- When every item decrypts, all that are not to be deleted are moved, in their order. -/
theorem moveItems_ok {input : RotationInput} {newKey : CryptoKey} {ivs : Nat → Bytes}
    {items : List EncryptedVaultItem} {done : MovedItems} {s s' : Option MemoryRevisionStore}
    (h : items.foldlM (moveItem ic input newKey ivs)
      { items := [], revisions := [], undecryptable := [] } s = .ok done s')
    (hdecrypt : done.undecryptable = []) :
    done.items.map (·.id) =
      (items.map (·.id)).filter fun id => decide (id ∉ input.dropItemIds) := by
  refine EStateM.foldlM_eq_ok (fun seen done => done.undecryptable = [] →
    done.items.map (·.id) = (seen.map (·.id)).filter fun id => decide (id ∉ input.dropItemIds))
    ?_ (fun _ => rfl) h hdecrypt
  intro seen done item s done' s' hseen hturn hnone
  rw [List.map_append, List.filter_append]
  rcases moveItem_ok hturn with ⟨hdrop, rfl⟩ | hfailed | ⟨hkept, hsame, hitems⟩
  · rw [hseen hnone]
    simp [hdrop]
  · rw [hfailed] at hnone
    simp at hnone
  · rw [hitems, hseen (hsame.symm.trans hnone)]
    simp [hkept]

/-- What a plan is made of. -/
theorem buildRotation_ok {input : RotationInput} {draws : RotationDraws} {plan : RotationPlan}
    {s s' : RotationStores} (h : buildRotation c ic input draws s = .ok plan s') :
    input.missing.items = [] ∧ input.missing.members = [] ∧
      plan.acknowledgedGone = input.gone ∧ plan.deleted = input.deleteItemIds ∧
      plan.moved = (input.items.map (·.id)).filter (fun id => decide (id ∉ input.dropItemIds)) ∧
      plan.request.wraps.map (fun w => (w.userId, w.keyEpoch)) =
        input.remaining.map fun m => (m.userId, plan.request.newEpoch) := by
  have onTrust_ok {α : Type} {x : Trust α} {a : α} {s s' : RotationStores}
      (h : onTrust x s = .ok a s') : ∃ t, x s.trust = .ok a t := by
    rw [onTrust] at h
    split at h
    · rename_i hx
      cases h
      exact ⟨_, hx⟩
    · cases h
  have onRevisions_ok {α : Type} {x : Items α} {a : α} {s s' : RotationStores}
      (h : onRevisions x s = .ok a s') : ∃ r, x s.revisions = .ok a r := by
    rw [onRevisions] at h
    split at h
    · rename_i hx
      cases h
      exact ⟨_, hx⟩
    · cases h
  simp only [buildRotation, EStateM.bind_eq_ok, EStateM.throwUnless_eq_ok, EStateM.pure_eq_ok] at h
  obtain ⟨_, _, ⟨hmissing, rfl⟩, resigned, s₁, hresign, _, _, ⟨hskipped, rfl⟩, moved, s₂, hmove, _,
    _, ⟨hdecrypt, rfl⟩, rfl, rfl⟩ := h
  rw [Bool.and_eq_true, List.isEmpty_iff, List.isEmpty_iff] at hmissing
  rw [List.isEmpty_iff] at hskipped hdecrypt
  obtain ⟨_, hwraps⟩ := onTrust_ok hresign
  obtain ⟨_, hitems⟩ := onRevisions_ok hmove
  refine ⟨hmissing.1, hmissing.2, rfl, ?_, moveItems_ok hitems hdecrypt,
    buildResignedWraps_ok hwraps hskipped⟩
  rw [RotationPlan.deleted]
  dsimp only
  split
  · rename_i hnone
    rw [List.isEmpty_iff] at hnone
    exact hnone.symm
  · rfl

end Loops

section Plans

variable {P : Type} {c : SigningCrypto} {ic : ItemCrypto P}

/-- A plan accounts for everything but items that the owner chose to delete and that the server does
not list any more. -/
theorem accountsFor_buildRotation {input : RotationInput} {draws : RotationDraws}
    {plan : RotationPlan} {s s' : RotationStores} (hitems : (input.items.map (·.id)).Nodup)
    (hmembers : (input.members.map (·.userId)).Nodup)
    (h : buildRotation c ic input draws s = .ok plan s') :
    AccountsFor input (fun id => id ∈ input.dropItemIds ∧ id ∉ input.items.map (·.id)) plan := by
  obtain ⟨hmissingItems, hmissingMembers, hgone, hdeleted, hmoved, hwraps⟩ := buildRotation_ok h
  have hwrapped : plan.request.wraps.map (·.userId) = input.remaining.map (·.userId) := by
    have hids := congrArg (List.map Prod.fst) hwraps
    rwa [List.map_map, List.map_map] at hids
  have hdelete : ∀ id, id ∈ plan.deleted ↔ id ∈ input.dropItemIds ∧ id ∈ input.items.map (·.id) := by
    intro id
    rw [hdeleted, RotationInput.deleteItemIds]
    simp
  have hmove : ∀ id, id ∈ plan.moved ↔ id ∈ input.items.map (·.id) ∧ id ∉ input.dropItemIds := by
    intro id
    rw [hmoved]
    simp
  constructor
  · intro id hknown
    rw [hdelete, hmove, hgone]
    by_cases hlisted : id ∈ input.items.map (·.id)
    · by_cases hdrop : id ∈ input.dropItemIds
      · exact .inr (.inl ⟨hdrop, hlisted⟩)
      · exact .inl ⟨hlisted, hdrop⟩
    · by_cases hdrop : id ∈ input.dropItemIds
      · exact .inr (.inr (.inr ⟨hdrop, hlisted⟩))
      · right; right; left
        rw [RotationInput.gone, List.mem_filter]
        exact ⟨hknown, by simpa [hdrop] using hlisted⟩
  · intro id hknown
    rw [hwrapped, hgone]
    by_cases hlisted : id ∈ input.members.map (·.userId)
    · by_cases hremove : some id = input.removeUserId
      · exact .inr (.inl hremove)
      · left
        obtain ⟨m, hm, rfl⟩ := List.mem_map.mp hlisted
        exact List.mem_map_of_mem (List.mem_filter.mpr ⟨hm, decide_eq_true hremove⟩)
    · right; right
      rw [RotationInput.gone, List.mem_filter]
      exact ⟨hknown, by simpa using hlisted⟩
  · intro id hid
    rw [hgone] at hid
    have hacknowledged := List.filter_eq_nil_iff.mp hmissingItems id hid
    rw [RotationInput.gone, List.mem_filter] at hid
    constructor
    · have hlisted := hid.2
      simp only [Bool.and_eq_true] at hlisted
      simpa using hlisted.1
    · simpa using hacknowledged
  · intro id hid
    rw [hgone] at hid
    have hacknowledged := List.filter_eq_nil_iff.mp hmissingMembers id hid
    rw [RotationInput.gone, List.mem_filter] at hid
    exact ⟨by simpa using hid.2, by simpa using hacknowledged⟩
  · intro item hitem
    have hlisted : item.id ∈ input.items.map (·.id) := List.mem_map_of_mem hitem
    split
    · rename_i hdelete'
      rw [hmove]
      exact fun hmove' => hmove'.2 ((hdelete _).mp hdelete').1
    · rename_i hdelete'
      have hkept : item.id ∉ input.dropItemIds :=
        fun hdrop => hdelete' ((hdelete _).mpr ⟨hdrop, hlisted⟩)
      apply List.count_eq_one_of_mem
      · rw [hmoved]
        exact hitems.filter _
      · exact (hmove _).mpr ⟨hlisted, hkept⟩
  · intro m hm hremove
    have hremaining : m ∈ input.remaining := List.mem_filter.mpr ⟨hm, decide_eq_true hremove⟩
    have hnodup : (input.remaining.map (·.userId)).Nodup :=
      (List.Sublist.map _ List.filter_sublist).nodup hmembers
    have hone : (plan.request.wraps.filter fun w => decide (w.userId = m.userId)).length = 1 := by
      have hcount : (plan.request.wraps.map (·.userId)).count m.userId = 1 := by
        rw [hwrapped]
        exact List.count_eq_one_of_mem hnodup (List.mem_map_of_mem hremaining)
      rw [List.count, List.countP_map, List.countP_eq_length_filter] at hcount
      exact hcount
    obtain ⟨w, hw⟩ := List.length_eq_one_iff.mp hone
    have hmem : w ∈ plan.request.wraps :=
      (List.mem_filter.mp (hw ▸ List.mem_singleton_self w)).1
    have hpair : (w.userId, w.keyEpoch) ∈ plan.request.wraps.map fun w => (w.userId, w.keyEpoch) :=
      List.mem_map_of_mem hmem
    rw [hwraps] at hpair
    obtain ⟨o, -, ho⟩ := List.mem_map.mp hpair
    have hepoch : plan.request.newEpoch = w.keyEpoch := congrArg Prod.snd ho
    rw [hw, List.map_singleton, hepoch]

/-- After a rotation the ledger knows the items that were moved, and no others. -/
theorem mem_items_commit {input : RotationInput} {draws : RotationDraws} {plan : RotationPlan}
    {s s' : RotationStores} (h : buildRotation c ic input draws s = .ok plan s') (id : String) :
    id ∈ (plan.commit input.dropItemIds input.known).items ↔ id ∈ plan.moved := by
  obtain ⟨-, -, hgone, -, hmoved, -⟩ := buildRotation_ok h
  rw [RotationPlan.commit, OrgLedgerEntry.remember, List.mem_eraseDups, List.mem_append]
  constructor
  · rintro (hkept | hnew)
    · rw [OrgLedgerEntry.forget, List.mem_filter, hgone] at hkept
      have hnot : id ∉ input.dropItemIds ∧ id ∉ input.gone.items := by simpa using hkept.2
      by_contra hunmoved
      apply hnot.2
      rw [hmoved] at hunmoved
      rw [RotationInput.gone, List.mem_filter]
      refine ⟨hkept.1, ?_⟩
      simpa [hnot.1] using hunmoved
    · exact hnew
  · exact .inr

/-- Cryptography that hides nothing, for runs. -/
private def openSigning : SigningCrypto where
  verifies _ _ _ := true
  sha512 := id
  aes := { encrypt := fun _ _ _ text => 0 :: text, decrypt := fun _ _ _ text => text.tail? }
  hkdf := id
  getPublicKey := id
  sign message _ := message
  exportPublic := .ok
  rsaEncrypt _ key _ := .ok key

private def openItems : ItemCrypto Bytes where
  aes := openSigning.aes
  hmacSign key message := key ++ message
  typeOf _ := some "note"
  serialize := id
  parse := some

/-- The owner rotates the key of an organization of which the device knows one item; the item is to
be deleted. -/
private def droppedInput (items : List EncryptedVaultItem) : RotationInput where
  orgId := "00000000-0000-0000-0000-000000000001"
  ownerUserId := "00000000-0000-0000-0000-000000000002"
  currentEpoch := 1
  oldKey := .aesGcm [1]
  items := items
  members := [{ userId := "00000000-0000-0000-0000-000000000002", role := "owner"
                publicKey := none, identityPublicKey := none, publicKeySignature := none }]
  removeUserId := none
  known := { items := ["00000000-0000-0000-0000-000000000003"], members := [] }
  dropItemIds := ["00000000-0000-0000-0000-000000000003"]
  acknowledgedGone := {}
  identity := { protectedPrivateKey := "AAAA", protectedPrivateKeyIv := "AAAA"
                stretchedMasterKey := .aesGcm [2] }

private def firstDraws : RotationDraws where
  orgKey := [3]
  seeds _ := []
  ivs _ := []

private def nothingSeen : RotationStores where
  trust := { pins := fun _ => none, epochs := fun _ => none, decrypted := [] }
  revisions := some { revisions := fun _ => none, legacyClosed := true }

/-- The item that the device knows, as the server lists it. -/
private def damagedItem : EncryptedVaultItem where
  id := "00000000-0000-0000-0000-000000000003"
  vaultId := "v"
  blob := "AAAA"
  blobIv := "AAAA"
  blobMac := ""
  itemType := "note"

/-- A listed item that the owner chose to delete is accounted for. -/
theorem accountsFor_listed : ∃ plan s',
    buildRotation openSigning openItems (droppedInput [damagedItem]) firstDraws nothingSeen =
      .ok plan s' ∧
    AccountsFor (droppedInput [damagedItem]) (fun id => id ∈ (droppedInput [damagedItem]).dropItemIds ∧
      id ∉ (droppedInput [damagedItem]).items.map (·.id)) plan := by
  have hok : (match buildRotation openSigning openItems (droppedInput [damagedItem]) firstDraws
      nothingSeen with
    | .ok _ _ => true
    | .error _ _ => false) = true := by decide +kernel
  cases hrun : buildRotation openSigning openItems (droppedInput [damagedItem]) firstDraws
      nothingSeen with
  | error e s' =>
    rw [hrun] at hok
    cases hok
  | ok plan s' => exact ⟨plan, s', rfl, accountsFor_buildRotation (by decide) (by decide) hrun⟩

/-- An item that the owner chose to delete and that the server does not list any more is nowhere in
a plan. -/
theorem not_accountsFor_unlisted : ¬ ∀ (P : Type) (c : SigningCrypto) (ic : ItemCrypto P)
    (input : RotationInput) (draws : RotationDraws) (plan : RotationPlan) (s s' : RotationStores),
    (input.items.map (·.id)).Nodup → (input.members.map (·.userId)).Nodup →
      buildRotation c ic input draws s = .ok plan s' → AccountsFor input (fun _ => False) plan := by
  intro h
  have hplan : (match buildRotation openSigning openItems (droppedInput []) firstDraws
      nothingSeen with
    | .ok plan _ => decide (plan.moved ++ plan.deleted ++ plan.acknowledgedGone.items = [])
    | .error _ _ => false) = true := by decide +kernel
  cases hrun : buildRotation openSigning openItems (droppedInput []) firstDraws nothingSeen with
  | error e s' =>
    rw [hrun] at hplan
    cases hplan
  | ok plan s' =>
    rw [hrun] at hplan
    obtain ⟨hnone, hgone⟩ := List.append_eq_nil_iff.mp (of_decide_eq_true hplan)
    obtain ⟨hmoved, hdeleted⟩ := List.append_eq_nil_iff.mp hnone
    have hknown := (h _ _ _ _ _ _ _ _ (by decide) (by decide) hrun).knownItems
      "00000000-0000-0000-0000-000000000003" (by simp [droppedInput])
    rw [hmoved, hdeleted, hgone] at hknown
    simp at hknown

end Plans

end Nopass
