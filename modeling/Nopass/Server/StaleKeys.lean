import Mathlib
import Nopass.Core.Sql.Versioned
import Nopass.Server.Recovery
import Nopass.Server.VaultCascade

/-!
# Item writes across a legacy recovery

A client that predates the account key recovers by replacing the account's keys and every
item in one transaction, which holds the account's row. An item that is created meanwhile
waits and then goes in, under the keys that its client had when it was authenticated, and
an edit does not look at the account at all. When every write commits while the account's
keys are those of its authentication, all items are under the new keys ever after.
-/

namespace Nopass

open ReadCommitted

/-- What stands for the keys of an account: its encryption key, wrapped. -/
def keysOf (userId : Uuid) (d : Db) : Option (Bytes × Bytes) :=
  (userOf userId d).map fun u => (u.protectedSymmetricKey, u.protectedSymmetricKeyIv)

namespace DbSessions

/-- `find_session_by_token`. The keys that the account has then come along: they are the keys
that the client of the session holds. -/
def authenticate (now : Nat) (tokenHash : String) :
    Request (Option (Session × Option (Bytes × Bytes))) :=
  .select fun d => .ret <| (d.sessions.find? fun s =>
    decide (s.tokenHash = tokenHash) && decide (now < s.expiresAt)).map fun s =>
      (s, keysOf s.userId d)

end DbSessions

/-- `require_auth`: the account of a bearer token, and its keys. -/
def requireAuth (o : Opaque) (now : Nat) (bearer : Option String) :
    Request (AuthUser × Option (Bytes × Bytes)) := do
  let token ← okOr (.unauthorized "missing Bearer token") bearer
  let found ← DbSessions.authenticate now (o.hashToken token)
  let (session, keys) ← okOr (.unauthorized "invalid or expired session") found
  pure (⟨session.userId, token⟩, keys)

@[simp] theorem reads_requireAuth (o : Opaque) (now : Nat) (bearer : Option String) :
    (requireAuth o now bearer).Reads :=
  (reads_okOr _ _).bind fun _ _ => (reads_okOr _ _).bind fun _ => trivial

/-- The keys that a recovery brings. -/
def Recovery.RecoveryCompleteRequest.keys (req : Recovery.RecoveryCompleteRequest) :
    Option (Bytes × Bytes) :=
  (Base64.decode req.protectedSymmetricKey).bind fun key =>
    (Base64.decode req.protectedSymmetricKeyIv).map fun iv => (key, iv)

/-- The label of a recovery that replaces the keys of its account by these. -/
def Tag.rekeying (keys : Option (Bytes × Bytes)) : Tag → Tag
  | .consumed (some (.recovery p)) => .rekeyed p.userId keys
  | tag => tag

/-- Writes of items, which the client encrypts under the keys that it holds, and legacy
recoveries. -/
inductive KeyedRequest where
  | createItem (now : Nat) (bearer : Option String) (vaultId fresh : Uuid)
      (req : Option (Bytes × Bytes) → CreateVaultItemRequest)
  | updateItem (now : Nat) (bearer : Option String) (itemId : Uuid)
      (req : Option (Bytes × Bytes) → UpdateVaultItemRequest)
  | recover (now : Nat) (req : Recovery.RecoveryCompleteRequest)

/-- The program of a request. -/
def KeyedRequest.run (o : Opaque) : KeyedRequest → Request Unit
  | .createItem now bearer vaultId fresh req => do
    let (auth, keys) ← requireAuth o now bearer
    let _ ← (Vaults.createItem auth.userId vaultId fresh (req keys)).relabel
      fun _ => .wrote auth.userId none keys
  | .updateItem now bearer itemId req => do
    let (auth, keys) ← requireAuth o now bearer
    let _ ← (Vaults.updateItem auth.userId itemId (req keys)).relabel
      fun _ => .wrote auth.userId (some (itemId, (req keys).version)) keys
  | .recover now req => (Recovery.recoveryComplete o now req).relabel (Tag.rekeying req.keys)

/-- A client encrypts under the keys that it holds; a legacy recovery re-encrypts under the keys
that it brings. `under` says which keys a blob is encrypted under. -/
def KeyedRequest.Honest (under : Bytes → Bytes × Bytes → Prop) : KeyedRequest → Prop
  | .createItem _ _ _ _ req => ∀ keys blob,
      Base64.decode (req (some keys)).blob = some blob → under blob keys
  | .updateItem _ _ _ req => ∀ keys blob,
      Base64.decode (req (some keys)).blob = some blob → under blob keys
  | .recover _ req => req.wrappedAccountKey = none ∧ req.wrappedAccountKeyIv = none ∧
      ∀ keys ∈ req.keys, ∀ item ∈ req.items, ∀ blob, Base64.decode item.blob = some blob →
        under blob keys

/-- A write commits while the keys of its account are those of its authentication, or it is an
edit of a version that the item does not have. -/
def KeysKept : Tag → Db → Prop
  | .wrote userId none atAuth, d => keysOf userId d = atAuth
  | .wrote userId (some (itemId, version)) atAuth, d =>
    (∃ i ∈ d.vaultItems, DbVaults.isItem itemId userId d i = true ∧ i.version = version) →
      keysOf userId d = atAuth
  | _, _ => True

instance : ∀ tag d, Decidable (KeysKept tag d)
  | .wrote userId none atAuth, d => inferInstanceAs (Decidable (keysOf userId d = atAuth))
  | .wrote userId (some (itemId, version)) atAuth, d => inferInstanceAs (Decidable
      ((∃ i ∈ d.vaultItems, DbVaults.isItem itemId userId d i = true ∧ i.version = version) →
        keysOf userId d = atAuth))
  | .plain, _ | .rewrap _ _, _ | .handshake _ _, _ | .deleteVault _ _, _ | .authorized _ _ _, _ |
    .consumed _, _ | .issued _ _, _ | .replacedKit _ _, _ | .rekeyed _ _, _ | .reencrypted _, _ |
    .published _, _ | .organized _, _ | .owned _ _, _ | .accepted _, _ =>
      inferInstanceAs (Decidable True)

/-- All items of an account are under its keys. -/
def ItemsUnder (under : Bytes → Bytes × Bytes → Prop) (userId : Uuid) (d : Db) : Prop :=
  ∀ keys ∈ keysOf userId d, ∀ i ∈ d.vaultItems, i.userId = userId → under i.blob keys

/-- A commit that replaces the keys of an account and re-encrypts all its items. -/
def Rekeys (under : Bytes → Bytes × Bytes → Prop) (userId : Uuid) (keys : Option (Bytes × Bytes))
    (d d' : Db) : Prop :=
  userOf userId d ≠ none → keysOf userId d' = keys ∧ ∀ i ∈ d'.vaultItems, i.userId = userId →
    (∀ k ∈ keys, under i.blob k) ∧ ∀ i₀ ∈ d.vaultItems,
      Tables.vaultItems.key i = Tables.vaultItems.key i₀ → i₀.version < i.version

/-- Items are as they were at the start or under the keys of their account. The lock of an
account row, taken for update, keeps the row and lets no item of the account appear; the lock of
an item keeps the item. -/
def keySpec (under : Bytes → Bytes × Bytes → Prop) (start : List VaultItem) :
    Spec Db RowId Tag ApiError where
  inv d := ItemKeysDistinct d ∧
    ∀ i ∈ d.vaultItems, i ∈ start ∨ ∀ keys ∈ keysOf i.userId d, under i.blob keys
  guar d d' := Tables.vaultItems.Rises VaultItem.version d d' ∧
    ∀ userId, userOf userId d = none → userOf userId d' = none
  guar_refl d := ⟨.refl d, fun _ h => h⟩
  guar_trans h h' := ⟨h.1.trans h'.1, fun userId hu => h'.2 userId (h.2 userId hu)⟩
  keeps k m d d' :=
    (m = .update → ∀ userId, k = .user userId → userOf userId d' = userOf userId d ∧
      ∀ i ∈ d'.vaultItems, i.userId = userId →
        ∃ i₀ ∈ d.vaultItems, Tables.vaultItems.key i₀ = Tables.vaultItems.key i) ∧
    (m ≠ .keyShare → ∀ i ∈ d'.vaultItems, Tables.vaultItems.key i = k → i ∈ d.vaultItems)
  keeps_refl _ _ _ := ⟨fun _ _ _ => ⟨rfl, fun i hi _ => ⟨i, hi, rfl⟩⟩, fun _ _ hi _ => hi⟩
  keeps_trans h h' := by
    refine ⟨fun hm userId hk => ?_, fun hm i hi hk => h.2 hm i (h'.2 hm i hi hk) hk⟩
    obtain ⟨hu, hold⟩ := h.1 hm userId hk
    obtain ⟨hu', hold'⟩ := h'.1 hm userId hk
    refine ⟨hu'.trans hu, fun i hi hiu => ?_⟩
    obtain ⟨i₁, hi₁, hk₁⟩ := hold' i hi hiu
    have hu₁ : i₁.userId = userId := (RowId.vaultItem.inj hk₁).1.trans hiu
    obtain ⟨i₀, hi₀, hk₀⟩ := hold i₁ hi₁ hu₁
    exact ⟨i₀, hi₀, hk₀.trans hk₁⟩
  allow := KeysKept
  asserts tag d d' := ∀ userId,
    (∀ keys, tag = .rekeyed userId keys → Rekeys under userId keys d d') ∧
    ((∀ keys, tag ≠ .rekeyed userId keys) → keysOf userId d' = keysOf userId d)

variable {under : Bytes → Bytes × Bytes → Prop} {start : List VaultItem} {d d' : Db}
  {L : List (RowId × LockMode)} {w : Db → Db} {userId : Uuid} {keys : Option (Bytes × Bytes)}

/-- The specification keeps locked accounts. -/
theorem key_locksAccounts : LocksAccounts (keySpec under start) where
  row h := (h.1 rfl _ rfl).1
  absent h := h.2 _

/-- The keys of an account depend on the accounts alone. -/
theorem keysOf_congr (h : d'.users = d.users) (userId : Uuid) :
    keysOf userId d' = keysOf userId d := by
  rw [keysOf, userOf_congr h, keysOf]

/-- Commits of items under the keys of their account, of those that were there and of one that the
account's lock or the item's own lock would hold back. -/
theorem key_owes_of_written {tag : Tag} (hi : (keySpec under start).inv d)
    (hu : d'.users = d.users) (hk : ItemKeysDistinct d')
    (hrises : Tables.vaultItems.Rises VaultItem.version d d')
    (hnew : ∀ i ∈ d'.vaultItems, i ∈ d.vaultItems ∨
      ((∀ k ∈ keysOf i.userId d, under i.blob k) ∧
        (∃ a, (a = .noKeyUpdate ∨ a = .update) ∧ (Tables.vaultItems.key i, a) ∈ L) ∧
        ((∃ m, (RowId.user i.userId, m) ∈ L) ∨
          ∃ i₀ ∈ d.vaultItems, Tables.vaultItems.key i₀ = Tables.vaultItems.key i)))
    (ht : ∀ u keys, tag ≠ .rekeyed u keys) : (keySpec under start).Owes L tag d d' := by
  have hkeys : ∀ u, keysOf u d' = keysOf u d := keysOf_congr hu
  refine ⟨fun u => ⟨fun keys h => (ht u keys h).elim, fun _ => hkeys u⟩, ⟨hk, fun i hid => ?_⟩, ⟨hrises, fun v hn => ?_⟩, ?_⟩
  · rw [hkeys]
    rcases hnew i hid with hold | ⟨hunder, -, -⟩
    · exact hi.2 i hold
    · exact Or.inr hunder
  · rwa [userOf_congr hu]
  · intro k m hcompat
    refine ⟨fun hm v hv => ⟨userOf_congr hu v, fun i hid hiv => ?_⟩, fun hm i hid hik => ?_⟩
    · rcases hnew i hid with hold | ⟨-, -, hlock | hold⟩
      · exact ⟨i, hold, rfl⟩
      · obtain ⟨a, hl⟩ := hlock
        rw [hiv, ← hv] at hl
        have hc := hcompat _ hl rfl
        rw [hm, LockMode.compatible_update] at hc
        cases hc
      · exact hold
    · rcases hnew i hid with hold | ⟨-, ⟨a, ha, hl⟩, -⟩
      · exact hold
      · rw [hik] at hl
        exact (hm (LockMode.eq_keyShare ha (hcompat _ hl rfl))).elim

/-- Creating an item. -/
theorem createItem_key_wp {auth vaultId fresh : Uuid} {req : CreateVaultItemRequest}
    (hreq : ∀ k ∈ keys, ∀ blob, Base64.decode req.blob = some blob → under blob k)
    (hd : (keySpec under start).inv d) :
    ((keySpec under start).comap fun _ : Tag => .wrote auth none keys).wp (fun _ _ _ _ => True)
      (Vaults.createItem auth vaultId fresh req) [] id d := by
  refine Spec.wp_reads_bind (DbVaults.reads_getVault vaultId auth) (fun _ => id)
    (fun _ d₁ h₁ => ?_) hd
  refine wp_okOr_bind id fun _ _ => wp_okOr_bind id fun blob hblob => ?_
  refine wp_okOr_bind id fun blobIv _ => ?_
  refine wp_okOr_bind id fun blobMac _ => ?_
  refine Spec.wp_reads_bind (Vaults.reads_checkBlobs blob blobIv blobMac) (fun _ => id)
    (fun _ d₂ h₂ => ?_) h₁.inv
  simp only [DbVaults.createItem, bind_assoc]
  refine Table.wp_selectFor_bind fun s hs n hn => ?_
  refine Table.wp_insert_bind (fun n₁ hn₁ hv _ d₃ h₃ ha => ⟨?_, fun _ _ => trivial⟩)
    fun _ _ => id
  -- the id is still free when the row appears
  have hfree : ∀ i ∈ d₃.vaultItems,
      Tables.vaultItems.key i ≠ .vaultItem auth (req.id.getD fresh) := by
    intro i hi hk
    have hin := (h₃.keeps (.vaultItem auth (req.id.getD fresh), .update)
      (List.mem_append_right _ List.mem_cons_self)).2 (fun h => by cases h) i hi hk
    exact of_decide_eq_true (List.all_eq_true.mp hv i hin) hk
  have hcur : keysOf auth d₃ = keys := ha
  refine Spec.owes_comap (key_owes_of_written h₃.inv rfl ?_ (.push _ _) (fun i hi => ?_)
    fun _ _ h => by cases h)
  · change (List.map _ (d₃.vaultItems ++ [_])).Nodup
    rw [List.map_append, List.nodup_append]
    refine ⟨h₃.inv.1, List.nodup_singleton _, fun x hx y hy => ?_⟩
    obtain ⟨i, hi, rfl⟩ := List.mem_map.mp hx
    rw [List.map_singleton, List.mem_singleton] at hy
    rw [hy]
    exact hfree i hi
  · rcases (Tables.vaultItems.mem_push).mp hi with hi | rfl
    · exact Or.inl hi
    · right
      refine ⟨fun k hk => ?_, ⟨.update, Or.inr rfl, ?_⟩, Or.inl ⟨.keyShare, ?_⟩⟩
      · rw [hcur] at hk
        exact hreq k hk blob hblob
      · exact List.mem_append_right _ List.mem_cons_self
      · simp [userRef]

/-- Editing an item. -/
theorem updateItem_key_wp {auth itemId : Uuid} {req : UpdateVaultItemRequest}
    (hreq : ∀ k ∈ keys, ∀ blob, Base64.decode req.blob = some blob → under blob k)
    (hd : (keySpec under start).inv d) :
    ((keySpec under start).comap fun _ : Tag => .wrote auth (some (itemId, req.version)) keys).wp
      (fun _ _ _ _ => True) (Vaults.updateItem auth itemId req) [] id d := by
  refine wp_okOr_bind id fun blob hblob => wp_okOr_bind id fun blobIv _ => ?_
  refine wp_okOr_bind id fun blobMac _ => ?_
  refine Spec.wp_reads_bind (Vaults.reads_checkBlobs blob blobIv blobMac) (fun _ => id)
    (fun _ d₁ h₁ => ?_) hd
  simp only [DbVaults.updateItem, autocommit, bind_assoc]
  refine Table.wp_update_bind fun s hs n hn _ d₂ h₂ ha => ⟨?_, ?_⟩
  · refine Spec.owes_comap (key_owes_of_written h₂.inv rfl
      (ItemKeysDistinct.edit h₂.inv.1 fun _ => rfl)
      (.edit (f := DbVaults.setBlob blob blobIv blobMac) (fun _ => rfl)
        (fun i => Int.lt_succ i.version) _) (fun i hi => ?_) fun _ _ h => by cases h)
    obtain ⟨i₀, hi₀, rfl⟩ := (Tables.vaultItems.mem_edit).mp hi
    split
    · rename_i hkeys
      right
      obtain ⟨r, hr, hrk⟩ := List.mem_map.mp hkeys
      obtain ⟨hrn, -, hcond⟩ := (Tables.vaultItems.mem_hits).mp hr
      rw [Bool.and_eq_true, decide_eq_true_eq] at hcond
      have hlock := Tables.vaultItems.locked_of_mem_hits hr .noKeyUpdate
      -- the row is locked, so it still has the version
      have hin : i₀ ∈ n.vaultItems := (h₂.keeps (Tables.vaultItems.key r, .noKeyUpdate)
        (List.mem_append_right _ (List.mem_append_left _ hlock))).2 (fun h => by cases h) i₀ hi₀ hrk.symm
      have heq : i₀ = r := hn.inv.1.eq hin hrn hrk.symm
      have hcur : keysOf auth d₂ = keys := by
        apply ha
        rw [heq] at hi₀
        exact ⟨r, hi₀, hcond⟩
      have howner : (DbVaults.setBlob blob blobIv blobMac i₀).userId = auth := by
        rw [heq]
        exact of_decide_eq_true (Bool.and_eq_true_iff.mp hcond.1).2
      refine ⟨fun k hk => ?_, ⟨.noKeyUpdate, Or.inl rfl, ?_⟩, Or.inr ⟨i₀, hi₀, rfl⟩⟩
      · rw [howner, hcur] at hk
        exact hreq k hk blob hblob
      · rw [hrk] at hlock
        exact List.mem_append_right _ (List.mem_append_left _ hlock)
    · exact Or.inl hi₀
  · refine Spec.wp_of_reads ?_ fun _ => id
    refine Prog.Reads.bind trivial fun rows => Prog.Reads.bind trivial fun item => ?_
    cases item with
    | some item => trivial
    | none =>
      refine (DbVaults.reads_getCurrentVersion itemId auth).bind fun version => ?_
      cases version with
      | none => trivial
      | some version => trivial

/-- When a recovery counted the items of an account that is there, it swapped all of them. -/
theorem swapped_of_reencrypts {items : List DbRecovery.ReencryptedItemRow}
    {L' : List (RowId × LockMode)} {g : VaultItem → VaultItem}
    (h : Reencrypts (keySpec under start) userId items L L' d d' g) (hheld : Held userId L d)
    (hids : (items.map (·.id)).Nodup) (hu : userOf userId d' ≠ none) {i : VaultItem}
    (hi : i ∈ d'.vaultItems) (hiu : i.userId = userId) :
    Tables.vaultItems.key i ∈ items.map (swapKey userId) := by
  have hS : LocksAccounts (keySpec under start) := key_locksAccounts
  obtain ⟨d₁, hd₁, hd', hcount, hthere⟩ := h.counted
  have hlock : (RowId.user userId, LockMode.update) ∈ L := by
    rcases hheld with hl | hn
    · exact hl
    · exact (hu (hS.absent (hd₁.trans hd').guar hn)).elim
  obtain ⟨i₁, hi₁, hkey⟩ := ((hd'.keeps _ hlock).1 rfl userId rfl).2 i hi hiu
  have hown : ∀ row ∈ d₁.vaultItems, row.userId = userId →
      Tables.vaultItems.key row ∈ (DbRecovery.itemsOf userId d₁).map Tables.vaultItems.key :=
    fun row hrow hru => List.mem_map_of_mem (List.mem_filter.mpr ⟨hrow, decide_eq_true hru⟩)
  have hkeys : (items.map (swapKey userId)).Nodup := by
    have hmap : items.map (swapKey userId) = (items.map (·.id)).map (RowId.vaultItem userId) := by
      rw [List.map_map]
      rfl
    rw [hmap]
    exact hids.map fun a b hab => (RowId.vaultItem.inj hab).2
  have hsub : items.map (swapKey userId) ⊆
      (DbRecovery.itemsOf userId d₁).map Tables.vaultItems.key := by
    intro k hk
    obtain ⟨item, hitem, rfl⟩ := List.mem_map.mp hk
    obtain ⟨n, hguar, hn⟩ := hthere item hitem
    obtain ⟨row, hrow, hrk⟩ := List.mem_map.mp hn
    obtain ⟨row', hrow', hnewer⟩ := hguar.1 row hrow
    have hrk' : Tables.vaultItems.key row' = swapKey userId item := hnewer.1.trans hrk
    rw [← hrk']
    exact hown row' hrow' (RowId.vaultItem.inj hrk').1
  -- as many rows as swapped ones, which are among them
  have hperm := (List.subperm_of_subset hkeys hsub).perm_of_length_le
    (by rw [List.length_map, List.length_map, hcount])
  rw [← hkey]
  exact hperm.symm.subset (hown i₁ hi₁ ((RowId.vaultItem.inj hkey).1.trans hiu))

/-- A commit of a recovery that re-encrypted the items under the keys that it brings. -/
theorem key_owes_of_rotates {f : User → User} {items : List DbRecovery.ReencryptedItemRow}
    (hi : (keySpec under start).inv d) (h : Rotates (keySpec under start) userId f items L d d')
    (hf : ∀ u, some ((f u).protectedSymmetricKey, (f u).protectedSymmetricKeyIv) = keys)
    (hids : (items.map (·.id)).Nodup) (hunder : ∀ item ∈ items, ∀ k ∈ keys, under item.blob k) :
    (keySpec under start).Owes L (.rekeyed userId keys) d d' := by
  obtain ⟨hheld, husers, g, hg, L₀, d₀, hheld₀, hre⟩ := h
  have hswaps := hre.swaps
  have hother : ∀ v, v ≠ userId → userOf v d' = userOf v d := by
    intro v hv
    rw [husers, if_neg hv]
  have hkeys : userOf userId d ≠ none → keysOf userId d' = keys := by
    intro hne
    obtain ⟨u, hu⟩ := Option.ne_none_iff_exists'.mp hne
    rw [keysOf, husers, if_pos rfl, hu]
    exact hf u
  have hmem : ∀ i ∈ d'.vaultItems, ∃ i₁ ∈ d.vaultItems, g i₁ = i := by
    intro i hid
    rw [hg] at hid
    exact List.mem_map.mp hid
  -- an item of an account that is there was swapped
  have hall : userOf userId d ≠ none → ∀ i₁ ∈ d.vaultItems, i₁.userId = userId →
      Tables.vaultItems.key i₁ ∈ items.map (swapKey userId) :=
    fun hne i₁ hi₁ hu => swapped_of_reencrypts hre hheld₀ hids hne hi₁ hu
  have hswapped : ∀ i₁, Tables.vaultItems.key i₁ ∈ items.map (swapKey userId) →
      i₁.version < (g i₁).version ∧ ∀ k ∈ keys, under (g i₁).blob k := by
    intro i₁ hk
    obtain ⟨hv, item, hitem, -, hblob, -, -⟩ := hswaps.swapped i₁ hk
    refine ⟨hv, fun k hk => ?_⟩
    rw [hblob]
    exact hunder item hitem k hk
  refine ⟨?_, ⟨?_, fun i hid => ?_⟩, ⟨fun i hid => ?_, fun v hn => ?_⟩, ?_⟩
  · refine fun v => ⟨?_, fun hv => ?_⟩
    swap
    · rw [keysOf, hother v fun heq => hv keys (by rw [heq]), keysOf]
    rintro keys' htag hne
    cases htag
    refine ⟨hkeys hne, fun i hid hiu => ?_⟩
    obtain ⟨i₁, hi₁, rfl⟩ := hmem i hid
    have hiu₁ : i₁.userId = userId := (RowId.vaultItem.inj (hswaps.key i₁)).1.symm.trans hiu
    obtain ⟨hv, hblob⟩ := hswapped i₁ (hall hne i₁ hi₁ hiu₁)
    refine ⟨hblob, fun i₀ hi₀ hk => ?_⟩
    have heq : i₁ = i₀ := hi.1.eq hi₁ hi₀ ((hswaps.key i₁).symm.trans hk)
    rwa [← heq]
  · have hmap : d'.vaultItems.map Tables.vaultItems.key =
        d.vaultItems.map Tables.vaultItems.key := by
      rw [hg, List.map_map]
      exact List.map_congr_left fun i _ => hswaps.key i
    rw [ItemKeysDistinct, hmap]
    exact hi.1
  · obtain ⟨i₁, hi₁, rfl⟩ := hmem i hid
    have howner : (g i₁).userId = i₁.userId := (RowId.vaultItem.inj (hswaps.key i₁)).1
    rw [howner]
    by_cases hv : i₁.userId = userId
    · right
      intro k hk
      have hne : userOf userId d ≠ none := by
        intro hn
        rw [hv, keysOf, husers, if_pos rfl, hn] at hk
        cases hk
      rw [hv, hkeys hne] at hk
      exact (hswapped i₁ (hall hne i₁ hi₁ hv)).2 k hk
    · have hsame : g i₁ = i₁ := by
        refine hswaps.same i₁ fun hk => hv ?_
        obtain ⟨item, -, hkey⟩ := List.mem_map.mp hk
        exact (RowId.vaultItem.inj hkey).1.symm
      rw [hsame, keysOf, hother _ hv]
      exact hi.2 i₁ hi₁
  · refine ⟨g i, ?_, hswaps.key i, ?_⟩
    · change g i ∈ d'.vaultItems
      rw [hg]
      exact List.mem_map_of_mem hid
    · by_cases hk : Tables.vaultItems.key i ∈ items.map (swapKey userId)
      · exact Or.inr (hswapped i hk).1
      · exact Or.inl (hswaps.same i hk)
  · rw [husers, hn]
    split
    · rfl
    · rfl
  · intro k m hcompat
    refine ⟨fun hm v hv => ⟨?_, fun i hid _ => ?_⟩, fun hm i hid hik => ?_⟩
    · by_cases hvu : v = userId
      · rcases hheld with hl | hn
        · rw [← hvu, ← hv] at hl
          have hc := hcompat _ hl rfl
          rw [hm, LockMode.compatible_update] at hc
          cases hc
        · rw [husers, hvu, hn]
          split
          · rfl
          · rfl
      · exact hother v hvu
    · obtain ⟨i₁, hi₁, rfl⟩ := hmem i hid
      exact ⟨i₁, hi₁, (hswaps.key i₁).symm⟩
    · obtain ⟨i₁, hi₁, rfl⟩ := hmem i hid
      have hsame : g i₁ = i₁ := by
        refine hswaps.same i₁ fun hk => ?_
        obtain ⟨item, hitem, hkey⟩ := List.mem_map.mp hk
        have hlock := hre.locked item hitem
        rw [hkey, ← hswaps.key i₁, hik] at hlock
        exact hm (LockMode.eq_keyShare (Or.inl rfl) (hcompat _ hlock rfl))
      rwa [hsame]

/-- A legacy recovery. -/
theorem recover_key_wp {o : Opaque} {now : Nat} {req : Recovery.RecoveryCompleteRequest}
    (hreq : (KeyedRequest.recover now req).Honest under) (hd : (keySpec under start).inv d) :
    ((keySpec under start).comap (Tag.rekeying req.keys)).wp (fun _ _ _ _ => True)
      (Recovery.recoveryComplete o now req) [] id d := by
  obtain ⟨hwrap, hwrapIv, hitems⟩ := hreq
  refine Spec.wp_reads_bind (Recovery.reads_liveRecoverySession _ _) nofun
    (fun session d₁ h₁ => ?_) hd
  refine Spec.wp_reads_bind (Recovery.reads_credentialOf o req) nofun
    (fun credential d₂ h₂ => ?_) h₁.inv
  refine wp_okOr_bind nofun fun key hkey => wp_okOr_bind nofun fun keyIv hkeyIv => ?_
  refine wp_okOr_bind nofun fun authKey _ => wp_okOr_bind nofun fun blob _ => ?_
  refine wp_okOr_bind nofun fun blobIv _ => ?_
  refine wp_require_bind nofun fun _ => ?_
  have hkeys : req.keys = some (key, keyIv) := by
    have hkey' : Base64.decode req.protectedSymmetricKey = some key := hkey
    have hkeyIv' : Base64.decode req.protectedSymmetricKeyIv = some keyIv := hkeyIv
    rw [Recovery.RecoveryCompleteRequest.keys, hkey', hkeyIv']
    rfl
  rw [Recovery.wrapOf, hwrap, hwrapIv]
  change Spec.wp _ _ (Recovery.itemsOf session.userId none req.items >>= _) _ _ _
  rw [Recovery.itemsOf]
  simp only [Option.isSome_none, Bool.false_eq_true, if_false, bind_assoc]
  refine wp_require_bind nofun fun hids => ?_
  refine Spec.wp_read_bind fun d₃ h₃ => wp_require_bind nofun fun _ => ?_
  refine Spec.wp_gives_bind (Recovery.gives_decodeReencryptedItems req.items) nofun
    (fun rows d₄ hrows h₄ => ?_) h₃.inv
  obtain ⟨hrowIds, hblobs⟩ := hrows
  refine wp_rotateMasterPassword (key_locksAccounts.comap _) nofun rfl fun L d d' hi _ hr => ?_
  refine Spec.owes_comap (key_owes_of_rotates hi hr.of_comap (fun u => ?_) ?_ fun row hrow k hk => ?_)
  · exact hkeys.symm
  · rw [hrowIds]
    exact of_decide_eq_true hids
  · obtain ⟨item, hitem, hdec⟩ := hblobs row hrow
    exact hitems k hk item hitem _ hdec

/-- Every request keeps the specification. -/
theorem KeyedRequest.key_valid (o : Opaque) {req : KeyedRequest} (h : req.Honest under) :
    (keySpec under start).Valid (req.run o) fun _ _ => True := by
  intro d hd
  cases req with
  | createItem now bearer vaultId fresh req =>
    refine Spec.wp_reads_bind (reads_requireAuth o now bearer) nofun (fun found d₁ h₁ => ?_) hd
    obtain ⟨auth, keys⟩ := found
    have hreq : ∀ k ∈ keys, ∀ blob, Base64.decode (req keys).blob = some blob → under blob k := by
      rintro k rfl
      exact h k
    have hcreate : ((keySpec under start).comap fun _ : Tag => .wrote auth.userId none keys).wp
        (fun _ _ _ _ => True) (Vaults.createItem auth.userId vaultId fresh (req keys)) [] id d₁ :=
      createItem_key_wp hreq h₁.inv
    exact Spec.wp_bind h₁.inv
      (Spec.wp_mono (fun _ _ _ _ _ _ _ _ => trivial) (Spec.wp_relabel hcreate))
  | updateItem now bearer itemId req =>
    refine Spec.wp_reads_bind (reads_requireAuth o now bearer) nofun (fun found d₁ h₁ => ?_) hd
    obtain ⟨auth, keys⟩ := found
    have hreq : ∀ k ∈ keys, ∀ blob, Base64.decode (req keys).blob = some blob → under blob k := by
      rintro k rfl
      exact h k
    have hupdate : ((keySpec under start).comap fun _ : Tag =>
        .wrote auth.userId (some (itemId, (req keys).version)) keys).wp
        (fun _ _ _ _ => True) (Vaults.updateItem auth.userId itemId (req keys)) [] id d₁ :=
      updateItem_key_wp hreq h₁.inv
    exact Spec.wp_bind h₁.inv
      (Spec.wp_mono (fun _ _ _ _ _ _ _ _ => trivial) (Spec.wp_relabel hupdate))
  | recover now req => exact Spec.wp_relabel (recover_key_wp h hd)

section Runs

variable {I : Type} [Fintype I] [DecidableEq I]

/-- After each legacy recovery, up to the next one of the account, all items of the account are
under the keys that the recovery brought. -/
def ItemsFollowKeys (under : Bytes → Bytes × Bytes → Prop) (history : List (Event I Db Tag))
    (d : Db) : Prop :=
  ∀ before e after userId keys, history = before ++ e :: after → e.tag = .rekeyed userId keys →
    userOf userId e.before ≠ none → (∀ e' ∈ after, ∀ keys', e'.tag ≠ .rekeyed userId keys') →
      keysOf userId d = keys ∧ ItemsUnder under userId d

/-- Every run in which writes commit under the keys of their authentication leaves all items of
a recovered account under its new keys. -/
theorem itemsFollowKeys_of_kept (o : Opaque) (reqs : I → KeyedRequest) {db : Db}
    (hk : ItemKeysDistinct db) (hreqs : ∀ i, (reqs i).Honest under) {sched : List (I × Act)}
    {s : State I Db RowId Tag ApiError Unit}
    (hc : (State.start db fun i => (reqs i).run o).Commits KeysKept sched)
    (h : (State.start db fun i => (reqs i).run o).exec sched = some s) :
    ItemsFollowKeys under ((State.start db fun i => (reqs i).run o).history sched) s.db := by
  have hstart : (keySpec under db.vaultItems).inv db := ⟨hk, fun i hi => Or.inl hi⟩
  have hgood := Spec.Good.start (Q := fun _ _ _ => True) hstart
    fun i => KeyedRequest.key_valid o (hreqs i)
  obtain ⟨hgood', -, hasserts⟩ := hgood.exec hc h
  intro before e after userId keys hsplit htag hne hlast
  have he : e ∈ (State.start db fun i => (reqs i).run o).history sched := by
    rw [hsplit]
    exact List.mem_append_right _ List.mem_cons_self
  obtain ⟨-, hafter, hto, hcommit, hfrom⟩ := hgood.guar_of_mem_history hc h e he
  obtain ⟨hkeys, hitems⟩ := ((hasserts e he) userId).1 keys htag hne
  have hsame : keysOf userId s.db = keysOf userId e.after := by
    refine State.view_of_history_tail (keysOf userId) h hsplit fun e' he' => ?_
    refine ((hasserts e' ?_) userId).2 (hlast e' he')
    rw [hsplit]
    exact List.mem_append_right _ (List.mem_cons_of_mem _ he')
  refine ⟨hsame.trans hkeys, fun k hk i hi hiu => ?_⟩
  rcases hgood'.inv.2 i hi with hold | hunder
  · -- the recovery gave every item of the account a version that it never had before
    obtain ⟨i₀, hi₀, hn₀⟩ := hto.1 i hold
    obtain ⟨i₁, hi₁, hn₁⟩ := hcommit.1 i₀ hi₀
    have hkey : Tables.vaultItems.key i₁ = Tables.vaultItems.key i := hn₁.1.trans hn₀.1
    have hiu₁ : i₁.userId = userId := (RowId.vaultItem.inj hkey).1.trans hiu
    have hlt : i₀.version < i₁.version := (hitems i₁ hi₁ hiu₁).2 i₀ hi₀ hn₁.1
    have hn₂ := hfrom.1.newer hgood'.inv.1 hi₁ hi hkey.symm
    have hle₀ : i.version ≤ i₀.version := hn₀.le
    have hle₂ : i₁.version ≤ i.version := hn₂.le
    omega
  · rw [hiu] at hunder
    exact hunder k hk

end Runs

/-- Account 1 under the key 1, with a vault, a session and a recovery token. -/
private def beforeRecovery : Db where
  users := [{ id := 1, opaqueRecord := some [1], protectedSymmetricKey := [1] }]
  sessions := [{ id := 4, userId := 1, tokenHash := "", createdAt := 0, expiresAt := 1 }]
  vaults := [{ id := 2, userId := 1, nameBlob := [], nameIv := [], createdAt := 0 }]
  pendingRecoverySessions := [{ token := 7, userId := 1, createdAt := 0 }]

/-- Every upload is accepted. -/
private def anyUpload : Opaque where
  validRequest _ := true
  registrationStart request _ := some request
  registrationFinish := some
  proves _ _ _ := false
  srpVerify _ _ _ _ := false
  hashToken := id
  hashAuthKey := id

/-- A blob that shows its key. -/
private def showsKey (blob : Bytes) (keys : Bytes × Bytes) : Prop := blob = keys.1

/-- A recovery to the key 2 that re-encrypts these items. -/
private def toNewKey (items : List Recovery.ReencryptedItem) :
    Recovery.RecoveryCompleteRequest where
  recoveryToken := some 7
  registrationRecord := some "Ag"
  srpSalt := none
  srpVerifier := none
  protectedSymmetricKey := "Ag=="
  protectedSymmetricKeyIv := ""
  protectedPrivateKey := none
  protectedPrivateKeyIv := none
  wrappedAccountKey := none
  wrappedAccountKeyIv := none
  items := items
  recoveryAuthKey := "AAAAAAAAAAAAAAAAAAAAAAAAAAAAAAAAAAAAAAAAAAA="
  recoveryBlob := ""
  recoveryBlobIv := ""

/-- A new item, and a recovery. -/
private def createAndRecover (items : List Recovery.ReencryptedItem) : Fin 2 → KeyedRequest
  | 0 => .createItem 0 (some "") 2 3 fun keys =>
      { id := none, itemType := .note, blob := Base64.encode ((keys.map (·.1)).getD [])
        blobIv := "AAAAAAAAAAAAAAAA", blobMac := "" }
  | 1 => .recover 0 (toNewKey items)

private def keyedStart (items : List Recovery.ReencryptedItem) :
    State (Fin 2) Db RowId Tag ApiError Unit :=
  State.start beforeRecovery fun i => (createAndRecover items i).run anyUpload

/-- The new item under the key 2. -/
private def itemAgain : Recovery.ReencryptedItem where
  id := 3
  blob := "Ag=="
  blobIv := "AAAAAAAAAAAAAAAA"
  blobMac := ""

/-- The item is created, then the recovery re-encrypts it. -/
private def createBefore : List (Fin 2 × Act) :=
  Act.inTurn [(0, 7), (1, 20)]

/-- The creation waits for the account's row, which the recovery holds, and then goes on. -/
private def createWaits : List (Fin 2 × Act) :=
  Act.inTurn [(1, 4), (0, 3), (1, 14), (0, 4)]

private theorem createAndRecover_honest (items : List Recovery.ReencryptedItem)
    (h : ∀ item ∈ items, item.blob = "Ag==") (i : Fin 2) :
    (createAndRecover items i).Honest showsKey := by
  match i with
  | 0 =>
    intro keys blob hblob
    have hshown : Base64.decode (Base64.encode keys.1) = some blob := hblob
    rw [Base64.decode_encode] at hshown
    exact (Option.some.inj hshown).symm
  | 1 =>
    refine ⟨rfl, rfl, fun keys hkeys item hitem blob hblob => ?_⟩
    have hsent : (Base64.decode "Ag==").bind (fun key =>
        (Base64.decode "").map fun iv => (key, iv)) = some keys := hkeys
    have hnew : Base64.decode "Ag==" = some [2] := by decide
    rw [h item hitem, hnew] at hblob
    rw [hnew, Option.bind_some] at hsent
    obtain ⟨iv, -, rfl⟩ := Option.map_eq_some_iff.mp hsent
    exact (Option.some.inj hblob).symm

/-- An item that is created before the recovery is under the new key after it. -/
theorem itemsFollowKeys_of_kept_serial :
    ∃ s, (keyedStart [itemAgain]).exec createBefore = some s ∧ s.db.vaultItems ≠ [] ∧
      ItemsFollowKeys showsKey ((keyedStart [itemAgain]).history createBefore) s.db := by
  have hrun : ((keyedStart [itemAgain]).exec createBefore).map
      (fun s => s.db.vaultItems.isEmpty) = some false := by decide
  obtain ⟨s, hs, hne⟩ := Option.map_eq_some_iff.mp hrun
  have hkept : State.Commits KeysKept (keyedStart [itemAgain]) createBefore := by decide
  refine ⟨s, hs, by simpa using hne, ?_⟩
  refine itemsFollowKeys_of_kept anyUpload (createAndRecover [itemAgain]) ?_
    (createAndRecover_honest _ ?_) hkept hs
  · exact List.nodup_nil
  · simp [itemAgain]

/-- The lock makes the creation wait and not fail: the recovery finds no item, and then one goes
in under the old key. -/
theorem not_itemsFollowKeys_of_waiting :
    (∀ i, (createAndRecover [] i).Honest showsKey) ∧
    ∃ s, (keyedStart []).exec createWaits = some s ∧
      ¬ ItemsFollowKeys showsKey ((keyedStart []).history createWaits) s.db := by
  refine ⟨createAndRecover_honest [] nofun, ?_⟩
  have hrun : ((keyedStart []).exec createWaits).map (fun s =>
      decide (keysOf 1 s.db = some ([2], []) ∧ ∃ i ∈ s.db.vaultItems, i.userId = 1 ∧
        i.blob = [1])) = some true := by decide
  obtain ⟨s, hs, hstale⟩ := Option.map_eq_some_iff.mp hrun
  obtain ⟨hkeys, i, hi, hiu, hblob⟩ := of_decide_eq_true hstale
  have htags : ((keyedStart []).history createWaits).map (fun e =>
      (e.tag, (userOf 1 e.before).isSome)) = [(.rekeyed 1 (some ([2], [])), true),
        (.wrote 1 none (some ([1], [])), true)] := by decide
  refine ⟨s, hs, fun hfollow => ?_⟩
  cases hh : (keyedStart []).history createWaits with
  | nil =>
    rw [hh] at htags
    cases htags
  | cons e after =>
    rw [hh, List.map_cons, List.cons.injEq, Prod.mk.injEq] at htags
    obtain ⟨⟨htag, hthere⟩, hrest⟩ := htags
    have hpresent : userOf 1 e.before ≠ none := by
      intro hn
      rw [hn] at hthere
      cases hthere
    have hlast : ∀ e' ∈ after, ∀ keys', e'.tag ≠ .rekeyed 1 keys' := by
      intro e' he' keys' heq
      have hmem := List.mem_map_of_mem (f := fun e : Event (Fin 2) Db Tag =>
        (e.tag, (userOf 1 e.before).isSome)) he'
      rw [hrest, List.mem_singleton, heq] at hmem
      cases hmem
    have hunder := (hfollow [] e after 1 _ hh htag hpresent hlast).2 _ hkeys i hi hiu
    rw [showsKey, hblob] at hunder
    cases hunder

end Nopass
