import Nopass.Core.Run
import Nopass.Server.VaultCascade

/-!
# Edits of one item by several clients

A client reads an item with its version and sends the version back with its edit; a move
raises the version, so an edit from before it is refused. A deletion leaves the version
as it is. An acknowledged edit replaces the row that its client read exactly as long as
the item was not deleted in between.
-/

namespace Nopass

open ReadCommitted DbVaults

/-- The database, and what each client has read of the item. A client that reads again counts as
another client. -/
structure EditWorld where
  db : Db
  held : Nat → Option VaultItem

/-- The row of an item. -/
def itemRow (itemId userId : Uuid) (d : Db) : Option VaultItem :=
  d.vaultItems.find? (isItem itemId userId d)

/-- Requests on the item, each one statement. -/
inductive EditEvent where
  /-- The client is served the item. -/
  | read (client : Nat)
  /-- `update_item` with the version that the client read. -/
  | update (client : Nat) (blob blobIv blobMac : Bytes)
  | move (toVaultId : Uuid)
  | softDelete (now : Nat)

section Run

variable (itemId userId : Uuid)

/-- A client's `update_item`, at the version that it read. -/
def EditWorld.update (w : EditWorld) (held : VaultItem) (blob blobIv blobMac : Bytes) :
    Except (Option ApiError) (Option VaultItem) × Db :=
  (updateItem itemId userId blob blobIv blobMac held.version).alone id w.db

/-- A request; a client that read nothing sends no edit. -/
def EditWorld.step (w : EditWorld) : EditEvent → Option EditWorld
  | .read client =>
    some { w with held := Function.update w.held client (itemRow itemId userId w.db) }
  | .update client blob blobIv blobMac =>
    (w.held client).map fun held =>
      { w with db := (w.update itemId userId held blob blobIv blobMac).2 }
  | .move toVaultId =>
    some { w with db := ((DbVaults.moveItem itemId userId toVaultId).alone id w.db).2 }
  | .softDelete now => some { w with db := ((softDeleteItem now itemId userId).alone id w.db).2 }

/-- Two rows hold the same contents at the same place. -/
structure SameContents (held row : VaultItem) : Prop where
  blob : row.blob = held.blob
  blobIv : row.blobIv = held.blobIv
  blobMac : row.blobMac = held.blobMac
  vaultId : row.vaultId = held.vaultId
  deletedAt : row.deletedAt = held.deletedAt

/-- Every acknowledged edit of a run replaces the row that its client read. -/
def EditsWhatWasRead (events : List EditEvent) (w₀ : EditWorld) : Prop :=
  ∀ before client blob blobIv blobMac after,
    events = before ++ .update client blob blobIv blobMac :: after →
    ∀ w, runEvents (EditWorld.step itemId userId) before w₀ = some w →
    ∀ held ∈ w.held client, ∀ stored,
      (w.update itemId userId held blob blobIv blobMac).1 = .ok (some stored) →
      ∃ row ∈ itemRow itemId userId w.db, SameContents held row

/-- The item was not deleted since the client read it, or the edit comes with another version
than the item has, or at the end of the version's column. -/
def NotDeletedSince (w : EditWorld) : EditEvent → Prop
  | .update client _ _ _ => ∀ held ∈ w.held client, ∀ row ∈ itemRow itemId userId w.db,
      row.version = held.version → isBigInt (row.version + 1) = true → held.live = true →
        row.live = true
  | _ => True

instance (w : EditWorld) : ∀ e, Decidable (NotDeletedSince itemId userId w e)
  | .update client _ _ _ => inferInstanceAs (Decidable (∀ held ∈ w.held client, _))
  | .read _ | .move _ | .softDelete _ => inferInstanceAs (Decidable True)

end Run

variable {itemId userId : Uuid} {w w' : EditWorld} {d : Db}

/-! ## What each request does to the row -/

/-- Rows of one item are one row. -/
theorem isItem_iff_key {i : VaultItem} :
    isItem itemId userId d i = true ↔ Tables.vaultItems.key i = .vaultItem userId itemId := by
  rw [isItem, Bool.and_eq_true, decide_eq_true_eq, decide_eq_true_eq, and_comm]
  exact ⟨fun h => congrArg₂ RowId.vaultItem h.1 h.2, fun h => RowId.vaultItem.inj h⟩

/-- The row of an item is in the table, under its key. -/
theorem mem_itemRow {row : VaultItem} (h : row ∈ itemRow itemId userId d) :
    row ∈ d.vaultItems ∧ Tables.vaultItems.key row = .vaultItem userId itemId :=
  ⟨List.mem_of_find?_eq_some h, isItem_iff_key.mp (List.find?_some h)⟩

/-- Whatever is stored under the key of an item is its row. -/
theorem itemRow_eq_of_mem (hk : ItemKeysDistinct d) {row : VaultItem} (h : row ∈ d.vaultItems)
    (hkey : Tables.vaultItems.key row = .vaultItem userId itemId) :
    itemRow itemId userId d = some row := by
  obtain ⟨row', hrow'⟩ := Option.isSome_iff_exists.mp
    (List.find?_isSome.mpr ⟨row, h, isItem_iff_key (d := d).mpr hkey⟩)
  obtain ⟨hmem, hkey'⟩ := mem_itemRow hrow'
  rw [itemRow, hrow', hk.eq hmem h (hkey'.trans hkey.symm)]

/-- The rows that a request on one item changes: the item's, when it meets the request's
condition. -/
theorem filter_item (itemId userId : Uuid) (hk : ItemKeysDistinct d) (cond : VaultItem → Bool) :
    d.vaultItems.filter (fun i => isItem itemId userId d i && cond i) =
      ((itemRow itemId userId d).filter cond).toList := by
  apply filter_unique (List.Nodup.of_map _ hk)
  intro a ha b hb hpa hpb
  exact hk.eq ha hb ((isItem_iff_key.mp hpa).trans (isItem_iff_key.mp hpb).symm)

/-- What a request on the item makes of its row. -/
theorem itemRow_edit (hk : ItemKeysDistinct d) (cond : VaultItem → Bool) {f : VaultItem → VaultItem}
    (hf : ∀ i, Tables.vaultItems.key (f i) = Tables.vaultItems.key i) :
    itemRow itemId userId (Tables.vaultItems.edit
        ((d.vaultItems.filter fun i => isItem itemId userId d i && cond i).map
          Tables.vaultItems.key) f d) =
      (itemRow itemId userId d).map fun row => if cond row then f row else row := by
  have hitem : ∀ i, isItem itemId userId d (f i) = isItem itemId userId d i := by
    intro i
    rw [Bool.eq_iff_iff, isItem_iff_key, isItem_iff_key, hf]
  apply (Tables.vaultItems.find?_edit hitem).trans
  apply Option.map_congr
  intro row hrow
  have hmem : Tables.vaultItems.key row ∈ (d.vaultItems.filter fun i =>
      isItem itemId userId d i && cond i).map Tables.vaultItems.key ↔ cond row = true := by
    have hrow : itemRow itemId userId d = some row := hrow
    rw [filter_item itemId userId hk, hrow, Option.filter_some]
    split
    · rename_i hc
      simp [hc]
    · rename_i hc
      simp [hc]
  simp only [hmem]

/-- A lone request of one statement on the item goes through or changes nothing. -/
theorem alone_update_item {O : Type} (itemId userId : Uuid) (hk : ItemKeysDistinct d) (cond : Db → VaultItem → Bool)
    (f : VaultItem → VaultItem) (hf : ∀ i, Tables.vaultItems.key (f i) = Tables.vaultItems.key i)
    (refs : VaultItem → List (Ref Db RowId)) (k : List VaultItem → O) :
    let r := ((do
      let rows ← autocommit (Tables.vaultItems.update
        (fun d i => isItem itemId userId d i && cond d i) f refs) fun _ => .plain
      pure (k rows) : Request O)).alone id d
    ItemKeysDistinct r.2 ∧ (r = (.error none, d) ∨
      r.1 = .ok (k ((itemRow itemId userId d).filter (cond d)).toList) ∧
        itemRow itemId userId r.2 =
          (itemRow itemId userId d).map fun row => if cond d row then f row else row) := by
  intro r
  have hr : r = (Tables.vaultItems.update (fun d i => isItem itemId userId d i && cond d i) f refs >>=
      fun rows => (.commit .plain (.ret (k rows)) : Request O)).alone id d := by
    simp only [r, autocommit, Prog.bind_bind]
    rfl
  rcases Table.alone_update_cases f refs (fun rows => (.commit .plain (.ret (k rows)) : Request O))
    with hsame | hdone
  · rw [hr, hsame]
    exact ⟨hk, .inl rfl⟩
  · have hrows := filter_item itemId userId hk (cond d)
    rw [hr, hdone]
    exact ⟨hk.edit hf, .inr ⟨congrArg (fun rows => Except.ok (k rows)) hrows,
      itemRow_edit hk (cond d) hf⟩⟩

/-! ## Runs -/

/-- What a client read is the row at that version, up to a deletion since. -/
structure ReadFrom (held row : VaultItem) : Prop where
  version : held.version ≤ row.version
  contents : row.version = held.version →
    row.blob = held.blob ∧ row.blobIv = held.blobIv ∧ row.blobMac = held.blobMac ∧
      row.vaultId = held.vaultId
  deletedAt : row.version = held.version → held.live = false → row.deletedAt = held.deletedAt

/-- What the clients hold was read from the row. -/
structure EditInv (itemId userId : Uuid) (w : EditWorld) : Prop where
  keys : ItemKeysDistinct w.db
  held : ∀ client, ∀ held ∈ w.held client, ∃ row ∈ itemRow itemId userId w.db, ReadFrom held row

/-- A request keeps the clients in order when what it makes of the row does. -/
theorem EditInv.request {O : Type} {r : Except (Option ApiError) O × Db} {out : O}
    {g : VaultItem → VaultItem} (hi : EditInv itemId userId w)
    (hr : ItemKeysDistinct r.2 ∧ (r = (.error none, w.db) ∨ r.1 = .ok out ∧
      itemRow itemId userId r.2 = (itemRow itemId userId w.db).map g))
    (hg : ∀ held row, ReadFrom held row → ReadFrom held (g row)) :
    EditInv itemId userId { w with db := r.2 } := by
  obtain ⟨hk, hsame | ⟨-, hrow⟩⟩ := hr
  · rw [hsame]
    exact hi
  · constructor
    · exact hk
    · intro client held hheld
      obtain ⟨row, hmem, hh⟩ := hi.held client held hheld
      exact ⟨g row, hrow.trans (congrArg (Option.map g) hmem), hg held row hh⟩

/-- A newer version holds whatever an older one was read as. -/
theorem ReadFrom.newer {held row row' : VaultItem} (h : ReadFrom held row)
    (hv : row'.version = row.version + 1) : ReadFrom held row' := by
  have := h.version
  constructor
  · omega
  · intro hv'
    omega
  · intro hv'
    omega

/-- An item that is deleted is still what it was read as, but for the deletion. -/
theorem ReadFrom.deleted {held row : VaultItem} (h : ReadFrom held row) (now : Nat)
    (hlive : row.deletedAt.isNone = true) : ReadFrom held { row with deletedAt := some now } := by
  constructor
  · exact h.version
  · exact h.contents
  · intro hv hdead
    have hgone := h.deletedAt hv hdead
    rw [Option.isNone_iff_eq_none.mp hlive] at hgone
    rw [VaultItem.live, ← hgone] at hdead
    cases hdead

/-- One request keeps the clients in order. -/
theorem EditInv.step {e : EditEvent} (hi : EditInv itemId userId w)
    (h : w.step itemId userId e = some w') : EditInv itemId userId w' := by
  cases e with
  | read client =>
    cases h
    constructor
    · exact hi.keys
    · intro other held hheld
      by_cases hother : other = client
      · subst hother
        dsimp only at hheld
        rw [Function.update_self] at hheld
        exact ⟨held, hheld, Int.le_refl _, fun _ => ⟨rfl, rfl, rfl, rfl⟩, fun _ _ => rfl⟩
      · dsimp only at hheld
        rw [Function.update_of_ne hother] at hheld
        exact hi.held other held hheld
  | update client blob blobIv blobMac =>
    obtain ⟨held, hheld, rfl⟩ := Option.map_eq_some_iff.mp h
    apply hi.request (alone_update_item itemId userId hi.keys
      (fun _ i => decide (i.version = held.version)) (setBlob blob blobIv blobMac) (fun _ => rfl)
      (fun _ => [])
      fun rows => rows.head?.map (setBlob blob blobIv blobMac))
    intro held' row hh
    split
    · exact hh.newer rfl
    · exact hh
  | move toVaultId =>
    cases h
    apply hi.request (alone_update_item itemId userId hi.keys
      (fun d _ => d.vaults.any fun v => decide (v.id = toVaultId) && decide (v.userId = userId))
      (moveTo toVaultId) (fun _ => rfl) (fun i => if i.vaultId = toVaultId then [] else [vaultRef toVaultId])
      fun rows => decide (0 < rows.length))
    intro held row hh
    split
    · exact hh.newer rfl
    · exact hh
  | softDelete now =>
    cases h
    apply hi.request (alone_update_item itemId userId hi.keys (fun _ i => i.deletedAt.isNone)
      (fun i => { i with deletedAt := some now }) (fun _ => rfl) (fun _ => []) fun rows => decide (0 < rows.length))
    intro held row hh
    split
    · rename_i hlive
      exact hh.deleted now hlive
    · exact hh

/-- An edit as an update and its commit. -/
theorem update_eq (w : EditWorld) (held : VaultItem) (blob blobIv blobMac : Bytes) :
    w.update itemId userId held blob blobIv blobMac =
      (Tables.vaultItems.update
          (fun d i => isItem itemId userId d i && decide (i.version = held.version))
          (setBlob blob blobIv blobMac) >>= fun rows =>
        (.commit .plain (.ret (rows.head?.map (setBlob blob blobIv blobMac))) :
          Request (Option VaultItem))).alone id w.db := by
  simp only [EditWorld.update, updateItem, autocommit, Prog.bind_bind]
  rfl

/-- An edit is acknowledged exactly when the item is at the version that its client read and the
version has a successor. -/
theorem acknowledged_iff (hk : ItemKeysDistinct w.db) {held : VaultItem}
    {blob blobIv blobMac : Bytes} :
    (∃ stored, (w.update itemId userId held blob blobIv blobMac).1 = .ok (some stored)) ↔
      ∃ row ∈ itemRow itemId userId w.db, row.version = held.version ∧
        isBigInt (row.version + 1) = true := by
  have hfilter := filter_item itemId userId hk fun i => decide (i.version = held.version)
  rw [update_eq]
  constructor
  · rintro ⟨stored, hstored⟩
    obtain ⟨hcheck, hrest⟩ := Table.alone_update_bind (Prod.ext hstored rfl)
    rw [Table.hits_self] at hcheck hrest
    have hhead := congrArg Prod.fst hrest
    obtain ⟨row, hhead, -⟩ := Option.map_eq_some_iff.mp (Except.ok.inj hhead)
    have hmem := List.mem_of_head? hhead
    have hrow : row ∈ ((itemRow itemId userId w.db).filter fun i =>
        decide (i.version = held.version)).toList := hfilter ▸ hmem
    obtain ⟨hrow, hv⟩ := Option.filter_eq_some_iff.mp (Option.mem_toList.mp hrow)
    exact ⟨row, hrow, of_decide_eq_true hv, hcheck row hmem⟩
  · rintro ⟨row, hrow, hv, hb⟩
    have hrows : w.db.vaultItems.filter (fun i =>
        isItem itemId userId w.db i && decide (i.version = held.version)) = [row] := by
      rw [hfilter, Option.mem_def.mp hrow, Option.filter_some, if_pos (decide_eq_true hv)]
      rfl
    refine ⟨setBlob blob blobIv blobMac row, ?_⟩
    rw [Table.alone_update_eq]
    · exact congrArg (fun rows : List VaultItem =>
        Except.ok (rows.head?.map (setBlob blob blobIv blobMac))) hrows
    · intro r hr
      cases List.mem_singleton.mp (hrows ▸ hr)
      exact hb

/-- What a client read of an item that was not deleted since is the row at that version. -/
theorem ReadFrom.sameContents {held row : VaultItem} (h : ReadFrom held row)
    (hv : row.version = held.version) (hlive : held.live = true → row.live = true) :
    SameContents held row := by
  obtain ⟨hblob, hblobIv, hblobMac, hvault⟩ := h.contents hv
  refine ⟨hblob, hblobIv, hblobMac, hvault, ?_⟩
  cases hh : held.live with
  | true =>
    have hrow := hlive hh
    rw [VaultItem.live, Option.isNone_iff_eq_none] at hrow hh
    rw [hrow, hh]
  | false => exact h.deletedAt hv hh

/-- In every run of requests on an item, each acknowledged edit replaces the row that its client
read exactly when no edit is sent, at the version that the item has, by a client that read it
before a deletion. -/
theorem editsWhatWasRead_iff (itemId userId : Uuid) (events : List EditEvent) {d : Db}
    (hk : ItemKeysDistinct d) :
    EditsWhatWasRead itemId userId events { db := d, held := fun _ => none } ↔
      EventsMeet (EditWorld.step itemId userId) (NotDeletedSince itemId userId) events
        { db := d, held := fun _ => none } := by
  have hinv {before : List EditEvent} {w : EditWorld}
      (h : runEvents (EditWorld.step itemId userId) before { db := d, held := fun _ => none } =
        some w) : EditInv itemId userId w := by
    apply invariant_of_events (fun _ _ _ _ hi (_ : True) hs => EditInv.step hi hs) _ _ h
    · exact ⟨hk, fun _ held hheld => nomatch hheld⟩
    · rw [eventsMeet_iff]
      exact fun _ _ _ _ _ _ => trivial
  rw [eventsMeet_iff]
  constructor
  · intro hprop before e after hsplit w hrun
    cases e with
    | read client => trivial
    | move toVaultId => trivial
    | softDelete now => trivial
    | update client blob blobIv blobMac =>
      intro held hheld row hrow hv hb hlive
      obtain ⟨stored, hstored⟩ := (acknowledged_iff (hinv hrun).keys).mpr ⟨row, hrow, hv, hb⟩
      obtain ⟨row', hrow', hsame⟩ := hprop before client blob blobIv blobMac after hsplit w hrun
        held hheld stored hstored
      cases hrow.symm.trans hrow'
      rw [VaultItem.live, hsame.deletedAt]
      exact hlive
  · intro hcond before client blob blobIv blobMac after hsplit w hrun held hheld stored hstored
    obtain ⟨row, hrow, hv, hb⟩ := (acknowledged_iff (hinv hrun).keys).mp ⟨stored, hstored⟩
    obtain ⟨row', hrow', hh⟩ := (hinv hrun).held client held hheld
    cases hrow.symm.trans hrow'
    exact ⟨row, hrow, hh.sameContents hv
      (hcond before _ after hsplit w hrun held hheld row hrow hv hb)⟩

/-- An item that is not deleted, with its user and vault. -/
def oneItem : Db where
  users := [{ id := 1, opaqueRecord := some [1] }]
  vaults := [{ id := 10, userId := 1, nameBlob := [], nameIv := [], createdAt := 0 },
    { id := 11, userId := 1, nameBlob := [], nameIv := [], createdAt := 1 }]
  vaultItems := [{ id := 5, vaultId := 10, userId := 1, itemType := "login", blob := [1],
                   blobIv := [], blobMac := [] }]

/-- One item, one key. -/
theorem oneItem_keys : ItemKeysDistinct oneItem := List.nodup_singleton _

/-- An edit after a move is refused and one after a new read replaces what was read. -/
theorem editsWhatWasRead_after_move : EditsWhatWasRead 5 1
    [.read 0, .move 11, .update 0 [2] [] [], .read 1, .update 1 [3] [] []]
    { db := oneItem, held := fun _ => none } :=
  (editsWhatWasRead_iff 5 1 _ oneItem_keys).mpr (by decide)

/-- A client reads the item, another deletes it, and the first one's edit is acknowledged on the
deleted item. -/
theorem not_editsWhatWasRead_after_delete : ¬ ∀ itemId userId events d, ItemKeysDistinct d →
    EditsWhatWasRead itemId userId events { db := d, held := fun _ => none } := by
  intro h
  have hprop := h 5 1 [.read 0, .softDelete 7, .update 0 [2] [] []] oneItem oneItem_keys
  obtain ⟨row, hrow, hsame⟩ := hprop [.read 0, .softDelete 7] 0 [2] [] [] [] rfl _ rfl _ rfl _ rfl
  cases hrow
  cases hsame.deletedAt

end Nopass
