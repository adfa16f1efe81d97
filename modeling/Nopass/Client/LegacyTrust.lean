import Nopass.Client.TrustForward

/-!
# Whose the legacy trust records are

Accounts that share a browser find the records of all of them in one `localStorage`. At
each unlock an account notes in an index which ids the server gave it, and takes over the
legacy records under the ids that it noted and no other account did. A record is removed
before what it held is written. A pin under a name that every object inherits is taken for
one that is there, and is lost.
-/

namespace Nopass

/-- A value of `localStorage`, as it is read. -/
inductive StoredValue where
  | index (index : TrustIndex)
  | revisions (snapshot : MemoryRevisionStore)
  | legacyRevisions (record : List (String × Nat))
  | pins (pins : KeyPins)
  | legacyPins (record : List (String × String))
  /-- Whatever else, also what cannot be read. -/
  | other (text : String)

/-- `localStorage`. -/
structure LocalStorage where
  items : OrderedMap String StoredValue

namespace LocalStorage

/-- `getItem`. -/
def getItem (s : LocalStorage) (key : String) : Option StoredValue := s.items.get key

/-- `setItem`. -/
def setItem (s : LocalStorage) (key : String) (value : StoredValue) : LocalStorage where
  items := s.items.set key value

/-- `removeItem`. -/
def removeItem (s : LocalStorage) (key : String) : LocalStorage where
  items := s.items.delete key

@[simp] theorem getItem_setItem (s : LocalStorage) (key key' : String) (value : StoredValue) :
    (s.setItem key value).getItem key' = if key' = key then some value else s.getItem key' :=
  OrderedMap.get_set s.items key key' value

@[simp] theorem getItem_removeItem (s : LocalStorage) (key key' : String) :
    (s.removeItem key).getItem key' = if key' = key then none else s.getItem key' :=
  OrderedMap.get_delete s.items key key'

end LocalStorage

/-- A trust index. -/
def StoredValue.index? : StoredValue → Option TrustIndex
  | .index entries => some entries
  | _ => none

/-- A snapshot of a revision store. -/
def StoredValue.revisions? : StoredValue → Option MemoryRevisionStore
  | .revisions snapshot => some snapshot
  | _ => none

/-- A record of pins. -/
def StoredValue.pins? : StoredValue → Option KeyPins
  | .pins record => some record
  | _ => none

/-- A legacy record of revisions. -/
def StoredValue.legacyRevisions? : StoredValue → Option (List (String × Nat))
  | .legacyRevisions record => some record
  | _ => none

/-- A legacy record of pins. -/
def StoredValue.legacyPins? : StoredValue → Option (List (String × String))
  | .legacyPins record => some record
  | _ => none

/-- `readJson`. -/
def LocalStorage.readJson {T : Type} (s : LocalStorage) (read : StoredValue → Option T)
    (key : String) (fallback : T) : T :=
  ((s.getItem key).bind read).getD fallback

/-- `TRUST_INDEX_KEY`. -/
def trustIndexKey : String := "nopass:trust-index"

/-- The two kinds of records that an account takes over. -/
inductive RecordKind where
  | revisions
  | pins
  deriving DecidableEq, Repr

/-- What the keys of a kind begin with. -/
def RecordKind.keyPrefix : RecordKind → String
  | .revisions => "nopass:item-revisions:"
  | .pins => "nopass:key-pins:"

/-- The legacy record of an id. -/
def RecordKind.legacyKey (kind : RecordKind) (id : String) : String := kind.keyPrefix ++ id

/-- The record of an account. -/
def RecordKind.storeKey (kind : RecordKind) (trustId : String) : String :=
  kind.legacyKey ("v2:" ++ trustId)

/-- The order in which a browser lists the keys. -/
structure KeyOrder where
  list : List String → List String
  perm : ∀ keys, (list keys).Perm keys

/-- The index after an account has noted its ids, if it was given any. -/
def LocalStorage.noteIds (s : LocalStorage) (trustId : String) :
    Option AccountIds → TrustIndex × LocalStorage
  | none => (s.readJson StoredValue.index? trustIndexKey [], s)
  | some ids =>
    let index := recordLegacyIds (s.readJson StoredValue.index? trustIndexKey []) trustId
      [ids.vaultId, ids.userId]
    (index, s.setItem trustIndexKey (.index index))

/-- `takeLegacyRecords`: the records that are taken, by their keys, and what is left. -/
def LocalStorage.takeLegacyRecords {T : Type} (order : KeyOrder) (s : LocalStorage)
    (read : StoredValue → Option (List T)) (keyPrefix trustId : String)
    (accountIds : Option AccountIds) : List (String × List T) × LocalStorage :=
  let (index, s) := s.noteIds trustId accountIds
  let own := ownLegacyKeys index trustId (order.list s.items.keys) keyPrefix
  (own.map fun key => (key, s.readJson read key []), own.foldl LocalStorage.removeItem s)

/-- `store.record`, and what the store's `onChange` writes. -/
def recordAndWrite (key : String) (at_ : MemoryRevisionStore × LocalStorage)
    (entry : String × Nat) : MemoryRevisionStore × LocalStorage :=
  match at_.1.record? entry.1 entry.2 with
  | some store => (store, at_.2.setItem key (.revisions store))
  | none => at_

/-- `store.markV2Only`, and what it writes. -/
def markAndWrite (key : String) (at_ : MemoryRevisionStore × LocalStorage) :
    MemoryRevisionStore × LocalStorage :=
  match at_.1.markV2Only? with
  | some store => (store, at_.2.setItem key (.revisions store))
  | none => at_

/-- A revision store over nothing. -/
def MemoryRevisionStore.fresh : MemoryRevisionStore where
  revisions _ := none
  legacyClosed := false

/-- `openRevisionStore`; the server may give a marker that verifies. -/
def LocalStorage.openRevisionStore (order : KeyOrder) (s : LocalStorage) (trustId : String)
    (accountIds : Option AccountIds) (marker : Bool) : LocalStorage :=
  let key := RecordKind.revisions.storeKey trustId
  let store := s.readJson StoredValue.revisions? key .fresh
  let (legacy, s) := s.takeLegacyRecords order StoredValue.legacyRevisions?
    RecordKind.revisions.keyPrefix trustId accountIds
  let opened := (legacy.flatMap (·.2)).foldl (recordAndWrite key) (store, s)
  if marker then (markAndWrite key opened).2 else opened.2

/-- `openKeyPinStore`. -/
def LocalStorage.openKeyPinStore (order : KeyOrder) (s : LocalStorage) (trustId : String)
    (accountIds : Option AccountIds) : LocalStorage :=
  let key := RecordKind.pins.storeKey trustId
  let pins := s.readJson StoredValue.pins? key fun _ => none
  let (legacy, s) := s.takeLegacyRecords order StoredValue.legacyPins?
    RecordKind.pins.keyPrefix trustId accountIds
  if legacy.isEmpty then s else s.setItem key (.pins (KeyPins.setAll pins (legacy.map (·.2))))

/-- A store that an account opens at an unlock. -/
structure Opening where
  trustId : String
  accountIds : Option AccountIds
  kind : RecordKind
  /-- Whether the server gives a marker that verifies; only for revisions. -/
  marker : Bool

/-- What happens in the browser. -/
inductive BrowserEvent where
  | unlock (opening : Opening)
  /-- Anything else is written, such as by the stores that are open. -/
  | write (key : String) (value : StoredValue)

/-- `localStorage` after an event. -/
def LocalStorage.step (order : KeyOrder) (s : LocalStorage) : BrowserEvent → LocalStorage
  | .unlock o => match o.kind with
    | .revisions => s.openRevisionStore order o.trustId o.accountIds o.marker
    | .pins => s.openKeyPinStore order o.trustId o.accountIds
  | .write key value => s.setItem key value

/-- The keys of the legacy records that an event folds. -/
def LocalStorage.folded (order : KeyOrder) (s : LocalStorage) : BrowserEvent → List String
  | .unlock o => match o.kind with
    | .revisions => (s.takeLegacyRecords order StoredValue.legacyRevisions? o.kind.keyPrefix
        o.trustId o.accountIds).1.map (·.1)
    | .pins => (s.takeLegacyRecords order StoredValue.legacyPins? o.kind.keyPrefix
        o.trustId o.accountIds).1.map (·.1)
  | .write _ _ => []

/-- `localStorage` after a run. -/
def LocalStorage.run (order : KeyOrder) (s : LocalStorage) (events : List BrowserEvent) :
    LocalStorage := events.foldl (LocalStorage.step order) s

/-- The ids that an event records for an account. -/
def BrowserEvent.records (e : BrowserEvent) (trustId : String) : List String :=
  match e with
  | .unlock o => if o.trustId = trustId then
      (o.accountIds.map fun ids => [ids.vaultId, ids.userId].filterMap truthy).getD [] else []
  | .write _ _ => []

/-- An account has recorded an id. -/
def Recorded (events : List BrowserEvent) (trustId id : String) : Prop :=
  ∃ e ∈ events, id ∈ e.records trustId

/-- What the store of an account holds of its revisions. -/
def LocalStorage.revisionsOf (s : LocalStorage) (trustId : String) : MemoryRevisionStore :=
  s.readJson StoredValue.revisions? (RecordKind.revisions.storeKey trustId) .fresh

/-- What the store of an account holds of its pins. -/
def LocalStorage.pinsOf (s : LocalStorage) (trustId : String) : KeyPins :=
  s.readJson StoredValue.pins? (RecordKind.pins.storeKey trustId) fun _ => none

/-- The store has each revision of the legacy records, or a higher one. -/
def HoldsRevisions (s s' : LocalStorage) (trustId : String) (keys : List String) : Prop :=
  ∀ key ∈ keys, ∀ entry ∈ s.readJson StoredValue.legacyRevisions? key [],
    ∃ revision ∈ (s'.revisionsOf trustId).revisions entry.1, entry.2 ≤ revision

/-- The store has a pin of each user whom the legacy records pin: the one that it had, or one of
theirs. -/
def HoldsPins (s s' : LocalStorage) (trustId : String) (keys : List String) : Prop :=
  ∀ key ∈ keys, ∀ entry ∈ s.readJson StoredValue.legacyPins? key [],
    ∃ pin ∈ s'.pinsOf trustId entry.1, s.pinsOf trustId entry.1 = some pin ∨
      ∃ key' ∈ keys, (entry.1, pin) ∈ s.readJson StoredValue.legacyPins? key' []

/-- What an unlock may do, after the events before it. -/
structure FoldsOwn (order : KeyOrder) (before : List BrowserEvent) (s : LocalStorage)
    (o : Opening) : Prop where
  /-- A record is taken over under an id that the account has recorded and no other. -/
  own : ∀ key ∈ s.folded order (.unlock o), ∃ id, key = o.kind.legacyKey id ∧
    Recorded (before ++ [.unlock o]) o.trustId id ∧
    ∀ trustId, trustId ≠ o.trustId → ¬ Recorded before trustId id
  /-- It is gone then. -/
  removed : ∀ key ∈ s.folded order (.unlock o),
    (s.step order (.unlock o)).getItem key = none
  revisionsHeld : RevisionsHeld (s.revisionsOf o.trustId)
    ((s.step order (.unlock o)).revisionsOf o.trustId)
  pinsHeld : PinsHeld (s.pinsOf o.trustId) ((s.step order (.unlock o)).pinsOf o.trustId)
  /-- What the records held is in the store. -/
  holds : match o.kind with
    | .revisions => HoldsRevisions s (s.step order (.unlock o)) o.trustId
        (s.folded order (.unlock o))
    | .pins => HoldsPins s (s.step order (.unlock o)) o.trustId (s.folded order (.unlock o))
  /-- Nothing else changes but the index. -/
  others : ∀ key, key ≠ trustIndexKey → key ≠ o.kind.storeKey o.trustId →
    key ∉ s.folded order (.unlock o) → (s.step order (.unlock o)).getItem key = s.getItem key

/-- In a run, every unlock does only that, and no record is taken over twice. -/
structure LegacyKept (order : KeyOrder) (s : LocalStorage) (events : List BrowserEvent) : Prop where
  folds : ∀ before o after, events = before ++ .unlock o :: after →
    FoldsOwn order before (s.run order before) o
  once : ∀ before e between e' after, events = before ++ e :: (between ++ e' :: after) →
    ∀ key ∈ (s.run order before).folded order e,
      key ∉ (s.run order (before ++ e :: between)).folded order e'

/-- The runs that there can be: nobody has recorded an id yet, no id is the one of an account's new
record, and whatever else is written is neither the index nor a legacy record. -/
structure Possible (s : LocalStorage) (events : List BrowserEvent) : Prop where
  unindexed : s.readJson StoredValue.index? trustIndexKey [] = []
  ids : ∀ e ∈ events, ∀ trustId, ∀ id ∈ e.records trustId, ∀ o, .unlock o ∈ events →
    id ≠ "v2:" ++ o.trustId
  writes : ∀ key value, .write key value ∈ events → key ≠ trustIndexKey ∧
    ∀ kind : RecordKind, ∀ id, key = kind.legacyKey id → ∃ o, .unlock o ∈ events ∧
      id = "v2:" ++ o.trustId

/-- The pins that an unlock folds are under names of their own or under pinned ones. -/
def FoldsOwnNames (order : KeyOrder) (s : LocalStorage) (o : Opening) : Prop :=
  o.kind = .pins → ∀ key ∈ s.folded order (.unlock o),
    ∀ entry ∈ s.readJson StoredValue.legacyPins? key [],
      entry.1 ∈ objectPrototype → (s.pinsOf o.trustId entry.1).isSome

/-! ## Keys -/

/-- A legacy key is known by its id. -/
theorem legacyId?_eq_some {keyPrefix key id : String} :
    legacyId? keyPrefix key = some id ↔ key = keyPrefix ++ id := by
  rw [legacyId?]
  constructor
  · intro h
    split at h
    · rename_i hprefixed
      obtain ⟨rest, hrest⟩ := List.isPrefixOf_iff_prefix.mp hprefixed
      obtain rfl := Option.some.inj h
      apply String.toList_injective
      rw [← hrest, String.toList_append, String.toList_ofList, ← String.length_toList,
        List.drop_left]
    · cases h
  · rintro rfl
    rw [String.toList_append, if_pos (List.isPrefixOf_iff_prefix.mpr (List.prefix_append _ _)),
      ← String.length_toList, List.drop_left, String.ofList_toList]

/-- The keys that an account takes. -/
theorem mem_ownLegacyKeys {index : TrustIndex} {trustId keyPrefix key : String}
    {keys : List String} : key ∈ ownLegacyKeys index trustId keys keyPrefix ↔
      key ∈ keys ∧ ∃ id, key = keyPrefix ++ id ∧ id ∈ (index.lookup trustId).getD [] ∧
        ∀ e ∈ index, e.1 ≠ trustId → id ∉ e.2 := by
  simp only [ownLegacyKeys, List.mem_filter, Option.any_eq_true, legacyId?_eq_some,
    Bool.and_eq_true, Bool.not_eq_true', List.contains_eq_mem,
    decide_eq_true_eq, decide_eq_false_iff_not, List.mem_flatMap, not_exists, not_and]
  constructor
  · rintro ⟨hmem, id, hkey, hmine, hothers⟩
    exact ⟨hmem, id, hkey, hmine, fun e he hne => hothers e ⟨he, hne⟩⟩
  · rintro ⟨hmem, id, hkey, hmine, hothers⟩
    exact ⟨hmem, id, hkey, hmine, fun e he => hothers e he.1 he.2⟩

/-- Keys of a kind differ in their ids. -/
theorem legacyKey_inj {kind : RecordKind} {id id' : String} :
    kind.legacyKey id = kind.legacyKey id' ↔ id = id' := by
  rw [RecordKind.legacyKey, RecordKind.legacyKey, String.append_right_inj]

/-- Keys of the two kinds differ. -/
theorem legacyKey_ne {kind kind' : RecordKind} (h : kind ≠ kind') (id id' : String) :
    kind.legacyKey id ≠ kind'.legacyKey id' := by
  intro heq
  have hchars := congrArg (fun key => key.toList[7]?) heq
  cases kind with
  | revisions =>
    cases kind' with
    | revisions => exact h rfl
    | pins =>
      simp [RecordKind.legacyKey, RecordKind.keyPrefix] at hchars
  | pins =>
    cases kind' with
    | revisions =>
      simp [RecordKind.legacyKey, RecordKind.keyPrefix] at hchars
    | pins => exact h rfl

/-- No record is the index. -/
theorem legacyKey_ne_index (kind : RecordKind) (id : String) :
    kind.legacyKey id ≠ trustIndexKey := by
  intro heq
  have hchars := congrArg (fun key => key.toList[7]?) heq
  cases kind with
  | revisions => simp [RecordKind.legacyKey, RecordKind.keyPrefix, trustIndexKey] at hchars
  | pins => simp [RecordKind.legacyKey, RecordKind.keyPrefix, trustIndexKey] at hchars

/-! ## The index -/

/-- An entry whose value is replaced. -/
theorem lookup_map_replaced (index : TrustIndex) (trustId account : String) (known : List String) :
    (index.map fun e => if e.1 = trustId then (trustId, known) else e).lookup account =
      if account = trustId then (index.lookup trustId).map fun _ => known
      else index.lookup account := by
  induction index with
  | nil => simp
  | cons e index ih =>
    obtain ⟨name, ids⟩ := e
    rw [List.map_cons]
    by_cases hname : name = trustId
    · rw [if_pos hname, hname, List.lookup_cons, ih]
      by_cases haccount : account = trustId
      · rw [haccount, beq_self_eq_true, List.lookup_cons_self, if_pos rfl, if_pos rfl]
        rfl
      · rw [beq_false_of_ne haccount, if_neg haccount, if_neg haccount, List.lookup_cons,
          beq_false_of_ne haccount]
    · rw [if_neg hname, List.lookup_cons, ih, List.lookup_cons, List.lookup_cons,
        beq_false_of_ne (fun heq : trustId = name => hname heq.symm)]
      by_cases haccount : account = trustId
      · rw [haccount, beq_false_of_ne (fun heq : trustId = name => hname heq.symm), if_pos rfl]
      · rw [if_neg haccount, if_neg haccount]

/-- What an account has noted after noting more. -/
theorem lookup_recordLegacyIds (index : TrustIndex) (trustId : String) (ids : List (Option String))
    (account : String) : (recordLegacyIds index trustId ids).lookup account =
      if account = trustId then
        some ((((index.lookup trustId).getD []) ++ ids.filterMap truthy).eraseDups)
      else index.lookup account := by
  have hnamed : (index.any fun e => decide (e.1 = trustId)) = (index.lookup trustId).isSome := by
    rw [Bool.eq_iff_iff, List.lookup_isSome_iff, List.any_eq_true]
    simp only [decide_eq_true_eq, beq_iff_eq, @eq_comm _ trustId]
  rw [recordLegacyIds, hnamed]
  generalize (((index.lookup trustId).getD []) ++ ids.filterMap truthy).eraseDups = known
  cases hlookup : index.lookup trustId with
  | some ids =>
    rw [Option.isSome_some, if_pos rfl, lookup_map_replaced, hlookup, Option.map_some]
  | none =>
    rw [Option.isSome_none, if_neg Bool.false_ne_true, List.lookup_append, List.lookup_cons, List.lookup_nil]
    by_cases haccount : account = trustId
    · rw [haccount, hlookup, beq_self_eq_true, if_pos rfl]
      rfl
    · rw [beq_false_of_ne haccount, if_neg haccount, Option.or_none]

/-- The index says who has recorded what. -/
def IndexSays (s : LocalStorage) (events : List BrowserEvent) : Prop :=
  ∀ trustId id, id ∈ ((s.readJson StoredValue.index? trustIndexKey []).lookup trustId).getD [] ↔
    Recorded events trustId id

/-- Recording goes on. -/
theorem recorded_concat {events : List BrowserEvent} {e : BrowserEvent} {trustId id : String} :
    Recorded (events ++ [e]) trustId id ↔ Recorded events trustId id ∨ id ∈ e.records trustId := by
  simp only [Recorded, List.mem_append, List.mem_singleton, or_and_right, exists_or,
    exists_eq_left]

/-- What the index says after an account has noted its ids. -/
theorem lookup_noteIds {s : LocalStorage} {events : List BrowserEvent} (h : IndexSays s events)
    (o : Opening) (trustId id : String) :
    id ∈ ((s.noteIds o.trustId o.accountIds).1.lookup trustId).getD [] ↔
      Recorded (events ++ [.unlock o]) trustId id := by
  rw [recorded_concat, ← h, BrowserEvent.records]
  cases hids : o.accountIds with
  | none =>
    simp [LocalStorage.noteIds]
  | some ids =>
    rw [LocalStorage.noteIds, lookup_recordLegacyIds]
    by_cases htrust : trustId = o.trustId
    · rw [if_pos htrust, if_pos htrust.symm, Option.getD_some, List.mem_eraseDups, List.mem_append,
        htrust]
      rfl
    · rw [if_neg htrust, if_neg (fun heq => htrust heq.symm)]
      simp

/-- Noting ids changes the index alone. -/
theorem getItem_noteIds (s : LocalStorage) (trustId : String) (accountIds : Option AccountIds)
    {key : String} (hkey : key ≠ trustIndexKey) :
    (s.noteIds trustId accountIds).2.getItem key = s.getItem key := by
  cases accountIds with
  | none => rfl
  | some ids =>
    rw [LocalStorage.noteIds, LocalStorage.getItem_setItem, if_neg hkey]

/-- The index that was noted is there. -/
theorem readJson_noteIds (s : LocalStorage) (trustId : String) (accountIds : Option AccountIds) :
    (s.noteIds trustId accountIds).2.readJson StoredValue.index? trustIndexKey [] =
      (s.noteIds trustId accountIds).1 := by
  cases accountIds with
  | none => rfl
  | some ids =>
    simp only [LocalStorage.noteIds, LocalStorage.readJson, LocalStorage.getItem_setItem, if_true]
    rfl

/-! ## Taking -/

/-- Removing keys. -/
theorem getItem_foldl_removeItem (keys : List String) (s : LocalStorage) (key : String) :
    (keys.foldl LocalStorage.removeItem s).getItem key =
      if key ∈ keys then none else s.getItem key := by
  induction keys generalizing s with
  | nil => simp
  | cons k keys ih =>
    rw [List.foldl_cons, ih, LocalStorage.getItem_removeItem]
    by_cases hrest : key ∈ keys
    · rw [if_pos hrest, if_pos (List.mem_cons_of_mem _ hrest)]
    · rw [if_neg hrest]
      by_cases hk : key = k
      · rw [if_pos hk, if_pos (by rw [hk]; exact List.mem_cons_self)]
      · rw [if_neg hk, if_neg (by simp [hk, hrest])]

section Taking

variable {T : Type} {order : KeyOrder} {read : StoredValue → Option (List T)}
  {keyPrefix trustId : String} {accountIds : Option AccountIds} {s : LocalStorage}

/-- The keys that an account takes from `localStorage`. -/
theorem mem_taken {key : String} (hprefixed : ∀ id, keyPrefix ++ id ≠ trustIndexKey) :
    key ∈ (s.takeLegacyRecords order read keyPrefix trustId accountIds).1.map (·.1) ↔
      (s.getItem key).isSome ∧ ∃ id, key = keyPrefix ++ id ∧
        id ∈ ((s.noteIds trustId accountIds).1.lookup trustId).getD [] ∧
        ∀ e ∈ (s.noteIds trustId accountIds).1, e.1 ≠ trustId → id ∉ e.2 := by
  have hlisted : key ∈ order.list (s.noteIds trustId accountIds).2.items.keys ↔
      ((s.noteIds trustId accountIds).2.getItem key).isSome := by
    rw [(order.perm _).mem_iff]
    exact OrderedMap.isSome_get.symm
  simp only [LocalStorage.takeLegacyRecords, List.map_map, Function.comp_def, List.map_id',
    mem_ownLegacyKeys, hlisted]
  constructor
  · rintro ⟨hsome, id, hkey, howned⟩
    rw [getItem_noteIds s trustId accountIds (by rw [hkey]; exact hprefixed id)] at hsome
    exact ⟨hsome, id, hkey, howned⟩
  · rintro ⟨hsome, id, hkey, howned⟩
    rw [← getItem_noteIds s trustId accountIds (by rw [hkey]; exact hprefixed id)] at hsome
    exact ⟨hsome, id, hkey, howned⟩

/-- What is left of `localStorage`. -/
theorem getItem_taken (key : String) :
    (s.takeLegacyRecords order read keyPrefix trustId accountIds).2.getItem key =
      if key ∈ (s.takeLegacyRecords order read keyPrefix trustId accountIds).1.map (·.1) then none
      else (s.noteIds trustId accountIds).2.getItem key := by
  simp only [LocalStorage.takeLegacyRecords, List.map_map, Function.comp_def, List.map_id',
    getItem_foldl_removeItem]

/-- A record is taken as it is. -/
theorem record_taken (hprefixed : ∀ id, keyPrefix ++ id ≠ trustIndexKey)
    {taken : String × List T}
    (h : taken ∈ (s.takeLegacyRecords order read keyPrefix trustId accountIds).1) :
    taken.2 = s.readJson read taken.1 [] := by
  have hkey := List.mem_map_of_mem (f := (·.1)) h
  obtain ⟨_, id, hid, _⟩ := (mem_taken hprefixed).mp hkey
  simp only [LocalStorage.takeLegacyRecords, List.mem_map] at h
  obtain ⟨key, _, rfl⟩ := h
  have hne : key ≠ trustIndexKey := fun heq => hprefixed id (hid.symm.trans heq)
  simp only [LocalStorage.readJson, getItem_noteIds s trustId accountIds hne]

end Taking

/-! ## Writing -/

/-- What the store and `localStorage` are after some writes of the store: it is written whole, or
nothing was written. -/
structure Written (key : String) (store : MemoryRevisionStore) (s : LocalStorage)
    (after : MemoryRevisionStore × LocalStorage) : Prop where
  others : ∀ key', key' ≠ key → after.2.getItem key' = s.getItem key'
  itself : after.2.getItem key = some (.revisions after.1) ∨
    after.1 = store ∧ after.2.getItem key = s.getItem key

/-- Nothing was written yet. -/
theorem Written.refl (key : String) (store : MemoryRevisionStore) (s : LocalStorage) :
    Written key store s (store, s) := ⟨fun _ _ => rfl, .inr ⟨rfl, rfl⟩⟩

/-- One more write of the store. -/
theorem Written.write {key : String} {store : MemoryRevisionStore} {s : LocalStorage}
    {at_ : MemoryRevisionStore × LocalStorage} (h : Written key store s at_)
    (store' : MemoryRevisionStore) :
    Written key store s (store', at_.2.setItem key (.revisions store')) := by
  constructor
  · intro key' hkey
    rw [LocalStorage.getItem_setItem, if_neg hkey]
    exact h.others key' hkey
  · left
    rw [LocalStorage.getItem_setItem, if_pos rfl]

/-- Recording writes the store whole. -/
theorem written_foldl_recordAndWrite {key : String} {store : MemoryRevisionStore} {s : LocalStorage}
    {at_ : MemoryRevisionStore × LocalStorage} (h : Written key store s at_)
    (entries : List (String × Nat)) :
    Written key store s (entries.foldl (recordAndWrite key) at_) ∧
      (entries.foldl (recordAndWrite key) at_).1 =
        entries.foldl (fun store entry => store.record entry.1 entry.2) at_.1 := by
  induction entries generalizing at_ with
  | nil => exact ⟨h, rfl⟩
  | cons entry entries ih =>
    rw [List.foldl_cons, List.foldl_cons, MemoryRevisionStore.record]
    cases hrecord : at_.1.record? entry.1 entry.2 with
    | none =>
      rw [recordAndWrite, hrecord]
      exact ih h
    | some store' =>
      rw [recordAndWrite, hrecord]
      exact ih (h.write store')

/-- So does marking. -/
theorem written_markAndWrite {key : String} {store : MemoryRevisionStore} {s : LocalStorage}
    {at_ : MemoryRevisionStore × LocalStorage} (h : Written key store s at_) :
    Written key store s (markAndWrite key at_) ∧
      (markAndWrite key at_).1 = at_.1.markV2Only := by
  rw [MemoryRevisionStore.markV2Only, markAndWrite]
  cases at_.1.markV2Only? with
  | none => exact ⟨h, rfl⟩
  | some store' => exact ⟨h.write store', rfl⟩

/-- Recording all entries of legacy records leaves none above the store. -/
theorem le_recordAll (store : MemoryRevisionStore) {entries : List (String × Nat)}
    {entry : String × Nat} (h : entry ∈ entries) :
    ∃ revision ∈ (entries.foldl (fun store entry => store.record entry.1 entry.2) store).revisions
      entry.1, entry.2 ≤ revision := by
  induction entries generalizing store with
  | nil => cases h
  | cons first entries ih =>
    rw [List.foldl_cons]
    rcases List.mem_cons.mp h with rfl | hrest
    · have hheld := revisionsHeld_recordAll (store.record entry.1 entry.2) [entries]
      rw [MemoryRevisionStore.recordAll, List.flatten_singleton] at hheld
      obtain ⟨revision, hrevision, hle⟩ := hheld.revisions entry.1
        (max ((store.revisions entry.1).getD entry.2) entry.2) (by simp)
      exact ⟨revision, hrevision, Nat.le_trans (Nat.le_max_right _ _) hle⟩
    · exact ih _ hrest

/-- What is pinned after the pins of legacy records. -/
theorem isSome_setAll_iff (pins : KeyPins) (legacy : List (List (String × String)))
    (userId : String) : (KeyPins.setAll pins legacy userId).isSome ↔ (pins userId).isSome ∨
      userId ∉ objectPrototype ∧ ∃ record ∈ legacy, ∃ entry ∈ record, entry.1 = userId := by
  have hentries : (∃ record ∈ legacy, ∃ entry ∈ record, entry.1 = userId) ↔
      ∃ entry ∈ legacy.flatten, entry.1 = userId := by
    simp only [List.mem_flatten]
    tauto
  rw [KeyPins.setAll, hentries]
  induction legacy.flatten generalizing pins with
  | nil => simp
  | cons entry rest ih =>
    have hrest := ih (KeyPins.setIfUnset pins entry.1 entry.2)
    rw [List.foldl_cons]
    refine hrest.trans ?_
    rw [KeyPins.setIfUnset]
    by_cases huser : entry.1 = userId
    · split
      · rename_i hkept
        rw [huser] at hkept
        simp [huser]
        tauto
      · rename_i hkept
        rw [huser] at hkept
        simp [huser, KeyPins.set]
        tauto
    · split
      · simp [huser]
      · have hne : ¬ userId = entry.1 := fun heq => huser heq.symm
        simp [huser, hne, KeyPins.set]

/-- Where a pin comes from. -/
theorem setAll_eq_some {pins : KeyPins} {legacy : List (List (String × String))}
    {userId pin : String} (h : KeyPins.setAll pins legacy userId = some pin) :
    pins userId = some pin ∨ ∃ record ∈ legacy, (userId, pin) ∈ record := by
  have hentries : (∃ record ∈ legacy, (userId, pin) ∈ record) ↔ (userId, pin) ∈ legacy.flatten :=
    List.mem_flatten.symm
  rw [hentries]
  rw [KeyPins.setAll] at h
  generalize legacy.flatten = entries at h ⊢
  induction entries generalizing pins with
  | nil => exact .inl h
  | cons entry rest ih =>
    rw [List.foldl_cons] at h
    rcases ih h with hset | hrest
    · rw [KeyPins.setIfUnset] at hset
      split at hset
      · exact .inl hset
      · rw [KeyPins.set] at hset
        split at hset
        · rename_i huser
          right
          rw [huser, ← Option.some.inj hset]
          exact List.mem_cons_self
        · exact .inl hset
    · exact .inr (List.mem_cons_of_mem _ hrest)

/-! ## One unlock -/

section Unlock

variable {order : KeyOrder} {s : LocalStorage} {o : Opening} {before : List BrowserEvent}

/-- The keys that an unlock folds. -/
theorem mem_folded {key : String} : key ∈ s.folded order (.unlock o) ↔
    (s.getItem key).isSome ∧ ∃ id, key = o.kind.legacyKey id ∧
      id ∈ ((s.noteIds o.trustId o.accountIds).1.lookup o.trustId).getD [] ∧
      ∀ e ∈ (s.noteIds o.trustId o.accountIds).1, e.1 ≠ o.trustId → id ∉ e.2 := by
  rw [LocalStorage.folded]
  cases o.kind with
  | revisions => exact mem_taken (legacyKey_ne_index .revisions)
  | pins => exact mem_taken (legacyKey_ne_index .pins)

/-- They are those of ids that the account has recorded and no other. -/
theorem own_of_mem_folded (hindex : IndexSays s before) {key : String}
    (h : key ∈ s.folded order (.unlock o)) : ∃ id, key = o.kind.legacyKey id ∧
      Recorded (before ++ [.unlock o]) o.trustId id ∧
      ∀ trustId, trustId ≠ o.trustId → ¬ Recorded before trustId id := by
  obtain ⟨_, id, hkey, hmine, hothers⟩ := mem_folded.mp h
  refine ⟨id, hkey, (lookup_noteIds hindex o o.trustId id).mp hmine, ?_⟩
  intro trustId hne hrecorded
  have htheirs := (lookup_noteIds hindex o trustId id).mpr (recorded_concat.mpr (.inl hrecorded))
  cases hlookup : (s.noteIds o.trustId o.accountIds).1.lookup trustId with
  | none =>
    rw [hlookup] at htheirs
    cases htheirs
  | some ids =>
    rw [hlookup, Option.getD_some] at htheirs
    obtain ⟨_, _, hsplit, _⟩ := List.lookup_eq_some_iff.mp hlookup
    refine hothers (trustId, ids) ?_ hne htheirs
    rw [hsplit]
    exact List.mem_append_right _ List.mem_cons_self

/-- What `openRevisionStore` does after the records were taken. -/
theorem openRevisionStore_written (order : KeyOrder) (s : LocalStorage) (trustId : String)
    (accountIds : Option AccountIds) (marker : Bool) : ∃ after,
      Written (RecordKind.revisions.storeKey trustId) (s.revisionsOf trustId)
        (s.takeLegacyRecords order StoredValue.legacyRevisions? RecordKind.revisions.keyPrefix
          trustId accountIds).2 after ∧
      RevisionsHeld (((s.takeLegacyRecords order StoredValue.legacyRevisions?
        RecordKind.revisions.keyPrefix trustId accountIds).1.flatMap (·.2)).foldl
          (fun store entry => store.record entry.1 entry.2) (s.revisionsOf trustId)) after.1 ∧
      s.openRevisionStore order trustId accountIds marker = after.2 := by
  rw [LocalStorage.openRevisionStore]
  generalize s.takeLegacyRecords order StoredValue.legacyRevisions? RecordKind.revisions.keyPrefix
    trustId accountIds = take
  obtain ⟨hwritten, hrecorded⟩ := written_foldl_recordAndWrite
    (Written.refl (RecordKind.revisions.storeKey trustId) (s.revisionsOf trustId) take.2)
    (take.1.flatMap (·.2))
  cases marker with
  | false =>
    refine ⟨_, hwritten, ?_, rfl⟩
    rw [hrecorded]
    exact refl_of _ _
  | true =>
    obtain ⟨hmarked, hstore⟩ := written_markAndWrite hwritten
    refine ⟨_, hmarked, ?_, rfl⟩
    rw [hstore, hrecorded]
    constructor
    · intro itemId revision hrevision
      rw [MemoryRevisionStore.revisions_markV2Only]
      exact ⟨revision, hrevision, Nat.le_refl _⟩
    · intro _
      exact MemoryRevisionStore.legacyClosed_markV2Only _

/-- Keys but the index and the store are removed or left as they are. -/
theorem getItem_step_unlock {key : String} (hindex : key ≠ trustIndexKey)
    (hstore : key ≠ o.kind.storeKey o.trustId) : (s.step order (.unlock o)).getItem key =
      if key ∈ s.folded order (.unlock o) then none else s.getItem key := by
  rw [LocalStorage.step, LocalStorage.folded]
  cases hkind : o.kind with
  | revisions =>
    rw [hkind] at hstore
    obtain ⟨after, hwritten, _, hafter⟩ := openRevisionStore_written order s o.trustId o.accountIds
      o.marker
    rw [hafter, hwritten.others key hstore, getItem_taken,
      getItem_noteIds s o.trustId o.accountIds hindex]
  | pins =>
    rw [hkind] at hstore
    have htaken := @getItem_taken _ order StoredValue.legacyPins? RecordKind.pins.keyPrefix
      o.trustId o.accountIds s key
    rw [getItem_noteIds s o.trustId o.accountIds hindex] at htaken
    rw [LocalStorage.openKeyPinStore]
    dsimp only
    split
    · exact htaken
    · rw [LocalStorage.getItem_setItem, if_neg hstore]
      exact htaken

/-- The records of accounts are neither the index nor of the other kind. -/
theorem storeKey_ne_index (kind : RecordKind) (trustId : String) :
    kind.storeKey trustId ≠ trustIndexKey := legacyKey_ne_index kind _

/-- The record of an account that is not folded survives the taking. -/
theorem getItem_storeKey_taken {T : Type} {read : StoredValue → Option (List T)}
    {kind : RecordKind} {trustId : String} {accountIds : Option AccountIds}
    (h : kind.storeKey trustId ∉
      (s.takeLegacyRecords order read kind.keyPrefix trustId accountIds).1.map (·.1)) :
    (s.takeLegacyRecords order read kind.keyPrefix trustId accountIds).2.getItem
      (kind.storeKey trustId) = s.getItem (kind.storeKey trustId) := by
  rw [getItem_taken, if_neg h,
    getItem_noteIds s trustId accountIds (storeKey_ne_index kind trustId)]

/-- The revisions of the account after it has opened their store. -/
theorem revisionsOf_step (hkind : o.kind = .revisions)
    (hstore : o.kind.storeKey o.trustId ∉ s.folded order (.unlock o)) :
    RevisionsHeld (((s.takeLegacyRecords order StoredValue.legacyRevisions?
      RecordKind.revisions.keyPrefix o.trustId o.accountIds).1.flatMap (·.2)).foldl
        (fun store entry => store.record entry.1 entry.2) (s.revisionsOf o.trustId))
      ((s.step order (.unlock o)).revisionsOf o.trustId) := by
  rw [LocalStorage.folded, hkind] at hstore
  obtain ⟨after, hwritten, hheld, hafter⟩ := openRevisionStore_written order s o.trustId
    o.accountIds o.marker
  have hrevisions : after.2.revisionsOf o.trustId = after.1 := by
    rcases hwritten.itself with hitself | ⟨hstore', hsame⟩
    · rw [LocalStorage.revisionsOf, LocalStorage.readJson, hitself]
      rfl
    · rw [getItem_storeKey_taken hstore] at hsame
      rw [hstore', LocalStorage.revisionsOf, LocalStorage.readJson, hsame]
      rfl
  rw [LocalStorage.step, hkind]
  dsimp only
  rw [hafter, hrevisions]
  exact hheld

/-- The pins of the account after it has opened their store. -/
theorem pinsOf_step (hkind : o.kind = .pins)
    (hstore : o.kind.storeKey o.trustId ∉ s.folded order (.unlock o)) :
    (s.step order (.unlock o)).pinsOf o.trustId = KeyPins.setAll (s.pinsOf o.trustId)
      ((s.takeLegacyRecords order StoredValue.legacyPins? RecordKind.pins.keyPrefix o.trustId
        o.accountIds).1.map (·.2)) := by
  rw [LocalStorage.folded, hkind] at hstore
  have hleft := getItem_storeKey_taken hstore
  rw [LocalStorage.step, hkind]
  simp only [LocalStorage.openKeyPinStore]
  split
  · rename_i hempty
    rw [List.isEmpty_iff.mp hempty, List.map_nil, LocalStorage.pinsOf, LocalStorage.readJson, hleft]
    rfl
  · rw [LocalStorage.pinsOf, LocalStorage.readJson, LocalStorage.getItem_setItem, if_pos rfl]
    rfl

/-- The record of the other kind is not touched. -/
theorem getItem_step_otherKind {kind : RecordKind} (hkind : kind ≠ o.kind) (trustId : String) :
    (s.step order (.unlock o)).getItem (kind.storeKey trustId) =
      s.getItem (kind.storeKey trustId) := by
  have hnot : kind.storeKey trustId ∉ s.folded order (.unlock o) := by
    intro hfolded
    obtain ⟨_, id, hkey, _⟩ := mem_folded.mp hfolded
    exact legacyKey_ne hkind _ _ hkey
  rw [getItem_step_unlock (storeKey_ne_index kind trustId) (legacyKey_ne hkind _ _), if_neg hnot]

/-- No revision is lowered. -/
theorem revisionsHeld_step (hstore : o.kind.storeKey o.trustId ∉ s.folded order (.unlock o)) :
    RevisionsHeld (s.revisionsOf o.trustId)
      ((s.step order (.unlock o)).revisionsOf o.trustId) := by
  cases hkind : o.kind with
  | revisions =>
    have hrecorded := revisionsHeld_recordAll (s.revisionsOf o.trustId)
      [(s.takeLegacyRecords order StoredValue.legacyRevisions? RecordKind.revisions.keyPrefix
        o.trustId o.accountIds).1.flatMap (·.2)]
    rw [MemoryRevisionStore.recordAll, List.flatten_singleton] at hrecorded
    exact trans_of RevisionsHeld hrecorded (revisionsOf_step hkind hstore)
  | pins =>
    have hsame : (s.step order (.unlock o)).revisionsOf o.trustId = s.revisionsOf o.trustId := by
      rw [LocalStorage.revisionsOf, LocalStorage.readJson,
        getItem_step_otherKind (by rw [hkind]; decide)]
      rfl
    rw [hsame]
    exact refl_of _ _

/-- No pin is replaced. -/
theorem pinsHeld_step (hstore : o.kind.storeKey o.trustId ∉ s.folded order (.unlock o)) :
    PinsHeld (s.pinsOf o.trustId) ((s.step order (.unlock o)).pinsOf o.trustId) := by
  cases hkind : o.kind with
  | revisions =>
    have hsame : (s.step order (.unlock o)).pinsOf o.trustId = s.pinsOf o.trustId := by
      rw [LocalStorage.pinsOf, LocalStorage.readJson,
        getItem_step_otherKind (by rw [hkind]; nofun)]
      rfl
    rw [hsame]
    exact refl_of _ _
  | pins =>
    rw [pinsOf_step hkind hstore]
    exact pinsHeld_setAll _ _

/-- Each revision of a record that is folded is held. -/
theorem holdsRevisions_step (hkind : o.kind = .revisions)
    (hstore : o.kind.storeKey o.trustId ∉ s.folded order (.unlock o)) :
    HoldsRevisions s (s.step order (.unlock o)) o.trustId (s.folded order (.unlock o)) := by
  have hheld := revisionsOf_step hkind hstore
  intro key hkey entry hentry
  simp only [LocalStorage.folded, hkind, List.mem_map] at hkey
  obtain ⟨taken, htaken, rfl⟩ := hkey
  rw [← record_taken (legacyKey_ne_index .revisions) htaken] at hentry
  obtain ⟨revision, hrevision, hle⟩ := le_recordAll (s.revisionsOf o.trustId)
    (List.mem_flatMap.mpr ⟨taken, htaken, hentry⟩)
  obtain ⟨revision', hrevision', hle'⟩ := hheld.revisions entry.1 revision hrevision
  exact ⟨revision', hrevision', Nat.le_trans hle hle'⟩

/-- Each user of a record that is folded is pinned exactly when the name is one of its own or was
pinned. -/
theorem holdsPins_step_iff (hkind : o.kind = .pins)
    (hstore : o.kind.storeKey o.trustId ∉ s.folded order (.unlock o)) :
    HoldsPins s (s.step order (.unlock o)) o.trustId (s.folded order (.unlock o)) ↔
      FoldsOwnNames order s o := by
  rw [HoldsPins, pinsOf_step hkind hstore, FoldsOwnNames]
  constructor
  · intro h _ key hkey entry hentry hinherited
    obtain ⟨pin, hpin, _⟩ := h key hkey entry hentry
    have hset := Option.isSome_of_mem hpin
    rcases (isSome_setAll_iff _ _ _).mp hset with hpinned | ⟨hown, _⟩
    · exact hpinned
    · exact absurd hinherited hown
  · intro h key hkey entry hentry
    have hset : (KeyPins.setAll (s.pinsOf o.trustId) ((s.takeLegacyRecords order
        StoredValue.legacyPins? RecordKind.pins.keyPrefix o.trustId o.accountIds).1.map (·.2))
        entry.1).isSome := by
      rw [isSome_setAll_iff]
      by_cases hinherited : entry.1 ∈ objectPrototype
      · exact .inl (h hkind key hkey entry hentry hinherited)
      · simp only [LocalStorage.folded, hkind, List.mem_map] at hkey
        obtain ⟨taken, htaken, rfl⟩ := hkey
        rw [← record_taken (legacyKey_ne_index .pins) htaken] at hentry
        exact .inr ⟨hinherited, taken.2, List.mem_map_of_mem htaken, entry, hentry, rfl⟩
    obtain ⟨pin, hpin⟩ := Option.isSome_iff_exists.mp hset
    refine ⟨pin, hpin, ?_⟩
    rcases setAll_eq_some hpin with hbefore | ⟨record, hrecord, hmem⟩
    · exact .inl hbefore
    · right
      obtain ⟨taken, htaken, rfl⟩ := List.mem_map.mp hrecord
      rw [record_taken (legacyKey_ne_index .pins) htaken] at hmem
      refine ⟨taken.1, ?_, hmem⟩
      simp only [LocalStorage.folded, hkind]
      exact List.mem_map_of_mem htaken

/-- An unlock does only what it may exactly when the pins that it folds are under names of their own
or under pinned ones. -/
theorem foldsOwn_iff (hindex : IndexSays s before)
    (hstore : o.kind.storeKey o.trustId ∉ s.folded order (.unlock o)) :
    FoldsOwn order before s o ↔ FoldsOwnNames order s o := by
  constructor
  · intro h hkind
    have hholds := h.holds
    rw [hkind] at hholds
    exact (holdsPins_step_iff hkind hstore).mp hholds hkind
  · intro h
    constructor
    · intro key hkey
      exact own_of_mem_folded hindex hkey
    · intro key hkey
      obtain ⟨_, id, hid, _⟩ := mem_folded.mp hkey
      have hne : key ≠ trustIndexKey := by
        rw [hid]
        exact legacyKey_ne_index _ _
      have hapart : key ≠ o.kind.storeKey o.trustId := by
        rintro rfl
        exact hstore hkey
      rw [getItem_step_unlock hne hapart, if_pos hkey]
    · exact revisionsHeld_step hstore
    · exact pinsHeld_step hstore
    · cases hkind : o.kind with
      | revisions => exact holdsRevisions_step hkind hstore
      | pins => exact (holdsPins_step_iff hkind hstore).mpr h
    · intro key hne hapart hkey
      rw [getItem_step_unlock hne hapart, if_neg hkey]

/-- The index after an unlock. -/
theorem readJson_index_step :
    (s.step order (.unlock o)).readJson StoredValue.index? trustIndexKey [] =
      (s.noteIds o.trustId o.accountIds).1 := by
  rw [← readJson_noteIds]
  have htaken : ∀ {T : Type} (read : StoredValue → Option (List T)) (kind : RecordKind),
      (s.takeLegacyRecords order read kind.keyPrefix o.trustId o.accountIds).2.getItem
        trustIndexKey = (s.noteIds o.trustId o.accountIds).2.getItem trustIndexKey := by
    intro T read kind
    rw [getItem_taken, if_neg]
    intro hmem
    obtain ⟨_, id, hid, _⟩ := (mem_taken (legacyKey_ne_index kind)).mp hmem
    exact legacyKey_ne_index kind id hid.symm
  have hitem : (s.step order (.unlock o)).getItem trustIndexKey =
      (s.noteIds o.trustId o.accountIds).2.getItem trustIndexKey := by
    rw [LocalStorage.step]
    cases o.kind with
    | revisions =>
      obtain ⟨after, hwritten, _, hafter⟩ := openRevisionStore_written order s o.trustId
        o.accountIds o.marker
      rw [hafter, hwritten.others _ (storeKey_ne_index .revisions _).symm]
      exact htaken _ .revisions
    | pins =>
      simp only [LocalStorage.openKeyPinStore]
      split
      · exact htaken _ .pins
      · rw [LocalStorage.getItem_setItem, if_neg (storeKey_ne_index .pins _).symm]
        exact htaken _ .pins
  rw [LocalStorage.readJson, hitem]
  rfl

end Unlock

/-! ## Runs -/

section Runs

variable {order : KeyOrder} {s : LocalStorage} {events : List BrowserEvent}

/-- A run goes on from where another ended. -/
theorem LocalStorage.run_append (before after : List BrowserEvent) :
    s.run order (before ++ after) = (s.run order before).run order after :=
  List.foldl_append

/-- In a run that there can be, the index says who has recorded what. -/
theorem indexSays_run (h : Possible s events) {before : List BrowserEvent}
    (hbefore : before ⊆ events) : IndexSays (s.run order before) before := by
  induction before using List.reverseRecOn with
  | nil =>
    intro trustId id
    rw [LocalStorage.run, List.foldl_nil, h.unindexed]
    simp [Recorded]
  | append_singleton before e ih =>
    have hindex := ih fun e he => hbefore (List.mem_append_left _ he)
    rw [LocalStorage.run_append]
    cases e with
    | unlock o =>
      intro trustId id
      have hstep := @readJson_index_step order (s.run order before) o
      rw [LocalStorage.run, List.foldl_cons, List.foldl_nil, hstep]
      exact lookup_noteIds hindex o trustId id
    | write key value =>
      intro trustId id
      obtain ⟨hne, _⟩ := h.writes key value (hbefore List.mem_concat_self)
      have hsame : ((s.run order before).setItem key value).readJson StoredValue.index?
          trustIndexKey [] = (s.run order before).readJson StoredValue.index? trustIndexKey [] := by
        rw [LocalStorage.readJson, LocalStorage.getItem_setItem, if_neg (fun heq => hne heq.symm)]
        rfl
      rw [LocalStorage.run, List.foldl_cons, List.foldl_nil, LocalStorage.step, hsame, hindex,
        recorded_concat]
      simp [BrowserEvent.records]

/-- No record of an account is folded. -/
theorem storeKey_not_mem_folded (h : Possible s events) {before after : List BrowserEvent}
    {o : Opening} (hevents : events = before ++ .unlock o :: after) {o' : Opening}
    (ho' : .unlock o' ∈ events) : o.kind.storeKey o'.trustId ∉
      (s.run order before).folded order (.unlock o) := by
  intro hfolded
  have hindex := @indexSays_run order s events h before (by
    rw [hevents]
    exact List.subset_append_left _ _)
  obtain ⟨id, hkey, ⟨e, he, hid⟩, _⟩ := own_of_mem_folded hindex hfolded
  have hmem : e ∈ events := by
    rw [hevents]
    rcases List.mem_append.mp he with hbefore | hlast
    · exact List.mem_append_left _ hbefore
    · rw [List.mem_singleton.mp hlast]
      exact List.mem_append_right _ List.mem_cons_self
  have hsame := legacyKey_inj.mp hkey
  exact h.ids e hmem o.trustId id hid o' ho' hsame.symm

/-- A legacy record that is gone stays away. -/
theorem getItem_run_none (h : Possible s events) {before between after : List BrowserEvent}
    (hevents : events = before ++ (between ++ after)) {kind : RecordKind} {id : String}
    (hid : ∀ o, .unlock o ∈ events → id ≠ "v2:" ++ o.trustId)
    (hgone : (s.run order before).getItem (kind.legacyKey id) = none) :
    (s.run order (before ++ between)).getItem (kind.legacyKey id) = none := by
  induction between using List.reverseRecOn generalizing after with
  | nil =>
    rw [List.append_nil]
    exact hgone
  | append_singleton between e ih =>
    have hbefore := @ih (e :: after) (by rw [hevents, List.append_assoc, List.singleton_append])
    have hmem : e ∈ events := by
      rw [hevents]
      exact List.mem_append_right _ (List.mem_append_left _ List.mem_concat_self)
    rw [← List.append_assoc, LocalStorage.run_append]
    rw [LocalStorage.run, List.foldl_cons, List.foldl_nil]
    cases e with
    | unlock o =>
      have hapart : kind.legacyKey id ≠ o.kind.storeKey o.trustId := by
        by_cases hkind : kind = o.kind
        · rw [hkind, RecordKind.storeKey, Ne, legacyKey_inj]
          exact hid o hmem
        · exact legacyKey_ne hkind _ _
      rw [getItem_step_unlock (legacyKey_ne_index _ _) hapart, hbefore, ite_self]
    | write key value =>
      obtain ⟨_, hlegacy⟩ := h.writes key value hmem
      have hne : kind.legacyKey id ≠ key := by
        intro heq
        obtain ⟨o, ho, hnew⟩ := hlegacy kind id heq.symm
        exact hid o ho hnew
      rw [LocalStorage.step, LocalStorage.getItem_setItem, if_neg hne]
      exact hbefore

/-- No record is taken over twice. -/
theorem not_folded_twice (h : Possible s events) {before between after : List BrowserEvent}
    {e e' : BrowserEvent} (hevents : events = before ++ e :: (between ++ e' :: after))
    {key : String} (hkey : key ∈ (s.run order before).folded order e) :
    key ∉ (s.run order (before ++ e :: between)).folded order e' := by
  intro hagain
  cases e with
  | write key value => cases hkey
  | unlock o =>
    cases e' with
    | write key value => cases hagain
    | unlock o' =>
      have hbefore : before ⊆ events := by
        rw [hevents]
        exact List.subset_append_left _ _
      obtain ⟨id, hid, ⟨e, he, hrecorded⟩, _⟩ := own_of_mem_folded (indexSays_run h hbefore) hkey
      have hmem : e ∈ events := by
        rw [hevents]
        rcases List.mem_append.mp he with hearlier | hlast
        · exact List.mem_append_left _ hearlier
        · rw [List.mem_singleton.mp hlast]
          exact List.mem_append_right _ List.mem_cons_self
      have hapart : key ≠ o.kind.storeKey o.trustId := by
        rintro rfl
        have ho : .unlock o ∈ events := by
          rw [hevents]
          exact List.mem_append_right _ List.mem_cons_self
        exact storeKey_not_mem_folded h hevents ho hkey
      have hgone : (s.run order (before ++ [.unlock o])).getItem key = none := by
        rw [LocalStorage.run_append, LocalStorage.run, List.foldl_cons, List.foldl_nil,
          getItem_step_unlock (by rw [hid]; exact legacyKey_ne_index _ _) hapart, if_pos hkey]
      rw [hid] at hgone hagain
      have hstill := @getItem_run_none order s events h (before ++ [.unlock o]) between
        (.unlock o' :: after) (by rw [hevents, List.append_assoc, List.singleton_append]) o.kind id
        (fun o ho => h.ids e hmem _ id hrecorded o ho) hgone
      rw [List.append_assoc, List.singleton_append] at hstill
      have hthere := (mem_folded.mp hagain).1
      rw [hstill] at hthere
      cases hthere

end Runs

/-- `localStorage` with some items. -/
def LocalStorage.ofList (items : List (String × StoredValue)) : LocalStorage where
  items := .ofList items

/-- A browser that lists keys in the order of their insertion. -/
def KeyOrder.inserted : KeyOrder where
  list := id
  perm := fun _ => .refl _

/-- An account that unlocks with a user id. -/
def unlockPins (trustId userId : String) : Opening where
  trustId := trustId
  accountIds := some { vaultId := none, userId := some userId }
  kind := .pins
  marker := false

/-- There can be one unlock. -/
theorem possible_unlockPins {s : LocalStorage} {trustId userId : String}
    (hunindexed : s.readJson StoredValue.index? trustIndexKey [] = [])
    (hid : userId ≠ "v2:" ++ trustId) : Possible s [.unlock (unlockPins trustId userId)] := by
  constructor
  · exact hunindexed
  · intro e he trustId' id hmem o ho
    obtain rfl := List.mem_singleton.mp he
    have hsame := BrowserEvent.unlock.inj (List.mem_singleton.mp ho)
    have hrecorded : id = userId := by
      rw [BrowserEvent.records] at hmem
      split at hmem
      · obtain ⟨given, hgiven, htruthy⟩ := List.mem_filterMap.mp hmem
        rcases List.mem_pair.mp hgiven with rfl | rfl
        · cases htruthy
        · simp only [truthy] at htruthy
          split at htruthy
          · cases htruthy
          · exact (Option.some.inj htruthy).symm
      · cases hmem
    rw [hrecorded, hsame]
    exact hid
  · intro key value hwrite
    cases List.mem_singleton.mp hwrite

end Nopass
