import Nopass.Client.Envelope
import Nopass.Core.OrderedMap

/-!
# Merging of sync events

Of the events of one batch the most recent one for each item wins, and a deletion that
wins marks the local item. What a batch leaves behind of its events is the mark and the
clock: a later batch does not know what the mark was set for. Batches therefore converge
when the deletions of an item carry one time and the latest of them is not overtaken by
an update, or the item already has the mark.
-/

namespace Nopass

/-- Kinds of sync events. -/
inductive SyncEventType where
  | upsert
  | delete
  deriving DecidableEq, Repr

/-- `SyncEvent`. -/
structure SyncEvent where
  id : String
  userId : String
  deviceId : String
  sequenceNumber : Int
  eventType : SyncEventType
  itemId : String
  encryptedDelta : Option String := none
  deltaIv : Option String := none
  createdAt : String
  deriving DecidableEq

/-- A deletion. -/
def SyncEvent.deletes (e : SyncEvent) : Bool := decide (e.eventType = .delete)

/-- `VectorClock`: the own properties of the object. -/
abbrev VectorClock := OrderedMap String Int

/-- The code units of a string. -/
def utf16 (s : String) : List Nat :=
  s.toList.flatMap fun c =>
    if c.toNat < 0x10000 then [c.toNat]
    else [0xD800 + (c.toNat - 0x10000) / 0x400, 0xDC00 + (c.toNat - 0x10000) % 0x400]

/-- `isMostRecent`. -/
def isMostRecent (a b : SyncEvent) : Bool :=
  if a.sequenceNumber ≠ b.sequenceNumber then decide (b.sequenceNumber < a.sequenceNumber)
  else if a.eventType = .delete ∧ b.eventType ≠ .delete then true
  else if b.eventType = .delete ∧ a.eventType ≠ .delete then false
  else decide (utf16 b.deviceId < utf16 a.deviceId)

/-- `MergeResult`. -/
structure MergeResult where
  items : List EncryptedVaultItem
  newClock : VectorClock

/-- The local items by their ids. -/
def itemMap (items : List EncryptedVaultItem) : OrderedMap String EncryptedVaultItem :=
  .ofList (items.map fun i => (i.id, i))

/-- One turn of the loop that finds the latest event of each item. -/
def keepLatest (latest : OrderedMap String SyncEvent) (e : SyncEvent) :
    OrderedMap String SyncEvent :=
  match latest.get e.itemId with
  | some existing => if isMostRecent e existing then latest.set e.itemId e else latest
  | none => latest.set e.itemId e

/-- The latest event of each item. -/
def latestEvent (events : List SyncEvent) : OrderedMap String SyncEvent :=
  events.foldl keepLatest .empty

/-- One turn of the loop that applies the winning events. -/
def applyWinner (items : OrderedMap String EncryptedVaultItem) (entry : String × SyncEvent) :
    OrderedMap String EncryptedVaultItem :=
  if entry.2.eventType = .delete then
    match items.get entry.1 with
    | some item => items.set entry.1 { item with deletedAt := some entry.2.createdAt }
    | none => items
  else items

/-- What the clock has of a device, `-1` when it has nothing. None when what is there is no
number. -/
def currentSequence (clock : VectorClock) (deviceId : String) : Option Int :=
  match clock.get deviceId with
  | some current => some current
  | none => if deviceId ∈ objectPrototype then none else some (-1)

/-- One turn of the loop that updates the clock. -/
def advance (clock : VectorClock) (e : SyncEvent) : VectorClock :=
  match currentSequence clock e.deviceId with
  | some current =>
    if current < e.sequenceNumber then clock.set e.deviceId e.sequenceNumber else clock
  | none => clock

/-- `applySyncEvents`. -/
def applySyncEvents (items : List EncryptedVaultItem) (events : List SyncEvent)
    (currentClock : VectorClock) : MergeResult where
  items := ((latestEvent events).entries.foldl applyWinner (itemMap items)).values
  newClock := events.foldl advance currentClock

/-- `buildSyncCheckpoints`. -/
def buildSyncCheckpoints (clock : VectorClock) : List (String × Int) := clock.entries

/-- Batches one after the other. -/
def applyBatches (start : MergeResult) (batches : List (List SyncEvent)) : MergeResult :=
  batches.foldl (fun r batch => applySyncEvents r.items batch r.newClock) start

/-! ## One batch -/

section Batch

variable {events : List SyncEvent} {x : String} {e : SyncEvent}

/-- An event `a` is at least as recent as `b`, up to the devices that they come from. -/
def AsRecent (a b : SyncEvent) : Prop :=
  b.sequenceNumber < a.sequenceNumber ∨
    (b.sequenceNumber = a.sequenceNumber ∧ (b.eventType = .delete → a.eventType = .delete))

/-- Recency is transitive. -/
theorem AsRecent.trans {a b c : SyncEvent} (h : AsRecent a b) (h' : AsRecent b c) :
    AsRecent a c := by
  rcases h with hlt | ⟨heq, himp⟩
  · rcases h' with hlt' | ⟨heq', -⟩
    · exact Or.inl (hlt'.trans hlt)
    · exact Or.inl (heq' ▸ hlt)
  · rcases h' with hlt' | ⟨heq', himp'⟩
    · exact Or.inl (heq ▸ hlt')
    · exact Or.inr ⟨heq'.trans heq, fun hc => himp (himp' hc)⟩

/-- An event that takes the place of another is as recent. -/
theorem asRecent_of_isMostRecent {a b : SyncEvent} (h : isMostRecent a b = true) :
    AsRecent a b := by
  unfold isMostRecent at h
  by_cases hne : a.sequenceNumber ≠ b.sequenceNumber
  · rw [if_pos hne] at h
    exact Or.inl (of_decide_eq_true h)
  · rw [if_neg hne] at h
    refine Or.inr ⟨(not_not.mp hne).symm, fun hb => ?_⟩
    by_contra ha
    rw [if_neg (fun hab => hab.2 hb), if_pos ⟨hb, ha⟩] at h
    cases h

/-- An event that does not take the place of another is no more recent. -/
theorem asRecent_of_not_isMostRecent {a b : SyncEvent} (h : isMostRecent a b = false) :
    AsRecent b a := by
  unfold isMostRecent at h
  by_cases hne : a.sequenceNumber ≠ b.sequenceNumber
  · rw [if_pos hne] at h
    have hle := of_decide_eq_false h
    exact Or.inl (by omega)
  · rw [if_neg hne] at h
    refine Or.inr ⟨not_not.mp hne, fun ha => ?_⟩
    by_contra hb
    rw [if_pos ⟨ha, hb⟩] at h
    cases h

/-- What one turn of the loop keeps for an item. -/
theorem get_keepLatest (latest : OrderedMap String SyncEvent) (e : SyncEvent) (x : String) :
    (keepLatest latest e).get x =
      if x = e.itemId ∧ ∀ old ∈ latest.get x, isMostRecent e old = true then some e
      else latest.get x := by
  unfold keepLatest
  by_cases hx : x = e.itemId
  · subst hx
    cases hold : latest.get e.itemId with
    | none => simp
    | some old =>
      cases hrecent : isMostRecent e old with
      | true => simp [hrecent]
      | false => simp [hrecent, hold]
  · cases latest.get e.itemId with
    | none => simp [hx]
    | some old => cases hrecent : isMostRecent e old <;> simp [hx, hrecent]

/-- One more event. -/
theorem latestEvent_append (events : List SyncEvent) (e : SyncEvent) :
    latestEvent (events ++ [e]) = keepLatest (latestEvent events) e := by
  rw [latestEvent, List.foldl_append, List.foldl_cons, List.foldl_nil, latestEvent]

/-- An item has a latest event as soon as it has an event. -/
theorem exists_latestEvent (he : e ∈ events) (hx : e.itemId = x) :
    ∃ w, (latestEvent events).get x = some w := by
  induction events using List.reverseRecOn with
  | nil => cases he
  | append_singleton events last ih =>
    rw [latestEvent_append, get_keepLatest]
    by_cases hlast : x = last.itemId ∧
        ∀ old ∈ (latestEvent events).get x, isMostRecent last old = true
    · exact ⟨last, if_pos hlast⟩
    · rw [if_neg hlast]
      rcases List.mem_append.mp he with he | he
      · exact ih he
      · rw [List.mem_singleton] at he
        subst he
        cases hold : (latestEvent events).get x with
        | some w => exact ⟨w, rfl⟩
        | none =>
          refine (hlast ⟨hx.symm, fun old hold' => ?_⟩).elim
          cases hold.symm.trans hold'

/-- The latest event of an item is one of its events, and as recent as all of them. -/
theorem latestEvent_eq_some (h : (latestEvent events).get x = some e) :
    (e ∈ events ∧ e.itemId = x) ∧ ∀ e' ∈ events, e'.itemId = x → AsRecent e e' := by
  induction events using List.reverseRecOn generalizing e with
  | nil => cases h
  | append_singleton events last ih =>
    rw [latestEvent_append, get_keepLatest] at h
    by_cases hlast : x = last.itemId ∧
        ∀ old ∈ (latestEvent events).get x, isMostRecent last old = true
    · rw [if_pos hlast] at h
      cases h
      refine ⟨⟨List.mem_append_right _ List.mem_cons_self, hlast.1.symm⟩, fun e' he' hx => ?_⟩
      rcases List.mem_append.mp he' with he' | he'
      · obtain ⟨old, hold⟩ := exists_latestEvent he' hx
        exact (asRecent_of_isMostRecent (hlast.2 old hold)).trans ((ih hold).2 e' he' hx)
      · rw [List.mem_singleton] at he'
        rw [he']
        exact Or.inr ⟨rfl, id⟩
    · rw [if_neg hlast] at h
      obtain ⟨⟨he, hex⟩, hall⟩ := ih h
      refine ⟨⟨List.mem_append_left _ he, hex⟩, fun e' he' hx => ?_⟩
      rcases List.mem_append.mp he' with he' | he'
      · exact hall e' he' hx
      · rw [List.mem_singleton] at he'
        subst he'
        cases hrecent : isMostRecent e' e with
        | false => exact asRecent_of_not_isMostRecent hrecent
        | true =>
          refine (hlast ⟨hx.symm, fun old hold => ?_⟩).elim
          rw [h] at hold
          cases hold
          exact hrecent

/-- The mark that an item has after its latest event. -/
def marked (latest : Option SyncEvent) (deletedAt : Option String) : Option String :=
  match latest with
  | some e => if e.eventType = .delete then some e.createdAt else deletedAt
  | none => deletedAt

/-- An item with another mark. -/
def withMark (item : EncryptedVaultItem) (deletedAt : Option String) : EncryptedVaultItem :=
  { item with deletedAt := deletedAt }

/-- What one winning event makes of an item. -/
theorem get_applyWinner (items : OrderedMap String EncryptedVaultItem) (entry : String × SyncEvent)
    (x : String) : (applyWinner items entry).get x = (items.get x).map fun item =>
      if x = entry.1 then withMark item (marked (some entry.2) item.deletedAt) else item := by
  unfold applyWinner marked
  by_cases hdel : entry.2.eventType = .delete
  · simp only [hdel, if_true]
    by_cases hx : x = entry.1
    · subst hx
      cases hitem : items.get entry.1 with
      | none => simp [hitem]
      | some item => simp [withMark]
    · cases hitem : items.get entry.1 with
      | none => simp [hx]
      | some item => simp [hx]
  · simp [hdel, withMark]

/-- Winning events keep the items. -/
theorem keys_applyWinner (items : OrderedMap String EncryptedVaultItem)
    (entry : String × SyncEvent) : (applyWinner items entry).keys = items.keys := by
  unfold applyWinner
  split
  · cases hitem : items.get entry.1 with
    | none => rfl
    | some item => exact OrderedMap.keys_set_of_mem (by rw [hitem]; rfl) _
  · rfl

/-- A mark set to what it is. -/
@[simp] theorem withMark_self (item : EncryptedVaultItem) :
    withMark item item.deletedAt = item := rfl

/-- What winning events of distinct items make of each item. -/
theorem get_foldl_applyWinner {entries : List (String × SyncEvent)}
    (h : (entries.map (·.1)).Nodup) (items : OrderedMap String EncryptedVaultItem) (x : String) :
    (entries.foldl applyWinner items).get x = (items.get x).map fun item =>
      withMark item (marked (OrderedMap.getEntries x entries) item.deletedAt) := by
  induction entries generalizing items with
  | nil => simp [OrderedMap.getEntries, marked]
  | cons entry rest ih =>
    rw [List.map_cons, List.nodup_cons] at h
    rw [List.foldl_cons, ih h.2, get_applyWinner, Option.map_map]
    apply Option.map_congr
    intro item _
    rw [Function.comp_apply, OrderedMap.getEntries]
    by_cases hx : x = entry.1
    · have hrest : OrderedMap.getEntries x rest = none := by
        rw [← Option.not_isSome_iff_eq_none, OrderedMap.isSome_getEntries, hx]
        exact h.1
      rw [if_pos hx, if_pos hx.symm, hrest]
      rfl
    · rw [if_neg hx, if_neg fun he => hx he.symm]

/-- Winning events keep the items. -/
theorem keys_foldl_applyWinner (entries : List (String × SyncEvent))
    (items : OrderedMap String EncryptedVaultItem) :
    (entries.foldl applyWinner items).keys = items.keys := by
  induction entries generalizing items with
  | nil => rfl
  | cons entry rest ih => rw [List.foldl_cons, ih, keys_applyWinner]

end Batch

/-! ## Batches in sequence -/

section Batches

variable {items : List EncryptedVaultItem} {m : OrderedMap String EncryptedVaultItem}
  {events batch : List SyncEvent} {batches : List (List SyncEvent)} {clock : VectorClock}
  {start : MergeResult} {x : String}

/-- What a batch makes of the items. -/
def applyMap (m : OrderedMap String EncryptedVaultItem) (batch : List SyncEvent) :
    OrderedMap String EncryptedVaultItem :=
  (latestEvent batch).entries.foldl applyWinner m

@[simp] theorem keys_applyMap (m : OrderedMap String EncryptedVaultItem) (batch : List SyncEvent) :
    (applyMap m batch).keys = m.keys :=
  keys_foldl_applyWinner _ _

/-- What a batch makes of each item. -/
@[simp] theorem get_applyMap (m : OrderedMap String EncryptedVaultItem) (batch : List SyncEvent)
    (x : String) : (applyMap m batch).get x = (m.get x).map fun item =>
      withMark item (marked ((latestEvent batch).get x) item.deletedAt) :=
  get_foldl_applyWinner (latestEvent batch).nodup m x

/-- Items are kept under their ids. -/
def Keyed (m : OrderedMap String EncryptedVaultItem) : Prop :=
  ∀ x, ∀ item ∈ m.get x, item.id = x

/-- The local items are. -/
theorem keyed_itemMap (items : List EncryptedVaultItem) : Keyed (itemMap items) := by
  induction items using List.reverseRecOn with
  | nil => exact nofun
  | append_singleton items last ih =>
    intro x item hitem
    rw [itemMap, OrderedMap.ofList, List.map_append, List.foldl_append] at hitem
    change ((itemMap items).set last.id last).get x = some item at hitem
    rw [OrderedMap.get_set] at hitem
    split at hitem
    · rename_i hx
      cases hitem
      exact hx.symm
    · exact ih x item hitem

/-- They are after a batch. -/
theorem Keyed.applyMap (h : Keyed m) (batch : List SyncEvent) : Keyed (applyMap m batch) := by
  intro x item hitem
  rw [get_applyMap] at hitem
  obtain ⟨old, hold, rfl⟩ := Option.map_eq_some_iff.mp hitem
  exact h x old hold

/-- Items that are kept under their ids are found again in their list. -/
theorem Keyed.itemMap_values (h : Keyed m) : itemMap m.values = m := by
  have hentries : m.values.map (fun i => (i.id, i)) = m.entries := by
    rw [OrderedMap.values, List.map_map]
    refine (List.map_congr_left fun e he => ?_).trans (List.map_id _)
    have hid : e.2.id = e.1 := h e.1 e.2 (OrderedMap.mem_entries.mp he)
    rw [Function.comp_apply, hid]
    rfl
  apply OrderedMap.eq_of_entries
  rw [itemMap, hentries, OrderedMap.entries_ofList m.nodup]

/-- The items after a batch. -/
theorem itemMap_applySyncEvents (items : List EncryptedVaultItem) (batch : List SyncEvent)
    (clock : VectorClock) :
    itemMap (applySyncEvents items batch clock).items = applyMap (itemMap items) batch :=
  ((keyed_itemMap items).applyMap batch).itemMap_values

/-- The items after batches. -/
theorem itemMap_applyBatches (start : MergeResult) (batches : List (List SyncEvent)) :
    itemMap (applyBatches start batches).items =
      batches.foldl applyMap (itemMap start.items) := by
  induction batches generalizing start with
  | nil => rfl
  | cons batch rest ih =>
    rw [applyBatches, List.foldl_cons, List.foldl_cons]
    change itemMap (applyBatches (applySyncEvents start.items batch start.newClock) rest).items = _
    rw [ih, itemMap_applySyncEvents]

/-- The clock after batches is the clock after their events. -/
theorem newClock_applyBatches (start : MergeResult) (batches : List (List SyncEvent)) :
    (applyBatches start batches).newClock = batches.flatten.foldl advance start.newClock := by
  induction batches generalizing start with
  | nil => rfl
  | cons batch rest ih =>
    rw [applyBatches, List.foldl_cons, List.flatten_cons, List.foldl_append]
    exact ih _

/-- After a batch the list of items is that of the map. -/
theorem items_applyBatches (start : MergeResult) (h : batches ≠ []) :
    (applyBatches start batches).items = (batches.foldl applyMap (itemMap start.items)).values := by
  rw [← itemMap_applyBatches]
  obtain ⟨before, batch, rfl⟩ := (List.eq_nil_or_concat batches).resolve_left h
  rw [List.concat_eq_append, applyBatches, List.foldl_append, List.foldl_cons, List.foldl_nil]
  rw [itemMap_applySyncEvents]
  rfl

/-- The mark of an item after batches. -/
def marks (x : String) (batches : List (List SyncEvent)) (deletedAt : Option String) :
    Option String :=
  batches.foldl (fun d batch => marked ((latestEvent batch).get x) d) deletedAt

/-- What batches make of each item. -/
theorem get_foldl_applyMap (m : OrderedMap String EncryptedVaultItem)
    (batches : List (List SyncEvent)) (x : String) :
    (batches.foldl applyMap m).get x =
      (m.get x).map fun item => withMark item (marks x batches item.deletedAt) := by
  induction batches generalizing m with
  | nil => simp [marks]
  | cons batch rest ih =>
    rw [List.foldl_cons, ih, get_applyMap, Option.map_map]
    rfl

/-- Batches keep the items. -/
theorem keys_foldl_applyMap (m : OrderedMap String EncryptedVaultItem)
    (batches : List (List SyncEvent)) : (batches.foldl applyMap m).keys = m.keys := by
  induction batches generalizing m with
  | nil => rfl
  | cons batch rest ih => rw [List.foldl_cons, ih, keys_applyMap]

/-- Two sequences of batches end with the same items exactly when they end with the same marks. -/
theorem items_eq_iff {batches' : List (List SyncEvent)} (h : batches ≠ []) (h' : batches' ≠ []) :
    (applyBatches start batches).items = (applyBatches start batches').items ↔
      ∀ x, ∀ item ∈ (itemMap start.items).get x,
        marks x batches item.deletedAt = marks x batches' item.deletedAt := by
  constructor
  · intro heq x item hitem
    have hmap := congrArg (fun items => (itemMap items).get x) heq
    simp only [itemMap_applyBatches, get_foldl_applyMap] at hmap
    rw [Option.mem_def.mp hitem] at hmap
    exact congrArg (·.deletedAt) (Option.some.inj hmap)
  · intro hmarks
    rw [items_applyBatches start h, items_applyBatches start h']
    congr 1
    apply OrderedMap.ext
    · rw [keys_foldl_applyMap, keys_foldl_applyMap]
    · intro x
      rw [get_foldl_applyMap, get_foldl_applyMap]
      refine Option.map_congr fun item hitem => ?_
      rw [hmarks x item hitem]

/-- Applying a batch again changes no mark. -/
theorem marks_again (x : String) (before after : List (List SyncEvent)) (batch : List SyncEvent)
    (d : Option String) : marks x (before ++ batch :: batch :: after) d =
      marks x (before ++ batch :: after) d := by
  simp only [marks, List.foldl_append, List.foldl_cons]
  congr 1
  unfold marked
  cases (latestEvent batch).get x with
  | none => rfl
  | some e =>
    dsimp only
    split
    · rfl
    · rfl

end Batches

/-! ## The clock -/

section Clock

variable {clock : VectorClock} {events : List SyncEvent} {device : String}

/-- What one event of a device makes of the device's entry. -/
def advanced (device : String) (current : Option Int) (sequenceNumber : Int) : Option Int :=
  match current with
  | some n => some (max n sequenceNumber)
  | none => if device ∈ objectPrototype then none
    else if 0 ≤ sequenceNumber then some sequenceNumber else none

/-- What one event makes of an entry of the clock. -/
theorem get_advance (clock : VectorClock) (e : SyncEvent) (device : String) :
    (advance clock e).get device = if device = e.deviceId
      then advanced device (clock.get device) e.sequenceNumber else clock.get device := by
  unfold advance currentSequence advanced
  by_cases hd : device = e.deviceId
  · subst hd
    rw [if_pos rfl]
    cases hown : clock.get e.deviceId with
    | some n =>
      dsimp only
      by_cases hlt : n < e.sequenceNumber
      · rw [if_pos hlt, OrderedMap.get_set, if_pos rfl, max_eq_right hlt.le]
      · rw [if_neg hlt, hown, max_eq_left (not_lt.mp hlt)]
    | none =>
      by_cases hp : e.deviceId ∈ objectPrototype
      · simp [hp, hown]
      · simp only [hp, if_false]
        by_cases hs : 0 ≤ e.sequenceNumber
        · have hlt : -1 < e.sequenceNumber := by omega
          rw [if_pos hs, if_pos hlt, OrderedMap.get_set, if_pos rfl]
        · have hlt : ¬ -1 < e.sequenceNumber := by omega
          rw [if_neg hs, if_neg hlt, hown]
  · rw [if_neg hd]
    split
    · split
      · rw [OrderedMap.get_set, if_neg hd]
      · rfl
    · rfl

/-- The sequence numbers that a device's events have. -/
def sequencesOf (device : String) (events : List SyncEvent) : List Int :=
  (events.filter fun e => e.deviceId = device).map (·.sequenceNumber)

/-- The entry of a device after events depends on its own events. -/
theorem get_foldl_advance (clock : VectorClock) (events : List SyncEvent) (device : String) :
    (events.foldl advance clock).get device =
      (sequencesOf device events).foldl (advanced device) (clock.get device) := by
  induction events generalizing clock with
  | nil => rfl
  | cons e rest ih =>
    rw [List.foldl_cons, ih, get_advance, sequencesOf, sequencesOf, List.filter_cons]
    by_cases hd : device = e.deviceId
    · rw [if_pos hd, if_pos (decide_eq_true hd.symm), List.map_cons, List.foldl_cons]
    · rw [if_neg hd, if_neg (by simpa using fun h => hd (Eq.symm h))]

/-- Two events of a device may come in either order. -/
theorem advanced_comm (device : String) (current : Option Int) (a b : Int) :
    advanced device (advanced device current a) b =
      advanced device (advanced device current b) a := by
  unfold advanced
  cases current with
  | some n => simp [max_right_comm]
  | none =>
    by_cases hp : device ∈ objectPrototype
    · simp [hp]
    · by_cases ha : 0 ≤ a
      · by_cases hb : 0 ≤ b
        · simp [hp, ha, hb, max_comm]
        · simp [hp, ha, hb]
          omega
      · by_cases hb : 0 ≤ b
        · simp [hp, ha, hb]
          omega
        · simp [hp, ha, hb]

/-- The clock does not depend on the order of the events. -/
theorem get_foldl_advance_of_perm {events' : List SyncEvent} (h : events.Perm events')
    (clock : VectorClock) (device : String) :
    (events.foldl advance clock).get device = (events'.foldl advance clock).get device := by
  rw [get_foldl_advance, get_foldl_advance]
  exact ((h.filter _).map _).foldl_eq' (fun a _ b _ c => advanced_comm device c a b) _

/-- An event that comes again changes nothing. -/
theorem advanced_again (device : String) (current : Option Int) (a : Int) :
    advanced device (advanced device current a) a = advanced device current a := by
  unfold advanced
  cases current with
  | some n => simp
  | none =>
    by_cases hp : device ∈ objectPrototype
    · simp [hp]
    · by_cases ha : 0 ≤ a
      · simp [hp, ha]
      · simp [hp, ha]

/-- An event may as well come before the others. -/
theorem advanced_foldl (device : String) (current : Option Int) (seqs : List Int) (a : Int) :
    advanced device (seqs.foldl (advanced device) current) a =
      seqs.foldl (advanced device) (advanced device current a) := by
  induction seqs generalizing current with
  | nil => rfl
  | cons b rest ih => rw [List.foldl_cons, List.foldl_cons, ih, advanced_comm]

/-- Events that come again change nothing. -/
theorem foldl_advanced_again (device : String) (current : Option Int) (seqs : List Int) :
    seqs.foldl (advanced device) (seqs.foldl (advanced device) current) =
      seqs.foldl (advanced device) current := by
  induction seqs generalizing current with
  | nil => rfl
  | cons a rest ih =>
    rw [List.foldl_cons, List.foldl_cons, advanced_foldl, advanced_again, ih]

/-- Numbers below a bound play no part in a maximum above it. -/
theorem foldl_max_filter {n : Int} (h : 0 ≤ n) (seqs : List Int) :
    seqs.foldl max n = (seqs.filter fun a => 0 ≤ a).foldl max n := by
  induction seqs generalizing n with
  | nil => rfl
  | cons a rest ih =>
    rw [List.foldl_cons, List.filter_cons]
    by_cases ha : 0 ≤ a
    · rw [if_pos (decide_eq_true ha), List.foldl_cons]
      exact ih (le_max_of_le_left h)
    · have hle : a ≤ n := by omega
      rw [if_neg (by simpa using ha), max_eq_left hle]
      exact ih h

/-- The entry that a device gets: the largest number, when there was an entry. -/
theorem foldl_advanced_some (device : String) (n : Int) (seqs : List Int) :
    seqs.foldl (advanced device) (some n) = (n :: seqs).max? := by
  rw [List.max?_cons']
  induction seqs generalizing n with
  | nil => rfl
  | cons a rest ih => exact ih (max n a)

/-- The entry that a device gets: the largest number that is not negative, when there was none. -/
theorem foldl_advanced_none (hp : device ∉ objectPrototype) (seqs : List Int) :
    seqs.foldl (advanced device) none = (seqs.filter fun a => 0 ≤ a).max? := by
  induction seqs with
  | nil => rfl
  | cons a rest ih =>
    rw [List.foldl_cons, List.filter_cons]
    by_cases ha : 0 ≤ a
    · have hfirst : advanced device none a = some a := by simp [advanced, hp, ha]
      rw [hfirst, if_pos (decide_eq_true ha), foldl_advanced_some, List.max?_cons',
        List.max?_cons', foldl_max_filter ha]
    · have hfirst : advanced device none a = none := by simp [advanced, hp, ha]
      rw [hfirst, if_neg (by simpa using ha), ih]

/-- A property that every object has is never counted. -/
theorem foldl_advanced_inherited (hp : device ∈ objectPrototype) (seqs : List Int) :
    seqs.foldl (advanced device) none = none := by
  induction seqs with
  | nil => rfl
  | cons a rest ih =>
    have hfirst : advanced device none a = none := by simp [advanced, hp]
    rw [List.foldl_cons, hfirst, ih]

/-- When the entry that a device gets is the largest of the old one and its numbers. -/
theorem foldl_advanced_eq_max_iff (device : String) (current : Option Int) (seqs : List Int) :
    seqs.foldl (advanced device) current = (current.toList ++ seqs).max? ↔
      (seqs ≠ [] → current ≠ none ∨ (device ∉ objectPrototype ∧ ∃ a ∈ seqs, 0 ≤ a)) := by
  cases current with
  | some n => simp [foldl_advanced_some]
  | none =>
    rw [Option.toList_none, List.nil_append]
    have hsome : seqs ≠ [] → seqs.max? ≠ none := by
      intro hne hnone
      exact hne (List.max?_eq_none_iff.mp hnone)
    by_cases hp : device ∈ objectPrototype
    · rw [foldl_advanced_inherited hp]
      constructor
      · intro heq hne
        exact (hsome hne heq.symm).elim
      · intro h
        by_contra hne
        have hseqs : seqs ≠ [] := by
          rintro rfl
          exact hne rfl
        rcases h hseqs with hcur | hnot
        · exact hcur rfl
        · exact hnot.1 hp
    · rw [foldl_advanced_none hp]
      constructor
      · intro heq hne
        right
        refine ⟨hp, ?_⟩
        obtain ⟨a, ha⟩ := Option.ne_none_iff_exists'.mp (hsome hne)
        rw [ha] at heq
        have hmem := (List.max?_eq_some_iff.mp heq).1
        rw [List.mem_filter, decide_eq_true_eq] at hmem
        exact ⟨a, hmem⟩
      · intro h
        by_cases hne : seqs = []
        · rw [hne]
          rfl
        · obtain ⟨-, a, ha, hpos⟩ := (h hne).resolve_left (fun hcur => hcur rfl)
          obtain ⟨b, hb⟩ := Option.ne_none_iff_exists'.mp (hsome hne)
          rw [hb, List.max?_eq_some_iff]
          obtain ⟨hmem, hmax⟩ := List.max?_eq_some_iff.mp hb
          have hab : a ≤ b := hmax a ha
          refine ⟨List.mem_filter.mpr ⟨hmem, decide_eq_true (hpos.trans hab)⟩, fun c hc => ?_⟩
          exact hmax c (List.mem_filter.mp hc).1

end Clock

/-! ## Convergence -/

section Convergence

variable (items : List EncryptedVaultItem) (events : List SyncEvent) (clock : VectorClock)

/-- The local items and clock. -/
def localState : MergeResult := { items := items, newClock := clock }

/-- Results that hold the same. -/
structure SameResult (r r' : MergeResult) : Prop where
  items : r.items = r'.items
  clock : ∀ device, r.newClock.get device = r'.newClock.get device

/-- Batches that are the events in some order. -/
structure Splits (batches : List (List SyncEvent)) : Prop where
  nonempty : batches ≠ []
  perm : batches.flatten.Perm events

/-- Events converge: order and batches play no part, a batch that comes again changes nothing, and
the clock ends at the largest numbers. -/
structure Converges : Prop where
  sameResult : ∀ batches, Splits events batches →
    SameResult (applyBatches (localState items clock) batches) (applySyncEvents items events clock)
  again : ∀ before batch after, Splits events (before ++ batch :: after) →
    SameResult (applyBatches (localState items clock) (before ++ batch :: batch :: after))
      (applyBatches (localState items clock) (before ++ batch :: after))
  largest : ∀ device, (applySyncEvents items events clock).newClock.get device =
    ((clock.get device).toList ++ sequencesOf device events).max?

/-- The deletions of each local item carry one time, and one of them is no older than any other
event of the item, or the item has that mark already. -/
def DeletionsAgree : Prop :=
  ∀ x, ∀ item ∈ (itemMap items).get x,
    (∃ e ∈ events, e.itemId = x ∧ e.eventType = .delete) →
    ∃ time, (∀ e ∈ events, e.itemId = x → e.eventType = .delete → e.createdAt = time) ∧
      (item.deletedAt = some time ∨ ∃ e ∈ events, e.itemId = x ∧ e.eventType = .delete ∧
        ∀ e' ∈ events, e'.itemId = x → e'.sequenceNumber ≤ e.sequenceNumber)

/-- Each device is in the clock, or has a number that is not negative and a name of its own. -/
def DevicesCount : Prop :=
  ∀ e ∈ events, clock.get e.deviceId ≠ none ∨ (e.deviceId ∉ objectPrototype ∧
    ∃ e' ∈ events, e'.deviceId = e.deviceId ∧ 0 ≤ e'.sequenceNumber)

variable {items events clock}

/-- One batch is a sequence of batches. -/
theorem splits_single (events : List SyncEvent) : Splits events [events] :=
  ⟨List.cons_ne_nil _ _, by simp⟩

/-- The mark after a batch is one of the deletions' times, or what it was. -/
theorem marked_cases (batch : List SyncEvent) (x : String) (d : Option String) :
    marked ((latestEvent batch).get x) d = d ∨ ∃ e ∈ batch, e.itemId = x ∧
      e.eventType = .delete ∧ marked ((latestEvent batch).get x) d = some e.createdAt := by
  cases hw : (latestEvent batch).get x with
  | none => exact Or.inl rfl
  | some e =>
    by_cases hdel : e.eventType = .delete
    · right
      obtain ⟨⟨he, hx⟩, -⟩ := latestEvent_eq_some hw
      exact ⟨e, he, hx, hdel, if_pos hdel⟩
    · left
      exact if_neg hdel

/-- Deletions of one time leave that time once it is there. -/
theorem marks_of_marked {x time : String} {batches : List (List SyncEvent)}
    (h : ∀ batch ∈ batches, ∀ e ∈ batch, e.itemId = x → e.eventType = .delete →
      e.createdAt = time) : marks x batches (some time) = some time := by
  induction batches with
  | nil => rfl
  | cons batch rest ih =>
    rw [marks, List.foldl_cons]
    have hfirst : marked ((latestEvent batch).get x) (some time) = some time := by
      rcases marked_cases batch x (some time) with hsame | ⟨e, he, hx, hdel, hm⟩
      · exact hsame
      · rw [hm, h batch List.mem_cons_self e he hx hdel]
    rw [hfirst]
    exact ih fun b hb => h b (List.mem_cons_of_mem _ hb)

/-- A deletion that no event overtakes leaves its time. -/
theorem marks_of_newest {x time : String} {batches : List (List SyncEvent)} {e : SyncEvent}
    (h : ∀ batch ∈ batches, ∀ e ∈ batch, e.itemId = x → e.eventType = .delete →
      e.createdAt = time)
    (hnewest : ∀ batch ∈ batches, ∀ e' ∈ batch, e'.itemId = x →
      e'.sequenceNumber ≤ e.sequenceNumber)
    (hx : e.itemId = x) (hdel : e.eventType = .delete) (he : ∃ batch ∈ batches, e ∈ batch)
    (d : Option String) : marks x batches d = some time := by
  obtain ⟨batch, hbatch, he⟩ := he
  obtain ⟨before, after, rfl⟩ := List.append_of_mem hbatch
  rw [marks, List.foldl_append, List.foldl_cons]
  obtain ⟨w, hw⟩ := exists_latestEvent he hx
  obtain ⟨⟨hwb, hwx⟩, hall⟩ := latestEvent_eq_some hw
  have hwdel : w.eventType = .delete := by
    rcases hall e he hx with hlt | ⟨-, himp⟩
    · have hle := hnewest batch hbatch w hwb hwx
      omega
    · exact himp hdel
  have hmark : ∀ d, marked ((latestEvent batch).get x) d = some time := by
    intro d
    rw [hw, marked, if_pos hwdel, h batch hbatch w hwb hwx hwdel]
  rw [hmark]
  exact marks_of_marked fun b hb => h b (List.mem_append_right _ (List.mem_cons_of_mem _ hb))

/-- Batches of one event each, with a deletion last, leave its time. -/
theorem marks_last {x : String} {e : SyncEvent} (hx : e.itemId = x)
    (hdel : e.eventType = .delete) (batches : List (List SyncEvent)) (d : Option String) :
    marks x (batches ++ [[e]]) d = some e.createdAt := by
  rw [marks, List.foldl_append, List.foldl_cons, List.foldl_nil]
  have hw : (latestEvent [e]).get x = some e := by
    change (OrderedMap.set .empty e.itemId e).get x = some e
    rw [OrderedMap.get_set, if_pos hx.symm]
  rw [hw, marked, if_pos hdel]

/-- Any order and any batches leave the same marks exactly when deletions agree. -/
theorem marks_eq_iff : (∀ batches, Splits events batches → ∀ x, ∀ item ∈ (itemMap items).get x,
      marks x batches item.deletedAt = marks x [events] item.deletedAt) ↔
    DeletionsAgree items events := by
  constructor
  · rintro h x item hitem ⟨e₀, he₀, hx₀, hdel₀⟩
    -- each deletion may come last, on its own
    have hlast : ∀ e ∈ events, e.itemId = x → e.eventType = .delete →
        marks x [events] item.deletedAt = some e.createdAt := by
      intro e he hx hdel
      obtain ⟨before, after, rfl⟩ := List.append_of_mem he
      have hsplits : Splits (before ++ e :: after) ([before ++ after] ++ [[e]]) := by
        refine ⟨by simp, ?_⟩
        simpa using (List.perm_append_singleton e after).append_left before
      rw [← h _ hsplits x item hitem, marks_last hx hdel]
    refine ⟨e₀.createdAt, fun e he hx hdel => ?_, ?_⟩
    · exact Option.some.inj ((hlast e he hx hdel).symm.trans (hlast e₀ he₀ hx₀ hdel₀))
    · have hmark := hlast e₀ he₀ hx₀ hdel₀
      change marked ((latestEvent events).get x) item.deletedAt = some e₀.createdAt at hmark
      obtain ⟨w, hw⟩ := exists_latestEvent he₀ hx₀
      obtain ⟨⟨hwe, hwx⟩, hall⟩ := latestEvent_eq_some hw
      rw [hw, marked] at hmark
      by_cases hwdel : w.eventType = .delete
      · right
        refine ⟨w, hwe, hwx, hwdel, fun e' he' hx' => ?_⟩
        rcases hall e' he' hx' with hlt | ⟨heq, -⟩
        · exact hlt.le
        · exact heq.le
      · left
        rwa [if_neg hwdel] at hmark
  · intro h batches hsplits x item hitem
    by_cases hdels : ∃ e ∈ events, e.itemId = x ∧ e.eventType = .delete
    · obtain ⟨time, htime, hkept⟩ := h x item hitem hdels
      -- what holds of the events holds of them in batches
      have hmem : ∀ {bs : List (List SyncEvent)}, Splits events bs → ∀ b ∈ bs, ∀ e ∈ b,
          e ∈ events := by
        intro bs hbs b hb e he
        exact hbs.perm.subset (List.mem_flatten.mpr ⟨b, hb, he⟩)
      have hresult : ∀ bs, Splits events bs → marks x bs item.deletedAt = some time := by
        intro bs hbs
        rcases hkept with hmark | ⟨e, he, hx, hdel, hnewest⟩
        · rw [hmark]
          exact marks_of_marked fun b hb e he => htime e (hmem hbs b hb e he)
        · refine marks_of_newest (fun b hb e he => htime e (hmem hbs b hb e he))
            (fun b hb e' he' => hnewest e' (hmem hbs b hb e' he')) hx hdel ?_ _
          exact List.mem_flatten.mp (hbs.perm.symm.subset he)
      rw [hresult batches hsplits, hresult [events] (splits_single events)]
    · have hkeep : ∀ bs, Splits events bs → ∀ d, marks x bs d = d := by
        intro bs hbs d
        have hbatch : ∀ b ∈ bs, ∀ e ∈ b, e.itemId = x → e.eventType ≠ .delete := by
          intro b hb e he hx hdel
          exact hdels ⟨e, hbs.perm.subset (List.mem_flatten.mpr ⟨b, hb, he⟩), hx, hdel⟩
        clear hbs
        induction bs generalizing d with
        | nil => rfl
        | cons b rest ih =>
          rw [marks, List.foldl_cons]
          have hfirst : marked ((latestEvent b).get x) d = d := by
            rcases marked_cases b x d with hsame | ⟨e, he, hx, hdel, -⟩
            · exact hsame
            · exact (hbatch b List.mem_cons_self e he hx hdel).elim
          rw [hfirst]
          exact ih d fun b' hb' => hbatch b' (List.mem_cons_of_mem _ hb')
      rw [hkeep batches hsplits, hkeep [events] (splits_single events)]

/-- Events converge exactly when the deletions of each item agree and the devices count. -/
theorem converges_iff :
    Converges items events clock ↔ DeletionsAgree items events ∧ DevicesCount events clock := by
  have hone : applySyncEvents items events clock =
      applyBatches (localState items clock) [events] := rfl
  have hlargest : (∀ device, (applySyncEvents items events clock).newClock.get device =
      ((clock.get device).toList ++ sequencesOf device events).max?) ↔
        DevicesCount events clock := by
    change (∀ device, (events.foldl advance clock).get device = _) ↔ _
    simp only [get_foldl_advance, foldl_advanced_eq_max_iff]
    have hmem : ∀ device a, a ∈ sequencesOf device events ↔
        ∃ e ∈ events, e.deviceId = device ∧ e.sequenceNumber = a := by
      intro device a
      simp [sequencesOf, and_assoc]
    constructor
    · intro h e he
      have hne : sequencesOf e.deviceId events ≠ [] :=
        List.ne_nil_of_mem ((hmem _ _).mpr ⟨e, he, rfl, rfl⟩)
      refine (h e.deviceId hne).imp_right fun hlargest => ?_
      obtain ⟨hp, a, ha, hpos⟩ := hlargest
      obtain ⟨e', he', hdev, rfl⟩ := (hmem _ _).mp ha
      exact ⟨hp, e', he', hdev, hpos⟩
    · intro h device hne
      obtain ⟨a, ha⟩ := List.exists_mem_of_ne_nil _ hne
      obtain ⟨e, he, rfl, -⟩ := (hmem _ _).mp ha
      refine (h e he).imp_right fun hlargest => ?_
      obtain ⟨hp, e', he', hdev, hpos⟩ := hlargest
      exact ⟨hp, e'.sequenceNumber, (hmem _ _).mpr ⟨e', he', hdev, rfl⟩, hpos⟩
  constructor
  · intro h
    refine ⟨marks_eq_iff.mp fun batches hsplits x item hitem => ?_, hlargest.mp h.largest⟩
    have hitems := (h.sameResult batches hsplits).items
    rw [hone] at hitems
    exact (items_eq_iff hsplits.nonempty (List.cons_ne_nil _ _)).mp hitems x item hitem
  · rintro ⟨hdel, hcount⟩
    refine ⟨fun batches hsplits => ⟨?_, fun device => ?_⟩,
      fun before batch after hsplits => ⟨?_, fun device => ?_⟩, hlargest.mpr hcount⟩
    · rw [hone]
      refine (items_eq_iff hsplits.nonempty (List.cons_ne_nil _ _)).mpr fun x item hitem => ?_
      exact marks_eq_iff.mpr hdel batches hsplits x item hitem
    · rw [newClock_applyBatches]
      exact get_foldl_advance_of_perm hsplits.perm clock device
    · refine (items_eq_iff (by simp) (by simp)).mpr fun x item _ => ?_
      exact marks_again x before after batch item.deletedAt
    · rw [newClock_applyBatches, newClock_applyBatches]
      simp only [List.flatten_append, List.flatten_cons, List.foldl_append, get_foldl_advance,
        foldl_advanced_again]

/-- One item. -/
private def note (id : String) : EncryptedVaultItem :=
  { blob := "", blobIv := "", blobMac := "", id := id, vaultId := "", itemType := "note" }

/-- A deletion, and then an edit by another device. -/
private def deletedThenEdited : List SyncEvent :=
  [{ id := "1", userId := "u", deviceId := "a", sequenceNumber := 1, eventType := .delete
     itemId := "x", createdAt := "t" },
   { id := "2", userId := "u", deviceId := "b", sequenceNumber := 2, eventType := .upsert
     itemId := "x", createdAt := "t'" }]

/-- In one batch the edit wins and the item stays; in two, the deletion marks it. -/
theorem not_converges_of_overtaken :
    (deletedThenEdited.Pairwise fun e e' =>
      (e.deviceId, e.sequenceNumber) ≠ (e'.deviceId, e'.sequenceNumber)) ∧
    (applySyncEvents [note "x"] deletedThenEdited .empty).items.map (·.deletedAt) = [none] ∧
    (applyBatches (localState [note "x"] .empty) (deletedThenEdited.map fun e => [e])).items.map
      (·.deletedAt) = [some "t"] ∧
    ¬ Converges [note "x"] deletedThenEdited .empty := by
  have hone : (applySyncEvents [note "x"] deletedThenEdited .empty).items.map (·.deletedAt) =
      [none] := by decide
  have htwo : (applyBatches (localState [note "x"] .empty)
      (deletedThenEdited.map fun e => [e])).items.map (·.deletedAt) = [some "t"] := by
    decide
  refine ⟨by decide, hone, htwo, fun h => ?_⟩
  have hsplits : Splits deletedThenEdited (deletedThenEdited.map fun e => [e]) :=
    ⟨List.cons_ne_nil _ _, .refl _⟩
  have hsame := congrArg (List.map (·.deletedAt)) (h.sameResult _ hsplits).items
  rw [hone, htwo] at hsame
  cases hsame

end Convergence

end Nopass
