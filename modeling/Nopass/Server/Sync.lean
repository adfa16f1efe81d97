import Mathlib.Data.List.Dedup
import Mathlib.Data.List.Sort
import Nopass.Client.SyncEngine
import Nopass.Core.Sql.AppendOnly
import Nopass.Core.Sql.Reading
import Nopass.Core.Text.Base64
import Nopass.Server.Schema

/-!
# The log of sync events

A push inserts the events of one request in a transaction; an event gives way to a stored
one with its id, or with its device and sequence number. A pull has no transaction: it
reads the events after each checkpoint, those of the other devices and last the clock,
each from the database as it then stands.
-/

namespace Nopass

open ReadCommitted

/-- An event on the wire, as the server decodes it. -/
structure ModelSyncEvent where
  id : Uuid
  userId : Uuid
  deviceId : Uuid
  sequenceNumber : Int
  eventType : SyncEventType
  itemId : Uuid
  encryptedDelta : Option String := none
  deltaIv : Option String := none
  createdAt : Nat := 0
  deriving DecidableEq

/-- A row of `sync_events`. -/
structure DbSyncEvent where
  id : Uuid
  userId : Uuid
  deviceId : Uuid
  sequenceNumber : Int
  eventType : String
  itemId : Uuid
  encryptedDelta : Option Bytes := none
  deltaIv : Option Bytes := none
  createdAt : Nat := 0
  deriving DecidableEq

/-- `SyncCheckpoint`. -/
structure SyncCheckpoint where
  deviceId : Uuid
  lastSyncedSequence : Int
  deriving DecidableEq

/-- `SyncResponse`. -/
structure SyncResponse where
  events : List ModelSyncEvent
  serverClock : VectorClock

/-- What the sync routes answer. -/
inductive SyncAnswer where
  | accepted (count : Nat)
  | pulled (response : SyncResponse)

/-- The tables that the sync routes use. -/
structure SyncDb where
  devices : List Device := []
  syncEvents : List DbSyncEvent := []
  deriving DecidableEq

/-- Names of rows and of entries of unique indexes. -/
inductive SyncRow where
  | device (id : Uuid)
  | event (id : Uuid)
  | sequence (deviceId : Uuid) (sequenceNumber : Int)
  deriving DecidableEq

/-- A request; a commit is labelled with the rows of its push. -/
abbrev SyncRequest (O : Type) := Prog SyncDb SyncRow (List DbSyncEvent) ApiError O

/-- `sync_events`, with its primary key and `UNIQUE(device_id, sequence_number)`. -/
def syncEventsTable : LogTable SyncDb SyncRow DbSyncEvent where
  get d := d.syncEvents
  set rows d := { d with syncEvents := rows }
  key e := .event e.id
  unique e := [.event e.id, .sequence e.deviceId e.sequenceNumber]
  key_mem _ := List.mem_cons_self

/-- The device that an event names. -/
def deviceOf (e : DbSyncEvent) : List (Ref SyncDb SyncRow) :=
  [{ row := .device e.deviceId, live := fun d => d.devices.any fun r => decide (r.id = e.deviceId) }]

/-! ## Pushing -/

/-- Events that one push may have. -/
def maxEventsPerPush : Nat := 500

/-- Bytes that a delta may have. -/
def maxDeltaBytes : Nat := 64 * 1024

/-- Bytes of a delta's nonce. -/
def deltaIvBytes : Nat := 12

/-- An optional base64 text. -/
def decodeOptional (field : Option String) (message : String) : Except ApiError (Option Bytes) :=
  match field with
  | none => .ok none
  | some text =>
    match Base64.decode text with
    | some bytes => .ok (some bytes)
    | none => .error (.badRequest message)

/-- `model_to_db_event`. -/
def modelToDbEvent (e : ModelSyncEvent) : Except ApiError DbSyncEvent := do
  let encryptedDelta ← decodeOptional e.encryptedDelta "invalid encrypted_delta base64"
  let deltaIv ← decodeOptional e.deltaIv "invalid delta_iv base64"
  if encryptedDelta.any fun d => decide (maxDeltaBytes < d.length) then
    throw (.badRequest "encrypted_delta too large")
  if deltaIv.any fun iv => decide (iv.length ≠ deltaIvBytes) then
    throw (.badRequest "delta_iv must be 12 bytes")
  return {
    id := e.id
    userId := e.userId
    deviceId := e.deviceId
    sequenceNumber := e.sequenceNumber
    eventType := match e.eventType with
      | .upsert => "upsert"
      | .delete => "delete"
    itemId := e.itemId
    encryptedDelta := encryptedDelta
    deltaIv := deltaIv
    createdAt := e.createdAt }

/-- `db_to_model_event`. -/
def dbToModelEvent (e : DbSyncEvent) : ModelSyncEvent where
  id := e.id
  userId := e.userId
  deviceId := e.deviceId
  sequenceNumber := e.sequenceNumber
  eventType := if e.eventType = "delete" then .delete else .upsert
  itemId := e.itemId
  encryptedDelta := e.encryptedDelta.map Base64.encode
  deltaIv := e.deltaIv.map Base64.encode
  createdAt := e.createdAt

/-- The checks on the events of a push, with the devices that they name. -/
def checkEvents (userId : Uuid) : List ModelSyncEvent → List Uuid → Except ApiError (List Uuid)
  | [], deviceIds => .ok deviceIds
  | e :: rest, deviceIds =>
    if e.userId ≠ userId then .error (.unauthorized "event user_id does not match session")
    else if e.sequenceNumber < 0 then
      .error (.badRequest "sequence_number must be non-negative")
    else checkEvents userId rest
      (if e.deviceId ∈ deviceIds then deviceIds else deviceIds ++ [e.deviceId])

/-- `device_belongs_to_user`. -/
def deviceBelongsToUser (deviceId userId : Uuid) (d : SyncDb) : Bool :=
  d.devices.any fun r => decide (r.id = deviceId) && decide (r.userId = userId)

/-- The checks on the devices of a push, one query each. -/
def checkDevices (userId : Uuid) : List Uuid → SyncRequest Unit
  | [] => .ret ()
  | deviceId :: rest => .select fun d =>
    if deviceBelongsToUser deviceId userId d then checkDevices userId rest
    else .error (some (.forbidden "unknown device"))

/-- `push_sync_events`. -/
def pushSyncEvents (events : List DbSyncEvent) : SyncRequest Unit := do
  syncEventsTable.insertAll deviceOf events
  .commit events (.ret ())

/-- `push_events`. -/
def pushEvents (userId : Uuid) (req : List ModelSyncEvent) : SyncRequest SyncAnswer :=
  if maxEventsPerPush < req.length then
    .error (some (.badRequest "at most 500 events per push"))
  else
    match checkEvents userId req [] with
    | .error e => .error (some e)
    | .ok deviceIds => do
      checkDevices userId deviceIds
      match req.mapM modelToDbEvent with
      | .error e => .error (some e)
      | .ok dbEvents => do
        pushSyncEvents dbEvents
        pure (.accepted dbEvents.length)

/-! ## Pulling -/

/-- `ORDER BY sequence_number`. -/
def orderBySequence (rows : List DbSyncEvent) : List DbSyncEvent :=
  rows.insertionSort fun a b => a.sequenceNumber ≤ b.sequenceNumber

/-- The rows that one query selects. -/
def eventsWhere (cond : DbSyncEvent → Bool) (d : SyncDb) : List DbSyncEvent :=
  orderBySequence (d.syncEvents.filter cond)

/-- The condition of the query for one checkpoint. -/
def afterCheckpoint (userId : Uuid) (c : SyncCheckpoint) (e : DbSyncEvent) : Bool :=
  decide (e.userId = userId) && decide (e.deviceId = c.deviceId) &&
    decide (c.lastSyncedSequence < e.sequenceNumber)

/-- The condition of the last query: without checkpoints, all events of the user. -/
def ofOtherDevices (userId : Uuid) (checkpoints : List SyncCheckpoint) (e : DbSyncEvent) : Bool :=
  if checkpoints.isEmpty then decide (e.userId = userId)
  else decide (e.userId = userId) && decide (e.deviceId ∉ checkpoints.map (·.deviceId))

/-- The loop of `pull_sync_events` over the checkpoints. -/
def pullKnown (userId : Uuid) : List SyncCheckpoint → List DbSyncEvent →
    SyncRequest (List DbSyncEvent)
  | [], allEvents => .ret allEvents
  | c :: rest, allEvents => .select fun d =>
    pullKnown userId rest (allEvents ++ eventsWhere (afterCheckpoint userId c) d)

/-- `pull_sync_events`. -/
def pullSyncEvents (userId : Uuid) (checkpoints : List SyncCheckpoint) :
    SyncRequest (List DbSyncEvent) := do
  let allEvents ← pullKnown userId checkpoints []
  .select fun d => .ret (allEvents ++ eventsWhere (ofOtherDevices userId checkpoints) d)

/-- The latest sequence number of a device of the user: `MAX(sequence_number)`. -/
def maxSequence (userId deviceId : Uuid) (d : SyncDb) : Option Int :=
  ((d.syncEvents.filter fun e => decide (e.userId = userId) && decide (e.deviceId = deviceId)).map
    (·.sequenceNumber)).max?

/-- The rows of `get_vector_clock`: `GROUP BY device_id`. -/
def vectorClockRows (userId : Uuid) (d : SyncDb) : List (Uuid × Int) :=
  ((d.syncEvents.filter fun e => decide (e.userId = userId)).map (·.deviceId)).dedup.filterMap
    fun deviceId => (maxSequence userId deviceId d).map (deviceId, ·)

/-- `get_vector_clock`, collected into a map. -/
def getVectorClock (userId : Uuid) : SyncRequest VectorClock :=
  .select fun d => .ret (.ofList ((vectorClockRows userId d).map fun r => (r.1.text, r.2)))

/-- `pull_sync`. -/
def pullSync (userId : Uuid) (knownCheckpoints : List SyncCheckpoint) :
    SyncRequest SyncAnswer := do
  let events ← pullSyncEvents userId knownCheckpoints
  let serverClock ← getVectorClock userId
  pure (.pulled { events := events.map dbToModelEvent, serverClock := serverClock })

/-! ## What a push does -/

section Push

variable {userId : Uuid} {req : List ModelSyncEvent} {e : ModelSyncEvent} {row : DbSyncEvent}
  {rows : List DbSyncEvent} {deviceIds deviceIds' : List Uuid}

/-- A row names what its event names. -/
structure RowOf (e : ModelSyncEvent) (row : DbSyncEvent) : Prop where
  id : row.id = e.id
  userId : row.userId = e.userId
  deviceId : row.deviceId = e.deviceId
  sequenceNumber : row.sequenceNumber = e.sequenceNumber

/-- The row of an event is the event's. -/
theorem rowOf_of_modelToDbEvent (h : modelToDbEvent e = .ok row) : RowOf e row := by
  unfold modelToDbEvent at h
  cases hdelta : decodeOptional e.encryptedDelta "invalid encrypted_delta base64" with
  | error x => simp [hdelta, bind, Except.bind] at h
  | ok delta =>
    cases hiv : decodeOptional e.deltaIv "invalid delta_iv base64" with
    | error x => simp [hdelta, hiv, bind, Except.bind] at h
    | ok iv =>
      simp only [hdelta, hiv, bind, Except.bind, pure, Except.pure, throw, throwThe,
        MonadExceptOf.throw] at h
      split at h
      · cases h
      · split at h
        · cases h
        · cases h
          exact ⟨rfl, rfl, rfl, rfl⟩

/-- Every row of a push comes from an event of it. -/
theorem exists_event_of_mem (h : req.mapM modelToDbEvent = .ok rows) (hrow : row ∈ rows) :
    ∃ e ∈ req, modelToDbEvent e = .ok row := by
  induction req generalizing rows with
  | nil =>
    cases h
    cases hrow
  | cons e rest ih =>
    rw [List.mapM_cons] at h
    cases hfirst : modelToDbEvent e with
    | error x => simp [hfirst, bind, Except.bind] at h
    | ok first =>
      cases hrest : rest.mapM modelToDbEvent with
      | error x => simp [hfirst, hrest, bind, Except.bind] at h
      | ok tail =>
        simp only [hfirst, hrest, bind, Except.bind, pure, Except.pure, Except.ok.injEq] at h
        subst h
        rcases List.mem_cons.mp hrow with rfl | hrow
        · exact ⟨e, List.mem_cons_self, hfirst⟩
        · obtain ⟨e', he', hrow'⟩ := ih hrest hrow
          exact ⟨e', List.mem_cons_of_mem _ he', hrow'⟩

/-- Every event of a push has its row. -/
theorem mem_of_event_mem (h : req.mapM modelToDbEvent = .ok rows) (he : e ∈ req)
    (hrow : modelToDbEvent e = .ok row) : row ∈ rows := by
  induction req generalizing rows with
  | nil => cases he
  | cons first rest ih =>
    rw [List.mapM_cons] at h
    cases hfirst : modelToDbEvent first with
    | error x => simp [hfirst, bind, Except.bind] at h
    | ok head =>
      cases hrest : rest.mapM modelToDbEvent with
      | error x => simp [hfirst, hrest, bind, Except.bind] at h
      | ok tail =>
        simp only [hfirst, hrest, bind, Except.bind, pure, Except.pure, Except.ok.injEq] at h
        subst h
        rcases List.mem_cons.mp he with rfl | he
        · cases hfirst.symm.trans hrow
          exact List.mem_cons_self
        · exact List.mem_cons_of_mem _ (ih hrest he)

/-- Events that pass the checks are the user's and not numbered below zero. -/
theorem of_checkEvents (h : checkEvents userId req deviceIds = .ok deviceIds') :
    ∀ e ∈ req, e.userId = userId ∧ 0 ≤ e.sequenceNumber := by
  induction req generalizing deviceIds with
  | nil => exact nofun
  | cons first rest ih =>
    rw [checkEvents] at h
    by_cases huser : first.userId ≠ userId
    · rw [if_pos huser] at h
      cases h
    · rw [if_neg huser] at h
      by_cases hseq : first.sequenceNumber < 0
      · rw [if_pos hseq] at h
        cases h
      · rw [if_neg hseq] at h
        intro e he
        rcases List.mem_cons.mp he with rfl | he
        · exact ⟨not_not.mp huser, not_lt.mp hseq⟩
        · exact ih h e he

/-- The checks on devices only read. -/
theorem checkDevices_reads (userId : Uuid) (deviceIds : List Uuid) :
    (checkDevices userId deviceIds).Reads := by
  induction deviceIds with
  | nil => trivial
  | cons deviceId rest ih =>
    intro d
    dsimp only
    split
    · exact ih
    · trivial

/-- The rows that a push may commit. -/
structure PushOf (userId : Uuid) (req : List ModelSyncEvent) (rows : List DbSyncEvent) : Prop where
  rows : req.mapM modelToDbEvent = .ok rows
  checked : ∀ e ∈ req, e.userId = userId ∧ 0 ≤ e.sequenceNumber

/-- What follows a stored event of the same device of the user has a higher number. -/
def Follows (userId : Uuid) (s p : DbSyncEvent) : Prop :=
  s.userId = userId → p.userId = userId → s.deviceId = p.deviceId →
    s.sequenceNumber < p.sequenceNumber

/-- What concurrent pushes of a user promise each other. -/
abbrev syncSpec (userId : Uuid) : Spec SyncDb SyncRow (List DbSyncEvent) ApiError :=
  syncEventsTable.logSpec (Follows userId)

/-- A row is stored, or another one with its id, or with its device and sequence number. -/
def Taken (row : DbSyncEvent) (d : SyncDb) : Prop :=
  ∃ s ∈ d.syncEvents, s.id = row.id ∨
    s.deviceId = row.deviceId ∧ s.sequenceNumber = row.sequenceNumber

/-- Rows are taken when they are not free. -/
theorem taken_iff {d : SyncDb} : Taken row d ↔ ¬ syncEventsTable.free row d = true := by
  rw [LogTable.not_free_iff]
  apply exists_congr
  intro s
  apply and_congr_right
  intro _
  simp [LogTable.Clash, syncEventsTable]

/-- Insertions one after the other commit nothing. -/
theorem insertAll_neverCommits (rows : List DbSyncEvent) :
    (syncEventsTable.insertAll deviceOf rows : SyncRequest Unit).NeverCommits := by
  induction rows with
  | nil => trivial
  | cons row rest ih =>
    intro s n
    dsimp only
    split
    · split
      · exact ih
      · trivial
    · exact ih

/-- A push commits the rows of its events, after the checks. -/
theorem pushEvents_labels {P : List DbSyncEvent → Prop}
    (hP : ∀ rows, PushOf userId req rows → P rows) : (pushEvents userId req).Labels P := by
  unfold pushEvents
  split
  · trivial
  · cases hcheck : checkEvents userId req [] with
    | error e => trivial
    | ok deviceIds =>
      apply Prog.Labels.bind (checkDevices_reads userId deviceIds).neverCommits.labels
      intro _
      cases hrows : req.mapM modelToDbEvent with
      | error e => trivial
      | ok rows =>
        apply Prog.Labels.bind
        · apply Prog.Labels.bind (insertAll_neverCommits rows).labels
          intro _
          exact ⟨hP rows ⟨hrows, of_checkEvents hcheck⟩, trivial⟩
        · intro _
          trivial

/-- Of an accepted push all rows are taken. -/
def PushOutcome (req : List ModelSyncEvent) (out : SyncAnswer) (d : SyncDb) : Prop :=
  ∀ count, out = .accepted count → ∃ rows, req.mapM modelToDbEvent = .ok rows ∧
    ∀ row ∈ rows, Taken row d

/-- Every push keeps the promise, and its answer is right for good. -/
theorem pushEvents_valid (userId : Uuid) (req : List ModelSyncEvent) :
    (syncSpec userId).Valid (pushEvents userId req) (PushOutcome req) := by
  intro d hd
  have hnever : ∀ e, ¬ (syncSpec userId).never e := fun _ => id
  unfold pushEvents
  split
  · exact fun _ _ => nofun
  · cases checkEvents userId req [] with
    | error e => exact fun _ _ => nofun
    | ok deviceIds =>
      apply Spec.wp_reads_bind (checkDevices_reads userId deviceIds) hnever _ hd
      intro _ d₁ hr₁
      cases hrows : req.mapM modelToDbEvent with
      | error e => exact fun _ _ => nofun
      | ok rows =>
        have hassoc : (pushSyncEvents rows >>= fun _ => pure (.accepted rows.length) :
            SyncRequest SyncAnswer) = syncEventsTable.insertAll deviceOf rows >>= fun _ =>
              .commit rows (.ret (.accepted rows.length)) := by
          rw [pushSyncEvents, Prog.bind_bind]
          rfl
        dsimp only
        rw [hassoc]
        apply LogTable.wp_insertAll_commit (LogTable.Pending.start syncEventsTable d₁) hr₁.inv
          (List.nil_append rows)
        intro d₂ _ htaken d₃ hr₃ count _
        refine ⟨rows, hrows, fun row hrow => ?_⟩
        rw [taken_iff]
        apply LogTable.not_free_mono (htaken row hrow)
        exact fun s hs => LogTable.Extends.mem hr₃.guar hs

end Push

/-! ## What a pull answers -/

section Pull

variable {userId : Uuid} {checkpoints : List SyncCheckpoint} {dbs : List SyncDb} {d : SyncDb}
  {e : DbSyncEvent}

/-- What the queries for the checkpoints select, each from its database. -/
def knownEvents (userId : Uuid) : List SyncCheckpoint → List SyncDb → List DbSyncEvent
  | c :: rest, d :: dbs => eventsWhere (afterCheckpoint userId c) d ++ knownEvents userId rest dbs
  | _, _ => []

@[simp] theorem mem_eventsWhere {cond : DbSyncEvent → Bool} :
    e ∈ eventsWhere cond d ↔ e ∈ d.syncEvents ∧ cond e = true := by
  rw [eventsWhere, orderBySequence, (List.perm_insertionSort _ _).mem_iff, List.mem_filter]

/-- What a query after a checkpoint selects. -/
theorem afterCheckpoint_iff {c : SyncCheckpoint} : afterCheckpoint userId c e = true ↔
    e.userId = userId ∧ e.deviceId = c.deviceId ∧ c.lastSyncedSequence < e.sequenceNumber := by
  simp [afterCheckpoint, and_assoc]

/-- What the last query selects. -/
theorem ofOtherDevices_iff : ofOtherDevices userId checkpoints e = true ↔
    e.userId = userId ∧ e.deviceId ∉ checkpoints.map (·.deviceId) := by
  unfold ofOtherDevices
  cases checkpoints with
  | nil => simp
  | cons c rest => simp

/-- Pulling only reads. -/
theorem pullKnown_reads (userId : Uuid) (checkpoints : List SyncCheckpoint)
    (allEvents : List DbSyncEvent) : (pullKnown userId checkpoints allEvents).Reads := by
  induction checkpoints generalizing allEvents with
  | nil => trivial
  | cons c rest ih => exact fun d => ih _

/-- Pulling only reads. -/
theorem pullSync_reads (userId : Uuid) (checkpoints : List SyncCheckpoint) :
    (pullSync userId checkpoints).Reads := by
  apply Prog.Reads.bind
  · apply Prog.Reads.bind (pullKnown_reads userId checkpoints [])
    exact fun _ _ => trivial
  · intro _
    exact fun _ => trivial

/-- A pull that got past its checkpoints has read one database for each. -/
theorem pullKnown_fed {allEvents : List DbSyncEvent} {k : List DbSyncEvent → SyncRequest SyncAnswer}
    {out : SyncAnswer} (h : (pullKnown userId checkpoints allEvents >>= k).fed dbs = .ret out) :
    ∃ known rest, dbs = known ++ rest ∧ known.length = checkpoints.length ∧
      (k (allEvents ++ knownEvents userId checkpoints known)).fed rest = .ret out := by
  induction checkpoints generalizing allEvents dbs with
  | nil =>
    refine ⟨[], dbs, rfl, rfl, ?_⟩
    rw [knownEvents, List.append_nil]
    · exact h
    · exact nofun
  | cons c rest ih =>
    cases dbs with
    | nil => cases h
    | cons d dbs =>
      obtain ⟨known, others, hdbs, hlength, hk⟩ := ih h
      refine ⟨d :: known, others, by rw [hdbs, List.cons_append], ?_, ?_⟩
      · rw [List.length_cons, List.length_cons, hlength]
      · rw [knownEvents, ← List.append_assoc]
        exact hk

/-- What a pull answers, by the databases that its statements saw. -/
theorem pullSync_fed {out : SyncAnswer} (h : (pullSync userId checkpoints).fed dbs = .ret out) :
    ∃ known other last rest, dbs = known ++ other :: last :: rest ∧
      known.length = checkpoints.length ∧
      out = .pulled {
        events := (knownEvents userId checkpoints known ++
          eventsWhere (ofOtherDevices userId checkpoints) other).map dbToModelEvent
        serverClock := .ofList ((vectorClockRows userId last).map fun r => (r.1.text, r.2)) } := by
  rw [pullSync, pullSyncEvents, Prog.bind_bind] at h
  obtain ⟨known, rest, hdbs, hlength, h⟩ := pullKnown_fed h
  cases rest with
  | nil => cases h
  | cons other rest =>
    cases rest with
    | nil => cases h
    | cons last rest =>
      rw [List.nil_append] at h
      change (Prog.ret _).fed rest = _ at h
      rw [Prog.fed_ret] at h
      exact ⟨known, other, last, rest, hdbs, hlength, (Prog.ret.inj h).symm⟩

/-- Values by their keys have some of the keys. -/
theorem sublist_keys {α β : Type} (f : α → Option β) (l : List α) :
    ((l.filterMap fun a => (f a).map (a, ·)).map (·.1)).Sublist l := by
  induction l with
  | nil => exact List.Sublist.refl _
  | cons a rest ih =>
    cases hf : f a with
    | none =>
      rw [List.filterMap_cons_none (by rw [hf]; rfl)]
      exact ih.cons a
    | some b =>
      rw [List.filterMap_cons_some (b := (a, b)) (by rw [hf]; rfl), List.map_cons]
      exact ih.cons_cons a

/-- The clock has one entry for each device. -/
theorem vectorClockRows_nodup (userId : Uuid) (d : SyncDb) :
    (((vectorClockRows userId d).map fun r => (r.1.text, r.2)).map (·.1)).Nodup := by
  have hkeys : ((vectorClockRows userId d).map (·.1)).Nodup :=
    (List.nodup_dedup _).sublist (sublist_keys _ _)
  rw [List.map_map]
  have hmap : ((fun r : String × Int => r.1) ∘ fun r : Uuid × Int => (r.1.text, r.2)) =
      Uuid.text ∘ (·.1) := rfl
  rw [hmap, ← List.map_map]
  exact hkeys.map fun _ _ => Uuid.text_injective

/-- The clock counts every stored event of the user. -/
theorem counted_of_mem (he : e ∈ d.syncEvents) (huser : e.userId = userId) :
    ∃ k, (OrderedMap.ofList ((vectorClockRows userId d).map fun r => (r.1.text, r.2))).get
      e.deviceId.text = some k ∧ e.sequenceNumber ≤ k := by
  have hmine : e.sequenceNumber ∈ ((d.syncEvents.filter fun s => decide (s.userId = userId) &&
      decide (s.deviceId = e.deviceId)).map (·.sequenceNumber)) := by
    apply List.mem_map_of_mem
    rw [List.mem_filter]
    exact ⟨he, by simp [huser]⟩
  obtain ⟨k, hk⟩ := Option.isSome_iff_exists.mp (List.isSome_max?_of_mem hmine)
  have hmax : maxSequence userId e.deviceId d = some k := hk
  refine ⟨k, ?_, (List.max?_eq_some_iff.mp hk).2 _ hmine⟩
  rw [← OrderedMap.mem_entries, OrderedMap.entries_ofList (vectorClockRows_nodup userId d)]
  apply List.mem_map.mpr
  refine ⟨(e.deviceId, k), ?_, rfl⟩
  rw [vectorClockRows, List.mem_filterMap]
  refine ⟨e.deviceId, ?_, by rw [hmax]; rfl⟩
  rw [List.mem_dedup]
  apply List.mem_map_of_mem
  rw [List.mem_filter]
  exact ⟨he, decide_eq_true huser⟩

end Pull

end Nopass
