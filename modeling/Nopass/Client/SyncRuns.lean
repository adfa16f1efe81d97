import Nopass.Core.Run
import Nopass.Server.Sync

/-!
# Devices that push and clients that pull

The devices of a user push their events in sequence order, a part of them with each
request, and go on when a push was accepted; a push that got no answer is sent again while
the first one may still run. A client pulls with the checkpoints of its clock and
merges what comes. Sequence numbers are numbers that a client counted, which come back
from the server as they were.
-/

namespace Nopass

open ReadCommitted

/-- An event as a client reads it; `timeText` writes a time. -/
def clientEvent (timeText : Nat → String) (e : ModelSyncEvent) : SyncEvent where
  id := e.id.text
  userId := e.userId.text
  deviceId := e.deviceId.text
  sequenceNumber := e.sequenceNumber
  eventType := e.eventType
  itemId := e.itemId.text
  encryptedDelta := e.encryptedDelta
  deltaIv := e.deltaIv
  createdAt := timeText e.createdAt

/-- Checkpoints as the server decodes them. -/
def decodeCheckpoints (known : List (String × Int)) : Option (List SyncCheckpoint) :=
  known.mapM fun c => (Uuid.ofText c.1).map fun deviceId => ⟨deviceId, c.2⟩

/-- A request that was sent. -/
inductive SyncSent where
  /-- Some of the events of a device, from a place on. -/
  | push (deviceId : Uuid) (start count : Nat)
  | pull (known : List (String × Int))
  deriving DecidableEq

/-- The server with its requests, the devices and the clients. -/
structure SyncWorld (I C : Type) where
  server : State I SyncDb SyncRow (List DbSyncEvent) ApiError SyncAnswer
  sent : I → Option SyncSent
  /-- How many of its events each device knows to be accepted. -/
  acknowledged : Uuid → Nat
  /-- The pull whose response a client waits for. -/
  pulling : C → Option I
  clock : C → VectorClock
  received : C → List SyncEvent
  /-- History: how many statements of a pull have run. -/
  statements : I → Nat

/-- What happens. -/
inductive SyncStep (I C : Type) where
  /-- A device sends its next events, or sends them again. -/
  | push (i : I) (deviceId : Uuid) (count : Nat)
  /-- A device is told that a push was accepted. -/
  | acknowledge (i : I)
  /-- Somebody pulls with any checkpoints. -/
  | ask (i : I) (known : List (String × Int))
  /-- A client pulls with the checkpoints of its clock. -/
  | pull (i : I) (client : C)
  /-- A client merges the response into its local items. -/
  | receive (client : C) (items : List EncryptedVaultItem)
  /-- The server goes one step further with a request, or the request is cut off. -/
  | serve (i : I) (act : Act)

section World

variable {I C : Type} [DecidableEq I] [Fintype I] [DecidableEq C]
  (log : Uuid → List ModelSyncEvent) (userId : Uuid) (timeText : Nat → String)

/-- The events of a push. -/
def pushed (deviceId : Uuid) (start count : Nat) : List ModelSyncEvent :=
  ((log deviceId).drop start).take count

/-- A pull as it arrives; one that cannot be decoded is refused. -/
def pullDecoded (known : List (String × Int)) : SyncRequest SyncAnswer :=
  match decodeCheckpoints known with
  | some checkpoints => pullSync userId checkpoints
  | none => .error none

/-- The request as the server runs it. -/
def SyncSent.request : SyncSent → SyncRequest SyncAnswer
  | .push deviceId start count => pushEvents userId (pushed log deviceId start count)
  | .pull known => pullDecoded userId known

/-- A new request. -/
def SyncWorld.send (w : SyncWorld I C) (i : I) (r : SyncSent) : SyncWorld I C :=
  { w with
    server := w.server.set i { prog := r.request log userId }
    sent := Function.update w.sent i (some r) }

/-- The response to a pull. -/
def SyncWorld.response (w : SyncWorld I C) (i : I) : Option SyncResponse :=
  match (w.server.procs i).prog.answer with
  | some (.pulled r) => some r
  | _ => none

/-- Whether a push was accepted. -/
def SyncWorld.isAccepted (w : SyncWorld I C) (i : I) : Bool :=
  match (w.server.procs i).prog.answer with
  | some (.accepted _) => true
  | _ => false

/-- A device whose push was accepted goes on behind it. -/
def SyncWorld.acknowledge (w : SyncWorld I C) (i : I) : Option (SyncWorld I C) :=
  match w.sent i with
  | some (.push deviceId start count) =>
    if w.isAccepted i then
      some { w with
        acknowledged := Function.update w.acknowledged deviceId
          (max (w.acknowledged deviceId) (start + count)) }
    else none
  | _ => none

/-- A client merges the response that it waits for. -/
def SyncWorld.receive (w : SyncWorld I C) (c : C) (items : List EncryptedVaultItem) :
    Option (SyncWorld I C) := do
  let i ← w.pulling c
  let r ← w.response i
  let events := r.events.map (clientEvent timeText)
  return { w with
    pulling := Function.update w.pulling c none
    clock := Function.update w.clock c (applySyncEvents items events (w.clock c)).newClock
    received := Function.update w.received c (w.received c ++ events) }

/-- One step; a request is sent once. -/
def SyncWorld.step (w : SyncWorld I C) : SyncStep I C → Option (SyncWorld I C)
  | .push i deviceId count =>
    if (w.sent i).isNone then
      some (w.send log userId i (.push deviceId (w.acknowledged deviceId) count))
    else none
  | .acknowledge i => w.acknowledge i
  | .ask i known => if (w.sent i).isNone then some (w.send log userId i (.pull known)) else none
  | .pull i c =>
    if (w.sent i).isNone then
      some { w.send log userId i (.pull (buildSyncCheckpoints (w.clock c))) with
        pulling := Function.update w.pulling c (some i) }
    else none
  | .receive c items => w.receive timeText c items
  | .serve i act => (w.server.step i act).map fun s =>
      { w with server := s, statements := Function.update w.statements i (w.statements i + 1) }

/-- Nothing was sent yet, and the clients know nothing. -/
def SyncWorld.start (d : SyncDb) : SyncWorld I C where
  server := State.start d fun _ => .error none
  sent _ := none
  acknowledged _ := 0
  pulling _ := none
  clock _ := .empty
  received _ := []
  statements _ := 0

/-- Each device has its own events, in sequence order. -/
def InSequenceOrder : Prop :=
  ∀ deviceId, (∀ e ∈ log deviceId, e.deviceId = deviceId) ∧
    (log deviceId).Pairwise fun e e' => e.sequenceNumber < e'.sequenceNumber

/-- Events of other users, each unique index without a key twice. -/
def BeforeFirstPush (d : SyncDb) : Prop :=
  syncEventsTable.Unique d ∧ ∀ e ∈ d.syncEvents, e.userId ≠ userId

/-- The worlds that come up in a run from a database. -/
def Reaches (d : SyncDb) (events : List (SyncStep I C)) (w : SyncWorld I C) : Prop :=
  runEvents (SyncWorld.step log userId timeText) events (SyncWorld.start d) = some w

/-! ## The three promises -/

/-- The clock counts an event. -/
def SyncResponse.Counts (r : SyncResponse) (e : DbSyncEvent) : Prop :=
  ∃ k, r.serverClock.get e.deviceId.text = some k ∧ e.sequenceNumber ≤ k

/-- An event is in the response to a pull or at or below its checkpoint. -/
def SyncResponse.Covers (r : SyncResponse) (checkpoints : List SyncCheckpoint) (e : DbSyncEvent) :
    Prop :=
  dbToModelEvent e ∈ r.events ∨
    ∃ c ∈ checkpoints, c.deviceId = e.deviceId ∧ e.sequenceNumber ≤ c.lastSyncedSequence

/-- Every response covers each event that its clock counts. -/
def CoversWhatItCounts (d : SyncDb) (events : List (SyncStep I C)) : Prop :=
  ∀ w, Reaches log userId timeText d events w → ∀ i known checkpoints r,
    w.sent i = some (.pull known) → decodeCheckpoints known = some checkpoints →
    w.response i = some r → ∀ e ∈ w.server.db.syncEvents, e.userId = userId → r.Counts e →
      r.Covers checkpoints e

/-- The query of a pull that selects the events of a device: the one for its first checkpoint, or
the last one. -/
def statementOf (checkpoints : List SyncCheckpoint) (deviceId : Uuid) : Nat :=
  checkpoints.findIdx fun c => decide (c.deviceId = deviceId)

/-- Every response counts and covers each event that was stored when the pull's query for the
event's device had not run yet. -/
def CoversWhatWasStored (d : SyncDb) (before after : List (SyncStep I C)) : Prop :=
  ∀ w₁ w, Reaches log userId timeText d before w₁ →
    Reaches log userId timeText d (before ++ after) w → ∀ i known checkpoints r,
      w.sent i = some (.pull known) → decodeCheckpoints known = some checkpoints →
      w.response i = some r → ∀ e ∈ w₁.server.db.syncEvents, e.userId = userId →
        w₁.statements i ≤ statementOf checkpoints e.deviceId →
          r.Counts e ∧ r.Covers checkpoints e

/-- A client receives stored events only, none of them twice, and when it has the response to a
pull, it has each event that was stored when it sent the pull. -/
def ReceivesOnce (d : SyncDb) (events : List (SyncStep I C)) : Prop :=
  ∀ w, Reaches log userId timeText d events w → ∀ c,
    (∀ e ∈ w.received c, ∃ row ∈ w.server.db.syncEvents, row.userId = userId ∧
      clientEvent timeText (dbToModelEvent row) = e) ∧
    (∀ row ∈ w.server.db.syncEvents, row.userId = userId →
      (w.received c).count (clientEvent timeText (dbToModelEvent row)) ≤ 1) ∧
    ∀ before i mid items after, events = before ++ .pull i c :: mid ++ .receive c items :: after →
      (∀ w₂, Reaches log userId timeText d (before ++ .pull i c :: mid) w₂ →
        w₂.pulling c = some i) →
      ∀ w₁, Reaches log userId timeText d before w₁ → ∀ row ∈ w₁.server.db.syncEvents,
        row.userId = userId →
          (w.received c).count (clientEvent timeText (dbToModelEvent row)) = 1

/-- Every event of an accepted push is stored with its content. -/
def StoresWhatItAccepts (d : SyncDb) (events : List (SyncStep I C)) : Prop :=
  ∀ w, Reaches log userId timeText d events w → ∀ i deviceId start count,
    w.sent i = some (.push deviceId start count) → w.isAccepted i = true →
      ∃ rows, (pushed log deviceId start count).mapM modelToDbEvent = .ok rows ∧
        ∀ row ∈ rows, row ∈ w.server.db.syncEvents

/-- Every event of an accepted push is stored with its content, or another event is stored with
its id, or with its device and sequence number. -/
def StoresUnlessTaken (d : SyncDb) (events : List (SyncStep I C)) : Prop :=
  ∀ w, Reaches log userId timeText d events w → ∀ i deviceId start count,
    w.sent i = some (.push deviceId start count) → w.isAccepted i = true →
      ∃ rows, (pushed log deviceId start count).mapM modelToDbEvent = .ok rows ∧
        ∀ row ∈ rows, row ∈ w.server.db.syncEvents ∨
          ∃ s ∈ w.server.db.syncEvents, s ≠ row ∧ (s.id = row.id ∨
            s.deviceId = row.deviceId ∧ s.sequenceNumber = row.sequenceNumber)

end World

/-! ## What is stored of a device -/

section Pushing

variable {I C : Type} {log : Uuid → List ModelSyncEvent} {userId deviceId : Uuid}
  {timeText : Nat → String} {w w' : SyncWorld I C} {d d' : SyncDb} {row : DbSyncEvent}
  {e : ModelSyncEvent} {start count m : Nat}

/-- Of a device's events, those up to a place have come to the server, and no others. -/
structure StoredUpTo (log : Uuid → List ModelSyncEvent) (userId deviceId : Uuid) (m : Nat)
    (d : SyncDb) : Prop where
  taken : ∀ e ∈ (log deviceId).take m, ∀ row, modelToDbEvent e = .ok row → Taken row d
  stored : ∀ s ∈ d.syncEvents, s.userId = userId → s.deviceId = deviceId →
    ∃ e ∈ (log deviceId).take m, modelToDbEvent e = .ok s

/-- What each request that was sent comes to. -/
def outcome (log : Uuid → List ModelSyncEvent) (sent : I → Option SyncSent) (i : I)
    (out : SyncAnswer) (d : SyncDb) : Prop :=
  ∀ deviceId start count, sent i = some (.push deviceId start count) →
    PushOutcome (pushed log deviceId start count) out d

/-- The rows that a request may commit are those of the push that was sent. -/
def CommitsPush (log : Uuid → List ModelSyncEvent) (userId : Uuid) (sent : Option SyncSent)
    (rows : List DbSyncEvent) : Prop :=
  ∃ deviceId start count, sent = some (.push deviceId start count) ∧
    PushOf userId (pushed log deviceId start count) rows

/-- The log of the user and the pushes on their way. -/
structure PushInv [DecidableEq I] [Fintype I] (log : Uuid → List ModelSyncEvent) (userId : Uuid)
    (w : SyncWorld I C) : Prop where
  good : (syncSpec userId).Good (outcome log w.sent) w.server
  labels : ∀ i, (w.server.procs i).prog.Labels (CommitsPush log userId (w.sent i))
  starts : ∀ i deviceId start count, w.sent i = some (.push deviceId start count) →
    start ≤ w.acknowledged deviceId
  upTo : ∀ deviceId, ∃ m, w.acknowledged deviceId ≤ m ∧
    StoredUpTo log userId deviceId m w.server.db
  natural : ∀ s ∈ w.server.db.syncEvents, s.userId = userId → 0 ≤ s.sequenceNumber

/-- What is taken stays taken. -/
theorem Taken.extends (h : Taken row d) (hd : syncEventsTable.Extends (Follows userId) d d') :
    Taken row d' := by
  obtain ⟨s, hs, hclash⟩ := h
  exact ⟨s, hd.mem hs, hclash⟩

/-- A push has events of its device. -/
theorem mem_log_of_mem_pushed (h : e ∈ pushed log deviceId start count) : e ∈ log deviceId :=
  List.mem_of_mem_drop (List.mem_of_mem_take h)

/-- Up to where a push ends, each event has come before it or is in it. -/
theorem mem_take_max (hm : start ≤ m) (h : e ∈ (log deviceId).take (max m (start + count))) :
    e ∈ (log deviceId).take m ∨ e ∈ pushed log deviceId start count := by
  obtain ⟨j, hj, rfl⟩ := List.mem_iff_getElem.mp h
  rw [List.length_take] at hj
  rw [List.getElem_take]
  by_cases hjm : j < m
  · left
    rw [List.mem_take_iff_getElem]
    exact ⟨j, by omega, rfl⟩
  · right
    rw [pushed, List.mem_take_iff_getElem]
    refine ⟨j - start, ?_, ?_⟩
    · rw [List.length_drop]
      omega
    · rw [List.getElem_drop]
      congr 1
      omega

/-- Events of a push are up to where it ends. -/
theorem mem_take_of_mem_pushed (h : e ∈ pushed log deviceId start count) :
    e ∈ (log deviceId).take (max m (start + count)) := by
  rw [pushed, List.mem_take_iff_getElem] at h
  obtain ⟨j, hj, rfl⟩ := h
  rw [List.length_drop] at hj
  rw [List.getElem_drop, List.mem_take_iff_getElem]
  exact ⟨start + j, by omega, rfl⟩

/-- An event that has not come yet has a higher number than those that have. -/
theorem sequenceNumber_lt (hlog : InSequenceOrder log) {e e' : ModelSyncEvent}
    (he : e ∈ (log deviceId).take m) (he' : e' ∈ log deviceId)
    (hnot : e' ∉ (log deviceId).take m) : e.sequenceNumber < e'.sequenceNumber := by
  have hsplit := List.take_append_drop m (log deviceId)
  have hpairwise := (hlog deviceId).2
  rw [← hsplit, List.pairwise_append] at hpairwise
  rw [← hsplit] at he'
  rcases List.mem_append.mp he' with he' | he'
  · exact (hnot he').elim
  · exact hpairwise.2.2 e he e' he'

/-- A push that starts where its device's events have come to inserts events that follow those
that are stored. -/
theorem StoredUpTo.follows (h : StoredUpTo log userId deviceId m d) (hlog : InSequenceOrder log)
    {rows : List DbSyncEvent} (hrows : PushOf userId (pushed log deviceId start count) rows) :
    ∀ p ∈ rows, syncEventsTable.free p d = true → ∀ s ∈ d.syncEvents, Follows userId s p := by
  intro p hp hfree s hs hsuser hpuser hdevice
  obtain ⟨e', he', hrow'⟩ := exists_event_of_mem hrows.rows hp
  have hof' := rowOf_of_modelToDbEvent hrow'
  have hin := mem_log_of_mem_pushed he'
  have hdev : s.deviceId = deviceId := by
    rw [hdevice, hof'.deviceId]
    exact (hlog deviceId).1 e' hin
  obtain ⟨e, he, hrow⟩ := h.stored s hs hsuser hdev
  rw [(rowOf_of_modelToDbEvent hrow).sequenceNumber, hof'.sequenceNumber]
  apply sequenceNumber_lt hlog he hin
  intro hcame
  exact taken_iff.mp (h.taken e' hcame p hrow') hfree

/-- After its commit, the events of a push have come. -/
theorem StoredUpTo.insert (h : StoredUpTo log userId deviceId m d) {rows new : List DbSyncEvent}
    (hm : start ≤ m) (hrows : PushOf userId (pushed log deviceId start count) rows)
    (hi : syncEventsTable.Inserts rows d d' new) :
    StoredUpTo log userId deviceId (max m (start + count)) d' := by
  have hget : d'.syncEvents = d.syncEvents ++ new := hi.get
  constructor
  · intro e he row hrow
    rcases mem_take_max hm he with he | he
    · obtain ⟨s, hs, hclash⟩ := h.taken e he row hrow
      refine ⟨s, ?_, hclash⟩
      rw [hget]
      exact List.mem_append_left _ hs
    · exact taken_iff.mpr (hi.taken row (mem_of_event_mem hrows.rows he hrow))
  · intro s hs huser hdevice
    rw [hget] at hs
    rcases List.mem_append.mp hs with hs | hs
    · obtain ⟨e, he, hrow⟩ := h.stored s hs huser hdevice
      exact ⟨e, (List.take_subset_take_left _ (le_max_left _ _)) he, hrow⟩
    · obtain ⟨e, he, hrow⟩ := exists_event_of_mem hrows.rows (hi.sub.subset hs)
      exact ⟨e, mem_take_of_mem_pushed he, hrow⟩

/-- The push of one device leaves the others' events. -/
theorem StoredUpTo.insert_other (hlog : InSequenceOrder log) {other : Uuid}
    (h : StoredUpTo log userId other m d) {rows new : List DbSyncEvent} (hne : other ≠ deviceId)
    (hrows : PushOf userId (pushed log deviceId start count) rows)
    (hi : syncEventsTable.Inserts rows d d' new) : StoredUpTo log userId other m d' := by
  have hget : d'.syncEvents = d.syncEvents ++ new := hi.get
  constructor
  · intro e he row hrow
    obtain ⟨s, hs, hclash⟩ := h.taken e he row hrow
    refine ⟨s, ?_, hclash⟩
    rw [hget]
    exact List.mem_append_left _ hs
  · intro s hs huser hdevice
    rw [hget] at hs
    rcases List.mem_append.mp hs with hs | hs
    · exact h.stored s hs huser hdevice
    · obtain ⟨e, he, hrow⟩ := exists_event_of_mem hrows.rows (hi.sub.subset hs)
      have hdev := (hlog deviceId).1 e (mem_log_of_mem_pushed he)
      rw [(rowOf_of_modelToDbEvent hrow).deviceId, hdev] at hdevice
      exact (hne hdevice.symm).elim

/-- A pull only reads. -/
theorem pullDecoded_reads (userId : Uuid) (known : List (String × Int)) :
    (pullDecoded userId known).Reads := by
  unfold pullDecoded
  cases decodeCheckpoints known with
  | none => trivial
  | some checkpoints => exact pullSync_reads userId checkpoints

/-- Every request that may be sent keeps the promise. -/
theorem request_valid (log : Uuid → List ModelSyncEvent) (userId : Uuid)
    (sent : I → Option SyncSent) {i : I} {r : SyncSent} (hr : sent i = some r) :
    (syncSpec userId).Valid (r.request log userId) (outcome log sent i) := by
  intro d hd
  cases r with
  | push deviceId start count =>
    apply Spec.wp_mono _ (pushEvents_valid userId (pushed log deviceId start count) d hd)
    intro out _ _ d' hout deviceId' start' count' hsent
    cases hr.symm.trans hsent
    exact hout
  | pull known =>
    apply Spec.wp_mono _ (Spec.wp_of_reads (pullDecoded_reads userId known) fun _ => id)
    intro out _ _ d' _ deviceId' start' count' hsent
    cases hr.symm.trans hsent

/-- Every request that may be sent commits its own rows. -/
theorem request_labels (log : Uuid → List ModelSyncEvent) (userId : Uuid) (r : SyncSent) :
    (r.request log userId).Labels (CommitsPush log userId (some r)) := by
  cases r with
  | push deviceId start count =>
    exact pushEvents_labels fun rows hrows => ⟨deviceId, start, count, rfl, hrows⟩
  | pull known => exact (pullDecoded_reads userId known).neverCommits.labels

variable [DecidableEq I] [Fintype I]

/-- Nothing was pushed yet. -/
theorem PushInv.initial (hd : BeforeFirstPush userId d) :
    PushInv log userId (SyncWorld.start d : SyncWorld I C) where
  good := Spec.Good.start hd.1 fun i d' _ => nofun
  labels _ := trivial
  starts := nofun
  upTo deviceId := ⟨0, Nat.le_refl 0, by simp, fun s hs huser => (hd.2 s hs huser).elim⟩
  natural s hs huser := (hd.2 s hs huser).elim

/-- A request is sent. -/
theorem PushInv.send (hi : PushInv log userId w) {i : I} {r : SyncSent}
    (hr : ∀ deviceId start count, r = .push deviceId start count →
      start ≤ w.acknowledged deviceId) : PushInv log userId (w.send log userId i r) := by
  have hself : Function.update w.sent i (some r) i = some r := Function.update_self ..
  constructor
  · apply hi.good.restart (request_valid log userId _ hself)
    intro j hj
    unfold outcome
    simp only [Function.update_of_ne hj]
  · intro j
    by_cases hj : j = i
    · subst hj
      simp only [SyncWorld.send, State.set_procs_self, Function.update_self]
      exact request_labels log userId r
    · simp only [SyncWorld.send, State.set_procs_ne _ hj, Function.update_of_ne hj]
      exact hi.labels j
  · intro j deviceId start count hsent
    by_cases hj : j = i
    · subst hj
      simp only [SyncWorld.send, Function.update_self] at hsent
      exact hr deviceId start count (Option.some.inj hsent)
    · simp only [SyncWorld.send, Function.update_of_ne hj] at hsent
      exact hi.starts j deviceId start count hsent
  · exact hi.upTo
  · exact hi.natural

/-- The rows of an accepted push are taken. -/
theorem PushInv.accepted (hi : PushInv log userId w) {i : I}
    (hsent : w.sent i = some (.push deviceId start count)) (ha : w.isAccepted i = true) :
    ∃ rows, (pushed log deviceId start count).mapM modelToDbEvent = .ok rows ∧
      ∀ row ∈ rows, Taken row w.server.db := by
  unfold SyncWorld.isAccepted at ha
  split at ha
  · rename_i n hanswer
    have hret := Prog.answer_eq_some.mp hanswer
    exact (hi.good.safe i).ret hret hi.good.inv deviceId start count hsent n rfl
  · cases ha

/-- An answer to a push changes what its device knows. -/
theorem acknowledge_eq {i : I} (h : w.acknowledge i = some w') :
    ∃ acknowledged, w' = { w with acknowledged := acknowledged } := by
  unfold SyncWorld.acknowledge at h
  split at h
  · split at h
    · cases h
      exact ⟨_, rfl⟩
    · cases h
  · cases h

/-- A device goes on behind a push that was accepted. -/
theorem PushInv.acknowledge (hi : PushInv log userId w) {i : I}
    (h : w.acknowledge i = some w') : PushInv log userId w' := by
  unfold SyncWorld.acknowledge at h
  cases hsent : w.sent i with
  | none => simp [hsent] at h
  | some r =>
    cases r with
    | pull known => simp [hsent] at h
    | push deviceId start count =>
      simp only [hsent] at h
      by_cases ha : w.isAccepted i = true
      · rw [if_pos ha] at h
        cases h
        obtain ⟨rows, hrows, htaken⟩ := hi.accepted hsent ha
        refine ⟨hi.good, hi.labels, ?_, ?_, hi.natural⟩
        · intro j other start' count' hsent'
          have hle := hi.starts j other start' count' hsent'
          by_cases hother : other = deviceId
          · subst hother
            dsimp only
            rw [Function.update_self]
            exact hle.trans (le_max_left _ _)
          · dsimp only
            rw [Function.update_of_ne hother]
            exact hle
        · intro other
          obtain ⟨m, hm, hup⟩ := hi.upTo other
          by_cases hother : other = deviceId
          · subst hother
            have hstart := hi.starts i other start count hsent
            refine ⟨max m (start + count), ?_, ?_, ?_⟩
            · dsimp only
              rw [Function.update_self]
              exact max_le_max hm (Nat.le_refl _)
            · intro e he row hrow
              rcases mem_take_max (hstart.trans hm) he with he | he
              · exact hup.taken e he row hrow
              · exact htaken row (mem_of_event_mem hrows he hrow)
            · intro s hs huser hdevice
              obtain ⟨e, he, hrow⟩ := hup.stored s hs huser hdevice
              exact ⟨e, List.take_subset_take_left _ (le_max_left _ _) he, hrow⟩
          · refine ⟨m, ?_, hup⟩
            dsimp only
            rw [Function.update_of_ne hother]
            exact hm
      · rw [if_neg ha] at h
        cases h

/-- Where the clients stand plays no part in the log. -/
theorem PushInv.withClients (hi : PushInv log userId w) (pulling : C → Option I)
    (clock : C → VectorClock) (received : C → List SyncEvent) :
    PushInv log userId { w with pulling := pulling, clock := clock, received := received } :=
  ⟨hi.good, hi.labels, hi.starts, hi.upTo, hi.natural⟩

/-- The server goes on; the log is extended by events that follow. -/
theorem PushInv.serve (hi : PushInv log userId w) (hlog : InSequenceOrder log) {i : I} {act : Act}
    {s' : State I SyncDb SyncRow (List DbSyncEvent) ApiError SyncAnswer}
    (h : w.server.step i act = some s') (n : I → Nat) :
    PushInv log userId { w with server := s', statements := n } ∧
      syncEventsTable.Extends (Follows userId) w.server.db s'.db := by
  have hallow : act = .go → ∀ tag ∈ w.server.committing i,
      (syncSpec userId).allow tag w.server.db := by
    intro _ rows hrows
    unfold State.committing at hrows
    split at hrows
    · rename_i tag next hprog
      cases hrows
      have hlabels := hi.labels i
      rw [hprog] at hlabels
      obtain ⟨deviceId, start, count, -, hpush⟩ := hlabels.1
      obtain ⟨m, -, hup⟩ := hi.upTo deviceId
      exact hup.follows hlog hpush
    · cases hrows
  obtain ⟨hgood, hguar, hasserts⟩ := hi.good.step h hallow
  refine ⟨?_, hguar⟩
  rcases State.step_event h with ⟨-, hdb, hquiet⟩ | ⟨rows, next, -, hprog, hevent, hnext⟩
  · constructor
    · exact hgood
    · intro j
      by_cases hj : j = i
      · subst hj
        exact (hi.labels j).quiet hquiet
      · dsimp only
        rw [State.step_procs_ne h hj]
        exact hi.labels j
    · exact hi.starts
    · dsimp only
      rw [hdb]
      exact hi.upTo
    · dsimp only
      rw [hdb]
      exact hi.natural
  · have hlabels := hi.labels i
    rw [hprog] at hlabels
    obtain ⟨⟨deviceId, start, count, hsent, hpush⟩, hrest⟩ := hlabels
    rw [hevent] at hasserts
    obtain ⟨new, hnew⟩ := hasserts _ rfl
    constructor
    · exact hgood
    · intro j
      by_cases hj : j = i
      · subst hj
        dsimp only
        rw [hnext]
        exact hrest
      · dsimp only
        rw [State.step_procs_ne h hj]
        exact hi.labels j
    · exact hi.starts
    · intro other
      obtain ⟨m, hm, hup⟩ := hi.upTo other
      by_cases hother : other = deviceId
      · subst hother
        have hstart := (hi.starts i other start count hsent).trans hm
        exact ⟨max m (start + count), hm.trans (le_max_left _ _), hup.insert hstart hpush hnew⟩
      · exact ⟨m, hm, hup.insert_other hlog hother hpush hnew⟩
    · intro s hs huser
      have hget : s'.db.syncEvents = w.server.db.syncEvents ++ new := hnew.get
      dsimp only at hs
      rw [hget] at hs
      rcases List.mem_append.mp hs with hs | hs
      · exact hi.natural s hs huser
      · obtain ⟨e, he, hrow⟩ := exists_event_of_mem hpush.rows (hnew.sub.subset hs)
        rw [(rowOf_of_modelToDbEvent hrow).sequenceNumber]
        exact (hpush.checked e he).2

end Pushing

end Nopass
