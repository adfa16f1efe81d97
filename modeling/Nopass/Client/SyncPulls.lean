import Nopass.Client.SyncRuns

/-!
# No event is lost on the way to a client

The log of a user grows by events that follow those of their devices, so a checkpoint
that is stored separates what a client has of a device from what it has not. What a pull
answers is settled by the databases that its statements saw; each of them is a beginning
of the log. The clock of a response is read last and may count events that came after the
statements for their devices.
-/

namespace Nopass

open ReadCommitted

section Answers

variable {userId deviceId : Uuid} {checkpoints : List SyncCheckpoint} {known : List SyncDb}
  {other d d' : SyncDb} {row : DbSyncEvent} {clock : VectorClock}

/-- The database that the query for a device sees. -/
def readAt : List SyncCheckpoint → List SyncDb → SyncDb → Uuid → SyncDb
  | c :: rest, x :: known, other, deviceId =>
    if c.deviceId = deviceId then x else readAt rest known other deviceId
  | _, _, other, _ => other

/-- The query for a device sees the database of its place. -/
theorem getElem?_statementOf (h : known.length = checkpoints.length) (rest : List SyncDb) :
    (known ++ other :: rest)[statementOf checkpoints deviceId]? =
      some (readAt checkpoints known other deviceId) := by
  induction checkpoints generalizing known with
  | nil =>
    rw [List.length_eq_zero_iff.mp h]
    rfl
  | cons c tail ih =>
    cases known with
    | nil => cases h
    | cons x known =>
      rw [statementOf, List.findIdx_cons, readAt]
      by_cases hc : c.deviceId = deviceId
      · simp [hc]
      · have hlen : known.length = tail.length := by
          rw [List.length_cons, List.length_cons] at h
          omega
        have hrest := ih hlen
        rw [statementOf] at hrest
        simpa [hc] using hrest

/-- An event that its device's query sees is selected or at or below the checkpoint. -/
theorem covered_of_mem_readAt (h : known.length = checkpoints.length)
    (hrow : row ∈ (readAt checkpoints known other row.deviceId).syncEvents)
    (huser : row.userId = userId) :
    row ∈ knownEvents userId checkpoints known ∨
      (∃ c ∈ checkpoints, c.deviceId = row.deviceId ∧ row.sequenceNumber ≤ c.lastSyncedSequence) ∨
      row ∈ other.syncEvents ∧ row.deviceId ∉ checkpoints.map (·.deviceId) := by
  induction checkpoints generalizing known with
  | nil => exact Or.inr (Or.inr ⟨hrow, by simp⟩)
  | cons c tail ih =>
    cases known with
    | nil => cases h
    | cons x known =>
      rw [readAt] at hrow
      rw [knownEvents, List.mem_append, mem_eventsWhere, afterCheckpoint_iff]
      by_cases hc : c.deviceId = row.deviceId
      · rw [if_pos hc] at hrow
        by_cases hlt : c.lastSyncedSequence < row.sequenceNumber
        · exact Or.inl (Or.inl ⟨hrow, huser, hc.symm, hlt⟩)
        · exact Or.inr (Or.inl ⟨c, List.mem_cons_self, hc, not_lt.mp hlt⟩)
      · rw [if_neg hc] at hrow
        have hlen : known.length = tail.length := by
          rw [List.length_cons, List.length_cons] at h
          omega
        rcases ih hlen hrow with hmem | ⟨c', hc', hle⟩ | ⟨hother, hdevice⟩
        · exact Or.inl (Or.inr hmem)
        · exact Or.inr (Or.inl ⟨c', List.mem_cons_of_mem _ hc', hle⟩)
        · refine Or.inr (Or.inr ⟨hother, ?_⟩)
          rw [List.map_cons, List.mem_cons, not_or]
          exact ⟨fun he => hc he.symm, hdevice⟩

variable (other) in
/-- What the queries for checkpoints select: of each device, what its database has behind the
checkpoint. -/
theorem mem_knownEvents (h : known.length = checkpoints.length)
    (hnodup : (checkpoints.map (·.deviceId)).Nodup)
    (hrow : row ∈ knownEvents userId checkpoints known) :
    row.deviceId ∈ checkpoints.map (·.deviceId) ∧
      row ∈ (readAt checkpoints known other row.deviceId).syncEvents ∧ row.userId = userId ∧
      ∀ c ∈ checkpoints, c.deviceId = row.deviceId → c.lastSyncedSequence < row.sequenceNumber := by
  induction checkpoints generalizing known with
  | nil => cases hrow
  | cons c tail ih =>
    cases known with
    | nil => cases h
    | cons x known =>
      rw [List.map_cons, List.nodup_cons] at hnodup
      rw [knownEvents, List.mem_append, mem_eventsWhere, afterCheckpoint_iff] at hrow
      rw [readAt, List.map_cons, List.mem_cons]
      rcases hrow with ⟨hmem, huser, hdevice, hlt⟩ | hrow
      · refine ⟨Or.inl hdevice, ?_, huser, fun c' hc' hd' => ?_⟩
        · rwa [if_pos hdevice.symm]
        · rcases List.mem_cons.mp hc' with rfl | hc'
          · exact hlt
          · exact (hnodup.1 (List.mem_map.mpr ⟨c', hc', hd'.trans hdevice⟩)).elim
      · have hlen : known.length = tail.length := by
          rw [List.length_cons, List.length_cons] at h
          omega
        obtain ⟨hin, hmem, huser, hall⟩ := ih hlen hnodup.2 hrow
        have hne : c.deviceId ≠ row.deviceId := fun he => hnodup.1 (he ▸ hin)
        refine ⟨Or.inr hin, ?_, huser, fun c' hc' hd' => ?_⟩
        · rwa [if_neg hne]
        · rcases List.mem_cons.mp hc' with rfl | hc'
          · exact (hne hd').elim
          · exact hall c' hc' hd'

/-- A device without a checkpoint is read by the last query. -/
theorem readAt_of_not_mem (h : deviceId ∉ checkpoints.map (·.deviceId)) :
    readAt checkpoints known other deviceId = other := by
  induction checkpoints generalizing known with
  | nil => rfl
  | cons c tail ih =>
    rw [List.map_cons, List.mem_cons, not_or] at h
    cases known with
    | nil => rfl
    | cons x known => rw [readAt, if_neg fun he => h.1 he.symm, ih h.2]

/-- The rows of a response. -/
def answerRows (userId : Uuid) (checkpoints : List SyncCheckpoint) (known : List SyncDb)
    (other : SyncDb) : List DbSyncEvent :=
  knownEvents userId checkpoints known ++ eventsWhere (ofOtherDevices userId checkpoints) other

/-- What a pull with one checkpoint for each device selects. -/
theorem mem_answerRows (h : known.length = checkpoints.length)
    (hnodup : (checkpoints.map (·.deviceId)).Nodup) :
    row ∈ answerRows userId checkpoints known other ↔
      row ∈ (readAt checkpoints known other row.deviceId).syncEvents ∧ row.userId = userId ∧
      ∀ c ∈ checkpoints, c.deviceId = row.deviceId → c.lastSyncedSequence < row.sequenceNumber := by
  rw [answerRows, List.mem_append, mem_eventsWhere, ofOtherDevices_iff]
  constructor
  · rintro (hrow | ⟨hmem, huser, hdevice⟩)
    · exact (mem_knownEvents other h hnodup hrow).2
    · rw [readAt_of_not_mem hdevice]
      refine ⟨hmem, huser, fun c hc hd => ?_⟩
      exact (hdevice (List.mem_map.mpr ⟨c, hc, hd⟩)).elim
  · rintro ⟨hmem, huser, hall⟩
    rcases covered_of_mem_readAt h hmem huser with hrow | ⟨c, hc, hd, hle⟩ | ⟨hother, hdevice⟩
    · exact Or.inl hrow
    · have hlt := hall c hc hd
      omega
    · exact Or.inr ⟨hother, huser, hdevice⟩

/-- A query selects no row twice. -/
theorem eventsWhere_nodup {cond : DbSyncEvent → Bool} (h : d.syncEvents.Nodup) :
    (eventsWhere cond d).Nodup := by
  rw [eventsWhere, orderBySequence, (List.perm_insertionSort _ _).nodup_iff]
  exact h.filter _

/-- A pull with one checkpoint for each device selects no row twice. -/
theorem answerRows_nodup (h : known.length = checkpoints.length)
    (hnodup : (checkpoints.map (·.deviceId)).Nodup)
    (hdbs : ∀ x ∈ other :: known, x.syncEvents.Nodup) :
    (answerRows userId checkpoints known other).Nodup := by
  have hknown : (knownEvents userId checkpoints known).Nodup := by
    have hknown : ∀ x ∈ known, x.syncEvents.Nodup := fun x hx =>
      hdbs x (List.mem_cons_of_mem _ hx)
    clear hdbs
    induction checkpoints generalizing known with
    | nil => exact List.nodup_nil
    | cons c tail ih =>
      cases known with
      | nil => cases h
      | cons x known =>
        rw [List.map_cons, List.nodup_cons] at hnodup
        have hlen : known.length = tail.length := by
          rw [List.length_cons, List.length_cons] at h
          omega
        rw [knownEvents, List.nodup_append]
        refine ⟨eventsWhere_nodup (hknown x List.mem_cons_self),
          ih hlen hnodup.2 fun y hy => hknown y (List.mem_cons_of_mem _ hy), fun a ha b hb => ?_⟩
        rintro rfl
        rw [mem_eventsWhere, afterCheckpoint_iff] at ha
        have hin := (mem_knownEvents x hlen hnodup.2 hb).1
        exact hnodup.1 (ha.2.2.1 ▸ hin)
  rw [answerRows, List.nodup_append]
  refine ⟨hknown, eventsWhere_nodup (hdbs other List.mem_cons_self), fun a ha b hb => ?_⟩
  rintro rfl
  rw [mem_eventsWhere, ofOtherDevices_iff] at hb
  exact hb.2.2 (mem_knownEvents other h hnodup ha).1

end Answers

/-! ## The clock of a client -/

section Clock

variable {clock : VectorClock} {events : List SyncEvent} {known : List (String × Int)}
  {checkpoints : List SyncCheckpoint} {t : String} {k n : Int}

/-- No device is called like what objects inherit. -/
theorem text_not_mem_objectPrototype (u : Uuid) : u.text ∉ objectPrototype := by
  intro h
  have hlength : ∀ s ∈ objectPrototype, s.length ≠ 36 := by decide
  exact hlength u.text h u.length_text

/-- Devices with names of their own and numbers that are not negative. -/
def Natural (events : List SyncEvent) : Prop :=
  ∀ e ∈ events, (∃ u : Uuid, e.deviceId = u.text) ∧ 0 ≤ e.sequenceNumber

/-- After events the clock has the latest number of each device. -/
theorem get_newClock (h : Natural events) (clock : VectorClock) (t : String) :
    (events.foldl advance clock).get t = ((clock.get t).toList ++ sequencesOf t events).max? := by
  rw [get_foldl_advance]
  cases hget : clock.get t with
  | some n =>
    rw [foldl_advanced_some]
    rfl
  | none =>
    rw [Option.toList_none, List.nil_append]
    cases hs : sequencesOf t events with
    | nil => rfl
    | cons a rest =>
      have hall : ∀ b ∈ sequencesOf t events, t ∉ objectPrototype ∧ 0 ≤ b := by
        intro b hb
        obtain ⟨e, he, rfl⟩ := List.mem_map.mp hb
        obtain ⟨he, hdevice⟩ := List.mem_filter.mp he
        obtain ⟨⟨u, hu⟩, hnat⟩ := h e he
        have ht : t = u.text := (of_decide_eq_true hdevice).symm.trans hu
        exact ⟨ht ▸ text_not_mem_objectPrototype u, hnat⟩
      have hp := (hall a (by rw [hs]; exact List.mem_cons_self)).1
      rw [← hs, foldl_advanced_none hp, List.filter_eq_self.mpr]
      intro b hb
      exact decide_eq_true (hall b hb).2

/-- Where an entry of the clock comes from. -/
theorem newClock_cases (h : Natural events) (hk : (events.foldl advance clock).get t = some k) :
    clock.get t = some k ∨ ∃ e ∈ events, e.deviceId = t ∧ e.sequenceNumber = k := by
  rw [get_newClock h] at hk
  rcases List.mem_append.mp (List.max?_mem hk) with hmem | hmem
  · exact Or.inl (Option.mem_toList.mp hmem)
  · obtain ⟨e, he, rfl⟩ := List.mem_map.mp hmem
    obtain ⟨he, hdevice⟩ := List.mem_filter.mp he
    exact Or.inr ⟨e, he, of_decide_eq_true hdevice, rfl⟩

/-- The clock goes at least as far as each entry and each event. -/
theorem le_newClock (h : Natural events)
    (hn : clock.get t = some n ∨ ∃ e ∈ events, e.deviceId = t ∧ e.sequenceNumber = n) :
    ∃ k, (events.foldl advance clock).get t = some k ∧ n ≤ k := by
  have hmem : n ∈ (clock.get t).toList ++ sequencesOf t events := by
    rw [List.mem_append]
    rcases hn with hn | ⟨e, he, hdevice, rfl⟩
    · exact Or.inl (Option.mem_toList.mpr hn)
    · right
      apply List.mem_map_of_mem
      exact List.mem_filter.mpr ⟨he, decide_eq_true hdevice⟩
  obtain ⟨k, hk⟩ := Option.isSome_iff_exists.mp (List.isSome_max?_of_mem hmem)
  exact ⟨k, (get_newClock h clock t).trans hk, (List.max?_eq_some_iff.mp hk).2 n hmem⟩

/-- Checkpoints with the texts of devices are read as they were. -/
theorem decodeCheckpoints_eq (h : ∀ c ∈ known, ∃ u : Uuid, c.1 = u.text)
    (hdecode : decodeCheckpoints known = some checkpoints) :
    known = checkpoints.map fun c => (c.deviceId.text, c.lastSyncedSequence) := by
  induction known generalizing checkpoints with
  | nil =>
    cases hdecode
    rfl
  | cons c rest ih =>
    rw [decodeCheckpoints, List.mapM_cons] at hdecode
    obtain ⟨first, hfirst, hdecode⟩ := Option.bind_eq_some_iff.mp hdecode
    obtain ⟨tail, htail, hdecode⟩ := Option.bind_eq_some_iff.mp hdecode
    cases hdecode
    obtain ⟨u, hu⟩ := h c List.mem_cons_self
    rw [hu, Uuid.ofText_text] at hfirst
    cases hfirst
    rw [List.map_cons, ← ih (fun c' hc' => h c' (List.mem_cons_of_mem _ hc')) htail]
    exact congrArg (· :: rest) (Prod.ext hu rfl)

end Clock

/-! ## What a client has received -/

section Received

variable {userId : Uuid} {timeText : Nat → String} {clock : VectorClock}
  {received : List SyncEvent} {d d' : SyncDb} {row row' : DbSyncEvent}

/-- A row as a client reads it. -/
def clientRow (timeText : Nat → String) (row : DbSyncEvent) : SyncEvent :=
  clientEvent timeText (dbToModelEvent row)

/-- An event is at or below the clock's entry for its device. -/
def Seen (clock : VectorClock) (row : DbSyncEvent) : Prop :=
  ∃ k, clock.get row.deviceId.text = some k ∧ row.sequenceNumber ≤ k

/-- A client has, once each, the stored events up to its clock, whose entries are numbers of
stored events. -/
structure HasReceived (userId : Uuid) (timeText : Nat → String) (clock : VectorClock)
    (received : List SyncEvent) (d : SyncDb) : Prop where
  stored : ∀ t k, clock.get t = some k → ∃ s ∈ d.syncEvents, s.userId = userId ∧
    s.deviceId.text = t ∧ s.sequenceNumber = k
  nodup : received.Nodup
  mem : ∀ e, e ∈ received ↔ ∃ row ∈ d.syncEvents, row.userId = userId ∧ Seen clock row ∧
    clientRow timeText row = e

@[simp] theorem id_clientRow (timeText : Nat → String) (row : DbSyncEvent) :
    (clientRow timeText row).id = row.id.text := rfl

/-- Rows that a client reads alike are one row. -/
theorem clientRow_injective (hd : syncEventsTable.Unique d) (hrow : row ∈ d.syncEvents)
    (hrow' : row' ∈ d.syncEvents) (h : clientRow timeText row = clientRow timeText row') :
    row = row' := by
  have hid : row.id = row'.id := by
    have htext := congrArg SyncEvent.id h
    rw [id_clientRow, id_clientRow] at htext
    exact Uuid.text_injective htext
  apply hd.eq hrow hrow'
  refine ⟨.event row.id, List.mem_cons_self, ?_⟩
  rw [hid]
  exact List.mem_cons_self

/-- A beginning of a log has no row twice. -/
theorem nodup_of_extends (h : syncEventsTable.Extends (Follows userId) d d')
    (hd : syncEventsTable.Unique d') : d.syncEvents.Nodup := by
  obtain ⟨new, hget, -⟩ := h
  have hnodup : d'.syncEvents.Nodup := hd.nodup
  change d'.syncEvents = d.syncEvents ++ new at hget
  rw [hget] at hnodup
  exact (List.nodup_append.mp hnodup).1

/-- What a client has received stays right while the log grows. -/
theorem HasReceived.extends (h : HasReceived userId timeText clock received d)
    (hd : syncEventsTable.Extends (Follows userId) d d') :
    HasReceived userId timeText clock received d' := by
  constructor
  · intro t k hk
    obtain ⟨s, hs, hrest⟩ := h.stored t k hk
    exact ⟨s, hd.mem hs, hrest⟩
  · exact h.nodup
  · intro e
    rw [h.mem]
    constructor
    · rintro ⟨row, hrow, hrest⟩
      exact ⟨row, hd.mem hrow, hrest⟩
    · rintro ⟨row, hrow, huser, ⟨k, hk, hle⟩, he⟩
      rcases hd.cases hrow with hold | hfollows
      · exact ⟨row, hold, huser, ⟨k, hk, hle⟩, he⟩
      · obtain ⟨s, hs, hsuser, hdevice, hseq⟩ := h.stored _ k hk
        have hlt := hfollows s hs hsuser huser (Uuid.text_injective hdevice)
        omega

/-- A clock's checkpoints are what the server decodes: one for each device that the clock has. -/
theorem HasReceived.decode (h : HasReceived userId timeText clock received d)
    {checkpoints : List SyncCheckpoint}
    (hdecode : decodeCheckpoints (buildSyncCheckpoints clock) = some checkpoints) :
    (checkpoints.map (·.deviceId)).Nodup ∧ ∀ u k, clock.get u.text = some k ↔
      ∃ c ∈ checkpoints, c.deviceId = u ∧ c.lastSyncedSequence = k := by
  have hentries : clock.entries =
      checkpoints.map fun c => (c.deviceId.text, c.lastSyncedSequence) := by
    apply decodeCheckpoints_eq _ hdecode
    rintro ⟨t, k⟩ hc
    obtain ⟨s, -, -, hdevice, -⟩ := h.stored t k (OrderedMap.mem_entries.mp hc)
    exact ⟨s.deviceId, hdevice.symm⟩
  constructor
  · have hnodup := clock.nodup
    rw [hentries, List.map_map] at hnodup
    apply List.Nodup.of_map Uuid.text
    rw [List.map_map]
    exact hnodup
  · intro u k
    rw [← OrderedMap.mem_entries, hentries, List.mem_map]
    constructor
    · rintro ⟨c, hc, heq⟩
      rw [Prod.mk.injEq] at heq
      exact ⟨c, hc, Uuid.text_injective heq.1, heq.2⟩
    · rintro ⟨c, hc, rfl, rfl⟩
      exact ⟨c, hc, rfl⟩

/-- A response to the checkpoints of a clock has the events behind the clock that its queries
see. -/
theorem HasReceived.mem_answerRows (h : HasReceived userId timeText clock received d)
    {checkpoints : List SyncCheckpoint} {known : List SyncDb} {other : SyncDb}
    (hdecode : decodeCheckpoints (buildSyncCheckpoints clock) = some checkpoints)
    (hlength : known.length = checkpoints.length) :
    row ∈ answerRows userId checkpoints known other ↔
      row ∈ (readAt checkpoints known other row.deviceId).syncEvents ∧ row.userId = userId ∧
        ¬ Seen clock row := by
  obtain ⟨hnodup, hget⟩ := h.decode hdecode
  rw [Nopass.mem_answerRows hlength hnodup]
  apply and_congr_right
  intro _
  apply and_congr_right
  intro _
  constructor
  · rintro hall ⟨k, hk, hle⟩
    obtain ⟨c, hc, hdevice, rfl⟩ := (hget _ k).mp hk
    have hlt := hall c hc hdevice
    omega
  · intro hunseen c hc hdevice
    by_contra hle
    exact hunseen ⟨c.lastSyncedSequence, (hget _ _).mpr ⟨c, hc, hdevice, rfl⟩, not_lt.mp hle⟩

/-- A client that merges the response to its checkpoints has received the stored events up to
its new clock. -/
theorem HasReceived.merge (h : HasReceived userId timeText clock received d)
    {checkpoints : List SyncCheckpoint} {known : List SyncDb} {other : SyncDb}
    (hdecode : decodeCheckpoints (buildSyncCheckpoints clock) = some checkpoints)
    (hlength : known.length = checkpoints.length)
    (hdbs : ∀ x ∈ other :: known, syncEventsTable.Extends (Follows userId) x d)
    (hunique : syncEventsTable.Unique d)
    (hnatural : ∀ s ∈ d.syncEvents, s.userId = userId → 0 ≤ s.sequenceNumber) :
    let events := (answerRows userId checkpoints known other).map (clientRow timeText)
    HasReceived userId timeText (events.foldl advance clock) (received ++ events) d := by
  intro events
  have hread : ∀ u, syncEventsTable.Extends (Follows userId) (readAt checkpoints known other u) d := by
    intro u
    apply hdbs
    clear hdecode hdbs
    induction checkpoints generalizing known with
    | nil => exact List.mem_cons_self
    | cons c tail ih =>
      cases known with
      | nil => exact List.mem_cons_self
      | cons x known =>
        rw [readAt]
        split
        · exact List.mem_cons_of_mem _ List.mem_cons_self
        · have hlen : known.length = tail.length := by
            rw [List.length_cons, List.length_cons] at hlength
            omega
          rcases List.mem_cons.mp (ih hlen) with hmem | hmem
          · rw [hmem]
            exact List.mem_cons_self
          · exact List.mem_cons_of_mem _ (List.mem_cons_of_mem _ hmem)
  have hrows : ∀ row, row ∈ answerRows userId checkpoints known other ↔
      row ∈ (readAt checkpoints known other row.deviceId).syncEvents ∧ row.userId = userId ∧
        ¬ Seen clock row := fun row => h.mem_answerRows hdecode hlength
  have hstored : ∀ row ∈ answerRows userId checkpoints known other,
      row ∈ d.syncEvents ∧ row.userId = userId := by
    intro row hrow
    obtain ⟨hmem, huser, -⟩ := (hrows row).mp hrow
    exact ⟨(hread _).mem hmem, huser⟩
  have hnat : Natural events := by
    intro e he
    obtain ⟨row, hrow, rfl⟩ := List.mem_map.mp he
    obtain ⟨hmem, huser⟩ := hstored row hrow
    exact ⟨⟨row.deviceId, rfl⟩, hnatural row hmem huser⟩
  have hseen : ∀ row ∈ d.syncEvents, row.userId = userId →
      (Seen (events.foldl advance clock) row ↔
        Seen clock row ∨ row ∈ answerRows userId checkpoints known other) := by
    intro row hrow huser
    constructor
    · rintro ⟨k, hk, hle⟩
      rcases newClock_cases hnat hk with hold | ⟨e, he, hdevice, hseq⟩
      · exact Or.inl ⟨k, hold, hle⟩
      · by_cases hs : Seen clock row
        · exact Or.inl hs
        · obtain ⟨last, hlast, rfl⟩ := List.mem_map.mp he
          obtain ⟨hmem, hluser, -⟩ := (hrows last).mp hlast
          have hdev : last.deviceId = row.deviceId := Uuid.text_injective hdevice
          refine Or.inr ((hrows row).mpr ⟨?_, huser, hs⟩)
          rcases (hread row.deviceId).cases hrow with hin | hfollows
          · exact hin
          · rw [hdev] at hmem
            have hlt := hfollows last hmem hluser huser hdev
            have hseq : last.sequenceNumber = k := hseq
            omega
    · rintro (⟨k, hk, hle⟩ | hnew)
      · obtain ⟨k', hk', hkk'⟩ := le_newClock hnat (Or.inl hk)
        exact ⟨k', hk', hle.trans hkk'⟩
      · obtain ⟨k', hk', hle⟩ := le_newClock (n := row.sequenceNumber) hnat
          (Or.inr ⟨clientRow timeText row, List.mem_map_of_mem hnew, rfl, rfl⟩)
        exact ⟨k', hk', hle⟩
  constructor
  · intro t k hk
    rcases newClock_cases hnat hk with hold | ⟨e, he, hdevice, hseq⟩
    · exact h.stored t k hold
    · obtain ⟨row, hrow, rfl⟩ := List.mem_map.mp he
      obtain ⟨hmem, huser⟩ := hstored row hrow
      exact ⟨row, hmem, huser, hdevice, hseq⟩
  · rw [List.nodup_append]
    refine ⟨h.nodup, ?_, fun a ha b hb => ?_⟩
    · apply List.Nodup.map_on
      · intro a ha b hb hab
        exact clientRow_injective hunique (hstored a ha).1 (hstored b hb).1 hab
      · apply answerRows_nodup hlength (h.decode hdecode).1
        exact fun x hx => nodup_of_extends (hdbs x hx) hunique
    · rintro rfl
      obtain ⟨old, hold, huser, hs, hrow⟩ := (h.mem a).mp ha
      obtain ⟨new, hnew, hrow'⟩ := List.mem_map.mp hb
      have hsame := clientRow_injective hunique hold (hstored new hnew).1 (hrow.trans hrow'.symm)
      exact ((hrows new).mp hnew).2.2 (hsame ▸ hs)
  · intro e
    rw [List.mem_append, h.mem]
    constructor
    · rintro (⟨row, hrow, huser, hs, rfl⟩ | he)
      · exact ⟨row, hrow, huser, (hseen row hrow huser).mpr (Or.inl hs), rfl⟩
      · obtain ⟨row, hrow, rfl⟩ := List.mem_map.mp he
        obtain ⟨hmem, huser⟩ := hstored row hrow
        exact ⟨row, hmem, huser, (hseen row hmem huser).mpr (Or.inr hrow), rfl⟩
    · rintro ⟨row, hrow, huser, hs, rfl⟩
      rcases (hseen row hrow huser).mp hs with hold | hnew
      · exact Or.inl ⟨row, hrow, huser, hold, rfl⟩
      · exact Or.inr (List.mem_map_of_mem hnew)

end Received

/-! ## Runs -/

section Runs

variable {I C : Type} [DecidableEq I] [Fintype I] {log : Uuid → List ModelSyncEvent} {userId : Uuid}
  {timeText : Nat → String} {w w' : SyncWorld I C} {base d : SyncDb} {n : I → Nat} {i j : I}

/-- A log that begins with another one. -/
abbrev Grows (userId : Uuid) (d d' : SyncDb) : Prop :=
  syncEventsTable.Extends (Follows userId) d d'

/-- A pull has seen beginnings of the log `d`, and with its statements from the `n`-th on all of
`base`; or it was cut off. -/
def Saw (userId : Uuid) (known : List (String × Int)) (base : SyncDb) (n steps : Nat) (d : SyncDb)
    (p : Proc SyncDb SyncRow (List DbSyncEvent) ApiError SyncAnswer) : Prop :=
  p.prog = .error none ∨ ∃ dbs, p = { prog := (pullDecoded userId known).fed dbs } ∧
    dbs.length = steps ∧ (∀ x ∈ dbs, Grows userId x d) ∧
    ∀ k x, n ≤ k → dbs[k]? = some x → Grows userId base x

/-- What a request has seen that was not sent, or that is a pull. -/
def PullInv (userId : Uuid) (base : SyncDb) (n : Nat) (w : SyncWorld I C) (i : I) : Prop :=
  (w.sent i = none → w.server.procs i = { prog := .error none } ∧ w.statements i = 0) ∧
    ∀ known, w.sent i = some (.pull known) →
      Saw userId known base n (w.statements i) w.server.db (w.server.procs i)

/-- The server, the pulls on their way, and what the clients have received. -/
structure SyncInv (log : Uuid → List ModelSyncEvent) (userId : Uuid) (timeText : Nat → String)
    (base : SyncDb) (n : I → Nat) (w : SyncWorld I C) : Prop where
  push : PushInv log userId w
  grows : Grows userId base w.server.db
  pulls : ∀ i, PullInv userId base (n i) w i
  received : ∀ c, HasReceived userId timeText (w.clock c) (w.received c) w.server.db
  pulling : ∀ c i, w.pulling c = some i →
    w.sent i = some (.pull (buildSyncCheckpoints (w.clock c)))

/-- A new pull has seen nothing yet. -/
theorem Saw.start (userId : Uuid) (known : List (String × Int)) (base : SyncDb) (n : Nat)
    (d : SyncDb) : Saw userId known base n 0 d { prog := pullDecoded userId known } := by
  refine Or.inr ⟨[], ?_, rfl, nofun, nofun⟩
  rw [Prog.fed_nil]

omit [Fintype I] in
/-- What requests have seen when one more is sent. -/
theorem PullInv.send {m : Nat} (h : PullInv userId base m w j) {r : SyncSent}
    (hnew : w.sent i = none) : PullInv userId base m (w.send log userId i r) j := by
  by_cases hj : j = i
  · subst hj
    constructor
    · intro hnone
      simp [SyncWorld.send] at hnone
    · intro known hsent
      simp only [SyncWorld.send, Function.update_self, Option.some.injEq] at hsent
      subst hsent
      have hsteps := (h.1 hnew).2
      simp only [SyncWorld.send, State.set_procs_self, hsteps]
      exact Saw.start userId known base m w.server.db
  · unfold PullInv
    simp only [SyncWorld.send, Function.update_of_ne hj, State.set_procs_ne _ hj]
    exact h

/-- What requests have seen when the server goes on with one. -/
theorem PullInv.serve {m : Nat} (h : PullInv userId base m w j) (hbase : Grows userId base w.server.db)
    {act : Act} {s' : State I SyncDb SyncRow (List DbSyncEvent) ApiError SyncAnswer}
    (hstep : w.server.step i act = some s') (hgrows : Grows userId w.server.db s'.db) :
    PullInv userId base m
      { w with server := s', statements := Function.update w.statements i (w.statements i + 1) }
      j := by
  by_cases hj : j = i
  · subst hj
    constructor
    · intro hnone
      obtain ⟨hp, -⟩ := h.1 hnone
      cases act <;> simp [State.step, hp] at hstep
    · intro known hsent
      dsimp only
      rw [Function.update_self]
      rcases h.2 known hsent with hcut | ⟨dbs, hp, hlength, hold, hnew⟩
      · cases act <;> simp [State.step, hcut] at hstep
      · have hreads := (pullDecoded_reads userId known).fed dbs
        obtain ⟨-, hcut | ⟨-, hnext⟩⟩ := State.step_reads hp hreads hstep
        · left
          rw [hcut]
        · refine Or.inr ⟨dbs ++ [w.server.db], ?_, ?_, ?_, ?_⟩
          · rw [hnext, Prog.fed_append (pullDecoded_reads userId known)]
          · rw [List.length_append, hlength, List.length_singleton]
          · intro x hx
            rcases List.mem_append.mp hx with hx | hx
            · exact (hold x hx).trans hgrows
            · rw [List.mem_singleton.mp hx]
              exact hgrows
          · intro k x hk hx
            rcases List.mem_append.mp (List.mem_of_getElem? hx) with hmem | hmem
            · by_cases hkl : k < dbs.length
              · rw [List.getElem?_append_left hkl] at hx
                exact hnew k x hk hx
              · rw [List.getElem?_append_right (not_lt.mp hkl)] at hx
                rw [List.mem_singleton.mp (List.mem_of_getElem? hx)]
                exact hbase
            · rw [List.mem_singleton.mp hmem]
              exact hbase
  · unfold PullInv
    dsimp only
    rw [State.step_procs_ne hstep hj, Function.update_of_ne hj]
    refine ⟨h.1, fun known hsent => ?_⟩
    rcases h.2 known hsent with hcut | ⟨dbs, hp, hlength, hold, hnew⟩
    · exact Or.inl hcut
    · exact Or.inr ⟨dbs, hp, hlength, fun x hx => (hold x hx).trans hgrows, hnew⟩

/-- Requests have seen of the log that stands now nothing that matters. -/
theorem SyncInv.rebase (h : SyncInv log userId timeText base n w) :
    SyncInv log userId timeText w.server.db w.statements w := by
  refine ⟨h.push, LogTable.Extends.refl _, fun i => ⟨(h.pulls i).1, fun known hsent => ?_⟩,
    h.received, h.pulling⟩
  rcases (h.pulls i).2 known hsent with hcut | ⟨dbs, hp, hlength, hold, -⟩
  · exact Or.inl hcut
  · refine Or.inr ⟨dbs, hp, hlength, hold, fun k x hk hx => ?_⟩
    have hlt := (List.getElem?_eq_some_iff.mp hx).1
    omega

/-- The response to a pull, by the databases that its statements saw. -/
structure Answered (userId : Uuid) (base : SyncDb) (n : Nat) (d : SyncDb)
    (checkpoints : List SyncCheckpoint) (known : List SyncDb) (other last : SyncDb)
    (r : SyncResponse) : Prop where
  length : known.length = checkpoints.length
  events : r.events = (answerRows userId checkpoints known other).map dbToModelEvent
  clock : r.serverClock = .ofList ((vectorClockRows userId last).map fun r => (r.1.text, r.2))
  old : ∀ x ∈ other :: known, Grows userId x d
  new : ∀ deviceId, n ≤ statementOf checkpoints deviceId →
    Grows userId base (readAt checkpoints known other deviceId) ∧ Grows userId base last

/-- Every response was read from beginnings of the log. -/
theorem SyncInv.answered (h : SyncInv log userId timeText base n w) {known : List (String × Int)}
    (hsent : w.sent i = some (.pull known)) {r : SyncResponse} (hr : w.response i = some r) :
    ∃ checkpoints dbs other last, decodeCheckpoints known = some checkpoints ∧
      Answered userId base (n i) w.server.db checkpoints dbs other last r := by
  have hret : (w.server.procs i).prog = .ret (.pulled r) := by
    unfold SyncWorld.response at hr
    split at hr
    · rename_i r' hanswer
      cases hr
      exact Prog.answer_eq_some.mp hanswer
    · cases hr
  rcases (h.pulls i).2 known hsent with hcut | ⟨dbs, hp, -, hold, hnew⟩
  · rw [hret] at hcut
    cases hcut
  · rw [hp] at hret
    unfold pullDecoded at hret
    cases hdecode : decodeCheckpoints known with
    | none => simp [hdecode] at hret
    | some checkpoints =>
      simp only [hdecode] at hret
      obtain ⟨seen, other, last, rest, rfl, hlength, hout⟩ := pullSync_fed hret
      cases hout
      refine ⟨checkpoints, seen, other, last, rfl, hlength, rfl, rfl, ?_, ?_⟩
      · intro x hx
        apply hold
        rcases List.mem_cons.mp hx with rfl | hx
        · exact List.mem_append_right _ List.mem_cons_self
        · exact List.mem_append_left _ hx
      · intro deviceId hn
        refine ⟨hnew _ _ hn (getElem?_statementOf hlength (last :: rest)), ?_⟩
        have hle : statementOf checkpoints deviceId ≤ checkpoints.length := List.findIdx_le_length
        apply hnew (checkpoints.length + 1) last (by omega)
        rw [List.getElem?_append_right (by omega), hlength]
        simp

variable [DecidableEq C]

/-- A client merges a response. -/
theorem SyncInv.receive (h : SyncInv log userId timeText base n w) {c : C}
    {items : List EncryptedVaultItem} (hstep : w.receive timeText c items = some w') :
    SyncInv log userId timeText base n w' := by
  obtain ⟨i, hpulling, hstep⟩ := Option.bind_eq_some_iff.mp hstep
  obtain ⟨r, hr, hstep⟩ := Option.bind_eq_some_iff.mp hstep
  cases hstep
  obtain ⟨checkpoints, dbs, other, last, hdecode, ha⟩ := h.answered (h.pulling c i hpulling) hr
  have hevents : r.events.map (clientEvent timeText) =
      (answerRows userId checkpoints dbs other).map (clientRow timeText) := by
    rw [ha.events, List.map_map]
    rfl
  refine ⟨h.push.withClients _ _ _, h.grows, h.pulls, fun c' => ?_, fun c' i' hpulling' => ?_⟩
  · by_cases hc : c' = c
    · subst hc
      dsimp only
      rw [Function.update_self, Function.update_self, hevents]
      exact (h.received c').merge hdecode ha.length ha.old h.push.good.inv h.push.natural
    · dsimp only
      rw [Function.update_of_ne hc, Function.update_of_ne hc]
      exact h.received c'
  · by_cases hc : c' = c
    · subst hc
      dsimp only at hpulling'
      rw [Function.update_self] at hpulling'
      cases hpulling'
    · dsimp only at hpulling' ⊢
      rw [Function.update_of_ne hc] at hpulling' ⊢
      exact h.pulling c' i' hpulling'

omit [DecidableEq C] in
/-- One more request is sent. -/
theorem SyncInv.send (h : SyncInv log userId timeText base n w) {r : SyncSent}
    (hnew : (w.sent i).isNone = true) (hr : ∀ deviceId start count,
      r = .push deviceId start count → start ≤ w.acknowledged deviceId) :
    SyncInv log userId timeText base n (w.send log userId i r) := by
  have hnone := Option.isNone_iff_eq_none.mp hnew
  refine ⟨h.push.send hr, h.grows, fun j => (h.pulls j).send hnone, h.received,
    fun c j hpulling => ?_⟩
  have hsent := h.pulling c j hpulling
  have hj : j ≠ i := by
    rintro rfl
    cases hnone.symm.trans hsent
  simp only [SyncWorld.send, Function.update_of_ne hj]
  exact hsent

/-- Every step keeps the server, the pulls and the clients in order. -/
theorem SyncInv.step (hlog : InSequenceOrder log) (h : SyncInv log userId timeText base n w)
    {e : SyncStep I C} (hstep : w.step log userId timeText e = some w') :
    SyncInv log userId timeText base n w' := by
  cases e with
  | push i deviceId count =>
    simp only [SyncWorld.step] at hstep
    split at hstep
    · rename_i hnew
      cases hstep
      apply h.send hnew
      rintro _ _ _ ⟨⟩
      exact Nat.le_refl _
    · cases hstep
  | acknowledge i =>
    have hpush := h.push.acknowledge hstep
    obtain ⟨acknowledged, rfl⟩ := acknowledge_eq hstep
    exact ⟨hpush, h.grows, h.pulls, h.received, h.pulling⟩
  | ask i known =>
    simp only [SyncWorld.step] at hstep
    split at hstep
    · rename_i hnew
      cases hstep
      exact h.send hnew nofun
    · cases hstep
  | pull i c =>
    simp only [SyncWorld.step] at hstep
    split at hstep
    · rename_i hnew
      cases hstep
      have hsent := h.send (r := .pull (buildSyncCheckpoints (w.clock c))) hnew nofun
      refine ⟨hsent.push.withClients _ _ _, hsent.grows, hsent.pulls, hsent.received,
        fun c' j hpulling => ?_⟩
      by_cases hc : c' = c
      · subst hc
        dsimp only at hpulling
        rw [Function.update_self] at hpulling
        cases hpulling
        simp only [SyncWorld.send, Function.update_self]
      · dsimp only at hpulling
        rw [Function.update_of_ne hc] at hpulling
        exact hsent.pulling c' j hpulling
    · cases hstep
  | receive c items => exact h.receive hstep
  | serve i act =>
    obtain ⟨s', hs', rfl⟩ := Option.map_eq_some_iff.mp hstep
    obtain ⟨hpush, hgrows⟩ := h.push.serve hlog hs'
      (Function.update w.statements i (w.statements i + 1))
    exact ⟨hpush, h.grows.trans hgrows, fun j => (h.pulls j).serve h.grows hs' hgrows,
      fun c => (h.received c).extends hgrows, h.pulling⟩

/-- Every run keeps the server, the pulls and the clients in order. -/
theorem SyncInv.run (hlog : InSequenceOrder log) (h : SyncInv log userId timeText base n w)
    {events : List (SyncStep I C)}
    (hrun : runEvents (SyncWorld.step log userId timeText) events w = some w') :
    SyncInv log userId timeText base n w' :=
  invariant_of_run (fun _ _ _ hs hstep => SyncInv.step hlog hs hstep) h hrun

omit [DecidableEq C] in
/-- Before the first push everything is in order. -/
theorem SyncInv.initial (hd : BeforeFirstPush userId d) :
    SyncInv log userId timeText d (fun _ => 0) (SyncWorld.start d : SyncWorld I C) where
  push := PushInv.initial hd
  grows := LogTable.Extends.refl d
  pulls _ := ⟨fun _ => ⟨rfl, rfl⟩, nofun⟩
  received _ := ⟨nofun, List.nodup_nil, fun _ => ⟨nofun, fun ⟨_, _, _, ⟨_, hk, _⟩, _⟩ =>
    nomatch hk⟩⟩
  pulling := nofun

/-- What a client has received it keeps. -/
theorem mem_received_run {events : List (SyncStep I C)} {c : C} {e : SyncEvent}
    (hrun : runEvents (SyncWorld.step log userId timeText) events w = some w')
    (he : e ∈ w.received c) : e ∈ w'.received c := by
  have hstep : ∀ (step : SyncStep I C) (s s' : SyncWorld I C), e ∈ s.received c →
      s.step log userId timeText step = some s' → e ∈ s'.received c := by
    intro step s s' hs hstep
    cases step with
    | receive c' items =>
      obtain ⟨i, _, hstep⟩ := Option.bind_eq_some_iff.mp hstep
      obtain ⟨r, _, hstep⟩ := Option.bind_eq_some_iff.mp hstep
      cases hstep
      by_cases hc : c = c'
      · subst hc
        dsimp only
        rw [Function.update_self]
        exact List.mem_append_left _ hs
      · dsimp only
        rwa [Function.update_of_ne hc]
    | acknowledge i =>
      obtain ⟨acknowledged, rfl⟩ := acknowledge_eq hstep
      exact hs
    | serve i act =>
      obtain ⟨s'', _, rfl⟩ := Option.map_eq_some_iff.mp hstep
      exact hs
    | push | ask | pull =>
      simp only [SyncWorld.step] at hstep
      split at hstep
      · cases hstep
        exact hs
      · cases hstep
  exact @invariant_of_run _ _ _ (fun w => e ∈ w.received c) _ _ _ hstep he hrun

/-- The run up to a point and the run from there. -/
theorem Reaches.split {before after : List (SyncStep I C)}
    (h : Reaches log userId timeText d (before ++ after) w') :
    ∃ w, Reaches log userId timeText d before w ∧
      runEvents (SyncWorld.step log userId timeText) after w = some w' := by
  rw [Reaches, runEvents_append] at h
  exact Option.bind_eq_some_iff.mp h

/-- A run leaves everything in order. -/
theorem Reaches.inv (hlog : InSequenceOrder log) (hd : BeforeFirstPush userId d)
    {events : List (SyncStep I C)} (h : Reaches log userId timeText d events w) :
    SyncInv log userId timeText d (fun _ => 0) w :=
  (SyncInv.initial hd).run hlog h

/-- Every response counts and covers what was stored when its queries had not run. -/
theorem coversWhatWasStored (hlog : InSequenceOrder log) (hd : BeforeFirstPush userId d)
    (before after : List (SyncStep I C)) :
    CoversWhatWasStored log userId timeText d before after := by
  intro w₁ w h₁ h i known checkpoints r hsent hdecode hr e he huser hn
  obtain ⟨w₁', h₁', hrun⟩ := h.split
  cases h₁.symm.trans h₁'
  have hinv := (h₁.inv hlog hd).rebase.run hlog hrun
  obtain ⟨checkpoints', dbs, other, last, hdecode', ha⟩ := hinv.answered hsent hr
  cases hdecode.symm.trans hdecode'
  obtain ⟨hread, hlast⟩ := ha.new e.deviceId hn
  constructor
  · unfold SyncResponse.Counts
    rw [ha.clock]
    exact counted_of_mem (hlast.mem he) huser
  · unfold SyncResponse.Covers
    rw [ha.events]
    have hmem : e ∈ (readAt checkpoints dbs other e.deviceId).syncEvents := hread.mem he
    rcases covered_of_mem_readAt ha.length hmem huser with hknown | hbelow | ⟨hother, hdevice⟩
    · exact Or.inl (List.mem_map_of_mem (List.mem_append_left _ hknown))
    · exact Or.inr hbelow
    · left
      apply List.mem_map_of_mem
      apply List.mem_append_right
      rw [mem_eventsWhere, ofOtherDevices_iff]
      exact ⟨hother, huser, hdevice⟩

/-- A client that has the response to a pull has what was stored when it sent the pull. -/
theorem mem_received_of_stored (hlog : InSequenceOrder log) {w₁ w₂ : SyncWorld I C} {c : C}
    {items : List EncryptedVaultItem} {mid : List (SyncStep I C)}
    (h₁ : SyncInv log userId timeText base n w₁)
    (hmid : runEvents (SyncWorld.step log userId timeText) (.pull i c :: mid) w₁ = some w₂)
    (hpulling : w₂.pulling c = some i) (hreceive : w₂.receive timeText c items = some w')
    {row : DbSyncEvent} (hrow : row ∈ w₁.server.db.syncEvents) (huser : row.userId = userId) :
    clientRow timeText row ∈ w'.received c := by
  have hnew : w₁.sent i = none := by
    obtain ⟨_, hstep, -⟩ := Option.bind_eq_some_iff.mp hmid
    simp only [SyncWorld.step] at hstep
    split at hstep
    · rename_i hnone
      exact Option.isNone_iff_eq_none.mp hnone
    · cases hstep
  have h₂ := h₁.rebase.run hlog hmid
  obtain ⟨i', hpulling', hreceive⟩ := Option.bind_eq_some_iff.mp hreceive
  cases hpulling.symm.trans hpulling'
  obtain ⟨r, hr, hreceive⟩ := Option.bind_eq_some_iff.mp hreceive
  cases hreceive
  obtain ⟨checkpoints, dbs, other, last, hdecode, ha⟩ := h₂.answered (h₂.pulling c i hpulling) hr
  dsimp only
  rw [Function.update_self, List.mem_append]
  by_cases hseen : Seen (w₂.clock c) row
  · left
    rw [(h₂.received c).mem]
    exact ⟨row, h₂.grows.mem hrow, huser, hseen, rfl⟩
  · right
    have hzero : w₁.statements i ≤ statementOf checkpoints row.deviceId := by
      rw [((h₁.pulls i).1 hnew).2]
      exact Nat.zero_le _
    rw [ha.events, List.map_map]
    apply List.mem_map_of_mem
    rw [(h₂.received c).mem_answerRows hdecode ha.length]
    exact ⟨(ha.new row.deviceId hzero).1.mem hrow, huser, hseen⟩

/-- Clients receive what is stored, each event once. -/
theorem receivesOnce (hlog : InSequenceOrder log) (hd : BeforeFirstPush userId d)
    (events : List (SyncStep I C)) : ReceivesOnce log userId timeText d events := by
  intro w h c
  have hreceived := (h.inv hlog hd).received c
  refine ⟨fun e he => ?_, fun row _ _ => ?_, ?_⟩
  · obtain ⟨row, hrow, huser, -, hrow'⟩ := (hreceived.mem e).mp he
    exact ⟨row, hrow, huser, hrow'⟩
  · exact List.nodup_iff_count_le_one.mp hreceived.nodup _
  · intro before i mid items after hsplit hpulling w₁ h₁ row hrow huser
    apply List.count_eq_one_of_mem hreceived.nodup
    have hsplit' : events = (before ++ .pull i c :: mid) ++ .receive c items :: after := hsplit
    rw [hsplit'] at h
    obtain ⟨w₂, h₂, hrest⟩ := h.split
    obtain ⟨w₃, hreceive, hafter⟩ := Option.bind_eq_some_iff.mp hrest
    obtain ⟨w₁', h₁', hmid⟩ := h₂.split
    cases h₁.symm.trans h₁'
    apply mem_received_run hafter
    exact mem_received_of_stored hlog (h₁.inv hlog hd) hmid (hpulling w₂ h₂) hreceive hrow huser

/-- Accepted events are stored unless others took their place. -/
theorem storesUnlessTaken (hlog : InSequenceOrder log) (hd : BeforeFirstPush userId d)
    (events : List (SyncStep I C)) : StoresUnlessTaken log userId timeText d events := by
  intro w h i deviceId start count hsent ha
  obtain ⟨rows, hrows, htaken⟩ := (h.inv hlog hd).push.accepted hsent ha
  refine ⟨rows, hrows, fun row hrow => ?_⟩
  obtain ⟨s, hs, hclash⟩ := htaken row hrow
  by_cases hsame : s = row
  · exact Or.inl (hsame ▸ hs)
  · exact Or.inr ⟨s, hs, hsame, hclash⟩

end Runs

/-- A device of a user. -/
def oneDevice : SyncDb where
  devices := [{ id := 10, userId := 1 }]

/-- An event of that device. -/
def deviceEvent (id : Uuid) (sequenceNumber : Int) : ModelSyncEvent where
  id := id
  userId := 1
  deviceId := 10
  sequenceNumber := sequenceNumber
  eventType := .upsert
  itemId := 5

/-- The device has some events. -/
def eventsOf (events : List ModelSyncEvent) (deviceId : Uuid) : List ModelSyncEvent :=
  if deviceId = 10 then events else []

/-- One device alone is in sequence order when its events are. -/
theorem eventsOf_inSequenceOrder {events : List ModelSyncEvent}
    (hdevice : ∀ e ∈ events, e.deviceId = 10)
    (horder : events.Pairwise fun e e' => e.sequenceNumber < e'.sequenceNumber) :
    InSequenceOrder (eventsOf events) := by
  intro deviceId
  unfold eventsOf
  by_cases hd : deviceId = 10
  · rw [if_pos hd, hd]
    exact ⟨hdevice, horder⟩
  · rw [if_neg hd]
    exact ⟨nofun, List.Pairwise.nil⟩

/-- Nothing was pushed to the device's server. -/
theorem oneDevice_beforeFirstPush : BeforeFirstPush 1 oneDevice :=
  ⟨List.Pairwise.nil, nofun⟩

/-- The server goes some steps further. -/
def serveTimes (i : Fin 3) (count : Nat) : List (SyncStep (Fin 3) Unit) :=
  List.replicate count (.serve i .go)

end Nopass
