import Nopass.Core.Run
import Nopass.Core.Sql.Table
import Nopass.Server.Throttle

/-!
# Concurrent attempts on one throttle key

An attempt makes sure that the key has a row, locks the row and counts on it, in one
transaction. A reset or a cleanup deletes the row. A row that is locked is counted on by
nobody else; a row that is there when an attempt makes sure of it is not locked yet, and
may be gone when the attempt comes to lock it. An attempt that finds its row reads what
the attempts since the last deletion or decay came to.
-/

namespace Nopass

open ReadCommitted Throttle

/-- A row of `login_throttle` under the key. A deleted row and one inserted later are two. -/
structure ThrottleRow where
  /-- Which row it is of those that there were. -/
  birth : Nat
  counter : Counter
  deriving DecidableEq, Repr

/-- The rows of the key, and how many there were. -/
structure ThrottleDb where
  rows : List ThrottleRow
  born : Nat
  deriving DecidableEq, Repr

/-- The key in its unique index, and the rows. -/
inductive ThrottleLock where
  | key
  | row (birth : Nat)
  deriving DecidableEq, Repr

/-- What a commit did. -/
inductive ThrottleTag where
  /-- An attempt was counted on what it read of the row. -/
  | counted (basis : Counter) (failures : Int) (decayed : Bool)
  | refused
  | removed
  | kept
  deriving DecidableEq, Repr

/-- Why a call fails. -/
inductive ThrottleError where
  | rowNotFound
  deriving DecidableEq, Repr

/-- What a call answers. -/
inductive ThrottleAnswer where
  | attempt (attempt : Attempt)
  | done
  deriving DecidableEq, Repr

/-- A call of the throttle. -/
abbrev ThrottleRequest (O : Type) := Prog ThrottleDb ThrottleLock ThrottleTag ThrottleError O

/-- `login_throttle` for the key. -/
def throttleTable : Table ThrottleDb ThrottleLock ThrottleRow where
  get d := d.rows
  set rows d := { d with rows := rows }
  key r := .row r.birth

/-- An account with no attempts for a day starts from zero again. -/
def decays (clock : Clock) (counter : Counter) : Bool :=
  decide (numSeconds (clock.server - counter.updatedAt) > decaySecs)

/-- The row of a first attempt. -/
def firstCounter (clock : Clock) : Counter where
  failures := 0
  lockedUntil := none
  updatedAt := clock.database

/-- `INSERT … ON CONFLICT DO NOTHING`. -/
def insertCounter (clock : Clock) : ThrottleRequest Unit :=
  .stmt (fun _ n => if n.rows.isEmpty then [(.key, .update)] else [])
    (fun _ n d => if n.rows.isEmpty then
        { rows := d.rows ++ [{ birth := n.born, counter := firstCounter clock }],
          born := n.born + 1 }
      else d)
    fun _ _ => .ret ()

/-- What follows the locking read of `record_attempt`. -/
def afterRead (clock : Clock) (policy : Policy) :
    List ThrottleRow → ThrottleRequest ThrottleAnswer
  | [] => .rollback (.error (some .rowNotFound))
  | row :: _ =>
    match recordAttempt clock policy (some row.counter) with
    | (.locked retryAfterSecs, _) => .commit .refused (.ret (.attempt (.locked retryAfterSecs)))
    | (.allowed failures, counter) => do
      let _ ← throttleTable.update (fun _ _ => true) fun r => { r with counter := counter }
      .commit (.counted row.counter failures (decays clock row.counter))
        (.ret (.attempt (.allowed failures)))

/-- `record_attempt` from `SELECT … FOR UPDATE` on. -/
def lockingRead (clock : Clock) (policy : Policy) : ThrottleRequest ThrottleAnswer := do
  let rows ← throttleTable.selectFor .update fun _ _ => true
  afterRead clock policy rows

/-- The calls. -/
inductive ThrottleCall where
  | recordAttempt (clock : Clock) (policy : Policy)
  | reset
  | pruneStale (now : Int)

/-- A `DELETE` of the rows with a property. -/
def deleteRows (cond : ThrottleRow → Bool) : ThrottleRequest ThrottleAnswer := do
  let _ ← autocommit (throttleTable.delete fun _ => cond) fun rows =>
    if rows.isEmpty then .kept else .removed
  pure .done

/-- A call, statement by statement. -/
def ThrottleCall.request : ThrottleCall → ThrottleRequest ThrottleAnswer
  | .recordAttempt clock policy => do
    insertCounter clock
    lockingRead clock policy
  | .reset => deleteRows fun _ => true
  | .pruneStale now => deleteRows fun r =>
    decide (r.counter.updatedAt < now - seconds decaySecs) &&
      r.counter.lockedUntil.all (· < now)

/-! ## What is promised -/

/-- The attempts since the last deletion or decay, after one more commit. -/
def countStep (count : Int) : ThrottleTag → Int
  | .counted _ _ decayed => if decayed then 1 else count + 1
  | .refused => count
  | .removed => 0
  | .kept => count

/-- The attempts since the last deletion or decay. -/
def attempts (start : Int) (tags : List ThrottleTag) : Int := tags.foldl countStep start

/-- A deletion or a decay. -/
def ThrottleTag.startsOver : ThrottleTag → Bool
  | .counted _ _ decayed => decayed
  | .removed => true
  | .refused => false
  | .kept => false

section Run

variable {I : Type} [DecidableEq I] [Fintype I]

/-- The server with its calls. -/
abbrev ThrottleState (I : Type) :=
  State I ThrottleDb ThrottleLock ThrottleTag ThrottleError ThrottleAnswer

/-- The attempts that the row of the key stands for. -/
def counted (d : ThrottleDb) : Int := (d.rows.head?.map (·.counter.failures)).getD 0

/-- The calls of a run count the attempts: none fails for want of a row, each that is allowed
reports how many there were since the last deletion or decay, the row of the key has them all, and
no two count on one number unless the count started over with the first or since. -/
structure CountsAttempts (s : ThrottleState I) (sched : List (I × Act)) (s' : ThrottleState I) :
    Prop where
  found : ∀ i, (s'.procs i).prog.refusal ≠ some .rowNotFound
  reported : ∀ i failures, (s'.procs i).prog = .ret (.attempt (.allowed failures)) →
    ∃ e ∈ s.history sched, e.proc = i ∧ ∃ basis decayed, e.tag = .counted basis failures decayed
  counts : ∀ before e after, s.history sched = before ++ e :: after →
    ∀ basis failures decayed, e.tag = .counted basis failures decayed →
      basis.failures = attempts (counted s.db) (before.map (·.tag)) ∧
        failures = attempts (counted s.db) ((before ++ [e]).map (·.tag))
  stored : counted s'.db = attempts (counted s.db) ((s.history sched).map (·.tag))
  distinct : ∀ before e mid e' after, s.history sched = before ++ e :: (mid ++ e' :: after) →
    ∀ basis failures basis' failures' decayed', e.tag = .counted basis failures false →
      e'.tag = .counted basis' failures' decayed' → (∀ x ∈ mid, x.tag.startsOver = false) →
        basis.failures ≠ basis'.failures

/-- A number of an `INTEGER` column. -/
def FitsInt32 (n : Int) : Prop := -2 ^ 31 ≤ n ∧ n < 2 ^ 31

/-- When the locking read of an attempt completes, a row that its snapshot has is still there, and
one that is neither locked nor decayed can be counted on in 32 bits. -/
def FindsRow (s : ThrottleState I) (step : I × Act) : Prop :=
  ∀ clock policy, (s.procs step.1).prog = lockingRead clock policy →
    ∀ snap ∈ (s.procs step.1).snap,
      let view := (s.procs step.1).write s.db
      (∃ row ∈ view.rows, row.birth ∈ snap.rows.map (·.birth)) ∧
      ∀ row ∈ view.rows, row.counter.lockedUntil.all (· ≤ clock.server) = true →
        decays clock row.counter = false → FitsInt32 (row.counter.failures + 1)

/-- The calls at their start. -/
def startCalls (d : ThrottleDb) (calls : I → ThrottleCall) : ThrottleState I :=
  State.start d fun i => (calls i).request

/-- The key has at most one row. -/
def OneRow (d : ThrottleDb) : Prop := d.rows.length ≤ 1

end Run

/-! ## One call -/

section Call

variable {clock : Clock} {policy : Policy} {counter counter' : Counter} {failures : Int}
  {d d' : ThrottleDb} {r : ThrottleRow} {w : ThrottleDb → ThrottleDb}
  {L : List (ThrottleLock × LockMode)}

/-- What an attempt that is allowed comes to. -/
theorem recordAttempt_allowed
    (h : recordAttempt clock policy (some counter) = (.allowed failures, counter')) :
    counter'.failures = failures ∧
      failures = (if decays clock counter then 1 else wrap32 (counter.failures + 1)) ∧
      counter.lockedUntil.all (· ≤ clock.server) = true := by
  unfold recordAttempt at h
  simp only [Option.getD_some] at h
  split at h
  · cases h
  · rename_i hfree
    simp only [Prod.mk.injEq, Attempt.allowed.injEq] at h
    obtain ⟨rfl, rfl⟩ := h
    refine ⟨rfl, ?_, ?_⟩
    · simp [decays]
    · rw [Option.all_eq_true]
      intro locked hlocked
      rw [Option.filter_eq_none_iff] at hfree
      have hnot := hfree locked hlocked
      simpa using hnot

/-- An attempt is refused while the row is locked. -/
theorem lockedUntil_of_locked {secs : Int}
    (h : recordAttempt clock policy (some counter) = (.locked secs, counter')) :
    counter.lockedUntil ≠ none := by
  intro hnone
  simp [recordAttempt, hnone] at h

/-- One more attempt that fits is one more. -/
theorem wrap32_of_fits {n : Int} (h : FitsInt32 n) : wrap32 n = n := by
  obtain ⟨hlow, hhigh⟩ := h
  rw [wrap32]
  apply Int.bmod_eq_of_le
  · omega
  · omega

/-- The rows of a key are none or one. -/
theorem OneRow.cases (h : OneRow d) : d.rows = [] ∨ ∃ r, d.rows = [r] := by
  unfold OneRow at h
  cases hrows : d.rows with
  | nil => exact Or.inl rfl
  | cons r rest =>
    rw [hrows, List.length_cons] at h
    have hrest : rest = [] := List.length_eq_zero_iff.mp (by omega)
    exact Or.inr ⟨r, by rw [hrest]⟩

/-- A row of the key is its only one. -/
theorem OneRow.eq_singleton (h : OneRow d) (hr : r ∈ d.rows) : d.rows = [r] := by
  rcases h.cases with hnone | ⟨r', hr'⟩
  · rw [hnone] at hr
    cases hr
  · rw [hr'] at hr ⊢
    rw [List.mem_singleton.mp hr]

@[simp] theorem counted_nil (h : d.rows = []) : counted d = 0 := by
  simp [counted, h]

/-- The count of a row. -/
theorem counted_singleton (h : d.rows = [r]) : counted d = r.counter.failures := by
  simp [counted, h]

/-- What a commit does to the count. -/
def CommitsAs : ThrottleTag → ThrottleDb → ThrottleDb → Prop
  | .counted basis failures _, d, d' => basis.failures = counted d ∧ counted d' = failures
  | .refused, d, d' => d' = d
  | .removed, _, d' => counted d' = 0
  | .kept, d, d' => d' = d

/-- What concurrent calls promise each other. -/
def attemptSpec : Spec ThrottleDb ThrottleLock ThrottleTag ThrottleError where
  inv := OneRow
  guar _ _ := True
  guar_refl _ := trivial
  guar_trans _ _ := trivial
  keeps k _ d d' :=
    match k with
    | .key => d.rows = [] → d' = d
    | .row birth => (∃ r ∈ d.rows, r.birth = birth) → d' = d
  keeps_refl k _ _ := by
    cases k with
    | key => exact fun _ => rfl
    | row birth => exact fun _ => rfl
  keeps_trans {k} _ {a} {b} {c} h h' := by
    cases k with
    | key =>
      intro ha
      have hb := h ha
      subst hb
      exact h' ha
    | row birth =>
      intro ha
      have hb := h ha
      subst hb
      exact h' ha
  allow _ _ := True
  asserts := CommitsAs

/-- A transaction holds the row `r`: a stored one that it has locked, or its own first one. -/
structure CounterHeld (L : List (ThrottleLock × LockMode)) (w : ThrottleDb → ThrottleDb)
    (d : ThrottleDb) (r : ThrottleRow) : Prop where
  rows : (w d).rows = [r]
  source : (w d = d ∧ (ThrottleLock.row r.birth, LockMode.update) ∈ L) ∨
    (d.rows = [] ∧ r.counter.failures = 0 ∧ r.counter.lockedUntil = none ∧
      (ThrottleLock.key, LockMode.update) ∈ L)

/-- Nobody changes anything under a row that is held. -/
theorem CounterHeld.rely (h : CounterHeld L w d r) (hr : attemptSpec.Rely L d d') : d' = d := by
  rcases h.source with ⟨hw, hlock⟩ | ⟨hnone, -, -, hlock⟩
  · apply hr.keeps _ hlock
    have hrows := h.rows
    rw [hw] at hrows
    exact ⟨r, by rw [hrows]; exact List.mem_cons_self, rfl⟩
  · exact hr.keeps _ hlock hnone

/-- The count that a held row continues. -/
theorem CounterHeld.counted (h : CounterHeld L w d r) : r.counter.failures = Nopass.counted d := by
  rcases h.source with ⟨hw, -⟩ | ⟨hnone, hzero, -, -⟩
  · have hrows := h.rows
    rw [hw] at hrows
    rw [counted_singleton hrows]
  · rw [counted_nil hnone, hzero]

/-- Nobody else has locked what a held row's holder changes. -/
theorem CounterHeld.frame (h : CounterHeld L w d r) (d' : ThrottleDb) : attemptSpec.Frame L d d' := by
  have hconflict : ∀ k m, (k, LockMode.update) ∈ L →
      ¬ ∀ l ∈ L, l.1 = k → l.2.compatible m = true := by
    intro k m hl hcompat
    have hupdate := hcompat _ hl rfl
    rw [LockMode.compatible_comm, LockMode.compatible_update] at hupdate
    cases hupdate
  rintro k m hcompat
  rcases h.source with ⟨hw, hlock⟩ | ⟨hnone, -, -, hlock⟩
  · have hrows := h.rows
    rw [hw] at hrows
    cases k with
    | key =>
      intro hempty
      rw [hrows] at hempty
      cases hempty
    | row birth =>
      rintro ⟨r', hr', rfl⟩
      rw [hrows] at hr'
      rw [List.mem_singleton.mp hr'] at hcompat
      exact (hconflict _ m hlock hcompat).elim
  · cases k with
    | key => exact (hconflict _ m hlock hcompat).elim
    | row birth =>
      rintro ⟨r', hr', -⟩
      rw [hnone] at hr'
      cases hr'

/-- More locks change nothing. -/
theorem CounterHeld.append (h : CounterHeld L w d r) (L' : List (ThrottleLock × LockMode)) :
    CounterHeld (L ++ L') w d r := by
  refine ⟨h.rows, ?_⟩
  rcases h.source with ⟨hw, hlock⟩ | ⟨hnone, hzero, hfree, hlock⟩
  · exact Or.inl ⟨hw, List.mem_append_left _ hlock⟩
  · exact Or.inr ⟨hnone, hzero, hfree, List.mem_append_left _ hlock⟩

/-- The rows that a statement on all rows changes are the only one. -/
theorem hits_singleton {s n : ThrottleDb} (hs : s.rows = [r]) (hn : n.rows = [r]) :
    throttleTable.hits (fun _ _ => true) s n = [r] := by
  simp [Table.hits, Table.reread, Table.candidates, throttleTable, hs, hn]

/-- An attempt that holds its row counts on it, or leaves it. -/
theorem wp_afterRead (rest : List ThrottleRow) (h : CounterHeld L w d r) :
    attemptSpec.wp (fun _ _ _ _ => True) (afterRead clock policy (r :: rest)) L w d := by
  rw [afterRead]
  split
  · rename_i secs counter' hrecord
    intro d' hr _
    have hsame := h.rely hr
    subst hsame
    refine ⟨?_, fun _ _ => trivial⟩
    rcases h.source with ⟨hw, -⟩ | ⟨-, -, hfree, -⟩
    · rw [hw]
      exact ⟨rfl, hr.inv, trivial, h.frame d'⟩
    · exact (lockedUntil_of_locked hrecord hfree).elim
  · rename_i failures counter' hrecord
    obtain ⟨hcounter, -, -⟩ := recordAttempt_allowed hrecord
    apply Table.wp_update_bind
    intro s hs n hn _
    have hsame := h.rely hs
    subst hsame
    have hsame := h.rely hn
    subst hsame
    rw [hits_singleton h.rows h.rows]
    intro d' hr _
    have hsame := h.rely hr.of_append
    subst hsame
    have hafter : (throttleTable.edit ([r].map throttleTable.key)
        (fun r => { r with counter := counter' }) (w d')).rows =
          [{ r with counter := counter' }] := by
      have hrows := h.rows
      simp [Table.edit, throttleTable, hrows]
    refine ⟨⟨⟨h.counted, ?_⟩, ?_, trivial, ?_⟩, fun _ _ => trivial⟩
    · rw [Function.comp_apply, counted_singleton hafter]
      exact hcounter
    · change OneRow _
      rw [OneRow]
      exact (congrArg List.length hafter).le
    · exact (h.append _).frame _

/-- A deletion keeps the promise. -/
theorem deleteRows_keeps (cond : ThrottleRow → Bool) :
    attemptSpec.Valid (deleteRows cond) fun _ _ => True := by
  intro d hd s hs n hn
  have hn' : OneRow n := hn.inv
  cases hhits : throttleTable.hits (fun _ => cond) s n with
  | nil =>
    intro d' hr _
    have hdrop : throttleTable.drop [] d' = d' := by
      simp [Table.drop, throttleTable]
    simp only [id_eq, hhits, List.map_nil, Function.comp_apply, hdrop]
    exact ⟨⟨rfl, hr.inv, trivial, fun k m _ => attemptSpec.keeps_refl k m d'⟩, fun _ _ => trivial⟩
  | cons r rest =>
    have hr : r ∈ throttleTable.hits (fun _ => cond) s n := by
      rw [hhits]
      exact List.mem_cons_self
    have hrows := hn'.eq_singleton (throttleTable.mem_hits.mp hr).1
    have hheld : CounterHeld (throttleTable.locked (fun _ => cond) .update s n) id n r :=
      ⟨hrows, Or.inl ⟨rfl, throttleTable.locked_of_mem_hits hr .update⟩⟩
    intro d' hrely _
    have hsame := hheld.rely hrely
    subst hsame
    have hgone : (throttleTable.drop ((throttleTable.hits (fun _ => cond) s d').map
        throttleTable.key) d').rows = [] := by
      rw [hhits]
      simp [Table.drop, throttleTable, hrows]
    simp only [id_eq, Function.comp_apply]
    refine ⟨⟨?_, ?_, trivial, hheld.frame _⟩, fun _ _ => trivial⟩
    · rw [hhits] at hgone
      simp only [hhits]
      exact counted_nil hgone
    · change OneRow _
      rw [OneRow, hgone]
      exact Nat.zero_le 1

/-- An attempt that did not insert the row keeps the promise. -/
theorem lockingRead_keeps (clock : Clock) (policy : Policy) :
    attemptSpec.Valid (lockingRead clock policy) fun _ _ => True := by
  intro d hd s hs n hn
  cases hhits : throttleTable.hits (fun _ _ => true) s n with
  | nil =>
    simp only [id_eq, hhits]
    exact fun _ _ => fun _ _ => id
  | cons r rest =>
    have hr : r ∈ throttleTable.hits (fun _ _ => true) s n := by
      rw [hhits]
      exact List.mem_cons_self
    have hn' : OneRow n := hn.inv
    have hrows := hn'.eq_singleton (throttleTable.mem_hits.mp hr).1
    have hheld : CounterHeld (throttleTable.locked (fun _ _ => true) .update s n) id n r :=
      ⟨hrows, Or.inl ⟨rfl, throttleTable.locked_of_mem_hits hr .update⟩⟩
    simp only [id_eq, hhits]
    exact wp_afterRead rest hheld

/-- Every call keeps the promise. -/
theorem request_keeps (call : ThrottleCall) :
    attemptSpec.Valid call.request fun _ _ => True := by
  cases call with
  | reset => exact deleteRows_keeps _
  | pruneStale now => exact deleteRows_keeps _
  | recordAttempt clock policy =>
    intro d hd s₀ hs₀ n₀ hn₀
    dsimp only [id_eq]
    by_cases hempty : n₀.rows.isEmpty = true
    · have hnone := List.isEmpty_iff.mp hempty
      simp only [hempty, if_true, List.nil_append]
      have hheld : CounterHeld [(ThrottleLock.key, LockMode.update)]
          (fun d => { rows := d.rows ++ [{ birth := n₀.born, counter := firstCounter clock }],
                      born := n₀.born + 1 }) n₀
          { birth := n₀.born, counter := firstCounter clock } :=
        ⟨by simp [hnone], Or.inr ⟨hnone, rfl, rfl, List.mem_cons_self⟩⟩
      intro s hs n hn
      have hsame := hheld.rely hs
      subst hsame
      have hsame := hheld.rely hn
      subst hsame
      have hhits := hits_singleton hheld.rows hheld.rows
      simp only [Function.comp_apply, id_eq, hhits]
      exact wp_afterRead [] (hheld.append _)
    · simp only [hempty, Bool.false_eq_true, if_false, List.nil_append]
      exact lockingRead_keeps clock policy n₀ hn₀.inv

end Call

/-! ## Calls that find their row -/

section Found

variable {clock : Clock} {policy : Policy} {r : ThrottleRow}
  {prog : ThrottleRequest ThrottleAnswer}

/-- An attempt is counted on without an overflow. -/
def TagFits (tag : ThrottleTag) : Prop :=
  ∀ basis failures decayed, tag = .counted basis failures decayed →
    failures = if decayed then 1 else basis.failures + 1

/-- A call that fails for want of a row, or overflows, in its locking read only. -/
def ReadGuarded : ThrottleRequest ThrottleAnswer → Prop
  | .ret _ => True
  | .error e => e ≠ some .rowNotFound
  | .select next => ∀ d, ReadGuarded (next d)
  | .stmt locks write next =>
    (∃ clock policy, .stmt locks write next = lockingRead clock policy) ∨
      ∀ s n, ReadGuarded (next s n)
  | .commit tag next => TagFits tag ∧ ReadGuarded next
  | .rollback next => ReadGuarded next

/-- An attempt that has a row to count on is sound. -/
theorem guarded_afterRead (rest : List ThrottleRow)
    (h : r.counter.lockedUntil.all (· ≤ clock.server) = true →
      decays clock r.counter = false → FitsInt32 (r.counter.failures + 1)) :
    ReadGuarded (afterRead clock policy (r :: rest)) := by
  rw [afterRead]
  split
  · exact ⟨fun _ _ _ h => (by cases h), trivial⟩
  · rename_i failures counter' hrecord
    obtain ⟨-, hfailures, hfree⟩ := recordAttempt_allowed hrecord
    have hfits : TagFits (.counted r.counter failures (decays clock r.counter)) := by
      rintro _ _ _ ⟨⟩
      rw [hfailures]
      cases hdecays : decays clock r.counter with
      | true => rfl
      | false =>
        simp only [Bool.false_eq_true, if_false]
        exact wrap32_of_fits (h hfree hdecays)
    right
    intro s n
    dsimp only
    split
    · exact ⟨hfits, trivial⟩
    · intro h
      cases h

/-- Every call is sound outside of its locking read. -/
theorem guarded_request (call : ThrottleCall) : ReadGuarded call.request := by
  have hdelete : ∀ cond, ReadGuarded (deleteRows cond) := by
    intro cond
    right
    intro s n
    refine ⟨?_, trivial⟩
    intro basis failures decayed htag
    dsimp only at htag
    split at htag
    · cases htag
    · cases htag
  cases call with
  | reset => exact hdelete _
  | pruneStale now => exact hdelete _
  | recordAttempt clock policy =>
    right
    intro s n
    exact Or.inl ⟨clock, policy, rfl⟩

/-- What the commits of a call count. -/
def countedTag : ThrottleTag → Option Int
  | .counted _ failures _ => some failures
  | _ => none

/-- What the counts of a call have to do with its answer. -/
def ReportsCount (counts : List Int) (out : ThrottleAnswer) : Prop :=
  ∀ failures, out = .attempt (.allowed failures) → counts = [failures]

/-- After its locking read an attempt counts what it reports. -/
theorem afterRead_yields (rows : List ThrottleRow) :
    (afterRead clock policy rows).Yields countedTag ReportsCount [] := by
  cases rows with
  | nil => trivial
  | cons r rest =>
    rw [afterRead]
    split
    · exact nofun
    · intro s n
      dsimp only
      split
      · rintro _ ⟨⟩
        rfl
      · trivial

/-- An attempt that is allowed has counted what it reports. -/
theorem request_yields (call : ThrottleCall) : call.request.Yields countedTag ReportsCount [] := by
  have hdelete : ∀ cond, (deleteRows cond).Yields countedTag ReportsCount [] :=
    fun cond s n => nofun
  cases call with
  | reset => exact hdelete _
  | pruneStale now => exact hdelete _
  | recordAttempt clock policy => exact fun _ _ s n => afterRead_yields _

end Found

/-! ## Runs -/

section Runs

variable {I : Type} [DecidableEq I] [Fintype I] {s s' : ThrottleState I} {i : I} {act : Act}
  {sched : List (I × Act)} {start : Int}

/-- A step that finds its row keeps every call sound. -/
theorem guarded_step (h : s.step i act = some s') (hfinds : FindsRow s (i, act))
    (hg : ∀ j, ReadGuarded (s.procs j).prog) (j : I) : ReadGuarded (s'.procs j).prog := by
  by_cases hj : j = i
  · subst hj
    have hgj := hg j
    rcases State.step_cases h with ⟨-, rfl⟩ | ⟨next, hp, rfl⟩ | ⟨locks, write, next, hp, -, rfl⟩ |
      ⟨locks, write, next, snap, hp, hs, -, rfl⟩ | ⟨tag, next, -, hp, rfl⟩ | ⟨next, hp, rfl⟩
    · rw [State.set_procs_self]
      exact nofun
    · rw [hp] at hgj
      rw [State.set_procs_self]
      exact hgj _
    · rw [State.set_procs_self]
      exact hgj
    · rw [hp] at hgj
      rw [State.set_procs_self]
      dsimp only
      rcases hgj with ⟨clock, policy, hread⟩ | hnext
      · obtain ⟨⟨row, hrow, hbirth⟩, hfits⟩ := hfinds clock policy (hp.trans hread) snap hs
        have hcontinue : next = fun s n => afterRead clock policy
            (throttleTable.hits (fun _ _ => true) s n) := (Prog.stmt.inj hread).2.2
        rw [hcontinue]
        change ReadGuarded (afterRead clock policy
          (throttleTable.hits (fun _ _ => true) snap ((s.procs j).write s.db)))
        have hhit : row ∈ throttleTable.hits (fun _ _ => true) snap
            ((s.procs j).write s.db) := by
          rw [Table.mem_hits]
          obtain ⟨old, hold, hsame⟩ := List.mem_map.mp hbirth
          exact ⟨hrow, ⟨old, hold, rfl, congrArg ThrottleLock.row hsame⟩, rfl⟩
        cases hhits : throttleTable.hits (fun _ _ => true) snap ((s.procs j).write s.db) with
        | nil =>
          rw [hhits] at hhit
          cases hhit
        | cons r rest =>
          have hr : r ∈ throttleTable.hits (fun _ _ => true) snap ((s.procs j).write s.db) := by
            rw [hhits]
            exact List.mem_cons_self
          exact guarded_afterRead rest (hfits r (throttleTable.mem_hits.mp hr).1)
      · exact hnext _ _
    · rw [hp] at hgj
      rw [State.set_procs_self]
      exact hgj.2
    · rw [hp] at hgj
      rw [State.set_procs_self]
      exact hgj
  · rw [State.step_procs_ne h hj]
    exact hg j

/-- Commits that count one after the other. -/
def Tally : Int → List (Event I ThrottleDb ThrottleTag) → Prop
  | _, [] => True
  | count, e :: rest =>
    (∀ basis failures decayed, e.tag = .counted basis failures decayed →
      basis.failures = count ∧ failures = countStep count e.tag) ∧
    Tally (countStep count e.tag) rest

/-- In a run whose attempts find their row every call stays sound, and the commits count. -/
theorem tally_of_exec (h : s.exec sched = some s')
    (hfinds : EventsMeet (fun s x => s.step x.1 x.2) FindsRow sched s)
    (hgood : attemptSpec.Good (fun _ _ _ => True) s) (hg : ∀ j, ReadGuarded (s.procs j).prog) :
    (∀ j, ReadGuarded (s'.procs j).prog) ∧ Tally (counted s.db) (s.history sched) ∧
      counted s'.db = attempts (counted s.db) ((s.history sched).map (·.tag)) := by
  induction sched generalizing s with
  | nil =>
    cases h
    exact ⟨hg, trivial, rfl⟩
  | cons x rest ih =>
    obtain ⟨i, act⟩ := x
    obtain ⟨s₁, h₁, h₂⟩ := Option.bind_eq_some_iff.mp h
    obtain ⟨hgood₁, -, hasserts⟩ := hgood.step h₁ fun _ _ _ => trivial
    obtain ⟨hg', htally, hcount⟩ := ih h₂ (hfinds.2 s₁ h₁) hgood₁
      (guarded_step h₁ hfinds.1 hg)
    rw [State.history_cons h₁]
    rcases State.step_event h₁ with ⟨hnone, hdb, -⟩ | ⟨tag, next, -, hp, hevent, -⟩
    · rw [hnone, ← hdb]
      exact ⟨hg', htally, hcount⟩
    · rw [hevent] at hasserts ⊢
      have hcommits : CommitsAs tag s.db s₁.db := hasserts _ rfl
      have hgi := hg i
      rw [hp] at hgi
      have hstep : counted s₁.db = countStep (counted s.db) tag := by
        cases tag with
        | counted basis failures decayed =>
          rw [hcommits.2, hgi.1 basis failures decayed rfl, hcommits.1]
          rfl
        | refused => rw [show s₁.db = s.db from hcommits]; rfl
        | removed => exact hcommits
        | kept => rw [show s₁.db = s.db from hcommits]; rfl
      rw [hstep] at htally hcount
      refine ⟨hg', ⟨?_, htally⟩, hcount⟩
      rintro basis failures decayed rfl
      exact ⟨hcommits.1, hcommits.2.symm.trans hstep⟩

omit [DecidableEq I] [Fintype I] in
/-- What each commit counted, by those before it. -/
theorem Tally.split {before after : List (Event I ThrottleDb ThrottleTag)}
    {e : Event I ThrottleDb ThrottleTag} (h : Tally start (before ++ e :: after))
    {basis : Counter} {failures : Int} {decayed : Bool}
    (htag : e.tag = .counted basis failures decayed) :
    basis.failures = attempts start (before.map (·.tag)) ∧
      failures = attempts start ((before ++ [e]).map (·.tag)) := by
  induction before generalizing start with
  | nil => exact h.1 basis failures decayed htag
  | cons first rest ih => exact ih h.2

omit [DecidableEq I] [Fintype I] in
variable (start) in
/-- Without a deletion or a decay the attempts become no fewer. -/
theorem le_attempts {mid : List (Event I ThrottleDb ThrottleTag)}
    (h : ∀ x ∈ mid, x.tag.startsOver = false) : start ≤ attempts start (mid.map (·.tag)) := by
  induction mid generalizing start with
  | nil => exact Int.le_refl start
  | cons e rest ih =>
    have hstep : start ≤ countStep start e.tag := by
      have he := h e List.mem_cons_self
      cases htag : e.tag with
      | counted basis failures decayed =>
        rw [htag] at he
        have hno : decayed = false := he
        subst hno
        change start ≤ start + 1
        omega
      | refused => exact Int.le_refl start
      | removed =>
        rw [htag] at he
        cases he
      | kept => exact Int.le_refl start
    exact hstep.trans (ih _ fun x hx => h x (List.mem_cons_of_mem _ hx))

omit [DecidableEq I] [Fintype I] in
/-- Two attempts count on different numbers unless the count started over. -/
theorem Tally.distinct {before mid after : List (Event I ThrottleDb ThrottleTag)}
    {e e' : Event I ThrottleDb ThrottleTag} (h : Tally start (before ++ e :: (mid ++ e' :: after)))
    {basis basis' : Counter} {failures failures' : Int} {decayed' : Bool}
    (htag : e.tag = .counted basis failures false)
    (htag' : e'.tag = .counted basis' failures' decayed')
    (hmid : ∀ x ∈ mid, x.tag.startsOver = false) : basis.failures < basis'.failures := by
  have hsplit : before ++ e :: (mid ++ e' :: after) = (before ++ e :: mid) ++ e' :: after := by
    rw [List.append_assoc, List.cons_append]
  obtain ⟨hbasis, -⟩ := h.split htag
  rw [hsplit] at h
  obtain ⟨hbasis', -⟩ := h.split htag'
  have hle := le_attempts (attempts start ((before ++ [e]).map (·.tag))) hmid
  have hcount : attempts start ((before ++ [e]).map (·.tag)) = basis.failures + 1 := by
    rw [hbasis, attempts, List.map_append, List.foldl_append, List.map_singleton, List.foldl_cons,
      List.foldl_nil, htag]
    rfl
  have hjoin : attempts (attempts start ((before ++ [e]).map (·.tag))) (mid.map (·.tag)) =
      attempts start ((before ++ e :: mid).map (·.tag)) := by
    rw [attempts, attempts, attempts, ← List.foldl_append, ← List.map_append, List.append_assoc]
    rfl
  rw [hcount] at hle hjoin
  rw [hbasis', ← hjoin]
  omega

end Runs

/-- A key with three unsuccessful attempts. -/
def threeAttempts : ThrottleDb where
  rows := [{ birth := 0, counter := { failures := 3, lockedUntil := none, updatedAt := 0 } }]
  born := 1

/-- Attempts of the first calls, and a reset. -/
def attemptsAndReset (i : Fin 3) : ThrottleCall :=
  if i = 2 then .reset else .recordAttempt { server := 5, database := 5 } perNetwork

/-- Some steps of a call. -/
def goTimes (i : Fin 3) (count : Nat) : List (Fin 3 × Act) := List.replicate count (i, .go)

/-- Every row that a statement waits for is there and can be counted on. -/
def RowStays (s : ThrottleState (Fin 3)) (step : Fin 3 × Act) : Prop :=
  ∀ snap ∈ (s.procs step.1).snap,
    (∃ row ∈ ((s.procs step.1).write s.db).rows, row.birth ∈ snap.rows.map (·.birth)) ∧
      ∀ row ∈ ((s.procs step.1).write s.db).rows,
        -2 ^ 31 ≤ row.counter.failures + 1 ∧ row.counter.failures + 1 < 2 ^ 31

instance (s : ThrottleState (Fin 3)) (step : Fin 3 × Act) : Decidable (RowStays s step) :=
  inferInstanceAs (Decidable (∀ snap ∈ (s.procs step.1).snap, _))

end Nopass
