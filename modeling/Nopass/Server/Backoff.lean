import Mathlib.Algebra.BigOperators.Group.Finset.Basic
import Mathlib.Algebra.BigOperators.Intervals
import Mathlib.Data.List.Chain
import Nopass.Server.AttemptCounts

/-!
# How far apart attempts are

The attempts on one key are let through at certain times. As long as no more than a day
lies between one of them and the next, the counter counts them and the lock of each holds
back the next, so that the times add up. An attempt that is held back leaves the counter
as it was, its time included: the day starts with the last attempt that was let through.
-/

namespace Nopass

namespace Throttle

/-- What happens to a key. -/
inductive Happening where
  | attempt
  | reset
  | prune
  deriving DecidableEq, Repr

/-- At which time something happens. The clocks agree. -/
structure Tick where
  now : Int
  what : Happening
  deriving DecidableEq, Repr

variable (policy : Policy) (key : String)

/-- The tables after a tick. -/
def State.tick (s : State) (tick : Tick) : State :=
  match tick.what with
  | .attempt => (s.record ⟨tick.now, tick.now⟩ policy key).2
  | .reset => s.reset [key]
  | .prune => s.pruneStale tick.now

/-- The time of an attempt that a tick lets through. -/
def State.allowed (s : State) (tick : Tick) : Option Int :=
  match tick.what, (s.record ⟨tick.now, tick.now⟩ policy key).1 with
  | .attempt, .allowed _ => some tick.now
  | _, _ => none

/-- The tables after a run. -/
def State.ticks (s : State) (ticks : List Tick) : State := ticks.foldl (State.tick policy key) s

/-- The times of the attempts that a run lets through. -/
def allowedTimes : State → List Tick → List Int
  | _, [] => []
  | s, tick :: ticks =>
    (s.allowed policy key tick).toList ++ allowedTimes (s.tick policy key tick) ticks

/-- No more than a day lies between one time and the next. -/
def DayApart (times : List Int) : Prop := times.IsChain fun t u => u ≤ t + seconds decaySecs

instance (times : List Int) : Decidable (DayApart times) :=
  inferInstanceAs (Decidable (times.IsChain fun t u => u ≤ t + seconds decaySecs))

/-- The seconds that the locks of so many attempts after the free ones add up to. -/
def backoff (policy : Policy) (k : Nat) : Int :=
  ∑ i ∈ Finset.range k, min (policy.baseSecs * 2 ^ i) policy.maxSecs

/-- No more ticks, and one more. -/
@[simp] theorem State.ticks_nil (s : State) : s.ticks policy key [] = s := rfl

theorem State.ticks_concat (s : State) (ticks : List Tick) (tick : Tick) :
    s.ticks policy key (ticks ++ [tick]) = (s.ticks policy key ticks).tick policy key tick := by
  rw [State.ticks, List.foldl_append, List.foldl_cons, List.foldl_nil, State.ticks]

theorem allowedTimes_concat (s : State) (ticks : List Tick) (tick : Tick) :
    allowedTimes policy key s (ticks ++ [tick]) = allowedTimes policy key s ticks ++
      ((s.ticks policy key ticks).allowed policy key tick).toList := by
  induction ticks generalizing s with
  | nil => rw [List.nil_append, allowedTimes, allowedTimes, allowedTimes, List.append_nil]; rfl
  | cons first ticks ih =>
    rw [List.cons_append, allowedTimes, ih, allowedTimes, List.append_assoc]
    rfl

/-- The counter after an attempt that is let through. -/
def Counter.counted (policy : Policy) (failures now : Int) : Counter where
  failures := failures
  lockedUntil := (lockSecs policy failures).map fun secs => now + seconds secs
  updatedAt := now

/-- What an attempt counts on a counter. -/
def nextCount (now : Int) : Option Counter → Int
  | none => 1
  | some row =>
    if numSeconds (now - row.updatedAt) > decaySecs then 1 else wrap32 (row.failures + 1)

/-- Whether a counter lets an attempt through. -/
def Unlocked (now : Int) (counter : Option Counter) : Prop :=
  ∀ row ∈ counter, ∀ until_ ∈ row.lockedUntil, until_ ≤ now

variable {policy key}

/-- An attempt is held back and leaves everything as it was, or is let through and counted. -/
theorem recordAttempt_cases (policy : Policy) (now : Int) (counter : Option Counter) :
    (∃ secs row, ∃ until_ : Int, counter = some row ∧ row.lockedUntil = some until_ ∧
      now < until_ ∧ recordAttempt ⟨now, now⟩ policy counter = (.locked secs, row)) ∨
    Unlocked now counter ∧ recordAttempt ⟨now, now⟩ policy counter =
      (.allowed (nextCount now counter), .counted policy (nextCount now counter) now) := by
  cases counter with
  | none =>
    right
    constructor
    · nofun
    · have hdecays : ¬ numSeconds (now - now) > decaySecs := by
        rw [Int.sub_self]
        decide
      simp only [recordAttempt, Option.getD_none, Option.filter_none, nextCount, if_neg hdecays]
      rfl
  | some row =>
    cases hfilter : row.lockedUntil.filter (now < ·) with
    | some until_ =>
      left
      obtain ⟨huntil, hlater⟩ := Option.filter_eq_some_iff.mp hfilter
      simp only [recordAttempt, Option.getD_some, hfilter]
      exact ⟨_, row, until_, rfl, huntil, of_decide_eq_true hlater, rfl⟩
    | none =>
      right
      constructor
      · intro row' hrow until_ huntil
        obtain rfl := Option.some.inj hrow
        rw [Option.filter_eq_none_iff] at hfilter
        have hnot := hfilter until_ huntil
        simpa using hnot
      · simp only [recordAttempt, Option.getD_some, hfilter, nextCount]
        rfl

/-- An attempt on a counter that lets it through is let through and counted. -/
theorem tick_unlocked {s : State} {now : Int} (h : Unlocked now (s.loginThrottle key)) :
    s.allowed policy key ⟨now, .attempt⟩ = some now ∧
      (s.tick policy key ⟨now, .attempt⟩).loginThrottle key =
        some (.counted policy (nextCount now (s.loginThrottle key)) now) := by
  rcases recordAttempt_cases policy now (s.loginThrottle key) with
    ⟨secs, row, until_, hrow, huntil, hlater, _⟩ | ⟨_, hrecord⟩
  · have hpast := h row hrow until_ huntil
    omega
  · constructor
    · simp only [State.allowed, State.record, hrecord]
    · simp only [State.tick, State.record, hrecord, State.setCounter, if_true]

/-- An attempt that is held back changes no counter. -/
theorem record_locked {s : State} {now secs : Int}
    (h : (s.record ⟨now, now⟩ policy key).1 = .locked secs) :
    (s.record ⟨now, now⟩ policy key).2 = s := by
  rcases recordAttempt_cases policy now (s.loginThrottle key) with
    ⟨secs', row, _, hrow, _, _, hrecord⟩ | ⟨_, hrecord⟩
  · simp only [State.record, hrecord, State.setCounter]
    congr 1
    funext k
    by_cases hk : k = key
    · rw [if_pos hk, hk, hrow]
    · rw [if_neg hk]
  · simp only [State.record, hrecord] at h
    cases h

/-- What a tick does to the counter of the key. -/
theorem tick_cases (policy : Policy) (key : String) (s : State) (tick : Tick) :
    (tick.what = .attempt ∧ Unlocked tick.now (s.loginThrottle key) ∧
      s.allowed policy key tick = some tick.now ∧
      (s.tick policy key tick).loginThrottle key =
        some (.counted policy (nextCount tick.now (s.loginThrottle key)) tick.now)) ∨
    s.allowed policy key tick = none ∧
      ((s.tick policy key tick).loginThrottle key = s.loginThrottle key ∨
        (s.tick policy key tick).loginThrottle key = none ∧ (tick.what = .reset ∨
          ∀ row ∈ s.loginThrottle key, row.updatedAt < tick.now - seconds decaySecs)) := by
  obtain ⟨now, what⟩ := tick
  cases what with
  | attempt =>
    rcases recordAttempt_cases policy now (s.loginThrottle key) with
      ⟨secs, row, _, hrow, _, _, hrecord⟩ | ⟨hunlocked, hrecord⟩
    · right
      constructor
      · simp only [State.allowed, State.record, hrecord]
      · left
        simp only [State.tick, State.record, hrecord, State.setCounter, if_true]
        exact hrow.symm
    · left
      refine ⟨rfl, hunlocked, ?_, ?_⟩
      · simp only [State.allowed, State.record, hrecord]
      · simp only [State.tick, State.record, hrecord, State.setCounter, if_true]
  | reset =>
    right
    constructor
    · rfl
    · right
      constructor
      · simp [State.tick, State.reset]
      · exact .inl rfl
  | prune =>
    right
    constructor
    · rfl
    · simp only [State.tick, State.pruneStale]
      cases hrow : s.loginThrottle key with
      | none => exact .inl rfl
      | some row =>
        rw [Option.filter_some]
        split
        · exact .inl rfl
        · rename_i hkeep
          right
          constructor
          · rfl
          · right
            intro row' hrow'
            obtain rfl := Option.some.inj hrow'
            rw [Bool.not_eq_true, Bool.not_eq_false', Bool.and_eq_true, decide_eq_true_eq] at hkeep
            exact hkeep.1

/-! ## Counting -/

/-- The counter of a key after attempts that were let through at these times. -/
def Counts (policy : Policy) (times : List Int) (counter : Option Counter) : Prop :=
  counter = times.getLast?.map (.counted policy (wrap32 times.length))

/-- More than a day has passed since the last of the times. -/
def Lapsed (times : List Int) (ticks : List Tick) : Prop :=
  ∃ last ∈ times.getLast?, ∃ tick ∈ ticks, last + seconds decaySecs < tick.now

/-- Each time waits for the lock of the one before it. -/
def Spaced (policy : Policy) (times : List Int) : Prop :=
  ∀ (n : Nat) (t u secs : Int), times[n]? = some t → times[n + 1]? = some u →
    lockSecs policy (n + 1) = some secs → t + seconds secs ≤ u

/-- A lock only looks at how far the count is over the free attempts. -/
theorem lockSecs_wrap32 (policy : Policy) (n : Int) :
    lockSecs policy (wrap32 n) = lockSecs policy n := by
  have hover : wrap32 (wrap32 n - policy.free) = wrap32 (n - policy.free) := Int.bmod_sub_bmod
  rw [lockSecs, hover, lockSecs]

/-- Times that are no more than so many seconds apart. -/
theorem numSeconds_le {micros secs : Int} (h : micros ≤ seconds secs) :
    numSeconds micros ≤ secs := by
  have hle := @Int.tdiv_le_tdiv micros (seconds secs) 1000000 (by decide) h
  rw [seconds, Int.mul_tdiv_cancel secs (by decide)] at hle
  exact hle

/-- One more attempt is counted. -/
theorem Counts.concat {times : List Int} {counter : Option Counter} {now : Int}
    (h : Counts policy times counter) (hday : DayApart (times ++ [now])) :
    Counts policy (times ++ [now]) (some (.counted policy (nextCount now counter) now)) := by
  have hcount : nextCount now counter = wrap32 (times ++ [now]).length := by
    rw [List.length_append, List.length_singleton, h]
    cases hlast : times.getLast? with
    | none =>
      rw [List.getLast?_eq_none_iff.mp hlast]
      rfl
    | some last =>
      have hgap : now ≤ last + seconds decaySecs :=
        (List.isChain_append.mp hday).2.2 last hlast now rfl
      have hkept : ¬ numSeconds (now - last) > decaySecs :=
        Int.not_lt.mpr (numSeconds_le (by omega))
      have hnext : wrap32 (wrap32 times.length + 1) = wrap32 (times.length + 1) :=
        Int.bmod_add_bmod
      simp only [Option.map_some, nextCount, Counter.counted, if_neg hkept, hnext]
      rw [Int.natCast_add, Int.natCast_one]
  rw [Counts, List.getLast?_concat, Option.map_some, hcount]

/-- One more time waits for the lock. -/
theorem Spaced.concat {times : List Int} {counter : Option Counter} {now : Int}
    (h : Spaced policy times) (hcounts : Counts policy times counter)
    (hunlocked : Unlocked now counter) : Spaced policy (times ++ [now]) := by
  intro n t u secs ht hu hsecs
  rcases Nat.lt_trichotomy (n + 1) times.length with hlt | heq | hgt
  · rw [List.getElem?_append_left (by omega)] at ht hu
    exact h n t u secs ht hu hsecs
  · rw [List.getElem?_append_left (by omega)] at ht
    rw [heq, List.getElem?_concat_length] at hu
    have hlast : times.getLast? = some t := by
      rw [List.getLast?_eq_getElem?, ← heq, Nat.add_sub_cancel, ht]
    have hlength : (times.length : Int) = n + 1 := by omega
    rw [Counts, hlast, Option.map_some, hlength] at hcounts
    have hlock : (Counter.counted policy (wrap32 (n + 1)) t).lockedUntil =
        some (t + seconds secs) := by
      rw [Counter.counted, lockSecs_wrap32, hsecs, Option.map_some]
    obtain rfl := Option.some.inj hu
    exact hunlocked _ hcounts _ hlock
  · rw [List.getElem?_eq_none (by rw [List.length_append, List.length_singleton]; omega)] at hu
    cases hu

/-- In a run in which no more than a day lies between the attempts that are let through, the counter
counts them until a day has passed, and each waits for the lock of the one before it. -/
theorem counts_of_run {s : State} {ticks : List Tick} (hstart : s.loginThrottle key = none)
    (hreset : ∀ tick ∈ ticks, tick.what ≠ .reset)
    (hsorted : ticks.Pairwise fun a b => a.now ≤ b.now)
    (hday : DayApart (allowedTimes policy key s ticks)) :
    (Counts policy (allowedTimes policy key s ticks)
        ((s.ticks policy key ticks).loginThrottle key) ∨
      Lapsed (allowedTimes policy key s ticks) ticks) ∧
    Spaced policy (allowedTimes policy key s ticks) := by
  induction ticks using List.reverseRecOn with
  | nil =>
    rw [allowedTimes, State.ticks_nil]
    constructor
    · left
      rw [Counts, hstart]
      rfl
    · intro n t u secs ht
      rw [List.getElem?_nil] at ht
      cases ht
  | append_singleton ticks tick ih =>
    rw [allowedTimes_concat] at hday ⊢
    rw [State.ticks_concat]
    obtain ⟨hbefore, _, hlater⟩ := List.pairwise_append.mp hsorted
    obtain ⟨hcounts, hspaced⟩ := ih (fun t ht => hreset t (List.mem_append_left _ ht)) hbefore
      hday.left_of_append
    generalize allowedTimes policy key s ticks = times at hday hcounts hspaced
    rcases tick_cases policy key (s.ticks policy key ticks) tick with
      ⟨_, hunlocked, hallowed, hcounter⟩ | ⟨hallowed, hcounter⟩
    · rw [hallowed, Option.toList_some] at hday ⊢
      have hpresent : Counts policy times ((s.ticks policy key ticks).loginThrottle key) := by
        rcases hcounts with hcounts | ⟨last, hlast, late, hlate, hgap⟩
        · exact hcounts
        · -- An attempt that is let through a day too late is none of this run.
          have hnow := (List.isChain_append.mp hday).2.2 last hlast tick.now rfl
          have hle := hlater late hlate tick List.mem_cons_self
          omega
      constructor
      · left
        rw [hcounter]
        exact hpresent.concat hday
      · exact hspaced.concat hpresent hunlocked
    · rw [hallowed, Option.toList_none, List.append_nil]
      refine ⟨?_, hspaced⟩
      rcases hcounts with hcounts | ⟨last, hlast, late, hlate, hgap⟩
      · rcases hcounter with hsame | ⟨hnone, hwhy⟩
        · left
          rw [hsame]
          exact hcounts
        · cases hlast : times.getLast? with
          | none =>
            left
            rw [hnone, Counts, hlast, Option.map_none]
          | some last =>
            right
            have hold : last < tick.now - seconds decaySecs := by
              rcases hwhy with hwhat | hstale
              · exact absurd hwhat (hreset tick List.mem_concat_self)
              · rw [Counts, hlast, Option.map_some] at hcounts
                exact hstale _ hcounts
            exact ⟨last, hlast, tick, List.mem_concat_self, by omega⟩
      · right
        exact ⟨last, hlast, late, List.mem_append_left _ hlate, hgap⟩

/-- A count over the free attempts has a lock. -/
theorem lockSecs_over {k : Nat} (hk : k < 2 ^ 31) :
    lockSecs policy (policy.free + k) =
      some (min (min (policy.baseSecs * 2 ^ min k 30) (2 ^ 63 - 1)) policy.maxSecs) := by
  have hover : wrap32 (policy.free + k - policy.free) = k := by
    have hcancel : policy.free + k - policy.free = k := by omega
    rw [hcancel, wrap32_of_fits ⟨by omega, by omega⟩]
  have hshift : (min (k : Int) 30).toNat = min k 30 := by omega
  simp only [lockSecs, hover, hshift]
  rw [if_neg (by omega)]

/-- A lock of no more than a day is the one of the doubling schedule. -/
theorem lockSecs_of_le_day {k : Nat} {secs : Int} (hbase : 0 < policy.baseSecs) (hk : k < 2 ^ 31)
    (h : lockSecs policy (policy.free + k) = some secs) (hday : secs ≤ decaySecs) :
    secs = min (policy.baseSecs * 2 ^ k) policy.maxSecs := by
  rw [lockSecs_over hk] at h
  have hsecs := Option.some.inj h
  rw [decaySecs] at hday
  by_cases hsmall : k ≤ 30
  · rw [Nat.min_eq_left hsmall] at hsecs
    omega
  · rw [Nat.min_eq_right (by omega)] at hsecs
    have hpow : (2 : Int) ^ 30 ≤ 2 ^ k := by
      exact_mod_cast Nat.pow_le_pow_right (by decide : 2 > 0) (by omega : 30 ≤ k)
    have hscaled : policy.baseSecs * 2 ^ 30 ≤ policy.baseSecs * 2 ^ k :=
      Int.mul_le_mul_of_nonneg_left hpow (by omega)
    omega

/-- What two neighbours among the times are apart. -/
theorem Spaced.next {times : List Int} (h : Spaced policy times) (hday : DayApart times)
    (hbase : 0 < policy.baseSecs) {n k : Nat} {t u : Int} (hn : (n : Int) + 1 = policy.free + k)
    (hk : k < 2 ^ 31) (ht : times[n]? = some t) (hu : times[n + 1]? = some u) :
    t + seconds (min (policy.baseSecs * 2 ^ k) policy.maxSecs) ≤ u := by
  have hsecs := @lockSecs_over policy k hk
  have hwait := h n t u _ ht hu (by rw [hn, hsecs])
  obtain ⟨hlt, rfl⟩ := List.getElem?_eq_some_iff.mp hu
  obtain ⟨hlt', rfl⟩ := List.getElem?_eq_some_iff.mp ht
  have hgap : times[n + 1] ≤ times[n] + seconds decaySecs := hday.getElem n hlt
  rw [← lockSecs_of_le_day hbase hk hsecs (by simp only [seconds] at hwait hgap; omega)]
  exact hwait

/-- The waits add up. -/
theorem Spaced.backoff_le {times : List Int} (h : Spaced policy times) (hday : DayApart times)
    (hfree : 0 < policy.free) (hbase : 0 < policy.baseSecs) {k : Nat} {t u : Int}
    (hk : k < 2 ^ 31) (ht : times[policy.free.toNat - 1]? = some t)
    (hu : times[policy.free.toNat + k]? = some u) : t + seconds (backoff policy (k + 1)) ≤ u := by
  induction k generalizing u with
  | zero =>
    have hnext := @Spaced.next policy times h hday hbase (policy.free.toNat - 1) 0 t u
      (by omega) hk ht (by rw [← hu]; congr 1; omega)
    rw [backoff, Finset.sum_range_one]
    exact hnext
  | succ k ih =>
    obtain ⟨hlt, _⟩ := List.getElem?_eq_some_iff.mp hu
    have hv : times[policy.free.toNat + k]? = some times[policy.free.toNat + k] :=
      List.getElem?_eq_getElem (by omega)
    have hbefore := ih (by omega) hv
    have hnext := @Spaced.next policy times h hday hbase (policy.free.toNat + k) (k + 1) _ u
      (by omega) hk hv hu
    rw [backoff, Finset.sum_range_succ, ← backoff]
    simp only [seconds] at hbefore hnext ⊢
    omega

/-! ## Range -/

/-- The arithmetic of `lock_secs` is exact. -/
structure LockFits (policy : Policy) (failures : Int) : Prop where
  «over» : FitsInt32 (failures - policy.free)
  shift : 0 ≤ failures - policy.free →
    0 ≤ min (failures - policy.free) 30 ∧ min (failures - policy.free) 30 < 64
  product : 0 ≤ failures - policy.free →
    -2 ^ 63 ≤ policy.baseSecs * 2 ^ (min (failures - policy.free) 30).toNat ∧
      policy.baseSecs * 2 ^ (min (failures - policy.free) 30).toNat < 2 ^ 63

/-- The arithmetic of an attempt on a counter is exact. -/
structure AttemptFits (policy : Policy) (counter : Option Counter) : Prop where
  count : ∀ row ∈ counter, FitsInt32 (row.failures + 1)
  lock : ∀ now, LockFits policy (nextCount now counter)

/-- A schedule whose locks are the longest ones from the seventh on. -/
structure Steep (policy : Policy) : Prop where
  free_range : 0 ≤ policy.free ∧ policy.free ≤ 100
  base_range : 0 < policy.baseSecs ∧ policy.baseSecs ≤ 60
  max_range : 900 ≤ policy.maxSecs ∧ policy.maxSecs ≤ 3600
  max_le : policy.maxSecs ≤ policy.baseSecs * 2 ^ 6

/-- Both schedules that are in use are of this kind. -/
theorem steep_of_mem (h : policy ∈ [perNetwork, perAccount]) : Steep policy := by
  rcases List.mem_pair.mp h with rfl | rfl
  · constructor <;> decide
  · constructor <;> decide

/-- More seconds than ten thousand years have. -/
def tenThousandYears : Int := 10000 * 366 * 24 * 60 * 60

/-- A count far over the free attempts took its time. -/
def Paced (policy : Policy) (start : Int) (counter : Option Counter) : Prop :=
  ∀ row ∈ counter, 0 ≤ row.failures ∧ (row.failures ≤ policy.free + 5 ∨
    ∃ until_ ∈ row.lockedUntil,
      start + seconds (policy.maxSecs * (row.failures - policy.free - 5)) ≤ until_ ∧
        until_ ≤ start + seconds (tenThousandYears + policy.maxSecs))

/-- The longest lock. -/
theorem Steep.lockSecs_eq (h : Steep policy) {failures : Int} (hover : policy.free + 5 < failures)
    (hfits : failures < 2 ^ 31) : lockSecs policy failures = some policy.maxSecs := by
  obtain ⟨hfree, _⟩ := h.free_range
  obtain ⟨hbase, hbase'⟩ := h.base_range
  obtain ⟨_, hmax⟩ := h.max_range
  have hcap := h.max_le
  rw [lockSecs, wrap32_of_fits ⟨by omega, by omega⟩, if_neg (by omega)]
  have hpow : (2 : Int) ^ 6 ≤ 2 ^ (min (failures - policy.free) 30).toNat := by
    exact_mod_cast Nat.pow_le_pow_right (by decide : 2 > 0)
      (by omega : 6 ≤ (min (failures - policy.free) 30).toNat)
  have hscaled := Int.mul_le_mul_of_nonneg_left hpow (Int.le_of_lt hbase)
  rw [Option.some.injEq]
  omega

/-- The count of such a counter is far from overflowing. -/
theorem Paced.lt {start : Int} {counter : Option Counter} (h : Paced policy start counter)
    (hsteep : Steep policy) {row : Counter} (hrow : row ∈ counter) :
    0 ≤ row.failures ∧ row.failures + 1 < 2 ^ 31 := by
  obtain ⟨_, hfree⟩ := hsteep.free_range
  obtain ⟨hmax, hmax'⟩ := hsteep.max_range
  obtain ⟨hpos, hsmall | ⟨until_, _, hlow, hhigh⟩⟩ := h row hrow
  · omega
  · refine ⟨hpos, ?_⟩
    by_contra hlarge
    have hscaled := Int.mul_le_mul_of_nonneg_right hmax
      (by omega : 0 ≤ row.failures - policy.free - 5)
    simp only [seconds, tenThousandYears] at hlow hhigh
    omega

/-- The next count is one more or one. -/
theorem Paced.nextCount_eq {start : Int} {counter : Option Counter} (h : Paced policy start counter)
    (hsteep : Steep policy) (now : Int) :
    nextCount now counter = 1 ∨ ∃ row ∈ counter, nextCount now counter = row.failures + 1 := by
  cases counter with
  | none => exact .inl rfl
  | some row =>
    obtain ⟨hpos, hlt⟩ := h.lt hsteep rfl
    rw [nextCount]
    split
    · exact .inl rfl
    · right
      exact ⟨row, rfl, wrap32_of_fits ⟨by omega, by omega⟩⟩

/-- So its arithmetic is exact. -/
theorem Paced.fits {start : Int} {counter : Option Counter} (h : Paced policy start counter)
    (hsteep : Steep policy) : AttemptFits policy counter := by
  obtain ⟨hfree, hfree'⟩ := hsteep.free_range
  obtain ⟨hbase, hbase'⟩ := hsteep.base_range
  constructor
  · intro row hrow
    obtain ⟨hpos, hlt⟩ := h.lt hsteep hrow
    exact ⟨by omega, hlt⟩
  · intro now
    have hrange : 1 ≤ nextCount now counter ∧ nextCount now counter < 2 ^ 31 := by
      rcases h.nextCount_eq hsteep now with hone | ⟨row, hrow, hmore⟩
      · omega
      · have hlt := h.lt hsteep hrow
        omega
    generalize nextCount now counter = failures at hrange
    constructor
    · exact ⟨by omega, by omega⟩
    · intro hover
      omega
    · intro hover
      have hpow : (2 : Int) ^ (min (failures - policy.free) 30).toNat ≤ 2 ^ 30 := by
        exact_mod_cast Nat.pow_le_pow_right (by decide : 2 > 0)
          (by omega : (min (failures - policy.free) 30).toNat ≤ 30)
      have hpos : (0 : Int) ≤ 2 ^ (min (failures - policy.free) 30).toNat :=
        Int.pow_nonneg (by decide)
      have hlow := Int.mul_nonneg (Int.le_of_lt hbase) hpos
      have hhigh := Int.mul_le_mul hbase' hpow hpos (by decide)
      omega

/-- What happens to a key keeps its counter paced. -/
theorem Paced.tick {start : Int} {s : State} (h : Paced policy start (s.loginThrottle key))
    (hsteep : Steep policy) {tick : Tick} (hstart : start ≤ tick.now)
    (hend : tick.now < start + seconds tenThousandYears) :
    Paced policy start ((s.tick policy key tick).loginThrottle key) := by
  rcases tick_cases policy key s tick with ⟨_, hunlocked, _, hcounter⟩ | ⟨_, hsame | ⟨hnone, _⟩⟩
  · rw [hcounter]
    intro row' hrow'
    obtain rfl := Option.some.inj hrow'
    simp only [Counter.counted]
    have hlock := fun hover => @Steep.lockSecs_eq policy hsteep
      (nextCount tick.now (s.loginThrottle key)) hover
    have hfree := hsteep.free_range
    rcases h.nextCount_eq hsteep tick.now with hone | ⟨row, hrow, hmore⟩
    · rw [hone]
      exact ⟨by decide, .inl (by omega)⟩
    · obtain ⟨hpos, hlt⟩ := h.lt hsteep hrow
      rw [hmore] at hlock ⊢
      refine ⟨by omega, ?_⟩
      by_cases hsmall : row.failures + 1 ≤ policy.free + 5
      · exact .inl hsmall
      · right
        have hnext : policy.maxSecs * (row.failures + 1 - policy.free - 5) =
            policy.maxSecs * (row.failures - policy.free - 5) + policy.maxSecs := by
          have hone : row.failures + 1 - policy.free - 5 = row.failures - policy.free - 5 + 1 := by
            omega
          rw [hone, Int.mul_add, Int.mul_one]
        have hbefore : start + seconds (policy.maxSecs * (row.failures - policy.free - 5)) ≤
            tick.now := by
          rcases (h row hrow).2 with hedge | ⟨until_, huntil, hlow, _⟩
          · have hzero : row.failures - policy.free - 5 = 0 := by omega
            rw [hzero, Int.mul_zero, seconds, Int.zero_mul, Int.add_zero]
            exact hstart
          · exact Int.le_trans hlow (hunlocked row hrow until_ huntil)
        refine ⟨tick.now + seconds policy.maxSecs, ?_, ?_, ?_⟩
        · rw [hlock (by omega) hlt, Option.map_some]
          rfl
        · rw [hnext]
          simp only [seconds] at hbefore ⊢
          omega
        · simp only [seconds] at hend ⊢
          omega
  · rw [hsame]
    exact h
  · rw [hnone]
    nofun

/-- So does a run. -/
theorem paced_of_run {start : Int} {s : State} {ticks : List Tick} (hsteep : Steep policy)
    (hs : s.loginThrottle key = none)
    (hspan : ∀ tick ∈ ticks, start ≤ tick.now ∧ tick.now < start + seconds tenThousandYears) :
    Paced policy start ((s.ticks policy key ticks).loginThrottle key) := by
  induction ticks using List.reverseRecOn with
  | nil =>
    rw [State.ticks_nil, hs]
    nofun
  | append_singleton ticks tick ih =>
    have hbefore := ih fun t ht => hspan t (List.mem_append_left _ ht)
    obtain ⟨hstart, hend⟩ := hspan tick List.mem_concat_self
    rw [State.ticks_concat]
    exact hbefore.tick hsteep hstart hend

/-- The attempts that are let through no more than a day apart wait for as long as the locks between
them add up to, an attempt that is held back changes nothing, and the arithmetic of the schedules
in use is exact for ten thousand years. -/
theorem backoff_bounds :
    (∀ policy key (s : State) (ticks : List Tick), 0 < policy.free → 0 < policy.baseSecs →
      policy.baseSecs ≤ policy.maxSecs → s.loginThrottle key = none →
        (∀ tick ∈ ticks, tick.what ≠ .reset) → ticks.Pairwise (fun a b => a.now ≤ b.now) →
          DayApart (allowedTimes policy key s ticks) → ∀ (k : Nat) (t u : Int),
            k < 2 ^ 31 → (allowedTimes policy key s ticks)[policy.free.toNat - 1]? = some t →
            (allowedTimes policy key s ticks)[policy.free.toNat + k]? = some u →
              t + seconds (backoff policy (k + 1)) ≤ u) ∧
    (∀ (s : State) (policy : Policy) key now secs,
      (s.record ⟨now, now⟩ policy key).1 = .locked secs →
        (s.record ⟨now, now⟩ policy key).2 = s) ∧
    (∀ policy ∈ [perNetwork, perAccount], ∀ key (s : State) (ticks : List Tick) start,
      s.loginThrottle key = none →
      (∀ tick ∈ ticks, start ≤ tick.now ∧ tick.now < start + seconds tenThousandYears) →
        AttemptFits policy ((s.ticks policy key ticks).loginThrottle key)) := by
  constructor
  · intro policy key s ticks hfree hbase _ hs hreset hsorted hday k t u hk ht hu
    have hspaced := (counts_of_run hs hreset hsorted hday).2
    exact hspaced.backoff_le hday hfree hbase hk ht hu
  · constructor
    · intro s policy key now secs h
      exact record_locked h
    · intro policy hpolicy key s ticks start hs hspan
      have hsteep := steep_of_mem hpolicy
      exact (paced_of_run hsteep hs hspan).fits hsteep

/-- Tables without rows. -/
def State.empty : State where
  loginThrottle _ := none
  trustedLoginNetworks _ _ := none

/-- Attempts at certain times. -/
def attempts (times : List Int) : List Tick := times.map fun now => { now := now, what := .attempt }

/-- So many attempts at one second. -/
def burst (count : Nat) (second : Int) : List Tick :=
  attempts (List.replicate count (seconds second))

/-- For example the twelfth attempt from a network comes a minute and a half after the tenth. -/
theorem backoff_bounds_twelfth :
    (allowedTimes perNetwork "" .empty (burst 10 0 ++ burst 2 40 ++ burst 1 100))[9]? = some 0 ∧
    (allowedTimes perNetwork "" .empty (burst 10 0 ++ burst 2 40 ++ burst 1 100))[11]? =
      some (seconds 100) ∧ 0 + seconds (backoff perNetwork 2) ≤ seconds 100 ∧
    (State.record (State.ticks perNetwork "" .empty (burst 10 0)) ⟨1, 1⟩ perNetwork "").2 =
      State.ticks perNetwork "" .empty (burst 10 0) ∧
    AttemptFits perNetwork ((State.ticks perNetwork "" .empty (burst 99 0)).loginThrottle "") := by
  have ht : (allowedTimes perNetwork "" .empty (burst 10 0 ++ burst 2 40 ++ burst 1 100))[9]? =
      some 0 := by decide
  have hu : (allowedTimes perNetwork "" .empty (burst 10 0 ++ burst 2 40 ++ burst 1 100))[11]? =
      some (seconds 100) := by decide
  have hbound := backoff_bounds.1 perNetwork "" .empty (burst 10 0 ++ burst 2 40 ++ burst 1 100)
    (by decide) (by decide) (by decide) rfl (by decide) (by decide)
    (by decide) 1 0 (seconds 100) (by decide) ht hu
  have hlocked := backoff_bounds.2.1 (State.ticks perNetwork "" .empty (burst 10 0)) perNetwork ""
    1 29 (by decide)
  have hfits := backoff_bounds.2.2 perNetwork List.mem_cons_self "" .empty (burst 99 0) 0 rfl
    (by decide)
  exact ⟨ht, hu, hbound, hlocked, hfits⟩

/-- One attempt more. -/
theorem attempts_concat (times : List Int) (now : Int) :
    attempts (times ++ [now]) = attempts times ++ [{ now := now, what := .attempt }] := by
  rw [attempts, List.map_append, List.map_singleton, attempts]

/-- The first so many seconds. -/
def firstSeconds (count : Nat) : List Int :=
  (List.range count).map fun second : Nat => seconds second

@[simp] theorem length_firstSeconds (n : Nat) : (firstSeconds n).length = n := by
  rw [firstSeconds, List.length_map, List.length_range]

/-- One second more. -/
theorem firstSeconds_succ (n : Nat) : firstSeconds (n + 1) = firstSeconds n ++ [seconds n] := by
  rw [firstSeconds, List.range_succ, List.map_append, List.map_singleton, firstSeconds]

/-- The last of them. -/
theorem eq_of_mem_getLast?_firstSeconds {n : Nat} {t : Int} (h : t ∈ (firstSeconds n).getLast?) :
    t = seconds (n - 1) := by
  cases n with
  | zero => cases h
  | succ n =>
    rw [firstSeconds_succ, List.getLast?_concat] at h
    obtain rfl := Option.some.inj h
    congr 1
    omega

/-- They are a second apart. -/
theorem dayApart_firstSeconds (n : Nat) : DayApart (firstSeconds n) := by
  induction n with
  | zero => exact List.isChain_nil
  | succ n ih =>
    rw [firstSeconds_succ, DayApart, List.isChain_append]
    refine ⟨ih, List.isChain_singleton _, ?_⟩
    intro t ht u hu
    obtain rfl := Option.some.inj hu
    rw [eq_of_mem_getLast?_firstSeconds ht, seconds, seconds, seconds, decaySecs]
    omega

/-- Attempts each second are all let through when no lock is longer. -/
theorem allowedTimes_everySecond (hmax : policy.maxSecs ≤ 1) (n : Nat) :
    allowedTimes policy key .empty (attempts (firstSeconds n)) = firstSeconds n ∧
      Counts policy (firstSeconds n)
        ((State.ticks policy key .empty (attempts (firstSeconds n))).loginThrottle key) := by
  induction n with
  | zero =>
    have hnone : firstSeconds 0 = [] := rfl
    rw [hnone, attempts, List.map_nil, allowedTimes, State.ticks_nil, Counts]
    constructor
    · rfl
    · rw [List.getLast?_nil, Option.map_none]
      rfl
  | succ n ih =>
    obtain ⟨htimes, hcounts⟩ := ih
    have hday := dayApart_firstSeconds (n + 1)
    rw [firstSeconds_succ] at hday ⊢
    rw [attempts_concat, allowedTimes_concat, State.ticks_concat, htimes]
    generalize State.ticks policy key .empty (attempts (firstSeconds n)) = s at hcounts
    have hunlocked : Unlocked (seconds n) (s.loginThrottle key) := by
      rw [hcounts]
      intro row hrow until_ huntil
      obtain ⟨t, ht, rfl⟩ := Option.map_eq_some_iff.mp hrow
      rw [Counter.counted, lockSecs_wrap32, Option.mem_map] at huntil
      obtain ⟨secs, hsecs, rfl⟩ := huntil
      have hle : secs ≤ policy.maxSecs := by
        rw [lockSecs] at hsecs
        split at hsecs
        · cases hsecs
        · obtain rfl := Option.some.inj hsecs
          exact Int.min_le_right _ _
      rw [eq_of_mem_getLast?_firstSeconds ht, seconds, seconds, seconds]
      omega
    obtain ⟨hallowed, hcounter⟩ := @tick_unlocked policy key s (seconds n) hunlocked
    rw [hallowed, hcounter]
    exact ⟨rfl, hcounts.concat hday⟩

/-- Locks of a second add up to as many seconds. -/
theorem backoff_seconds (free : Int) (k : Nat) :
    backoff { free := free, baseSecs := 1, maxSecs := 1 } k = k := by
  induction k with
  | zero => rfl
  | succ k ih =>
    have hpow : (1 : Int) ≤ 2 ^ k := by
      exact_mod_cast Nat.one_le_two_pow
    have hmin : min (1 * (2 : Int) ^ k) 1 = 1 := by omega
    rw [backoff, Finset.sum_range_succ, ← backoff, ih, hmin]
    rfl

/-- After as many locks as 32 bits count, the count is under the free attempts again. -/
theorem allowed_after_wrap {policy : Policy} (hpolicy : policy = ⟨1, 1, 1⟩) {n : Nat}
    (hn : n = 2 ^ 31) :
    allowedTimes policy key .empty (attempts (firstSeconds (n + 1) ++ [seconds n])) =
      firstSeconds (n + 1) ++ [seconds n] := by
  obtain ⟨htimes, hcounts⟩ := @allowedTimes_everySecond policy key (by rw [hpolicy]) (n + 1)
  have hunlocked : Unlocked (seconds n)
      ((State.ticks policy key .empty (attempts (firstSeconds (n + 1)))).loginThrottle key) := by
    have hwrapped : lockSecs policy (n + 1) = none := by
      rw [hpolicy, hn]
      decide
    rw [Counts, firstSeconds_succ, List.getLast?_concat, Option.map_some, List.length_append,
      List.length_singleton] at hcounts
    rw [firstSeconds_succ, hcounts, length_firstSeconds]
    intro row hrow until_ huntil
    obtain rfl := Option.some.inj hrow
    rw [Counter.counted, lockSecs_wrap32, Int.natCast_add, Int.natCast_one, hwrapped] at huntil
    cases huntil
  rw [attempts_concat, allowedTimes_concat, htimes, (tick_unlocked hunlocked).1]
  rfl

/-- It is not enough that attempts come at least once a day, also those that are held back, nor does
the count go on for ever. -/
theorem backoff_not_bounds :
    ¬ (∀ policy key (s : State) (ticks : List Tick), 0 < policy.free → 0 < policy.baseSecs →
      policy.baseSecs ≤ policy.maxSecs → s.loginThrottle key = none →
        (∀ tick ∈ ticks, tick.what = .attempt) → ticks.Pairwise (fun a b => a.now ≤ b.now) →
          DayApart (ticks.map Tick.now) → ∀ (k : Nat) (t u : Int),
            k < 2 ^ 31 → (allowedTimes policy key s ticks)[policy.free.toNat - 1]? = some t →
            (allowedTimes policy key s ticks)[policy.free.toNat + k]? = some u →
              t + seconds (backoff policy (k + 1)) ≤ u) ∧
    ¬ (∀ policy key (s : State) (ticks : List Tick), 0 < policy.free → 0 < policy.baseSecs →
      policy.baseSecs ≤ policy.maxSecs → s.loginThrottle key = none →
        (∀ tick ∈ ticks, tick.what = .attempt) → ticks.Pairwise (fun a b => a.now ≤ b.now) →
          DayApart (allowedTimes policy key s ticks) → ∀ (k : Nat) (t u : Int),
            (allowedTimes policy key s ticks)[policy.free.toNat - 1]? = some t →
            (allowedTimes policy key s ticks)[policy.free.toNat + k]? = some u →
              t + seconds (backoff policy (k + 1)) ≤ u) := by
  constructor
  · intro h
    have ht : (allowedTimes perAccount "" .empty
        (burst 100 0 ++ burst 1 59 ++ burst 100 86459))[99]? = some 0 := by decide
    have hu : (allowedTimes perAccount "" .empty
        (burst 100 0 ++ burst 1 59 ++ burst 100 86459))[199]? = some (seconds 86459) := by
      decide
    have hbound := h perAccount "" .empty (burst 100 0 ++ burst 1 59 ++ burst 100 86459)
      (by decide) (by decide) (by decide) rfl (by decide +kernel) (by decide +kernel)
      (by decide +kernel) 99 0 (seconds 86459) (by decide) ht hu
    exact absurd hbound (by decide +kernel)
  · intro h
    obtain ⟨n, hn⟩ : ∃ n : Nat, n = 2 ^ 31 := ⟨_, rfl⟩
    have htimes := @allowed_after_wrap "" ⟨1, 1, 1⟩ rfl n hn
    have hlength := length_firstSeconds (n + 1)
    have hfirst : (firstSeconds (n + 1))[0]? = some 0 := by
      rw [firstSeconds, List.getElem?_map, List.getElem?_range (by omega)]
      rfl
    have hday : DayApart (firstSeconds (n + 1) ++ [seconds n]) := by
      rw [DayApart, List.isChain_append]
      refine ⟨dayApart_firstSeconds _, List.isChain_singleton _, ?_⟩
      intro t ht u hu
      obtain rfl := Option.some.inj hu
      rw [eq_of_mem_getLast?_firstSeconds ht, seconds, seconds, seconds, decaySecs]
      omega
    have hsorted : (attempts (firstSeconds (n + 1) ++ [seconds n])).Pairwise
        (fun a b => a.now ≤ b.now) := by
      rw [attempts, List.pairwise_map, List.pairwise_append]
      refine ⟨?_, List.pairwise_singleton _ _, ?_⟩
      · rw [firstSeconds, List.pairwise_map]
        exact List.pairwise_le_range.imp fun hle => by
          simp only [seconds]
          omega
      · intro t ht u hu
        obtain ⟨second, hsecond, rfl⟩ := List.mem_map.mp ht
        rw [List.mem_range] at hsecond
        rw [List.mem_singleton.mp hu]
        simp only [seconds]
        omega
    have hattempts : ∀ tick ∈ attempts (firstSeconds (n + 1) ++ [seconds n]),
        tick.what = .attempt := by
      intro tick htick
      obtain ⟨now, _, rfl⟩ := List.mem_map.mp htick
      rfl
    have hbound := h ⟨1, 1, 1⟩ "" .empty (attempts (firstSeconds (n + 1) ++ [seconds n]))
      (by decide) (by decide) (by decide) rfl hattempts hsorted (by rw [htimes]; exact hday) n 0
      (seconds n) (by
        rw [htimes, List.getElem?_append_left (by rw [hlength]; exact Nat.succ_pos n)]
        exact hfirst) (by
        have hindex : Int.toNat 1 + n = (firstSeconds (n + 1)).length := by
          rw [hlength, Nat.add_comm]
          rfl
        rw [htimes, hindex, List.getElem?_concat_length])
    rw [backoff_seconds, seconds, seconds] at hbound
    omega

end Throttle

end Nopass
