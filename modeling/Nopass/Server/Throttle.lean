import Mathlib.Algebra.Group.Int.Defs
import Mathlib.Algebra.Group.Nat.Defs
import Mathlib.Data.List.Basic
import Nopass.Core.Unwinding

/-!
# Login throttling

Every start of a handshake counts against the account from the client's network, and from
a network that the account has not logged in from before also against the account as a
whole. A successful proof clears both counters and marks the network as trusted. What
happens elsewhere does not reach the counter that a trusted network is judged by.
-/

namespace Nopass

/-- An address of a client. -/
inductive IpAddr where
  | v4 (a b c d : UInt8)
  | v6 (s₀ s₁ s₂ s₃ s₄ s₅ s₆ s₇ : UInt16)
  deriving DecidableEq, Repr

/-- `{:x}`. -/
def hexText (n : UInt16) : String := String.ofList (Nat.toDigits 16 n.toNat)

/-- The client's network: /24 for IPv4, /64 for IPv6. -/
def networkOf : IpAddr → String
  | .v4 a b c _ => toString a ++ "." ++ toString b ++ "." ++ toString c ++ ".0/24"
  | .v6 s₀ s₁ s₂ s₃ _ _ _ _ =>
      hexText s₀ ++ ":" ++ hexText s₁ ++ ":" ++ hexText s₂ ++ ":" ++ hexText s₃ ++ "::/64"

/-- The keyed email hash of an account, in hexadecimal digits. -/
structure EmailKey where
  text : String
  /-- In particular it has no separator. -/
  isHex : text.toList.all fun c => c.isDigit || (decide ('a' ≤ c) && decide (c ≤ 'f'))
  deriving DecidableEq

/-- The counter of an account on a network. -/
def networkKey (accountKey : EmailKey) (clientIp : IpAddr) : String :=
  accountKey.text ++ "|" ++ networkOf clientIp

namespace Throttle

/-- Backoff schedule: free starts, then a lock that doubles up to a maximum, in seconds. -/
structure Policy where
  free : Int
  baseSecs : Int
  maxSecs : Int

/-- What one attacker location gets. -/
def perNetwork : Policy where
  free := 10
  baseSecs := 30
  maxSecs := 15 * 60

/-- The ceiling across all networks. -/
def perAccount : Policy where
  free := 100
  baseSecs := 60
  maxSecs := 60 * 60

/-- An account with no attempts for this long starts from zero again. -/
def decaySecs : Int := 24 * 60 * 60

/-- Trust in a network ends this long after the last login from it. -/
def trustedNetworkTtlSecs : Int := 90 * 24 * 60 * 60

/-- A row of `login_throttle`; times are in microseconds. -/
structure Counter where
  failures : Int
  lockedUntil : Option Int
  updatedAt : Int
  deriving DecidableEq, Repr

/-- The tables of the throttle, by their primary keys. -/
structure State where
  loginThrottle : String → Option Counter
  /-- The last login of an account from a network, by the tag of both. -/
  trustedLoginNetworks : String → String → Option Int

/-- What the server and the database take the time to be. -/
structure Clock where
  /-- `Utc::now()`. -/
  server : Int
  /-- `NOW()`. -/
  database : Int
  deriving DecidableEq, Repr

/-- What an attempt comes to. -/
inductive Attempt where
  /-- Proceed; `failures` counts unsuccessful starts including this one. -/
  | allowed (failures : Int)
  | locked (retryAfterSecs : Int)
  deriving DecidableEq, Repr

/-- Whole seconds of a time, towards zero. -/
def numSeconds (micros : Int) : Int := micros.tdiv 1000000

/-- Seconds in microseconds. -/
def seconds (secs : Int) : Int := secs * 1000000

/-- A 32-bit integer, as a release build computes it. -/
def wrap32 (n : Int) : Int := n.bmod (2 ^ 32)

/-- `lock_secs`. -/
def lockSecs (policy : Policy) (failures : Int) : Option Int :=
  let «over» := wrap32 (failures - policy.free)
  if «over» < 0 then none
  else some (min (min (policy.baseSecs * 2 ^ (min «over» 30).toNat) (2 ^ 63 - 1)) policy.maxSecs)

/-- `record_attempt`: the counter after a start, and what the start comes to. -/
def recordAttempt (clock : Clock) (policy : Policy) (counter : Option Counter) :
    Attempt × Counter :=
  let row := counter.getD { failures := 0, lockedUntil := none, updatedAt := clock.database }
  match row.lockedUntil.filter (clock.server < ·) with
  | some until_ => (.locked (max (numSeconds (until_ - clock.server)) 1), row)
  | none =>
    let failures :=
      if numSeconds (clock.server - row.updatedAt) > decaySecs then 1 else wrap32 (row.failures + 1)
    (.allowed failures,
      { failures := failures
        lockedUntil := (lockSecs policy failures).map fun secs => clock.server + seconds secs
        updatedAt := clock.database })

/-- Replace one counter. -/
def State.setCounter (s : State) (key : String) (counter : Option Counter) : State :=
  { s with loginThrottle := fun k => if k = key then counter else s.loginThrottle k }

/-- `record_attempt` on the table. -/
def State.record (s : State) (clock : Clock) (policy : Policy) (key : String) : Attempt × State :=
  let (attempt, counter) := recordAttempt clock policy (s.loginThrottle key)
  (attempt, s.setCounter key (some counter))

/-- `is_trusted_network`. -/
def State.isTrustedNetwork (s : State) (now : Int) (accountKey networkHash : String) : Bool :=
  (s.trustedLoginNetworks accountKey networkHash).any (now - seconds trustedNetworkTtlSecs < ·)

/-- `reset`. -/
def State.reset (s : State) (keys : List String) : State :=
  { s with loginThrottle := fun k => if k ∈ keys then none else s.loginThrottle k }

/-- `trust_network`. -/
def State.trustNetwork (s : State) (now : Int) (accountKey networkHash : String) : State :=
  { s with trustedLoginNetworks := fun a h =>
      if a = accountKey ∧ h = networkHash then some now else s.trustedLoginNetworks a h }

/-- `prune_stale`. -/
def State.pruneStale (s : State) (now : Int) : State where
  loginThrottle k := (s.loginThrottle k).filter fun row =>
    !(decide (row.updatedAt < now - seconds decaySecs) && row.lockedUntil.all (· < now))
  trustedLoginNetworks a h := (s.trustedLoginNetworks a h).filter fun last =>
    !decide (last < now - seconds trustedNetworkTtlSecs)

end Throttle

open Throttle

/-- HMAC-SHA256 under the lookup key, in hexadecimal digits. -/
abbrev LookupMac := String → String

/-- Keyed tag of account and network for the trusted-network list. -/
def networkTag (mac : LookupMac) (accountKey : EmailKey) (clientIp : IpAddr) : String :=
  mac ("nopass-trusted-network:" ++ networkKey accountKey clientIp)

/-- When the steps of a start happen. -/
structure StartClocks where
  trust : Int
  network : Clock
  account : Clock
  deriving DecidableEq, Repr

/-- Count a start against each of the counters, up to the first that is locked. -/
def chargeCounters : List (String × Policy × Clock) → State → Except Int Unit × State
  | [], s => (.ok (), s)
  | (key, policy, clock) :: rest, s =>
    match s.record clock policy key with
    | (.allowed _, s') => chargeCounters rest s'
    | (.locked retryAfterSecs, s') => (.error retryAfterSecs, s')

/-- `throttle_account`: count this start and refuse it while backed off. -/
def throttleAccount (mac : LookupMac) (clocks : StartClocks) (accountKey : EmailKey)
    (clientIp : IpAddr) (s : State) : Except Int Unit × State :=
  let trusted :=
    s.isTrustedNetwork clocks.trust accountKey.text (networkTag mac accountKey clientIp)
  let network := (networkKey accountKey clientIp, perNetwork, clocks.network)
  let account := (accountKey.text, perAccount, clocks.account)
  chargeCounters (if trusted then [network] else [network, account]) s

/-- `reset_throttle`: a successful proof. -/
def resetThrottle (mac : LookupMac) (now : Int) (accountKey : EmailKey) (clientIp : IpAddr)
    (s : State) : State :=
  (s.reset [networkKey accountKey clientIp, accountKey.text]).trustNetwork now accountKey.text
    (networkTag mac accountKey clientIp)

/-- What happens to the throttle. -/
inductive ThrottleEvent where
  /-- A start of a handshake. -/
  | loginStart (accountKey : EmailKey) (clientIp : IpAddr) (clocks : StartClocks)
  /-- A finish, with whether its proof was verified. -/
  | loginFinish (accountKey : EmailKey) (clientIp : IpAddr) (verified : Bool) (now : Int)
  /-- A registration or another success. -/
  | reset (accountKey : EmailKey) (clientIp : IpAddr) (now : Int)
  /-- The hourly cleanup. -/
  | prune (now : Int)
  deriving DecidableEq

/-- The tables after an event. -/
def ThrottleEvent.step (mac : LookupMac) (s : State) : ThrottleEvent → State
  | .loginStart accountKey clientIp clocks => (throttleAccount mac clocks accountKey clientIp s).2
  | .loginFinish accountKey clientIp verified now =>
      if verified then resetThrottle mac now accountKey clientIp s else s
  | .reset accountKey clientIp now => resetThrottle mac now accountKey clientIp s
  | .prune now => s.pruneStale now

section Counters

/-- What comes before the first separator is read back. -/
theorem append_separator_inj {a b rest rest' : List Char} {c : Char} (ha : c ∉ a) (hb : c ∉ b)
    (h : a ++ c :: rest = b ++ c :: rest') : a = b ∧ rest = rest' := by
  induction a generalizing b with
  | nil =>
    cases b with
    | nil => exact ⟨rfl, (List.cons.inj h).2⟩
    | cons y b =>
      have hy : c = y := (List.cons.inj h).1
      exact (hb (hy ▸ List.mem_cons_self)).elim
  | cons x a ih =>
    cases b with
    | nil =>
      have hx : x = c := (List.cons.inj h).1
      exact (ha (hx ▸ List.mem_cons_self)).elim
    | cons y b =>
      obtain ⟨rfl, htail⟩ := List.cons.inj h
      obtain ⟨rfl, hrest⟩ := ih (List.not_mem_of_not_mem_cons ha)
        (List.not_mem_of_not_mem_cons hb) htail
      exact ⟨rfl, hrest⟩

/-- Keyed hashes have no separator. -/
theorem EmailKey.separator_not_mem (accountKey : EmailKey) : '|' ∉ accountKey.text.toList := by
  intro hmem
  have hhex := List.all_eq_true.mp accountKey.isHex '|' hmem
  revert hhex
  decide

/-- The characters of a network's counter. -/
theorem toList_networkKey (accountKey : EmailKey) (network : String) :
    (accountKey.text ++ "|" ++ network).toList =
      accountKey.text.toList ++ '|' :: network.toList := by
  rw [String.toList_append, String.toList_append, List.append_assoc]
  rfl

/-- A network's counter belongs to one account and one network. -/
theorem networkKey_inj {accountKey accountKey' : EmailKey} {network network' : String}
    (h : accountKey.text ++ "|" ++ network = accountKey'.text ++ "|" ++ network') :
    accountKey = accountKey' ∧ network = network' := by
  have hlists := congrArg String.toList h
  rw [toList_networkKey, toList_networkKey] at hlists
  obtain ⟨htext, hnetwork⟩ := append_separator_inj accountKey.separator_not_mem
    accountKey'.separator_not_mem hlists
  constructor
  · cases accountKey
    cases accountKey'
    cases String.toList_inj.mp htext
    rfl
  · exact String.toList_inj.mp hnetwork

/-- An account's own counter is no network's. -/
theorem accountKey_ne_networkKey (accountKey accountKey' : EmailKey) (network : String) :
    accountKey.text ++ "|" ++ network ≠ accountKey'.text := by
  intro h
  apply accountKey'.separator_not_mem
  rw [← h, toList_networkKey]
  exact List.mem_append_right _ List.mem_cons_self

variable {counters : List (String × Policy × Clock)} {s : State} {key : String}

/-- Counting trusts no network. -/
theorem trusted_chargeCounters : (chargeCounters counters s).2.trustedLoginNetworks =
    s.trustedLoginNetworks := by
  induction counters generalizing s with
  | nil => rfl
  | cons counter rest ih =>
    obtain ⟨key, policy, clock⟩ := counter
    rw [chargeCounters]
    split
    · rename_i _ s' hrecord
      rw [ih]
      exact (congrArg (fun r => r.2.trustedLoginNetworks) hrecord).symm
    · rename_i _ s' hrecord
      exact (congrArg (fun r => r.2.trustedLoginNetworks) hrecord).symm

/-- Counting leaves other counters. -/
theorem counter_chargeCounters (h : key ∉ counters.map (·.1)) :
    (chargeCounters counters s).2.loginThrottle key = s.loginThrottle key := by
  induction counters generalizing s with
  | nil => rfl
  | cons counter rest ih =>
    obtain ⟨key', policy, clock⟩ := counter
    rw [List.map_cons, List.mem_cons, not_or] at h
    have hrow : (s.record clock policy key').2.loginThrottle key = s.loginThrottle key :=
      if_neg h.1
    rw [chargeCounters]
    split
    · rename_i _ s' hrecord
      rw [ih h.2, ← hrow, hrecord]
    · rename_i _ s' hrecord
      rw [← hrow, hrecord]

/-- The first counter after a start. -/
theorem counter_chargeCounters_first {policy : Policy} {clock : Clock}
    (h : key ∉ counters.map (·.1)) :
    (chargeCounters ((key, policy, clock) :: counters) s).2.loginThrottle key =
      some (recordAttempt clock policy (s.loginThrottle key)).2 := by
  have hrow : (s.record clock policy key).2.loginThrottle key =
      some (recordAttempt clock policy (s.loginThrottle key)).2 := if_pos rfl
  rw [chargeCounters]
  split
  · rename_i _ s' hrecord
    rw [counter_chargeCounters h, ← hrow, hrecord]
  · rename_i _ s' hrecord
    rw [← hrow, hrecord]

/-- What a start comes to that counts against one counter. -/
theorem outcome_chargeCounters_single {policy : Policy} {clock : Clock} :
    (chargeCounters [(key, policy, clock)] s).1 =
      match (recordAttempt clock policy (s.loginThrottle key)).1 with
      | .allowed _ => .ok ()
      | .locked retryAfterSecs => .error retryAfterSecs := by
  have hattempt : (s.record clock policy key).1 =
      (recordAttempt clock policy (s.loginThrottle key)).1 := rfl
  rw [← hattempt, chargeCounters]
  split
  · rename_i hrecord
    rw [hrecord]
    rfl
  · rename_i hrecord
    rw [hrecord]

end Counters

section Noninterference

variable (mac : LookupMac) (accountKey : EmailKey) (network : String)

/-- What a start for the account from the network is answered. -/
def ThrottleEvent.outcome (s : State) : ThrottleEvent → Option (Except Int Unit)
  | .loginStart accountKey' clientIp clocks =>
    if accountKey' = accountKey ∧ networkOf clientIp = network then
      some (throttleAccount mac clocks accountKey' clientIp s).1
    else none
  | _ => none

/-- Everything but starts for other accounts or from other networks. -/
def ThrottleEvent.isShared : ThrottleEvent → Bool
  | .loginStart accountKey' clientIp _ =>
      decide (accountKey' = accountKey) && decide (networkOf clientIp = network)
  | _ => true

/-- The network is trusted when a start for the account comes from it. -/
def StartsTrusted (s : State) : ThrottleEvent → Prop
  | .loginStart accountKey' clientIp clocks =>
    accountKey' = accountKey → networkOf clientIp = network →
      s.isTrustedNetwork clocks.trust accountKey.text (networkTag mac accountKey' clientIp) = true
  | _ => True

instance (s : State) : (e : ThrottleEvent) → Decidable (StartsTrusted mac accountKey network s e)
  | .loginStart _ _ _ => inferInstanceAs (Decidable (_ → _ → _))
  | .loginFinish _ _ _ _ => inferInstanceAs (Decidable True)
  | .reset _ _ _ => inferInstanceAs (Decidable True)
  | .prune _ => inferInstanceAs (Decidable True)

/-- The same counter for the account on the network, and the same trust. -/
structure SameBudget (s s' : State) : Prop where
  counter : s.loginThrottle (accountKey.text ++ "|" ++ network) =
    s'.loginThrottle (accountKey.text ++ "|" ++ network)
  trusted : s.trustedLoginNetworks = s'.trustedLoginNetworks

variable {mac accountKey network} {s s' : State}

/-- A start elsewhere leaves the budget. -/
theorem SameBudget.elsewhere (h : SameBudget accountKey network s s') {accountKey' : EmailKey}
    {clientIp : IpAddr} (hne : ¬ (accountKey' = accountKey ∧ networkOf clientIp = network))
    (clocks : StartClocks) :
    SameBudget accountKey network (throttleAccount mac clocks accountKey' clientIp s).2 s' := by
  have hnetwork : accountKey.text ++ "|" ++ network ≠ networkKey accountKey' clientIp := by
    intro heq
    obtain ⟨rfl, rfl⟩ := networkKey_inj heq
    exact hne ⟨rfl, rfl⟩
  have haccount := accountKey_ne_networkKey accountKey accountKey' network
  constructor
  · rw [throttleAccount, counter_chargeCounters, h.counter]
    split
    · simp only [List.map_cons, List.map_nil, List.mem_singleton]
      exact hnetwork
    · simp only [List.map_cons, List.map_nil, List.mem_cons, List.not_mem_nil, or_false, not_or]
      exact ⟨hnetwork, haccount⟩
  · rw [throttleAccount, trusted_chargeCounters, h.trusted]

/-- A start for the account from the network keeps the budgets equal. -/
theorem SameBudget.start (h : SameBudget accountKey network s s') {clientIp : IpAddr}
    (hnetwork : networkOf clientIp = network) (clocks : StartClocks) :
    SameBudget accountKey network (throttleAccount mac clocks accountKey clientIp s).2
      (throttleAccount mac clocks accountKey clientIp s').2 := by
  subst hnetwork
  have hkey : networkKey accountKey clientIp = accountKey.text ++ "|" ++ networkOf clientIp := rfl
  have haccount : networkKey accountKey clientIp ≠ accountKey.text :=
    accountKey_ne_networkKey accountKey accountKey (networkOf clientIp)
  have htrusted (hash : String) : s.isTrustedNetwork clocks.trust accountKey.text hash =
      s'.isTrustedNetwork clocks.trust accountKey.text hash := by
    rw [State.isTrustedNetwork, State.isTrustedNetwork, h.trusted]
  constructor
  · rw [throttleAccount, throttleAccount, htrusted, ← hkey]
    split
    · rw [counter_chargeCounters_first List.not_mem_nil,
        counter_chargeCounters_first List.not_mem_nil, hkey, h.counter]
    · have hrest : networkKey accountKey clientIp ∉
          [(accountKey.text, perAccount, clocks.account)].map (·.1) := by
        rw [List.map_singleton, List.mem_singleton]
        exact haccount
      rw [counter_chargeCounters_first hrest, counter_chargeCounters_first hrest, hkey, h.counter]
  · rw [throttleAccount, throttleAccount, trusted_chargeCounters, trusted_chargeCounters, h.trusted]

/-- A start from the network has the same outcome on both sides while the network is trusted. -/
theorem SameBudget.outcome (h : SameBudget accountKey network s s') {clientIp : IpAddr}
    (hnetwork : networkOf clientIp = network) (clocks : StartClocks)
    (ht : s.isTrustedNetwork clocks.trust accountKey.text (networkTag mac accountKey clientIp) =
      true) :
    (throttleAccount mac clocks accountKey clientIp s).1 =
      (throttleAccount mac clocks accountKey clientIp s').1 := by
  subst hnetwork
  have hkey : networkKey accountKey clientIp = accountKey.text ++ "|" ++ networkOf clientIp := rfl
  have ht' := ht
  rw [State.isTrustedNetwork, h.trusted, ← State.isTrustedNetwork] at ht'
  rw [throttleAccount, throttleAccount, if_pos ht, if_pos ht', outcome_chargeCounters_single,
    outcome_chargeCounters_single, hkey, h.counter]

/-- A successful proof keeps the budgets equal. -/
theorem SameBudget.reset (h : SameBudget accountKey network s s') (accountKey' : EmailKey)
    (clientIp : IpAddr) (now : Int) :
    SameBudget accountKey network (resetThrottle mac now accountKey' clientIp s)
      (resetThrottle mac now accountKey' clientIp s') := by
  constructor
  · simp only [resetThrottle, State.trustNetwork, State.reset, h.counter]
  · simp only [resetThrottle, State.trustNetwork, State.reset, h.trusted]

/-- Starts elsewhere are hidden from the account's budget on the network. -/
theorem sameBudget_unwinds (mac : LookupMac) (accountKey : EmailKey) (network : String) :
    Unwinds (ThrottleEvent.step mac) (ThrottleEvent.outcome mac accountKey network)
      (StartsTrusted mac accountKey network) (ThrottleEvent.isShared accountKey network)
      (SameBudget accountKey network) where
  hidden e s s' hv h := by
    cases e with
    | loginStart accountKey' clientIp clocks =>
      rw [ThrottleEvent.isShared, Bool.and_eq_false_iff, decide_eq_false_iff_not,
        decide_eq_false_iff_not] at hv
      apply h.elsewhere
      rintro ⟨ha, hn⟩
      exact hv.elim (· ha) (· hn)
    | loginFinish accountKey' clientIp verified now => cases hv
    | reset accountKey' clientIp now => cases hv
    | prune now => cases hv
  common e s s' hv h := by
    cases e with
    | loginStart accountKey' clientIp clocks =>
      rw [ThrottleEvent.isShared, Bool.and_eq_true, decide_eq_true_eq, decide_eq_true_eq] at hv
      obtain ⟨rfl, hn⟩ := hv
      exact h.start hn clocks
    | loginFinish accountKey' clientIp verified now =>
      cases verified with
      | true => exact h.reset accountKey' clientIp now
      | false => exact h
    | reset accountKey' clientIp now => exact h.reset accountKey' clientIp now
    | prune now =>
      constructor
      · simp only [ThrottleEvent.step, State.pruneStale, h.counter]
      · simp only [ThrottleEvent.step, State.pruneStale, h.trusted]
  output_hidden e s hv := by
    cases e with
    | loginStart accountKey' clientIp clocks =>
      rw [ThrottleEvent.isShared, Bool.and_eq_false_iff, decide_eq_false_iff_not,
        decide_eq_false_iff_not] at hv
      apply if_neg
      rintro ⟨ha, hn⟩
      exact hv.elim (· ha) (· hn)
    | loginFinish accountKey' clientIp verified now => rfl
    | reset accountKey' clientIp now => rfl
    | prune now => rfl
  output_common e s s' hv h hc := by
    cases e with
    | loginStart accountKey' clientIp clocks =>
      rw [ThrottleEvent.isShared, Bool.and_eq_true, decide_eq_true_eq, decide_eq_true_eq] at hv
      obtain ⟨rfl, hn⟩ := hv
      rw [ThrottleEvent.outcome, ThrottleEvent.outcome, if_pos ⟨rfl, hn⟩, if_pos ⟨rfl, hn⟩,
        h.outcome hn clocks (hc rfl hn)]
    | loginFinish accountKey' clientIp verified now => rfl
    | reset accountKey' clientIp now => rfl
    | prune now => rfl
  cond_hidden e s hv := by
    cases e with
    | loginStart accountKey' clientIp clocks =>
      rw [ThrottleEvent.isShared, Bool.and_eq_false_iff, decide_eq_false_iff_not,
        decide_eq_false_iff_not] at hv
      intro ha hn
      exact (hv.elim (· ha) (· hn)).elim
    | loginFinish accountKey' clientIp verified now => trivial
    | reset accountKey' clientIp now => trivial
    | prune now => trivial
  cond_common e s s' hv h := by
    cases e with
    | loginStart accountKey' clientIp clocks =>
      simp only [StartsTrusted, State.isTrustedNetwork, h.trusted]
    | loginFinish accountKey' clientIp verified now => exact Iff.rfl
    | reset accountKey' clientIp now => exact Iff.rfl
    | prune now => exact Iff.rfl

/-- Histories that differ only in starts for other accounts or from other networks give the
account the same outcomes on a network that is trusted whenever a start comes from it. -/
theorem sameOutcomes_of_trusted (mac : LookupMac) (accountKey : EmailKey) (network : String)
    {history history' : List ThrottleEvent} (s : State)
    (hsame : history.filter (ThrottleEvent.isShared accountKey network) =
      history'.filter (ThrottleEvent.isShared accountKey network))
    (ht : Throughout (ThrottleEvent.step mac) (StartsTrusted mac accountKey network) history s) :
    outputs (ThrottleEvent.step mac) (ThrottleEvent.outcome mac accountKey network) history s =
      outputs (ThrottleEvent.step mac) (ThrottleEvent.outcome mac accountKey network) history' s :=
  ((sameBudget_unwinds mac accountKey network).outputs_eq hsame ⟨rfl, rfl⟩ ht).2

end Noninterference

/-- An account that has logged in from the network of `ownerIp`. -/
private def ownerKey : EmailKey := ⟨"ab", by decide⟩

private def ownerIp : IpAddr := .v4 10 0 0 1

private def noon : StartClocks := ⟨5, ⟨5, 5⟩, ⟨5, 5⟩⟩

/-- Starts from elsewhere between the login and the next start change nothing. -/
theorem sameOutcomes_of_trusted_owner :
    outputs (ThrottleEvent.step id) (ThrottleEvent.outcome id ownerKey (networkOf ownerIp))
        [.loginFinish ownerKey ownerIp true 0, .loginStart ownerKey ownerIp noon]
        ⟨fun _ => none, fun _ _ => none⟩ =
      outputs (ThrottleEvent.step id) (ThrottleEvent.outcome id ownerKey (networkOf ownerIp))
        ([.loginFinish ownerKey ownerIp true 0] ++
          List.replicate 200 (.loginStart ownerKey (.v4 10 0 1 1) noon) ++
          [.loginStart ownerKey ownerIp noon])
        ⟨fun _ => none, fun _ _ => none⟩ :=
  sameOutcomes_of_trusted id ownerKey (networkOf ownerIp) _ (by decide) (by decide)

end Nopass
