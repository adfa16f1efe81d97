import Mathlib.Data.Fintype.Option
import Nopass.Server.Logins

/-!
# A login among other starts for the account

Every start for an account drops its handshakes but the five newest, whoever started them.
The throttle refuses a network only after ten starts and the account only after a hundred,
so that five strangers' starts can drop the owner's handshake. As long as every start that
drops handshakes sees beside the owner's at most four that are not older, the handshake
stays until the owner's finish consumes it, and the finish is not refused.
-/

namespace Nopass

open ReadCommitted Throttle

namespace Login

/-- What a request of a run answers. -/
inductive Answer where
  | started (loginId : Uuid)
  | loggedIn (response : LoginResponse)

/-- `insert_opaque_login` after its `INSERT`. -/
def dropOlder (p : PendingOpaqueLogin) : Request Unit := do
  let _ ← Tables.pendingOpaqueLogins.delete fun d q =>
    decide (q.accountKey = p.accountKey) && decide (q.id ∉ DbPending.newest p.accountKey d)
  .commit (.handshake p.userId p.serverState.record) (.ret ())

/-- The other handshakes of the account that are not older. -/
def notOlder (login : PendingOpaqueLogin) (d : Db) : List PendingOpaqueLogin :=
  d.pendingOpaqueLogins.filter fun q => decide (q.accountKey = login.accountKey) &&
    decide (q.id ≠ login.id) && decide (login.createdAt ≤ q.createdAt)

/-- At most four other handshakes are not older than the one with this id. -/
def FewNotOlder (loginId : Uuid) (d : LoginDb) : Prop :=
  ∀ q ∈ d.db.pendingOpaqueLogins, q.id = loginId →
    (notOlder q d.db).length < maxPendingLoginsPerAccount

instance (loginId : Uuid) (d : LoginDb) : Decidable (FewNotOlder loginId d) :=
  inferInstanceAs (Decidable (∀ q ∈ d.db.pendingOpaqueLogins, _))

/-- The request is about to drop older handshakes. -/
def DropsOlder (prog : LoginRequest Answer) : Prop :=
  ∃ p k, prog = inDb (dropOlder p) >>= k

/-- When a start drops older handshakes, there are at most four others that are not older than
the one with this id. -/
def SeesFew {I : Type} (loginId : Uuid) (s : State I LoginDb LoginRow LoginTag LoginError Answer)
    (step : I × Act) : Prop :=
  (s.procs step.1).snap = none → DropsOlder (s.procs step.1).prog →
    FewNotOlder loginId ((s.procs step.1).write s.db)

/-- The account whose keyed email hash or, not yet rekeyed, email hash this is. -/
def userOf (accountKey emailHash : String) (d : Db) : Option User :=
  (d.users.find? fun u => decide (u.emailHash = accountKey) && u.emailHashKeyed) <|>
    (d.users.find? fun u => decide (u.emailHash = emailHash) && !u.emailHashKeyed)

/-- A login of an account's owner, with the password of its record, within the time. -/
structure Owner (o : Opaque) (config : Config) (d : Db) where
  start : StartCall
  finish : FinishCall
  emailHash : String
  request : Bytes
  finalization : Bytes
  user : User
  record : Bytes
  parsed : parseEmailHash start.emailHash = pure emailHash
  decoded : Base64.decodeUrl start.startLoginRequest = some request
  found : userOf (config.accountKey emailHash) emailHash d = some user
  recorded : user.opaqueRecord = some record
  byId : d.users.find? (fun u => u.id = user.id) = some user
  /-- Registration creates the account's first vault. -/
  vault : ∃ v ∈ d.vaults, v.userId = user.id
  decodedFinish : Base64.decodeUrl finish.finishLoginRequest = some finalization
  proved : o.proves finalization record request = true
  inTime : finish.fresh.now - start.fresh.now ≤ opaqueLoginTtlSecs
  /-- The ids that the server picks are new. -/
  newLogin : ∀ q ∈ d.pendingOpaqueLogins, q.id ≠ start.fresh.id
  newSession : ∀ s ∈ d.sessions, s.id ≠ finish.fresh.id

variable {o : Opaque} {config : Config}

/-- The owner's handshake. -/
def Owner.login {d : Db} (owner : Owner o config d) : PendingOpaqueLogin :=
  handshake owner.start.fresh (config.accountKey owner.emailHash) (some owner.user)
    { record := some owner.record, request := owner.request }

section Run

variable {J : Type}

/-- A start and its answer. -/
def startRequest (o : Opaque) (config : Config) (mac : LookupMac) (call : StartCall) :
    LoginRequest Answer := do
  let loginId ← loginStart o config mac call
  pure (.started loginId)

/-- A finish and its answer. -/
def finishRequest (o : Opaque) (mac : LookupMac) (call : FinishCall) (loginId : Uuid) :
    LoginRequest Answer := do
  let response ← loginFinish o mac call loginId
  pure (.loggedIn response)

/-- The server with the owner's requests at `none` and the other starts. -/
abbrev Crowd (J : Type) := State (Option J) LoginDb LoginRow LoginTag LoginError Answer

/-- The starts before the first step. -/
def startLogins (o : Opaque) (config : Config) (mac : LookupMac) (d : LoginDb) (owner : StartCall)
    (others : J → StartCall) : Crowd J :=
  State.start d fun i => startRequest o config mac (i.elim owner others)

variable [DecidableEq J]

/-- The owner's client got its answer and finishes. -/
def sendFinish (o : Opaque) (mac : LookupMac) (s : Crowd J) (call : FinishCall) (loginId : Uuid) :
    Crowd J :=
  s.set none { prog := finishRequest o mac call loginId }

/-- The owner's network is trusted, and the other starts for the account are from elsewhere. -/
structure Strangers (mac : LookupMac) {d : LoginDb} (owner : Owner o config d.db)
    (others : J → StartCall) : Prop where
  trusted : ∃ last ∈ d.throttle.trusted (config.accountKey owner.emailHash)
    (networkTag mac (config.accountKey owner.emailHash) owner.start.clientIp),
      owner.start.clocks.trust - seconds trustedNetworkTtlSecs < last
  sameAccount : ∀ j, (others j).emailHash = owner.start.emailHash
  elsewhere : ∀ j, networkOf (others j).clientIp ≠ networkOf owner.start.clientIp
  /-- The ids that the server picks are new. -/
  newIds : ∀ j, (others j).fresh.id ≠ owner.start.fresh.id

/-- The owner's finish is not refused, and answers with a session for the account. -/
def Succeeds (userId : Uuid) (s : Crowd J) : Prop :=
  (∀ e, (s.procs none).prog ≠ .error e) ∧
    ∀ out, (s.procs none).prog = .ret out → ∃ response, out = .loggedIn response ∧
      response.userId = userId

end Run

/-! ## The newest handshakes -/

section Newest

/-- What has few of its like before it in a sorted list is among the first. -/
theorem mem_map_take {α β : Type} [DecidableEq β] {r : α → α → Prop} [DecidableRel r]
    {l : List α} {f : α → β} {x : α} {n : Nat} (hsorted : l.Pairwise r) (hx : x ∈ l)
    (hfew : (l.filter fun y => decide (f y ≠ f x) && decide (r y x)).length < n) :
    f x ∈ (l.take n).map f := by
  induction l generalizing n with
  | nil => cases hx
  | cons y rest ih =>
    obtain ⟨hbefore, hrest⟩ := List.pairwise_cons.mp hsorted
    cases n with
    | zero => omega
    | succ n =>
      rw [List.take_succ_cons, List.map_cons]
      by_cases hy : f y = f x
      · rw [hy]
        exact List.mem_cons_self
      · have hmem : x ∈ rest := by
          rcases List.mem_cons.mp hx with rfl | hmem
          · exact (hy rfl).elim
          · exact hmem
        have hcounts : (decide (f y ≠ f x) && decide (r y x)) = true := by
          simp [hy, hbefore x hmem]
        rw [List.filter_cons, if_pos hcounts, List.length_cons] at hfew
        exact List.mem_cons_of_mem _ (ih hrest hmem (by omega))

/-- Newer handshakes come first. -/
abbrev newerFirst (a b : PendingOpaqueLogin) : Prop := b.createdAt ≤ a.createdAt

instance : Std.Total newerFirst := ⟨fun a b => Nat.le_total b.createdAt a.createdAt⟩

instance : IsTrans PendingOpaqueLogin newerFirst := ⟨fun _ _ _ hab hbc => Nat.le_trans hbc hab⟩

/-- A handshake with at most four others that are not older is among the newest. -/
theorem mem_newest {d : Db} {q : PendingOpaqueLogin} (hq : q ∈ d.pendingOpaqueLogins)
    (hfew : (notOlder q d).length < maxPendingLoginsPerAccount) :
    q.id ∈ DbPending.newest q.accountKey d := by
  have hsorted : ((d.pendingOpaqueLogins.filter fun p => p.accountKey = q.accountKey).insertionSort
      newerFirst).Pairwise newerFirst := List.pairwise_insertionSort newerFirst _
  have hperm := List.perm_insertionSort newerFirst
    (d.pendingOpaqueLogins.filter fun p => p.accountKey = q.accountKey)
  apply mem_map_take hsorted
  · rw [hperm.mem_iff, List.mem_filter]
    exact ⟨hq, decide_eq_true rfl⟩
  · rw [(hperm.filter _).length_eq, List.filter_filter]
    have hsame : (fun p : PendingOpaqueLogin =>
        (decide (p.id ≠ q.id) && decide (newerFirst p q)) && decide (p.accountKey = q.accountKey)) =
        fun p => decide (p.accountKey = q.accountKey) && decide (p.id ≠ q.id) &&
          decide (q.createdAt ≤ p.createdAt) := by
      funext p
      rw [Bool.and_comm, Bool.and_assoc]
    rw [hsame]
    exact hfew

end Newest

/-! ## What the other starts keep to -/

section Others

/-- Everything but the handshakes. -/
def rest (d : LoginDb) : Db := { d.db with pendingOpaqueLogins := [] }

/-- The handshake is the only one under its id. -/
def Only (login : PendingOpaqueLogin) (d : LoginDb) : Prop :=
  ∀ q ∈ d.db.pendingOpaqueLogins, q.id = login.id → q = login

/-- What happens to the database beside a handshake. -/
structure Beside (login : PendingOpaqueLogin) (d d' : LoginDb) : Prop where
  rest_eq : rest d' = rest d
  stays : login ∈ d.db.pendingOpaqueLogins → login ∈ d'.db.pendingOpaqueLogins
  only : Only login d → Only login d'

/-- Other starts leave a handshake, and everything but the handshakes. -/
def truce (login : PendingOpaqueLogin) : Truce LoginDb LoginRow LoginTag LoginError Answer where
  rel := Beside login
  rel_refl _ := ⟨rfl, id, id⟩
  rel_trans h h' := ⟨h'.rest_eq.trans h.rest_eq, h'.stays ∘ h.stays, h'.only ∘ h.only⟩
  watched := DropsOlder
  cond := FewNotOlder login.id

variable {login : PendingOpaqueLogin} {d d' s n : LoginDb} {O : Type}

/-- A write of the throttle is beside every handshake. -/
theorem beside_of_db (h : d'.db = d.db) : Beside login d d' := by
  constructor
  · rw [rest, rest, h]
  · intro hmem
    rw [h]
    exact hmem
  · intro honly q hq
    rw [h] at hq
    exact honly q hq

/-- One more handshake under another id. -/
theorem beside_push {p : PendingOpaqueLogin} (hp : p.id ≠ login.id) :
    Beside login d { d with db := Tables.pendingOpaqueLogins.push p d.db } := by
  constructor
  · rfl
  · exact List.mem_append_left _
  · intro honly q hq hid
    rcases List.mem_append.mp hq with hq | hq
    · exact honly q hq hid
    · rw [List.mem_singleton.mp hq] at hid
      exact (hp hid).elim

/-- The rows that `dropOlder` deletes, with a snapshot and the newest rows. -/
def older (p : PendingOpaqueLogin) (s n : Db) : List RowId :=
  (Tables.pendingOpaqueLogins.hits (fun d q => decide (q.accountKey = p.accountKey) &&
    decide (q.id ∉ DbPending.newest p.accountKey d)) s n).map Tables.pendingOpaqueLogins.key

/-- A handshake with few that are not older in the snapshot is not deleted. -/
theorem not_mem_older {p : PendingOpaqueLogin} (hfew : FewNotOlder login.id s) :
    Tables.pendingOpaqueLogins.key login ∉ older p s.db n.db := by
  intro hmem
  obtain ⟨r, hr, hkey⟩ := List.mem_map.mp hmem
  obtain ⟨-, ⟨q, hq, hcond, hkeys⟩, -⟩ := (Table.mem_hits _).mp hr
  have hid : q.id = login.id := RowId.pendingOpaqueLogin.inj (hkeys.trans hkey)
  obtain ⟨haccount, hdropped⟩ := Bool.and_eq_true_iff.mp hcond
  have hnewest := mem_newest hq (hfew q hq hid)
  rw [of_decide_eq_true haccount] at hnewest
  exact of_decide_eq_true hdropped hnewest

/-- Dropping older handshakes is beside one with few that are not older. -/
theorem beside_drop {p : PendingOpaqueLogin} (hfew : FewNotOlder login.id s) :
    Beside login d { d with db := Tables.pendingOpaqueLogins.drop (older p s.db n.db) d.db } := by
  constructor
  · rfl
  · intro hmem
    exact (Table.mem_drop _).mpr ⟨hmem, not_mem_older hfew⟩
  · intro honly q hq
    exact honly q ((Tables.pendingOpaqueLogins.mem_drop).mp hq).1

/-- A sequence after the throttle. -/
theorem inDb_bind {O' : Type} (prog : Request O') (f : O' → Request O) :
    inDb (prog >>= f) = inDb prog >>= fun out => inDb (f out) :=
  Prog.on_bind

/-- A handshake is stored by two statements. -/
theorem inDb_insertOpaqueLogin (p : PendingOpaqueLogin) :
    inDb (DbPending.insertOpaqueLogin p) =
      inDb (Tables.pendingOpaqueLogins.insert p (p.userId.toList.map userRef)) >>=
        fun _ => inDb (dropOlder p) :=
  Prog.on_bind

/-- The `INSERT` of a handshake, and what follows it when it succeeds. -/
theorem keeps_insert_bind {p : PendingOpaqueLogin} {refs : List (Ref Db RowId)}
    {f : Unit → LoginRequest Answer} (hp : p.id ≠ login.id) (hf : (truce login).Keeps (f ())) :
    (truce login).Keeps (inDb (Tables.pendingOpaqueLogins.insert p refs) >>= f) := by
  intro s n
  constructor
  · intro _ d
    exact beside_push hp
  · change (truce login).Keeps (inDb (if Tables.pendingOpaqueLogins.vacant p n.db then
        if Tables.pendingOpaqueLogins.check p && refs.all (·.live n.db) then .ret ()
        else .rollback (.error none)
      else .rollback (.error none)) >>= f)
    split
    · split
      · exact hf
      · trivial
    · trivial

/-- The `DELETE` of older handshakes. -/
theorem keeps_dropOlder_bind {p : PendingOpaqueLogin} {f : Unit → LoginRequest Answer}
    (hf : (truce login).Keeps (f ())) : (truce login).Keeps (inDb (dropOlder p) >>= f) := by
  intro s n
  constructor
  · intro hfew d
    exact beside_drop (hfew ⟨p, f, rfl⟩)
  · exact hf

/-- A call of the throttle keeps to what is agreed. -/
theorem keeps_onCounter_bind {key : String} {prog : ThrottleRequest O}
    {f : O → LoginRequest Answer} (hf : ∀ out, (truce login).Keeps (f out)) :
    (truce login).Keeps (onCounter key prog >>= f) :=
  Prog.keeps_on_bind (fun _ _ => beside_of_db rfl) hf

/-- Counting a start keeps to what is agreed. -/
theorem keeps_chargeCounters_bind {counters : List (String × Policy × Clock)}
    {f : Unit → LoginRequest Answer} (hf : ∀ out, (truce login).Keeps (f out)) :
    (truce login).Keeps (chargeCounters counters >>= f) := by
  induction counters with
  | nil => exact hf ()
  | cons counter rest ih =>
    obtain ⟨key, policy, clock⟩ := counter
    rw [chargeCounters, bind_assoc]
    apply keeps_onCounter_bind
    intro out
    cases out with
    | done => exact ih
    | attempt attempt =>
      cases attempt with
      | allowed failures => exact ih
      | locked retryAfterSecs => trivial

/-- A start under another id keeps to what is agreed. -/
theorem keeps_startRequest (mac : LookupMac) {call : StartCall} (h : call.fresh.id ≠ login.id) :
    (truce login).Keeps (startRequest o config mac call) := by
  unfold startRequest loginStart
  simp only [bind_assoc]
  apply Truce.keeps_reads_bind (reads_parseEmailHash call.emailHash).on
  intro emailHash
  apply Truce.keeps_reads_bind (reads_decodeOpaque call.startLoginRequest "startLoginRequest").on
  intro request d
  apply keeps_chargeCounters_bind
  intro _
  unfold admitted findLogin
  simp only [inDb_bind, inDb_insertOpaqueLogin, bind_assoc]
  intro d
  apply Truce.keeps_reads_bind (reads_okOr _ _).on
  intro started
  apply keeps_insert_bind h
  apply keeps_dropOlder_bind
  trivial

end Others

/-! ## The owner's requests -/

section OwnersStart

variable {d₀ d d' : LoginDb} {login : PendingOpaqueLogin} {w : LoginDb → LoginDb}
  {Q : Answer → LoginDb → Prop} {O : Type}

/-- The handshake is stored, beside what was there at the start. -/
structure Stored (d₀ : LoginDb) (login : PendingOpaqueLogin) (d : LoginDb) : Prop where
  rest_eq : rest d = rest d₀
  mem : login ∈ d.db.pendingOpaqueLogins
  only : Only login d

/-- A stored handshake stays while the others move. -/
theorem Stored.beside (h : Stored d₀ login d) (hb : Beside login d d') : Stored d₀ login d' :=
  ⟨hb.rest_eq.trans h.rest_eq, hb.stays h.mem, hb.only h.only⟩

/-- Counting a start that may be refused. -/
theorem wp_chargeCounters_bind {counters : List (String × Policy × Clock)}
    {f : Unit → LoginRequest Answer} (hw : ∀ x, Beside login x (w x))
    (hf : ∀ w d', (∀ x, Beside login x (w x)) → Beside login d d' →
      (truce login).wp True Q (f ()) w d') :
    (truce login).wp True Q (chargeCounters counters >>= f) w d := by
  induction counters generalizing w d with
  | nil => exact hf w d hw ((truce login).rel_refl d)
  | cons counter rest ih =>
    obtain ⟨key, policy, clock⟩ := counter
    have hthrottle (x : ThrottleDb) (y : LoginDb) : Beside login y ((counterPart key).put x y) :=
      beside_of_db rfl
    rw [chargeCounters, bind_assoc]
    apply Prog.wp_on_bind hthrottle trivial hw
    intro out w' d₁ hw' h₁
    have hrest := ih hw' fun w'' d₂ hw'' h₂ => hf w'' d₂ hw'' ((truce login).rel_trans h₁ h₂)
    cases out with
    | done => exact hrest
    | attempt attempt =>
      cases attempt with
      | allowed failures => exact hrest
      | locked retryAfterSecs => trivial

/-- Storing the handshake in a start that may fail. -/
theorem wp_insertOpaqueLogin_bind {f : Unit → LoginRequest Answer}
    (hw : ∀ x, Beside login x (w x)) (hrest : rest d = rest d₀) (honly : Only login d)
    (hf : ∀ d', Stored d₀ login d' → (truce login).wp True Q (f ()) id d') :
    (truce login).wp True Q (inDb (DbPending.insertOpaqueLogin login) >>= f) w d := by
  rw [inDb_insertOpaqueLogin, bind_assoc]
  intro s hs _ n hn
  change (truce login).wp True Q (inDb (if Tables.pendingOpaqueLogins.vacant login (w n).db then
      if Tables.pendingOpaqueLogins.check login &&
        (login.userId.toList.map userRef).all (·.live (w n).db) then .ret ()
      else .rollback (.error none)
    else .rollback (.error none)) >>= fun _ => inDb (dropOlder login) >>= f) _ n
  split
  · split
    · intro s' hs' hfew n' hn' d' hd'
      have hbeside : Beside login d d' := (truce login).rel_trans hs
        ((truce login).rel_trans hn ((truce login).rel_trans hs' ((truce login).rel_trans hn' hd')))
      have hview : Beside login d (w d') := (truce login).rel_trans hbeside (hw d')
      apply hf
      constructor
      · exact hview.rest_eq.trans hrest
      · refine (Tables.pendingOpaqueLogins.mem_drop).mpr ⟨?_, ?_⟩
        · exact List.mem_append_right _ List.mem_cons_self
        · exact not_mem_older (hfew ⟨login, f, rfl⟩)
      · intro q hq hid
        rcases List.mem_append.mp ((Tables.pendingOpaqueLogins.mem_drop).mp hq).1 with hq | hq
        · exact hview.only honly q hq hid
        · exact List.mem_singleton.mp hq
    · intro _ _
      trivial
  · intro _ _
    trivial

variable {o : Opaque} {config : Config} {mac : LookupMac}

/-- The account is found where nothing but handshakes changed. -/
theorem userOf_of_rest {accountKey emailHash : String} (h : rest d' = rest d) :
    userOf accountKey emailHash d'.db = userOf accountKey emailHash d.db := by
  have husers : (rest d').users = (rest d).users := by rw [h]
  have hdb : d'.db.users = d.db.users := husers
  unfold userOf
  rw [hdb]

/-- An account's login is one read. -/
theorem findLogin_eq (emailHash : String) : findLogin config emailHash = .select fun d => .ret
    ((userOf (config.accountKey emailHash) emailHash d).filter (·.opaqueRecord.isSome)) := rfl

/-- Rule for a read after the throttle. -/
theorem wp_read_bind {mayFail : Prop} {read : Db → O} {f : O → LoginRequest Answer}
    (h : ∀ d', Beside login d d' → (truce login).wp mayFail Q (f (read (w d').db)) w d') :
    (truce login).wp mayFail Q (inDb (.select fun d => .ret (read d)) >>= f) w d :=
  h

/-- The owner's start stores the owner's handshake if it answers. -/
theorem wp_startRequest (owner : Owner o config d₀.db) :
    (truce owner.login).wp True
      (fun out d => out = .started owner.login.id ∧ Stored d₀ owner.login d)
      (startRequest o config mac owner.start) id d₀ := by
  have honly : Only owner.login d₀ := fun q hq hid => (owner.newLogin q hq hid).elim
  unfold startRequest loginStart
  rw [owner.parsed, decodeOpaque, owner.decoded]
  simp only [bind_assoc]
  intro d₁ h₁
  apply wp_chargeCounters_bind (truce owner.login).rel_refl
  intro w d₂ hw h₂
  unfold admitted
  rw [findLogin_eq]
  simp only [inDb_bind, bind_assoc]
  apply wp_read_bind
  intro d₃ h₃
  have hbeside := (truce owner.login).rel_trans h₁ ((truce owner.login).rel_trans h₂ h₃)
  have hread : (userOf (config.accountKey owner.emailHash) owner.emailHash (w d₃).db).filter
      (·.opaqueRecord.isSome) = some owner.user := by
    rw [userOf_of_rest ((hw d₃).rest_eq.trans hbeside.rest_eq), owner.found, Option.filter_some,
      owner.recorded]
    rfl
  rw [hread, Option.bind_some, owner.recorded]
  unfold Opaque.loginStart
  split
  · apply wp_insertOpaqueLogin_bind hw hbeside.rest_eq (hbeside.only honly)
    intro d' hstored d'' h''
    exact ⟨rfl, hstored.beside h''⟩
  · trivial

end OwnersStart

section OwnersFinish

variable {d₀ d d' : LoginDb} {login : PendingOpaqueLogin} {Q : Answer → LoginDb → Prop}
  {mayFail : Prop} {o : Opaque} {config : Config} {mac : LookupMac} {O : Type}

/-- What is there is found. -/
theorem inDb_okOr_some {e : ApiError} {a : O} {f : O → LoginRequest Answer} :
    (inDb (okOr e (some a)) >>= f) = f a := rfl

/-- A condition that holds is passed. -/
theorem inDb_require_true {e : ApiError} {f : Unit → LoginRequest Answer} :
    (inDb (require true e) >>= f) = f () := rfl

/-- A stored handshake is the one that its id takes. -/
theorem taken_eq {s n : LoginDb} (hs : Stored d₀ login s) (hn : Stored d₀ login n) :
    DbPending.taken login.id s.db n.db =
      some (login, DbPending.recordOf login.userId n.db) := by
  have hhit : login ∈ Tables.pendingOpaqueLogins.hits (DbPending.isLogin login.id) s.db n.db := by
    rw [Table.mem_hits]
    exact ⟨hn.mem, ⟨login, hs.mem, decide_eq_true rfl, rfl⟩, decide_eq_true rfl⟩
  unfold DbPending.taken
  cases hhits : Tables.pendingOpaqueLogins.hits (DbPending.isLogin login.id) s.db n.db with
  | nil =>
    rw [hhits] at hhit
    cases hhit
  | cons p rest =>
    have hp : p ∈ Tables.pendingOpaqueLogins.hits (DbPending.isLogin login.id) s.db n.db := by
      rw [hhits]
      exact List.mem_cons_self
    obtain ⟨hmem, -, hid⟩ := (Table.mem_hits _).mp hp
    rw [hn.only p hmem (of_decide_eq_true hid)]
    rfl

/-- Consuming the stored handshake. -/
theorem wp_takeOpaqueLogin_bind' {f : Option (PendingOpaqueLogin × Option Bytes) →
      LoginRequest Answer} (h : Stored d₀ login d)
    (hf : ∀ atTake d', rest d' = rest d₀ →
      (truce login).wp mayFail Q (f (some (login, atTake))) id d') :
    (truce login).wp mayFail Q (inDb (DbPending.takeOpaqueLogin login.id) >>= f) id d := by
  intro s hs _ n hn d' hd'
  have hstored := h.beside hs
  change (truce login).wp mayFail Q (f (DbPending.taken login.id s.db n.db)) id _
  rw [taken_eq hstored (hstored.beside hn)]
  apply hf
  exact ((hstored.beside hn).beside hd').rest_eq

/-- What the owner's finish needs of the database beside its handshake. -/
structure Ready (owner : Owner o config d₀.db) (d : LoginDb) : Prop where
  byId : d.db.users.find? (fun u => u.id = owner.user.id) = some owner.user
  vault : ∃ v ∈ d.db.vaults, v.userId = owner.user.id
  newSession : ∀ s ∈ d.db.sessions, s.id ≠ owner.finish.fresh.id

/-- It is there at the start. -/
theorem Ready.start (owner : Owner o config d₀.db) : Ready owner d₀ :=
  ⟨owner.byId, owner.vault, owner.newSession⟩

/-- It does not depend on the handshakes. -/
theorem Ready.of_rest {owner : Owner o config d₀.db} (h : Ready owner d) (hr : rest d' = rest d) :
    Ready owner d' := by
  have husers : (rest d').users = (rest d).users := by rw [hr]
  have hvaults : (rest d').vaults = (rest d).vaults := by rw [hr]
  have hsessions : (rest d').sessions = (rest d).sessions := by rw [hr]
  constructor
  · exact (congrArg _ husers).trans h.byId
  · exact hvaults ▸ h.vault
  · exact hsessions ▸ h.newSession

/-- The account has a first vault. -/
theorem Ready.exists_vault {owner : Owner o config d₀.db} (h : Ready owner d) :
    ∃ v, ((d.db.vaults.filter (DbVaults.isUserVault owner.user.id d.db)).insertionSort
      fun a b => a.createdAt ≤ b.createdAt).head? = some v := by
  obtain ⟨v, hv, huser⟩ := h.vault
  have hmem : v ∈ (d.db.vaults.filter (DbVaults.isUserVault owner.user.id d.db)).insertionSort
      fun a b => a.createdAt ≤ b.createdAt := by
    rw [List.mem_insertionSort, List.mem_filter]
    exact ⟨hv, decide_eq_true huser⟩
  exact Option.isSome_iff_exists.mp (List.isSome_head?.mpr (List.ne_nil_of_mem hmem))

/-- A valid finish redeems the stored handshake. -/
theorem wp_redeem_bind (owner : Owner o config d₀.db)
    {f : User × PendingOpaqueLogin × Option Bytes → LoginRequest Answer}
    (h : Stored d₀ owner.login d)
    (hf : ∀ atTake d', Ready owner d' →
      (truce owner.login).wp mayFail Q (f (owner.user, owner.login, atTake)) id d') :
    (truce owner.login).wp mayFail Q (inDb (redeem o owner.finish.fresh owner.login.id
      owner.finish.finishLoginRequest) >>= f) id d := by
  unfold redeem
  rw [decodeOpaque, owner.decodedFinish]
  simp only [inDb_bind, bind_assoc]
  apply wp_takeOpaqueLogin_bind' h
  intro atTake d₁ h₁
  have hready : Ready owner d₁ := (Ready.start owner).of_rest h₁
  have hpurpose : (some (owner.login, atTake)).filter (fun t => decide (t.1.purpose = .login)) =
      some (owner.login, atTake) := rfl
  have hproved : owner.login.userId.filter
      (fun _ => o.loginFinish owner.login.serverState owner.finalization) =
        some owner.user.id := by
    have hfinish : o.loginFinish owner.login.serverState owner.finalization = true := owner.proved
    rw [hfinish]
    rfl
  have htime : decide (owner.finish.fresh.now - owner.login.createdAt ≤ opaqueLoginTtlSecs) =
      true := decide_eq_true owner.inTime
  rw [hpurpose, inDb_okOr_some, htime, inDb_require_true, hproved, inDb_okOr_some]
  apply wp_read_bind
  intro d₂ h₂
  have hready₂ : Ready owner d₂ := hready.of_rest h₂.rest_eq
  have hfound : (id d₂).db.users.find? (fun u => u.id = owner.user.id) = some owner.user :=
    hready₂.byId
  rw [hfound, inDb_okOr_some]
  exact hf atTake d₂ hready₂

/-- Clearing the counters. -/
theorem wp_resetThrottle_bind {owner : Owner o config d₀.db} {now : Int} {accountKey : String}
    {clientIp : IpAddr} {f : Unit → LoginRequest Answer} (h : Ready owner d)
    (hf : ∀ d', Ready owner d' → (truce login).wp mayFail Q (f ()) id d') :
    (truce login).wp mayFail Q (resetThrottle mac now accountKey clientIp >>= f) id d := by
  intro s₁ hs₁ _ n₁ hn₁ d₁ h₁ s₂ hs₂ _ n₂ hn₂ d₂ h₂
  apply hf
  have hfirst : Ready owner d₁ :=
    ((h.of_rest hs₁.rest_eq).of_rest hn₁.rest_eq).of_rest h₁.rest_eq
  have hs : rest s₂ = rest d₁ := hs₂.rest_eq
  have hsecond : Ready owner d₂ :=
    ((hfirst.of_rest hs).of_rest hn₂.rest_eq).of_rest h₂.rest_eq
  exact hsecond.of_rest rfl

/-- What some row of a kind satisfies, some row does. -/
theorem any_of_any_filter {α : Type} {l : List α} {p q : α → Bool}
    (h : (l.filter p).any q = true) : l.any q = true := by
  obtain ⟨x, hx, hq⟩ := List.any_eq_true.mp h
  exact List.any_eq_true.mpr ⟨x, List.mem_of_mem_filter hx, hq⟩

/-- Devices have no checks. -/
theorem update_devices (cond : Db → Device → Bool) (f : Device → Device) :
    (Tables.devices.update cond f : Request (List Device)) =
      .stmt (fun s n => Tables.devices.locked cond .noKeyUpdate s n)
        (fun s n => Tables.devices.edit ((Tables.devices.hits cond s n).map Tables.devices.key) f)
        fun s n => .ret (Tables.devices.hits cond s n) := by
  have hrefs (rows : List Device) : rows.flatMap (fun _ => ([] : List (Ref Db RowId))) = [] :=
    List.flatMap_eq_nil_iff.mpr fun _ _ => rfl
  have hcheck (rows : List Device) : rows.all (fun r => Tables.devices.check (f r)) = true :=
    List.all_eq_true.mpr fun _ _ => rfl
  unfold Table.update
  simp only [hrefs, hcheck, List.map_nil, List.append_nil, List.all_nil, Bool.and_self, if_true]

/-- Noting that a device was seen. -/
theorem wp_seen_bind {owner : Owner o config d₀.db} {fresh : Fresh} {deviceId : Uuid}
    {f : Option Uuid → LoginRequest Answer} (h : Ready owner d)
    (hdevice : d.db.devices.any (·.id = deviceId) = true)
    (hf : ∀ d', Ready owner d' → (∀ id ∈ some deviceId, d'.db.devices.any (·.id = id) = true) →
      (truce login).wp mayFail Q (f (some deviceId)) id d') :
    (truce login).wp mayFail Q (inDb (do
      let _ ← autocommit (Tables.devices.update (fun _ v => v.id = deviceId)
        fun v => { v with lastSeenAt := some fresh.now }) fun _ => .plain
      pure (some deviceId)) >>= f) id d := by
  rw [update_devices]
  intro s hs _ n hn d' hd'
  have hrest : rest d' = rest d :=
    hd'.rest_eq.trans ((Truce.rel_trans _ hs hn).rest_eq)
  have hdevices : (rest d').devices = (rest d).devices := by rw [hrest]
  have hready : Ready owner d' := h.of_rest hrest
  apply hf
  · exact ⟨hready.byId, hready.vault, hready.newSession⟩
  · rintro id ⟨⟩
    have hdevice' : d'.db.devices.any (·.id = deviceId) = true := by
      have hany : (rest d').devices.any (·.id = deviceId) = true := hdevices ▸ hdevice
      exact hany
    change (List.map _ d'.db.devices).any _ = true
    rw [List.any_map, ← hdevice']
    congr 1
    funext v
    rw [Function.comp_apply]
    split
    · rfl
    · rfl

/-- Linking the session to a device that the account has. -/
theorem wp_linkDevice_bind {owner : Owner o config d₀.db} {fresh : Fresh}
    {deviceId : Option Uuid} {f : Option Uuid → LoginRequest Answer} (h : Ready owner d)
    (hf : ∀ deviceId d', Ready owner d' →
      (∀ id ∈ deviceId, d'.db.devices.any (·.id = id) = true) →
        (truce login).wp mayFail Q (f deviceId) id d') :
    (truce login).wp mayFail Q
      (inDb (Auth.linkDevice fresh owner.user.id deviceId) >>= f) id d := by
  cases deviceId with
  | none => exact hf none d h nofun
  | some deviceId =>
    intro d₁ h₁
    have hready₁ : Ready owner d₁ := h.of_rest h₁.rest_eq
    change (truce login).wp mayFail Q (inDb
      (if (d₁.db.devices.filter fun v => v.userId = owner.user.id).any (·.id = deviceId) then do
        let _ ← autocommit (Tables.devices.update (fun _ v => v.id = deviceId)
          fun v => { v with lastSeenAt := some fresh.now }) fun _ => .plain
        pure (some deviceId)
      else pure none) >>= f) id d₁
    split
    · rename_i hown
      have hdevice : d₁.db.devices.any (·.id = deviceId) = true := any_of_any_filter hown
      exact wp_seen_bind hready₁ hdevice (hf (some deviceId))
    · exact hf none d₁ hready₁ nofun

/-- Creating a session under a new id for an account that is there. -/
theorem wp_createSession_bind {owner : Owner o config d₀.db} {tag : Tag} {tokenHash : String}
    {deviceId : Option Uuid} {proved : Option Bytes} {f : Unit → LoginRequest Answer}
    (h : Ready owner d) (hdevice : ∀ id ∈ deviceId, d.db.devices.any (·.id = id) = true)
    (hf : ∀ d', (truce login).wp mayFail Q (f ()) id d') :
    (truce login).wp mayFail Q (inDb (DbSessions.createSession tag owner.finish.fresh.id
      owner.finish.fresh.now tokenHash owner.user.id deviceId proved) >>= f) id d := by
  intro s hs _ n hn
  have hrest : rest n = rest d := (Truce.rel_trans _ hs hn).rest_eq
  have hready : Ready owner n := h.of_rest hrest
  have hdevices : (rest n).devices = (rest d).devices := by rw [hrest]
  have hvacant : n.db.sessions.all (fun r => RowId.session r.id ≠ .session owner.finish.fresh.id) =
      true := by
    rw [List.all_eq_true]
    intro r hr
    apply decide_eq_true
    intro hid
    exact hready.newSession r hr (RowId.session.inj hid)
  have huser : (userRef owner.user.id).live n.db = true := by
    apply List.any_eq_true.mpr
    exact ⟨owner.user, List.mem_of_find?_eq_some hready.byId, decide_eq_true rfl⟩
  have hdeviceRefs : (deviceId.toList.map deviceRef).all (·.live n.db) = true := by
    rw [List.all_map, List.all_eq_true]
    intro id hid
    have hany : (rest n).devices.any (·.id = id) = true :=
      hdevices ▸ hdevice id (Option.mem_toList.mp hid)
    exact hany
  have hrefs : (userRef owner.user.id :: deviceId.toList.map deviceRef).all (·.live n.db) =
      true := by
    rw [List.all_cons, huser, hdeviceRefs]
    rfl
  change (truce login).wp mayFail Q (inDb ((if n.db.sessions.all
      (fun r => RowId.session r.id ≠ .session owner.finish.fresh.id) then
        if true && (userRef owner.user.id :: deviceId.toList.map deviceRef).all (·.live n.db) then
          .ret ()
        else .rollback (.error none)
      else .rollback (.error none)) >>= fun out => .commit tag (.ret out)) >>= f) _ n
  rw [if_pos hvacant, hrefs]
  intro d' _
  exact hf _

/-- The owner's finish answers with a session for the account. -/
theorem wp_finishRequest (owner : Owner o config d₀.db) (h : Stored d₀ owner.login d) :
    (truce owner.login).wp False
      (fun out _ => ∃ response, out = .loggedIn response ∧ response.userId = owner.user.id)
      (finishRequest o mac owner.finish owner.login.id) id d := by
  unfold finishRequest loginFinish
  simp only [bind_assoc]
  apply wp_redeem_bind owner h
  intro atTake d₁ h₁
  apply wp_resetThrottle_bind h₁
  intro d₂ h₂
  unfold Auth.issueSession
  simp only [inDb_bind, bind_assoc]
  apply wp_linkDevice_bind h₂
  intro deviceId d₃ h₃ hdevice
  apply wp_read_bind
  intro d₄ h₄
  have h₄' : Ready owner d₄ := h₃.of_rest h₄.rest_eq
  have hdevices : (rest d₄).devices = (rest d₃).devices := by rw [h₄.rest_eq]
  have hdevice' : ∀ id ∈ deviceId, d₄.db.devices.any (·.id = id) = true := by
    intro id hid
    have hany : (rest d₄).devices.any (·.id = id) = true := hdevices ▸ hdevice id hid
    exact hany
  obtain ⟨v, hv⟩ := h₄'.exists_vault
  change (truce owner.login).wp False _ (inDb (okOr Auth.noVault
    (((d₄.db.vaults.filter (DbVaults.isUserVault owner.user.id d₄.db)).insertionSort
      fun a b => a.createdAt ≤ b.createdAt).head?)) >>= _) id d₄
  rw [hv, inDb_okOr_some]
  apply wp_createSession_bind h₄' hdevice'
  intro d₅ d₆ _
  exact ⟨_, rfl, rfl⟩

end OwnersFinish

/-! ## Runs -/

section Runs

variable {J : Type} {o : Opaque} {config : Config} {mac : LookupMac} {d : LoginDb}
  {others : J → StartCall} {s₁ s₂ : Crowd J} {sched₁ sched₂ : List (Option J × Act)}
  {loginId : Uuid}

/-- The owner's start among other starts, each of which keeps to what is agreed. -/
theorem alongside_start (owner : Owner o config d.db) (hothers : Strangers mac owner others) :
    (truce owner.login).Alongside True
      (fun out d' => out = .started owner.login.id ∧ Stored d owner.login d') none
      (startLogins o config mac d owner.start others) where
  others i hi := by
    cases i with
    | none => exact (hi rfl).elim
    | some j => exact Truce.Kept.start (keeps_startRequest mac (hothers.newIds j))
  own := wp_startRequest owner

variable [DecidableEq J]

/-- The owner's finish among what is left of the other starts. -/
theorem alongside_finish (owner : Owner o config d.db) (h : Stored d owner.login s₁.db)
    (hothers : ∀ i, i ≠ none → (truce owner.login).Kept (s₁.procs i)) :
    (truce owner.login).Alongside False
      (fun out _ => ∃ response, out = .loggedIn response ∧ response.userId = owner.user.id) none
      (sendFinish o mac s₁ owner.finish owner.login.id) := by
  unfold sendFinish
  constructor
  · intro i hi
    rw [State.set_procs_ne _ hi]
    exact hothers i hi
  · rw [State.set_procs_self]
    exact wp_finishRequest owner h

variable [Fintype J]

/-- In every run in which each start that drops handshakes sees at most four that are not older
than the owner's beside it, the owner's finish succeeds. -/
theorem succeeds_of_seesFew (owner : Owner o config d.db) (hothers : Strangers mac owner others)
    (h₁ : (startLogins o config mac d owner.start others).exec sched₁ = some s₁)
    (hanswer : (s₁.procs none).prog = .ret (.started loginId))
    (h₂ : (sendFinish o mac s₁ owner.finish loginId).exec sched₂ = some s₂)
    (hcut : (none, .abort) ∉ sched₂)
    (hfew₁ : EventsMeet (fun s x => s.step x.1 x.2) (SeesFew owner.start.fresh.id) sched₁
      (startLogins o config mac d owner.start others))
    (hfew₂ : EventsMeet (fun s x => s.step x.1 x.2) (SeesFew owner.start.fresh.id) sched₂
      (sendFinish o mac s₁ owner.finish loginId)) :
    Succeeds owner.user.id s₂ := by
  have hstarted := (alongside_start owner hothers).exec h₁ (fun _ => trivial) hfew₁
  obtain ⟨hid, hstored⟩ := hstarted.ends.2 _ hanswer
  cases hid
  have hfinished := (alongside_finish owner hstored hstarted.others).exec h₂ hcut hfew₂
  exact hfinished.ends

end Runs

/-! ## Five other starts -/

/-- A lower-case hash is parsed to itself. -/
theorem parseEmailHash_of_hex {emailHash : String}
    (h : emailHash.length = 64 ∧ emailHash.toList.all fun c =>
      ('0' ≤ c ∧ c ≤ '9') ∨ ('a' ≤ c ∧ c ≤ 'f') ∨ ('A' ≤ c ∧ c ≤ 'F'))
    (hlower : emailHash.map Char.toLower = emailHash) :
    parseEmailHash emailHash = pure emailHash := by
  unfold parseEmailHash
  rw [if_pos h, hlower]

/-- Everything proves the password. -/
def anyProof : Opaque where
  validRequest _ := true
  registrationStart request _ := some request
  registrationFinish := some
  proves _ _ _ := true
  srpVerify _ _ _ _ := false
  hashToken := id
  hashAuthKey := id

/-- The keyed hash of one email. -/
def oneKey : Config := ⟨fun _ => "account"⟩

/-- An account with one vault, which has logged in from one network. -/
def oneAccount : LoginDb where
  db :=
    { users := [{ id := 1, emailHash := "account", opaqueRecord := some [7] }]
      vaults := [{ id := 10, userId := 1, nameBlob := [], nameIv := [], createdAt := 0 }] }
  throttle :=
    { counters := fun _ => ⟨[], 0⟩
      trusted := fun _ network =>
        if network = networkTag id "account" (.v4 192 0 2 1) then some 0 else none }

/-- A start at some time. -/
def startFrom (clientIp : IpAddr) (now : Nat) (id : Uuid) : StartCall where
  clientIp := clientIp
  clocks := ⟨1, ⟨1, 1⟩, ⟨1, 1⟩⟩
  fresh := { now := now, id := id }
  emailHash := "".pushn '0' 64
  startLoginRequest := "AQ"

/-- The owner from the network that the account has logged in from. -/
def ownerThere : Owner anyProof oneKey oneAccount.db where
  start := startFrom (.v4 192 0 2 1) 1 5
  finish := { clientIp := .v4 192 0 2 1, now := 2, fresh := { now := 2, id := 6 },
              finishLoginRequest := "AQ", deviceId := none }
  emailHash := "".pushn '0' 64
  request := [1]
  finalization := [1]
  user := { id := 1, emailHash := "account", opaqueRecord := some [7] }
  record := [7]
  parsed := parseEmailHash_of_hex (by decide +kernel) (by decide +kernel)
  decoded := by decide
  found := by decide
  recorded := rfl
  byId := rfl
  vault := ⟨_, List.mem_cons_self, rfl⟩
  decodedFinish := by decide
  proved := rfl
  inTime := by decide
  newLogin := nofun
  newSession := nofun

/-- Another start, from another network. -/
def strangerAt (j : Fin 5) : StartCall :=
  startFrom (.v4 198 51 100 (UInt8.ofNat j)) 2 ⟨20 + j.val, by omega⟩

/-- The server with the owner's start and the strangers' ones. -/
def floodStart : Crowd (Fin 5) :=
  startLogins anyProof oneKey id oneAccount ownerThere.start strangerAt

/-- The owner's start, and then some of the strangers', one after the other. -/
def startsUpTo (count : Nat) : List (Option (Fin 5) × Act) :=
  List.replicate 14 (none, .go) ++
    ((List.finRange 5).take count).flatMap fun j => List.replicate 21 (some j, .go)

/-- The owner's finish, step by step. -/
def finishSteps (count : Nat) : List (Option (Fin 5) × Act) := List.replicate count (none, .go)

/-- They are strangers. -/
theorem strangers_strangerAt : Strangers id ownerThere strangerAt where
  trusted := ⟨0, by decide, by decide⟩
  sameAccount _ := rfl
  elsewhere j := by
    revert j
    decide
  newIds j := by
    revert j
    decide

/-- The owner's request answered with this handshake. -/
def hasStarted (loginId : Uuid) (s : Crowd (Fin 5)) : Bool :=
  match (s.procs none).prog with
  | .ret (.started id) => decide (id = loginId)
  | _ => false

/-- It did. -/
theorem prog_of_hasStarted {loginId : Uuid} {s : Crowd (Fin 5)} (h : hasStarted loginId s = true) :
    (s.procs none).prog = .ret (.started loginId) := by
  unfold hasStarted at h
  split at h
  · rename_i hp
    rw [hp, of_decide_eq_true h]
  · cases h

/-- The owner's request was refused. -/
def isRefused (s : Crowd (Fin 5)) : Bool :=
  match (s.procs none).prog with
  | .error _ => true
  | _ => false

/-- There are few handshakes that are not older, whatever the step does. -/
def HasFew (s : Crowd (Fin 5)) (step : Option (Fin 5) × Act) : Prop :=
  FewNotOlder 5 ((s.procs step.1).write s.db)

instance (s : Crowd (Fin 5)) (step : Option (Fin 5) × Act) : Decidable (HasFew s step) :=
  inferInstanceAs (Decidable (FewNotOlder 5 _))

/-- Where there always are few, those that drop handshakes see few. -/
theorem seesFew_of_hasFew {s : Crowd (Fin 5)} {sched : List (Option (Fin 5) × Act)}
    (h : EventsMeet (fun s x => s.step x.1 x.2) HasFew sched s) :
    EventsMeet (fun s x => s.step x.1 x.2) (SeesFew 5) sched s := by
  rw [eventsMeet_iff] at h ⊢
  intro before e after hsplit s' hrun _ _
  exact h before e after hsplit s' hrun

/-- The owner's handshake outlives a stranger's start. -/
theorem succeeds_of_seesFew_one : ∃ s₁ s₂, floodStart.exec (startsUpTo 1) = some s₁ ∧
    (sendFinish anyProof id s₁ ownerThere.finish 5).exec (finishSteps 14) = some s₂ ∧
      Succeeds 1 s₂ := by
  have hrun : ((floodStart.exec (startsUpTo 1)).any fun s₁ =>
      ((sendFinish anyProof id s₁ ownerThere.finish 5).exec (finishSteps 14)).isSome) = true := by
    decide
  obtain ⟨s₁, h₁, hfinish⟩ := (Option.any_eq_true _ _).mp hrun
  obtain ⟨s₂, h₂⟩ := Option.isSome_iff_exists.mp hfinish
  refine ⟨s₁, s₂, h₁, h₂, ?_⟩
  have hanswer : ((floodStart.exec (startsUpTo 1)).any (hasStarted 5)) = true := by decide
  have hfew₁ : EventsMeet (fun s x => s.step x.1 x.2) HasFew (startsUpTo 1) floodStart := by
    decide
  have hfew₂ : ((floodStart.exec (startsUpTo 1)).any fun s => decide
      (EventsMeet (fun s x => s.step x.1 x.2) HasFew (finishSteps 14)
        (sendFinish anyProof id s ownerThere.finish 5))) = true := by decide
  rw [h₁, Option.any_some] at hanswer hfew₂
  exact succeeds_of_seesFew ownerThere strangers_strangerAt h₁ (prog_of_hasStarted hanswer) h₂
    (by decide) (seesFew_of_hasFew hfew₁) (seesFew_of_hasFew (of_decide_eq_true hfew₂))

/-- Five strangers' starts drop the owner's handshake, and the finish is refused. -/
theorem not_succeeds_of_flood : ¬ ∀ (o : Opaque) (config : Config) (mac : LookupMac) (d : LoginDb)
    (owner : Owner o config d.db) (others : Fin 5 → StartCall) s₁ s₂ sched₁ sched₂ loginId,
    Strangers mac owner others →
    (startLogins o config mac d owner.start others).exec sched₁ = some s₁ →
    (s₁.procs none).prog = .ret (.started loginId) →
    (sendFinish o mac s₁ owner.finish loginId).exec sched₂ = some s₂ →
    (none, .abort) ∉ sched₂ → Succeeds owner.user.id s₂ := by
  intro h
  have hrun : ((floodStart.exec (startsUpTo 5)).any fun s₁ => hasStarted 5 s₁ &&
      ((sendFinish anyProof id s₁ ownerThere.finish 5).exec (finishSteps 3)).any isRefused) =
        true := by
    decide +kernel
  obtain ⟨s₁, h₁, hboth⟩ := (Option.any_eq_true _ _).mp hrun
  obtain ⟨hanswer, hfinish⟩ := Bool.and_eq_true_iff.mp hboth
  obtain ⟨s₂, h₂, hrefused⟩ := (Option.any_eq_true _ _).mp hfinish
  have hsucceeds := h anyProof oneKey id oneAccount ownerThere strangerAt s₁ s₂ (startsUpTo 5)
    (finishSteps 3) 5 strangers_strangerAt h₁ (prog_of_hasStarted hanswer) h₂ (by decide)
  unfold isRefused at hrefused
  split at hrefused
  · rename_i e he
    exact hsucceeds.1 e he
  · cases hrefused

end Login

end Nopass
