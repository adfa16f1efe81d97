import Mathlib.Data.Fintype.Basic
import Mathlib.Logic.Function.Basic

/-!
# Concurrent requests under READ COMMITTED

A request is a program of SQL statements. A plain `SELECT` reads the rows
committed at that moment together with the writes of its own transaction. Any
other statement takes its snapshot in one step and completes in a later one, when
the row locks it needs are free: its guards read the snapshot, the rows it locks
are read again at completion. Writes appear at commit and locks last until then.
The database, the row names and the commit labels are parameters.
-/

namespace ReadCommitted

/-- The four row-level lock strengths, weakest first. -/
inductive LockMode where
  | keyShare
  | share
  | noKeyUpdate
  | update
  deriving DecidableEq, Repr

/-- Whether two transactions may hold the two strengths on one row. -/
def LockMode.compatible : LockMode → LockMode → Bool
  | .keyShare, .update => false
  | .keyShare, _ => true
  | .share, .keyShare => true
  | .share, .share => true
  | .share, _ => false
  | .noKeyUpdate, .keyShare => true
  | .noKeyUpdate, _ => false
  | .update, _ => false

/-- The conflict table is symmetric. -/
theorem LockMode.compatible_comm (a b : LockMode) : a.compatible b = b.compatible a := by
  cases a <;> cases b <;> rfl

/-- Nothing coexists with the strongest lock. -/
@[simp] theorem LockMode.compatible_update (a : LockMode) : a.compatible .update = false := by
  cases a <;> rfl

/-- Beside a writer of a row, others hold the weakest lock at most. -/
theorem LockMode.eq_keyShare {a m : LockMode} (ha : a = .noKeyUpdate ∨ a = .update)
    (h : a.compatible m = true) : m = .keyShare := by
  rcases ha with rfl | rfl
  · cases m with
    | keyShare => rfl
    | share | noKeyUpdate | update => cases h
  · cases m with
    | keyShare | share | noKeyUpdate | update => cases h

/-- A request: what it does next, statement by statement. `D` is the database, `K` names
rows, `T` labels commits, `E` is a refusal and `O` an answer. -/
inductive Prog (D K T E O : Type) where
  /-- The request answers. -/
  | ret (out : O)
  /-- The request is refused, or fails without saying why. -/
  | error (e : Option E)
  /-- A read that takes no locks. -/
  | select (next : D → Prog D K T E O)
  /-- A locking statement, given its snapshot and the newest rows it waited for. -/
  | stmt (locks : D → D → List (K × LockMode)) (write : D → D → D → D)
      (next : D → D → Prog D K T E O)
  /-- The transaction's writes appear and its locks go. -/
  | commit (tag : T) (next : Prog D K T E O)
  /-- The transaction's writes are dropped and its locks go. -/
  | rollback (next : Prog D K T E O)

namespace Prog

variable {D K T E O O' : Type}

/-- Run `f` on the answer of a program. -/
def bind : Prog D K T E O → (O → Prog D K T E O') → Prog D K T E O'
  | .ret out, f => f out
  | .error e, _ => .error e
  | .select next, f => .select fun d => (next d).bind f
  | .stmt locks write next, f => .stmt locks write fun s n => (next s n).bind f
  | .commit tag next, f => .commit tag (next.bind f)
  | .rollback next, f => .rollback (next.bind f)

instance : Monad (Prog D K T E) where
  pure := .ret
  bind := bind

@[simp] theorem pure_eq (out : O) : (pure out : Prog D K T E O) = .ret out := rfl

@[simp] theorem ret_bind (out : O) (f : O → Prog D K T E O') :
    (Prog.ret out >>= f) = f out := rfl

@[simp] theorem error_bind (e : Option E) (f : O → Prog D K T E O') :
    ((Prog.error e : Prog D K T E O) >>= f) = .error e := rfl

@[simp] theorem select_bind (next : D → Prog D K T E O) (f : O → Prog D K T E O') :
    (Prog.select next >>= f) = .select fun d => next d >>= f := rfl

@[simp] theorem stmt_bind (locks : D → D → List (K × LockMode)) (write : D → D → D → D)
    (next : D → D → Prog D K T E O) (f : O → Prog D K T E O') :
    (Prog.stmt locks write next >>= f) = .stmt locks write fun s n => next s n >>= f := rfl

@[simp] theorem commit_bind (tag : T) (next : Prog D K T E O) (f : O → Prog D K T E O') :
    (Prog.commit tag next >>= f) = .commit tag (next >>= f) := rfl

@[simp] theorem rollback_bind (next : Prog D K T E O) (f : O → Prog D K T E O') :
    (Prog.rollback next >>= f) = .rollback (next >>= f) := rfl

/-- The refusal that a request ended with. -/
def refusal : Prog D K T E O → Option E
  | .error e => e
  | _ => none

/-- The answer that a request ended with. -/
def answer : Prog D K T E O → Option O
  | .ret out => some out
  | _ => none

/-- A request ended with an answer exactly when it is that answer. -/
theorem answer_eq_some {prog : Prog D K T E O} {out : O} :
    prog.answer = some out ↔ prog = .ret out := by
  cases prog with
  | ret out' => simp [answer]
  | _ => simp [answer]

/-- Sequencing associates. -/
theorem bind_bind {O'' : Type} (prog : Prog D K T E O) (f : O → Prog D K T E O')
    (g : O' → Prog D K T E O'') : prog >>= f >>= g = prog >>= fun out => f out >>= g := by
  induction prog with
  | ret out => rfl
  | error e => rfl
  | select next ih => exact congrArg Prog.select (funext ih)
  | stmt locks write next ih =>
    exact congrArg (Prog.stmt locks write) (funext fun s => funext fun n => ih s n)
  | commit tag next ih => exact congrArg (Prog.commit tag) ih
  | rollback next ih => exact congrArg Prog.rollback ih

/-- Answering at once is neutral. -/
theorem bind_ret (prog : Prog D K T E O) : prog >>= Prog.ret = prog := by
  induction prog with
  | ret out => rfl
  | error e => rfl
  | select next ih => exact congrArg Prog.select (funext ih)
  | stmt locks write next ih =>
    exact congrArg (Prog.stmt locks write) (funext fun s => funext fun n => ih s n)
  | commit tag next ih => exact congrArg (Prog.commit tag) ih
  | rollback next ih => exact congrArg Prog.rollback ih

instance : LawfulMonad (Prog D K T E) :=
  LawfulMonad.mk' _ (fun prog => bind_ret prog) (fun _ _ => rfl) bind_bind

/-- A program of reads alone. -/
def Reads : Prog D K T E O → Prop
  | .ret _ => True
  | .error _ => True
  | .select next => ∀ d, (next d).Reads
  | _ => False

@[simp] theorem reads_ret (out : O) : (Prog.ret out : Prog D K T E O).Reads := trivial

@[simp] theorem reads_error (e : Option E) : (Prog.error e : Prog D K T E O).Reads := trivial

/-- Reads one after the other are reads. -/
theorem Reads.bind {prog : Prog D K T E O} {f : O → Prog D K T E O'} (h : prog.Reads)
    (hf : ∀ out, (f out).Reads) : (prog >>= f).Reads := by
  induction prog with
  | ret out => exact hf out
  | error e => trivial
  | select next ih => exact fun d => ih d (h d)
  | stmt locks write next => exact h.elim
  | commit tag next => exact h.elim
  | rollback next => exact h.elim

/-- A program of reads alone whose answers satisfy `P`. -/
def Gives (P : O → Prop) : Prog D K T E O → Prop
  | .ret out => P out
  | .error _ => True
  | .select next => ∀ d, (next d).Gives P
  | _ => False

/-- Reads one after the other, with what the first gives. -/
theorem Gives.bind {P : O → Prop} {P' : O' → Prop} {prog : Prog D K T E O}
    {f : O → Prog D K T E O'} (h : prog.Gives P) (hf : ∀ out, P out → (f out).Gives P') :
    (prog >>= f).Gives P' := by
  induction prog with
  | ret out => exact hf out h
  | error e => trivial
  | select next ih => exact fun d => ih d (h d)
  | stmt locks write next => exact h.elim
  | commit tag next => exact h.elim
  | rollback next => exact h.elim

/-- The request run with no other request beside it: every lock is free and every statement
sees the newest rows. The first database is the committed one, `write` the pending writes. -/
def alone : Prog D K T E O → (D → D) → D → Except (Option E) O × D
  | .ret out, _, d => (.ok out, d)
  | .error e, _, d => (.error e, d)
  | .select next, write, d => (next (write d)).alone write d
  | .stmt _ edit next, write, d =>
      (next (write d) (write d)).alone (edit (write d) (write d) ∘ write) d
  | .commit _ next, write, d => next.alone id (write d)
  | .rollback next, _, d => next.alone id d

/-- Reads that a lone request went through leave it where it was. -/
theorem alone_reads_bind {prog : Prog D K T E O} {f : O → Prog D K T E O'} {w : D → D} {d d' : D}
    {out : O'} (h : prog.Reads) (ha : (prog >>= f).alone w d = (.ok out, d')) :
    ∃ x, prog.alone w d = (.ok x, d) ∧ (f x).alone w d = (.ok out, d') := by
  induction prog with
  | ret x => exact ⟨x, rfl, ha⟩
  | error e => cases ha
  | select next ih => exact ih (w d) (h (w d)) ha
  | stmt locks write next => exact h.elim
  | commit tag next => exact h.elim
  | rollback next => exact h.elim

/-- The committed database when a lone request is cut off after some statements. -/
def cutOff : Nat → Prog D K T E O → (D → D) → D → D
  | 0, _, _, d => d
  | _ + 1, .ret _, _, d => d
  | _ + 1, .error _, _, d => d
  | n + 1, .select next, write, d => cutOff n (next (write d)) write d
  | n + 1, .stmt _ edit next, write, d =>
      cutOff n (next (write d) (write d)) (edit (write d) (write d) ∘ write) d
  | n + 1, .commit _ next, write, d => cutOff n next id (write d)
  | n + 1, .rollback next, _, d => cutOff n next id d

/-- A program that commits nothing. -/
def NeverCommits : Prog D K T E O → Prop
  | .ret _ => True
  | .error _ => True
  | .select next => ∀ d, (next d).NeverCommits
  | .stmt _ _ next => ∀ s n, (next s n).NeverCommits
  | .commit _ _ => False
  | .rollback next => next.NeverCommits

/-- A program that answers as soon as it has committed, with an answer that satisfies `P`. -/
def CommitsLast (P : O → Prop) : Prog D K T E O → Prop
  | .ret _ => True
  | .error _ => True
  | .select next => ∀ d, (next d).CommitsLast P
  | .stmt _ _ next => ∀ s n, (next s n).CommitsLast P
  | .commit _ next => ∃ out, P out ∧ next = .ret out
  | .rollback next => next.CommitsLast P

/-- Reads commit nothing. -/
theorem Reads.neverCommits {prog : Prog D K T E O} (h : prog.Reads) : prog.NeverCommits := by
  induction prog with
  | ret out => trivial
  | error e => trivial
  | select next ih => exact fun d => ih d (h d)
  | stmt locks write next => exact h.elim
  | commit tag next => exact h.elim
  | rollback next => exact h.elim

/-- Programs that commit nothing, one after the other. -/
theorem NeverCommits.bind {prog : Prog D K T E O} {f : O → Prog D K T E O'}
    (h : prog.NeverCommits) (hf : ∀ out, (f out).NeverCommits) : (prog >>= f).NeverCommits := by
  induction prog with
  | ret out => exact hf out
  | error e => trivial
  | select next ih => exact fun d => ih d (h d)
  | stmt locks write next ih => exact fun s n => ih s n (h s n)
  | commit tag next => exact h.elim
  | rollback next ih => exact ih h

/-- A commit at the end of a program. -/
theorem NeverCommits.bind_last {P : O' → Prop} {prog : Prog D K T E O} {f : O → Prog D K T E O'}
    (h : prog.NeverCommits) (hf : ∀ out, (f out).CommitsLast P) : (prog >>= f).CommitsLast P := by
  induction prog with
  | ret out => exact hf out
  | error e => trivial
  | select next ih => exact fun d => ih d (h d)
  | stmt locks write next ih => exact fun s n => ih s n (h s n)
  | commit tag next => exact h.elim
  | rollback next ih => exact ih h

/-- A program that commits nothing answers after every commit. -/
theorem NeverCommits.last {P : O → Prop} {prog : Prog D K T E O} (h : prog.NeverCommits) :
    prog.CommitsLast P := by
  have hlast := h.bind_last (P := P) (f := Prog.ret) fun _ => trivial
  rwa [bind_ret] at hlast

/-- A check before a program that answers after its commit. -/
theorem CommitsLast.ite_rollback {P : O → Prop} {c : Prop} [Decidable c] {o : O}
    {prog : Prog D K T E O} (h : prog.CommitsLast P) :
    (if c then .rollback (.ret o) else prog).CommitsLast P := by
  split
  · trivial
  · exact h

/-- What follows the last commit answers at once. -/
theorem CommitsLast.bind {P : O → Prop} {P' : O' → Prop} {prog : Prog D K T E O}
    {f : O → Prog D K T E O'} (h : prog.CommitsLast P)
    (hP : ∀ out, P out → ∃ out', P' out' ∧ f out = .ret out') (hf : ∀ out, (f out).NeverCommits) :
    (prog >>= f).CommitsLast P' := by
  induction prog with
  | ret out => exact (hf out).last
  | error e => trivial
  | select next ih => exact fun d => ih d (h d)
  | stmt locks write next ih => exact fun s n => ih s n (h s n)
  | commit tag next =>
    obtain ⟨out, hout, rfl⟩ := h
    obtain ⟨out', hout', heq⟩ := hP out hout
    exact ⟨out', hout', heq⟩
  | rollback next ih => exact ih h

/-- A lone request that answers after its commit has answered so or changed nothing. -/
theorem CommitsLast.alone {P : O → Prop} {prog : Prog D K T E O} (h : prog.CommitsLast P)
    (w : D → D) (d : D) : (prog.alone w d).2 = d ∨ ∃ out, P out ∧ (prog.alone w d).1 = .ok out := by
  induction prog generalizing w with
  | ret out => exact .inl rfl
  | error e => exact .inl rfl
  | select next ih => exact ih (w d) (h (w d)) w
  | stmt locks write next ih => exact ih (w d) (w d) (h (w d) (w d)) _
  | commit tag next =>
    obtain ⟨out, hout, rfl⟩ := h
    exact .inr ⟨out, hout, rfl⟩
  | rollback next ih => exact ih h id

/-- A lone request that answers after its commit is done or has changed nothing, wherever it is
cut off. -/
theorem CommitsLast.cutOff {P : O → Prop} {prog : Prog D K T E O} (h : prog.CommitsLast P)
    (n : Nat) (w : D → D) (d : D) :
    Prog.cutOff n prog w d = d ∨ Prog.cutOff n prog w d = (prog.alone w d).2 := by
  induction prog generalizing n w with
  | ret out => cases n <;> exact .inl rfl
  | error e => cases n <;> exact .inl rfl
  | select next ih =>
    cases n with
    | zero => exact .inl rfl
    | succ n => exact ih (w d) (h (w d)) n w
  | stmt locks write next ih =>
    cases n with
    | zero => exact .inl rfl
    | succ n => exact ih (w d) (w d) (h (w d) (w d)) n _
  | commit tag next =>
    obtain ⟨out, -, rfl⟩ := h
    cases n with
    | zero => exact .inl rfl
    | succ n => cases n <;> exact .inr rfl
  | rollback next ih =>
    cases n with
    | zero => exact .inl rfl
    | succ n => exact ih h n id

/-- A lone request sees of its pending writes what they make of the database. -/
theorem alone_const (prog : Prog D K T E O) (w : D → D) (d : D) :
    prog.alone w d = prog.alone (fun _ => w d) d := by
  induction prog generalizing w with
  | ret out => rfl
  | error e => rfl
  | select next ih => exact ih (w d) w
  | stmt locks write next ih =>
    refine (ih _ _ _).trans ?_
    exact (ih (w d) (w d) (fun _ => write (w d) (w d) (w d))).symm ▸ rfl
  | commit tag next => rfl
  | rollback next => rfl

/-- What a lone request goes on to say without looking at the database. -/
theorem alone_bind_of_answers {prog : Prog D K T E O} {f : O → Prog D K T E O'}
    {g : O → Except (Option E) O'} (hf : ∀ out w d, (f out).alone w d = (g out, d)) (w : D → D)
    (d : D) : (prog >>= f).alone w d = ((prog.alone w d).1.bind g, (prog.alone w d).2) := by
  induction prog generalizing w d with
  | ret out => exact hf out w d
  | error e => rfl
  | select next ih => exact ih (w d) w d
  | stmt locks write next ih => exact ih (w d) (w d) _ d
  | commit tag next ih => exact ih id (w d)
  | rollback next ih => exact ih id d

/-- A lone request goes on after a check exactly when the check does not hold. -/
theorem alone_ite_rollback {c : Prop} [Decidable c] {o out : O} {prog : Prog D K T E O}
    {w : D → D} {d d' : D} (ho : o ≠ out) :
    (if c then .rollback (.ret o) else prog).alone w d = (.ok out, d') ↔
      ¬c ∧ prog.alone w d = (.ok out, d') := by
  by_cases hc : c
  · rw [if_pos hc]
    constructor
    · intro h
      exact (ho (Except.ok.inj (congrArg Prod.fst h))).elim
    · intro h
      exact (h.1 hc).elim
  · rw [if_neg hc]
    exact ⟨fun h => ⟨hc, h⟩, fun h => h.2⟩

end Prog

/-- A request in progress. -/
structure Proc (D K T E O : Type) where
  /-- What is left to do. -/
  prog : Prog D K T E O
  /-- The snapshot of the statement that is waiting for its locks. -/
  snap : Option D := none
  /-- Row locks of the open transaction. -/
  locks : List (K × LockMode) := []
  /-- Writes of the open transaction. -/
  write : D → D := id

/-- The committed database and the requests in progress. -/
structure State (I D K T E O : Type) where
  /-- The committed database. -/
  db : D
  /-- The request of each index. -/
  procs : I → Proc D K T E O

/-- The requests at their start. -/
def State.start {I D K T E O : Type} (db : D) (reqs : I → Prog D K T E O) : State I D K T E O :=
  { db := db, procs := fun i => { prog := reqs i } }

/-- A request goes one step further or is cut off by its connection or the server. -/
inductive Act where
  | go
  | abort
  deriving DecidableEq, Repr

/-- A schedule of numbered requests: each pair names a request and the number of its steps. -/
def Act.inTurn {n : Nat} (turns : List (Nat × Nat)) : List (Fin (n + 1) × Act) :=
  turns.flatMap fun turn => List.replicate turn.2 (Fin.ofNat (n + 1) turn.1, .go)

section Step

variable {I D K T E O : Type}

/-- Two lock lists name no row in conflicting strengths. -/
def Compatible (a b : List (K × LockMode)) : Prop :=
  ∀ x ∈ a, ∀ y ∈ b, x.1 = y.1 → x.2.compatible y.2 = true

instance [DecidableEq K] (a b : List (K × LockMode)) : Decidable (Compatible a b) :=
  inferInstanceAs (Decidable (∀ x ∈ a, ∀ y ∈ b, x.1 = y.1 → x.2.compatible y.2 = true))

/-- Compatibility does not depend on who came first. -/
theorem Compatible.symm {a b : List (K × LockMode)} (h : Compatible a b) : Compatible b a := by
  intro x hx y hy hxy
  rw [LockMode.compatible_comm]
  exact h y hy x hx hxy.symm

@[simp] theorem Compatible.nil_left (b : List (K × LockMode)) : Compatible [] b := by
  simp [Compatible]

@[simp] theorem Compatible.nil_right (a : List (K × LockMode)) : Compatible a [] := by
  simp [Compatible]

/-- Locks may be added to a list one batch at a time. -/
theorem Compatible.append_left {a a' b : List (K × LockMode)} (h : Compatible a b)
    (h' : Compatible a' b) : Compatible (a ++ a') b := by
  intro x hx
  rcases List.mem_append.mp hx with hx | hx
  · exact h x hx
  · exact h' x hx

/-- The locks still free for request `i` given what the others hold. -/
def State.Free (s : State I D K T E O) (i : I) (locks : List (K × LockMode)) : Prop :=
  ∀ j, j ≠ i → Compatible locks (s.procs j).locks

instance [Fintype I] [DecidableEq I] [DecidableEq K] (s : State I D K T E O) (i : I)
    (locks : List (K × LockMode)) : Decidable (s.Free i locks) :=
  inferInstanceAs (Decidable (∀ j, j ≠ i → Compatible locks (s.procs j).locks))

variable [DecidableEq I]

/-- Replace one request. -/
def State.set (s : State I D K T E O) (i : I) (p : Proc D K T E O) : State I D K T E O :=
  { s with procs := Function.update s.procs i p }

@[simp] theorem State.set_db (s : State I D K T E O) (i : I) (p : Proc D K T E O) :
    (s.set i p).db = s.db := rfl

@[simp] theorem State.set_procs_self (s : State I D K T E O) (i : I) (p : Proc D K T E O) :
    (s.set i p).procs i = p := Function.update_self ..

/-- The other requests stay as they are. -/
theorem State.set_procs_ne (s : State I D K T E O) {i j : I} (h : j ≠ i) (p : Proc D K T E O) :
    (s.set i p).procs j = s.procs j := Function.update_of_ne h ..

variable [Fintype I] [DecidableEq K]

/-- One step of request `i`; `none` when it has ended or must wait for a lock. -/
def State.step (s : State I D K T E O) (i : I) : Act → Option (State I D K T E O)
  | .abort =>
    match (s.procs i).prog with
    | .ret _ => none
    | .error _ => none
    | _ => some (s.set i { prog := .error none })
  | .go =>
    let p := s.procs i
    match p.prog with
    | .ret _ => none
    | .error _ => none
    | .select next => some (s.set i { p with prog := next (p.write s.db) })
    | .stmt locks write next =>
      match p.snap with
      | none => some (s.set i { p with snap := some (p.write s.db) })
      | some snap =>
        let now := p.write s.db
        if s.Free i (locks snap now) then
          some (s.set i { prog := next snap now, snap := none,
                          locks := p.locks ++ locks snap now, write := write snap now ∘ p.write })
        else none
    | .commit _ next => some ({ s with db := p.write s.db }.set i { prog := next })
    | .rollback next => some (s.set i { prog := next })

/-- Run a schedule; `none` when one of its steps is not possible. -/
def State.exec (s : State I D K T E O) : List (I × Act) → Option (State I D K T E O)
  | [] => some s
  | (i, act) :: rest => (s.step i act).bind fun s' => s'.exec rest

/-- The label of the commit that request `i` is about to make. -/
def State.committing (s : State I D K T E O) (i : I) : Option T :=
  match (s.procs i).prog with
  | .commit tag _ => some tag
  | _ => none

/-- Every commit of the schedule happens in a database that satisfies `allow` for its label. -/
def State.Commits (allow : T → D → Prop) (s : State I D K T E O) : List (I × Act) → Prop
  | [] => True
  | (i, act) :: rest =>
      (act = .go → ∀ tag ∈ s.committing i, allow tag s.db) ∧
      ∀ s' ∈ s.step i act, s'.Commits allow rest

instance State.decidableCommits (allow : T → D → Prop) [∀ tag d, Decidable (allow tag d)]
    (s : State I D K T E O) : ∀ sched, Decidable (s.Commits allow sched)
  | [] => inferInstanceAs (Decidable True)
  | (i, act) :: rest =>
    have := fun s' : State I D K T E O => State.decidableCommits allow s' rest
    inferInstanceAs (Decidable ((act = .go → ∀ tag ∈ s.committing i, allow tag s.db) ∧
      ∀ s' ∈ s.step i act, s'.Commits allow rest))

/-- What one step does to the stepping request and to the database, case by case. -/
theorem State.step_cases {s s' : State I D K T E O} {i : I} {act : Act}
    (h : s.step i act = some s') :
    (act = .abort ∧ s' = s.set i { prog := .error none }) ∨
    (∃ next, (s.procs i).prog = .select next ∧
      s' = s.set i { s.procs i with prog := next ((s.procs i).write s.db) }) ∨
    (∃ locks write next, (s.procs i).prog = .stmt locks write next ∧ (s.procs i).snap = none ∧
      s' = s.set i { s.procs i with snap := some ((s.procs i).write s.db) }) ∨
    (∃ locks write next snap, (s.procs i).prog = .stmt locks write next ∧
      (s.procs i).snap = some snap ∧ s.Free i (locks snap ((s.procs i).write s.db)) ∧
      s' = s.set i { prog := next snap ((s.procs i).write s.db), snap := none,
                     locks := (s.procs i).locks ++ locks snap ((s.procs i).write s.db),
                     write := write snap ((s.procs i).write s.db) ∘ (s.procs i).write }) ∨
    (∃ tag next, act = .go ∧ (s.procs i).prog = .commit tag next ∧
      s' = { s with db := (s.procs i).write s.db }.set i { prog := next }) ∨
    (∃ next, (s.procs i).prog = .rollback next ∧ s' = s.set i { prog := next }) := by
  cases act with
  | abort =>
    left
    cases hp : (s.procs i).prog <;> simp [State.step, hp] at h <;> simp [h]
  | go =>
    right
    cases hp : (s.procs i).prog with
    | ret out => simp [State.step, hp] at h
    | error e => simp [State.step, hp] at h
    | select next =>
      left
      simp only [State.step, hp, Option.some.injEq] at h
      exact ⟨next, rfl, h.symm⟩
    | stmt locks write next =>
      right
      cases hs : (s.procs i).snap with
      | none =>
        left
        simp only [State.step, hp, hs, Option.some.injEq] at h
        exact ⟨locks, write, next, rfl, rfl, by rw [← h, ← hp]⟩
      | some snap =>
        right; left
        simp only [State.step, hp, hs] at h
        split at h
        · rename_i hf
          exact ⟨locks, write, next, snap, rfl, rfl, hf, (Option.some.inj h).symm⟩
        · cases h
    | commit tag next =>
      right; right; right; left
      simp only [State.step, hp, Option.some.injEq] at h
      exact ⟨tag, next, rfl, rfl, h.symm⟩
    | rollback next =>
      right; right; right; right
      simp only [State.step, hp, Option.some.injEq] at h
      exact ⟨next, rfl, h.symm⟩

/-- A schedule runs part by part. -/
theorem State.exec_append {s s' : State I D K T E O} {sched sched' : List (I × Act)} :
    s.exec (sched ++ sched') = some s' ↔
      ∃ s₁, s.exec sched = some s₁ ∧ s₁.exec sched' = some s' := by
  induction sched generalizing s with
  | nil => simp [State.exec]
  | cons x rest ih =>
    simp only [List.cons_append, State.exec, Option.bind_eq_some_iff, ih]
    constructor
    · rintro ⟨s₁, h₁, s₂, h₂, h₃⟩
      exact ⟨s₂, ⟨s₁, h₁, h₂⟩, h₃⟩
    · rintro ⟨s₂, ⟨s₁, h₁, h₂⟩, h₃⟩
      exact ⟨s₁, h₁, s₂, h₂, h₃⟩

/-- The commits of a schedule are those of its parts. -/
theorem State.Commits.append {allow : T → D → Prop} {s s₁ : State I D K T E O}
    {sched sched' : List (I × Act)} (h : s.Commits allow (sched ++ sched'))
    (h₁ : s.exec sched = some s₁) : s.Commits allow sched ∧ s₁.Commits allow sched' := by
  induction sched generalizing s with
  | nil =>
    cases h₁
    exact ⟨trivial, h⟩
  | cons x rest ih =>
    obtain ⟨hc, hr⟩ := h
    obtain ⟨s₂, h₂, h₃⟩ := Option.bind_eq_some_iff.mp h₁
    have hs₂ := ih (hr s₂ h₂) h₃
    refine ⟨⟨hc, fun s' hs' => ?_⟩, hs₂.2⟩
    cases h₂.symm.trans hs'
    exact hs₂.1

/-- Commits that satisfy both conditions. -/
theorem State.Commits.and {allow allow' : T → D → Prop} {s : State I D K T E O}
    {sched : List (I × Act)} (h : s.Commits allow sched) (h' : s.Commits allow' sched) :
    s.Commits (fun tag d => allow tag d ∧ allow' tag d) sched := by
  induction sched generalizing s with
  | nil => trivial
  | cons x rest ih =>
    obtain ⟨hc, hr⟩ := h
    obtain ⟨hc', hr'⟩ := h'
    exact ⟨fun ha tag ht => ⟨hc ha tag ht, hc' ha tag ht⟩, fun s' hs => ih (hr s' hs) (hr' s' hs)⟩

end Step

end ReadCommitted
