import Nopass.Core.Sql.Interference

/-!
# Requests of several reads

A request outside of a transaction reads each statement from a database of its own. What
it answers is settled by the databases that its statements saw, in their order.
-/

namespace ReadCommitted

variable {I D K T E O : Type}

namespace Prog

/-- A program of reads after statements that saw the given databases. -/
def fed : List D → Prog D K T E O → Prog D K T E O
  | d :: ds, .select next => fed ds (next d)
  | _, prog => prog

@[simp] theorem fed_nil (prog : Prog D K T E O) : prog.fed [] = prog := by
  cases prog with
  | _ => rfl

@[simp] theorem fed_select (d : D) (ds : List D) (next : D → Prog D K T E O) :
    (Prog.select next).fed (d :: ds) = (next d).fed ds := rfl

@[simp] theorem fed_ret (ds : List D) (out : O) :
    (Prog.ret out : Prog D K T E O).fed ds = .ret out := by
  cases ds with
  | _ => rfl

@[simp] theorem fed_error (ds : List D) (e : Option E) :
    (Prog.error e : Prog D K T E O).fed ds = .error e := by
  cases ds with
  | _ => rfl

/-- Statements one after the other. -/
theorem fed_append {prog : Prog D K T E O} (h : prog.Reads) (ds ds' : List D) :
    prog.fed (ds ++ ds') = (prog.fed ds).fed ds' := by
  induction ds generalizing prog with
  | nil => rw [List.nil_append, fed_nil]
  | cons d ds ih =>
    cases prog with
    | ret out => rw [fed_ret, fed_ret, fed_ret]
    | error e => rw [fed_error, fed_error, fed_error]
    | select next => exact ih (h d)
    | stmt locks write next => exact h.elim
    | commit tag next => exact h.elim
    | rollback next => exact h.elim

/-- What is left of reads is reads. -/
theorem Reads.fed {prog : Prog D K T E O} (h : prog.Reads) (ds : List D) :
    (prog.fed ds).Reads := by
  induction ds generalizing prog with
  | nil => rwa [fed_nil]
  | cons d ds ih =>
    cases prog with
    | ret out => trivial
    | error e => trivial
    | select next => exact ih (h d)
    | stmt locks write next => exact h.elim
    | commit tag next => exact h.elim
    | rollback next => exact h.elim

end Prog

variable [DecidableEq I] [Fintype I] [DecidableEq K] {s s' : State I D K T E O} {i : I} {act : Act}
  {prog : Prog D K T E O}

/-- One step of a request of reads: it is cut off, or its next statement sees the database as it
stands. -/
theorem State.step_reads (hp : s.procs i = { prog := prog }) (hreads : prog.Reads)
    (h : s.step i act = some s') : s'.db = s.db ∧
      (s'.procs i = { prog := .error none } ∨
        act = .go ∧ s'.procs i = { prog := prog.fed [s.db] }) := by
  cases prog with
  | ret out => cases act <;> simp [State.step, hp] at h
  | error e => cases act <;> simp [State.step, hp] at h
  | stmt locks write next => exact hreads.elim
  | commit tag next => exact hreads.elim
  | rollback next => exact hreads.elim
  | select next =>
    cases act with
    | abort =>
      simp only [State.step, hp, Option.some.injEq] at h
      subst h
      exact ⟨rfl, Or.inl (State.set_procs_self ..)⟩
    | go =>
      simp only [State.step, hp, Option.some.injEq] at h
      subst h
      refine ⟨rfl, Or.inr ⟨rfl, ?_⟩⟩
      rw [State.set_procs_self, Prog.fed_select, Prog.fed_nil]
      rfl

end ReadCommitted
