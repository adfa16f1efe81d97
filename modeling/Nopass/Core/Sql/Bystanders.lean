import Nopass.Core.Run
import Nopass.Core.Sql.History

/-!
# One request among others

What the others may do to the database between the steps of one request is a relation.
Their statements keep to it, some of them only when a condition holds of their snapshot.
The one request is checked alone against that relation, and may itself change whatever it
likes. A request on a part of a database does nothing to the rest.
-/

namespace ReadCommitted

variable {I D K T E O O' : Type}

/-- What the others of a request keep to. -/
structure Truce (D K T E O : Type) where
  /-- What they may do to the database. -/
  rel : D → D → Prop
  rel_refl : ∀ d, rel d d
  rel_trans : ∀ {a b c}, rel a b → rel b c → rel a c
  /-- The statements that keep to it only when their snapshot satisfies the condition. -/
  watched : Prog D K T E O → Prop
  cond : D → Prop

namespace Truce

variable (t : Truce D K T E O)

/-- A program whose statements keep to what is agreed. -/
def Keeps : Prog D K T E O → Prop
  | .ret _ => True
  | .error _ => True
  | .select next => ∀ d, Keeps (next d)
  | .stmt locks write next => ∀ s n,
      ((t.watched (.stmt locks write next) → t.cond s) → ∀ d, t.rel d (write s n d)) ∧
        Keeps (next s n)
  | .commit _ next => Keeps next
  | .rollback next => Keeps next

/-- A request in progress that keeps to what is agreed. -/
structure Kept (p : Proc D K T E O) : Prop where
  prog : t.Keeps p.prog
  write : ∀ d, t.rel d (p.write d)
  /-- A statement waits for its locks, and needed no condition or met it. -/
  snap : ∀ s ∈ p.snap, (∃ locks write next, p.prog = .stmt locks write next) ∧
    (t.watched p.prog → t.cond s)

/-- From the committed database `d`, with pending writes `w`, the program ends in `Q` whatever
the others do within what is agreed; it is refused only if it may be. -/
def wp (mayFail : Prop) (Q : O → D → Prop) : Prog D K T E O → (D → D) → D → Prop
  | .ret out, _, d => ∀ d', t.rel d d' → Q out d'
  | .error _, _, _ => mayFail
  | .select next, w, d => ∀ d', t.rel d d' → wp mayFail Q (next (w d')) w d'
  | .stmt locks write next, w, d => ∀ s, t.rel d s →
      (t.watched (.stmt locks write next) → t.cond (w s)) → ∀ n, t.rel s n →
        wp mayFail Q (next (w s) (w n)) (write (w s) (w n) ∘ w) n
  | .commit _ next, w, d => ∀ d', t.rel d d' → wp mayFail Q next id (w d')
  | .rollback next, _, d => ∀ d', t.rel d d' → wp mayFail Q next id d'

/-- A request in progress that ends in `Q`. -/
def Sure (mayFail : Prop) (Q : O → D → Prop) (p : Proc D K T E O) (d : D) : Prop :=
  match p.snap with
  | none => t.wp mayFail Q p.prog p.write d
  | some snap => ∃ locks write next, p.prog = .stmt locks write next ∧
      ∀ n, t.rel d n → t.wp mayFail Q (next snap (p.write n)) (write snap (p.write n) ∘ p.write) n

/-- One request that ends in `Q` and others that keep to what is agreed. -/
structure Alongside (mayFail : Prop) (Q : O → D → Prop) (i : I) (s : State I D K T E O) :
    Prop where
  others : ∀ j, j ≠ i → t.Kept (s.procs j)
  own : t.Sure mayFail Q (s.procs i) s.db

/-- A statement that needs the condition takes its snapshot where the condition holds. -/
def Watches (s : State I D K T E O) (step : I × Act) : Prop :=
  (s.procs step.1).snap = none → t.watched (s.procs step.1).prog →
    t.cond ((s.procs step.1).write s.db)

variable {t} {mayFail : Prop} {Q : O → D → Prop} {d d' : D} {w : D → D} {prog : Prog D K T E O}

/-- What is shown of a program stays true while the others move. -/
theorem wp_rel (h : t.wp mayFail Q prog w d) (hr : t.rel d d') : t.wp mayFail Q prog w d' := by
  cases prog with
  | ret out => exact fun d₁ h₁ => h d₁ (t.rel_trans hr h₁)
  | error e => exact h
  | select next => exact fun d₁ h₁ => h d₁ (t.rel_trans hr h₁)
  | stmt locks write next => exact fun s hs => h s (t.rel_trans hr hs)
  | commit tag next => exact fun d₁ h₁ => h d₁ (t.rel_trans hr h₁)
  | rollback next => exact fun d₁ h₁ => h d₁ (t.rel_trans hr h₁)

/-- A request that waits for no lock has no snapshot. -/
theorem Kept.snap_eq_none {p : Proc D K T E O} (hk : t.Kept p)
    (hp : ∀ locks write next, p.prog ≠ .stmt locks write next) : p.snap = none := by
  cases hs : p.snap with
  | none => rfl
  | some snap =>
    obtain ⟨⟨locks, write, next, he⟩, -⟩ := hk.snap snap hs
    exact (hp locks write next he).elim

/-- A request at the start of a transaction. -/
theorem Kept.start (h : t.Keeps prog) : t.Kept { prog := prog } :=
  ⟨h, fun d => t.rel_refl d, nofun⟩

/-- Reads keep to everything. -/
theorem keeps_reads_bind {prog : Prog D K T E O'} {f : O' → Prog D K T E O} (h : prog.Reads)
    (hf : ∀ out, t.Keeps (f out)) : t.Keeps (prog >>= f) := by
  induction prog with
  | ret out => exact hf out
  | error e => trivial
  | select next ih => exact fun d => ih d (h d)
  | stmt locks write next => exact h.elim
  | commit tag next => exact h.elim
  | rollback next => exact h.elim

/-- Reads of a request that may fail change nothing. -/
theorem wp_reads_bind {prog : Prog D K T E O'} {f : O' → Prog D K T E O} (h : prog.Reads)
    (hfail : mayFail) (hf : ∀ out d', t.rel d d' → t.wp mayFail Q (f out) w d') :
    t.wp mayFail Q (prog >>= f) w d := by
  induction prog generalizing d with
  | ret out => exact hf out d (t.rel_refl d)
  | error e => exact hfail
  | select next ih =>
    exact fun d₁ h₁ => ih _ (h (w d₁)) fun out d₂ h₂ => hf out d₂ (t.rel_trans h₁ h₂)
  | stmt locks write next => exact h.elim
  | commit tag next => exact h.elim
  | rollback next => exact h.elim

/-- What is shown of a request in progress stays true while the others move. -/
theorem Sure.rel {p : Proc D K T E O} (h : t.Sure mayFail Q p d) (hr : t.rel d d') :
    t.Sure mayFail Q p d' := by
  unfold Sure at h ⊢
  cases hs : p.snap with
  | none =>
    rw [hs] at h
    exact wp_rel h hr
  | some snap =>
    rw [hs] at h
    obtain ⟨locks, write, next, hp, hw⟩ := h
    exact ⟨locks, write, next, hp, fun n hn => hw n (t.rel_trans hr hn)⟩

/-- What is shown of a request that waits for no lock. -/
theorem Sure.of_snap {p : Proc D K T E O} (h : t.Sure mayFail Q p d)
    (hp : ∀ locks write next, p.prog ≠ .stmt locks write next) :
    p.snap = none ∧ t.wp mayFail Q p.prog p.write d := by
  unfold Sure at h
  cases hs : p.snap with
  | none =>
    rw [hs] at h
    exact ⟨rfl, h⟩
  | some snap =>
    rw [hs] at h
    obtain ⟨locks, write, next, he, -⟩ := h
    exact (hp locks write next he).elim

/-- A request that ended is refused only if it may be, and its answer satisfies `Q`. -/
theorem Alongside.ends {i : I} {s : State I D K T E O} (h : t.Alongside mayFail Q i s) :
    (∀ e, (s.procs i).prog = .error e → mayFail) ∧
      ∀ out, (s.procs i).prog = .ret out → Q out s.db := by
  constructor
  · intro e he
    have hw := (h.own.of_snap (by simp [he])).2
    rw [he] at hw
    exact hw
  · intro out hout
    have hw := (h.own.of_snap (by simp [hout])).2
    rw [hout] at hw
    exact hw s.db (t.rel_refl _)

section Run

variable [DecidableEq I] [Fintype I] [DecidableEq K] {i j : I} {s s' : State I D K T E O}
  {act : Act}

/-- A step of another request keeps to what is agreed. -/
theorem Kept.step (hk : t.Kept (s.procs j)) (h : s.step j act = some s')
    (hw : t.Watches s (j, act)) : t.Kept (s'.procs j) ∧ t.rel s.db s'.db := by
  have hprog := hk.prog
  rcases State.step_cases h with ⟨-, rfl⟩ | ⟨next, hp, rfl⟩ | ⟨locks, write, next, hp, hs, rfl⟩ |
    ⟨locks, write, next, snap, hp, hs, -, rfl⟩ | ⟨tag, next, -, hp, rfl⟩ | ⟨next, hp, rfl⟩
  · rw [State.set_procs_self]
    exact ⟨Kept.start trivial, t.rel_refl _⟩
  · have hnone := hk.snap_eq_none (by simp [hp])
    rw [hp] at hprog
    rw [State.set_procs_self]
    refine ⟨⟨hprog _, hk.write, ?_⟩, t.rel_refl _⟩
    rw [hnone]
    exact nofun
  · rw [State.set_procs_self]
    refine ⟨⟨hprog, hk.write, ?_⟩, t.rel_refl _⟩
    intro snap hsnap
    cases hsnap
    exact ⟨⟨locks, write, next, hp⟩, hw hs⟩
  · rw [hp] at hprog
    rw [State.set_procs_self]
    have hcond := (hk.snap snap hs).2
    rw [hp] at hcond
    obtain ⟨hwrite, hnext⟩ := hprog snap ((s.procs j).write s.db)
    refine ⟨⟨hnext, ?_, nofun⟩, t.rel_refl _⟩
    intro d
    exact t.rel_trans (hk.write d) (hwrite hcond _)
  · rw [hp] at hprog
    rw [State.set_procs_self]
    exact ⟨Kept.start hprog, hk.write s.db⟩
  · rw [hp] at hprog
    rw [State.set_procs_self]
    exact ⟨Kept.start hprog, t.rel_refl _⟩

/-- A step of the one request. -/
theorem Sure.step (hs : t.Sure mayFail Q (s.procs i) s.db) (h : s.step i act = some s')
    (hcut : act = .abort → mayFail) (hw : t.Watches s (i, act)) :
    t.Sure mayFail Q (s'.procs i) s'.db := by
  rcases State.step_cases h with ⟨rfl, rfl⟩ | ⟨next, hp, rfl⟩ | ⟨locks, write, next, hp, hsnap, rfl⟩ |
    ⟨locks, write, next, snap, hp, hsnap, -, rfl⟩ | ⟨tag, next, -, hp, rfl⟩ | ⟨next, hp, rfl⟩
  · rw [State.set_procs_self]
    exact hcut rfl
  · obtain ⟨hnone, hrest⟩ := hs.of_snap (by simp [hp])
    rw [hp] at hrest
    rw [State.set_procs_self]
    unfold Sure
    dsimp only
    rw [hnone]
    exact hrest s.db (t.rel_refl _)
  · unfold Sure at hs
    rw [hsnap, hp] at hs
    rw [State.set_procs_self]
    have hcond : t.watched (s.procs i).prog → t.cond ((s.procs i).write s.db) := hw hsnap
    rw [hp] at hcond
    exact ⟨locks, write, next, hp, hs s.db (t.rel_refl _) hcond⟩
  · unfold Sure at hs
    rw [hsnap] at hs
    obtain ⟨locks', write', next', he, hrest⟩ := hs
    cases hp.symm.trans he
    rw [State.set_procs_self]
    exact hrest s.db (t.rel_refl _)
  · obtain ⟨-, hrest⟩ := hs.of_snap (by simp [hp])
    rw [hp] at hrest
    rw [State.set_procs_self]
    exact hrest s.db (t.rel_refl _)
  · obtain ⟨-, hrest⟩ := hs.of_snap (by simp [hp])
    rw [hp] at hrest
    rw [State.set_procs_self]
    exact hrest s.db (t.rel_refl _)

/-- One step, of whichever request. -/
theorem Alongside.step (ha : t.Alongside mayFail Q i s) (h : s.step j act = some s')
    (hcut : (j, act) = (i, .abort) → mayFail) (hw : t.Watches s (j, act)) :
    t.Alongside mayFail Q i s' := by
  by_cases hj : j = i
  · subst hj
    constructor
    · intro k hk
      rw [State.step_procs_ne h hk]
      exact ha.others k hk
    · exact ha.own.step h (fun hact => hcut (by rw [hact])) hw
  · obtain ⟨hkept, hrel⟩ := (ha.others j hj).step h hw
    constructor
    · intro k hk
      by_cases hkj : k = j
      · rw [hkj]
        exact hkept
      · rw [State.step_procs_ne h hkj]
        exact ha.others k hk
    · rw [State.step_procs_ne h (Ne.symm hj)]
      exact ha.own.rel hrel

/-- Every run whose snapshots meet the condition. -/
theorem Alongside.exec {sched : List (I × Act)} (ha : t.Alongside mayFail Q i s)
    (h : s.exec sched = some s') (hcut : (i, .abort) ∈ sched → mayFail)
    (hw : EventsMeet (fun s x => s.step x.1 x.2) t.Watches sched s) :
    t.Alongside mayFail Q i s' := by
  induction sched generalizing s with
  | nil =>
    cases h
    exact ha
  | cons x rest ih =>
    obtain ⟨j, act⟩ := x
    obtain ⟨s₁, h₁, h₂⟩ := Option.bind_eq_some_iff.mp h
    have ha₁ := ha.step h₁ (fun hx => hcut (hx ▸ List.mem_cons_self)) hw.1
    exact ih ha₁ h₂ (fun hmem => hcut (List.mem_cons_of_mem _ hmem)) (hw.2 s₁ h₁)

end Run

end Truce

end ReadCommitted
