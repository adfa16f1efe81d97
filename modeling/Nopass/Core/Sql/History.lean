import Nopass.Core.Sql.ReadCommitted
import Mathlib.Algebra.BigOperators.Group.Finset.Basic
import Mathlib.Data.Finset.Card
import Mathlib.Data.Fintype.Sets

/-!
# The commits of a run

A run changes the database at its commits alone. Each commit is an event: the request that
made it, its label, the database before and after. What a program read on its way to an
answer is in the labels of its commits, so an answer of the run comes with events.
-/

namespace ReadCommitted

variable {I D K T E O O' R : Type}

/-- A commit of a run. -/
structure Event (I D T : Type) where
  /-- The request that commits. -/
  proc : I
  /-- The label of the commit. -/
  tag : T
  /-- The committed database that the commit found. -/
  before : D
  /-- The committed database that it left. -/
  after : D

namespace Prog

/-- Every answer comes with an acceptable list of what the commits on the way to it took, as
their labels tell. -/
def Yields (taken : T → Option R) (P : List R → O → Prop) : List R → Prog D K T E O → Prop
  | rs, .ret out => P rs out
  | _, .error _ => True
  | rs, .select next => ∀ d, (next d).Yields taken P rs
  | rs, .stmt _ _ next => ∀ s n, (next s n).Yields taken P rs
  | rs, .commit tag next => next.Yields taken P (rs ++ (taken tag).toList)
  | rs, .rollback next => next.Yields taken P rs

variable {taken : T → Option R} {P P' : List R → O → Prop} {rs : List R}

/-- A sequence is checked part by part. -/
theorem Yields.bind {P : List R → O' → Prop} {prog : Prog D K T E O} {f : O → Prog D K T E O'}
    (h : prog.Yields taken (fun rs out => (f out).Yields taken P rs) rs) :
    (prog >>= f).Yields taken P rs := by
  induction prog generalizing rs with
  | ret out => exact h
  | error e => trivial
  | select next ih => exact fun d => ih d (h d)
  | stmt locks write next ih => exact fun s n => ih s n (h s n)
  | commit tag next ih => exact ih h
  | rollback next ih => exact ih h

/-- A weaker outcome follows from a stronger one. -/
theorem Yields.mono {prog : Prog D K T E O} (h : prog.Yields taken P rs)
    (hP : ∀ rs out, P rs out → P' rs out) : prog.Yields taken P' rs := by
  induction prog generalizing rs with
  | ret out => exact hP rs out h
  | error e => trivial
  | select next ih => exact fun d => ih d (h d)
  | stmt locks write next ih => exact fun s n => ih s n (h s n)
  | commit tag next ih => exact ih h
  | rollback next ih => exact ih h

/-- A program whose commits all have labels with a property. -/
def Labels (P : T → Prop) : Prog D K T E O → Prop
  | .ret _ => True
  | .error _ => True
  | .select next => ∀ d, (next d).Labels P
  | .stmt _ _ next => ∀ s n, (next s n).Labels P
  | .commit tag next => P tag ∧ next.Labels P
  | .rollback next => next.Labels P

/-- Programs one after the other. -/
theorem Labels.bind {P : T → Prop} {prog : Prog D K T E O} {f : O → Prog D K T E O'}
    (h : prog.Labels P) (hf : ∀ out, (f out).Labels P) : (prog >>= f).Labels P := by
  induction prog with
  | ret out => exact hf out
  | error e => trivial
  | select next ih => exact fun d => ih d (h d)
  | stmt locks write next ih => exact fun s n => ih s n (h s n)
  | commit tag next ih => exact ⟨h.1, ih h.2⟩
  | rollback next ih => exact ih h

/-- A program without commits has no labels. -/
theorem NeverCommits.labels {P : T → Prop} {prog : Prog D K T E O} (h : prog.NeverCommits) :
    prog.Labels P := by
  induction prog with
  | ret out => trivial
  | error e => trivial
  | select next ih => exact fun d => ih d (h d)
  | stmt locks write next ih => exact fun s n => ih s n (h s n)
  | commit tag next => exact h.elim
  | rollback next ih => exact ih h

/-- A program whose labels take nothing yields what it began with. -/
theorem Labels.yields {prog : Prog D K T E O} (h : prog.Labels fun tag => taken tag = none)
    (rs : List R) : prog.Yields taken (fun rs' _ => rs' = rs) rs := by
  induction prog with
  | ret out => rfl
  | error e => trivial
  | select next ih => exact fun d => ih d (h d)
  | stmt locks write next ih => exact fun s n => ih s n (h s n)
  | commit tag next ih =>
    rw [Yields, h.1, Option.toList_none, List.append_nil]
    exact ih h.2
  | rollback next ih => exact ih h

/-- A first part that takes nothing. -/
theorem Labels.yields_bind {P : List R → O' → Prop} {prog : Prog D K T E O}
    {f : O → Prog D K T E O'} (h : prog.Labels fun tag => taken tag = none)
    (hf : ∀ out, (f out).Yields taken P rs) : (prog >>= f).Yields taken P rs :=
  Yields.bind ((h.yields rs).mono fun _ out hrs => hrs ▸ hf out)

/-- A first part of reads. -/
theorem Reads.yields_bind {P : List R → O' → Prop} {prog : Prog D K T E O}
    {f : O → Prog D K T E O'} (h : prog.Reads) (hf : ∀ out, (f out).Yields taken P rs) :
    (prog >>= f).Yields taken P rs :=
  h.neverCommits.labels.yields_bind hf

/-- At every point of the program, what its commits so far took is acceptable. -/
def Throughout (taken : T → Option R) (P : List R → Prop) : List R → Prog D K T E O → Prop
  | rs, .ret _ => P rs
  | rs, .error _ => P rs
  | rs, .select next => P rs ∧ ∀ d, (next d).Throughout taken P rs
  | rs, .stmt _ _ next => P rs ∧ ∀ s n, (next s n).Throughout taken P rs
  | rs, .commit tag next => P rs ∧ next.Throughout taken P (rs ++ (taken tag).toList)
  | rs, .rollback next => P rs ∧ next.Throughout taken P rs

/-- What was taken so far is acceptable. -/
theorem Throughout.here {P : List R → Prop} {prog : Prog D K T E O}
    (h : prog.Throughout taken P rs) : P rs := by
  cases prog with
  | ret out => exact h
  | error e => exact h
  | select next => exact h.1
  | stmt locks write next => exact h.1
  | commit tag next => exact h.1
  | rollback next => exact h.1

/-- A first part that takes nothing. -/
theorem Labels.throughout_bind {P : List R → Prop} {prog : Prog D K T E O}
    {f : O → Prog D K T E O'} (h : prog.Labels fun tag => taken tag = none) (hP : P rs)
    (hf : ∀ out, (f out).Throughout taken P rs) : (prog >>= f).Throughout taken P rs := by
  induction prog with
  | ret out => exact hf out
  | error e => exact hP
  | select next ih => exact ⟨hP, fun d => ih d (h d)⟩
  | stmt locks write next ih => exact ⟨hP, fun s n => ih s n (h s n)⟩
  | commit tag next ih =>
    refine ⟨hP, ?_⟩
    rw [h.1, Option.toList_none, List.append_nil]
    exact ih h.2
  | rollback next ih => exact ⟨hP, ih h⟩

/-- A program that takes nothing. -/
theorem Labels.throughout {P : List R → Prop} {prog : Prog D K T E O}
    (h : prog.Labels fun tag => taken tag = none) (hP : P rs) : prog.Throughout taken P rs := by
  rw [← bind_ret prog]
  exact h.throughout_bind hP fun _ => hP

/-- The program with other labels on its commits. -/
def relabel {T' : Type} (g : T → T') : Prog D K T E O → Prog D K T' E O
  | .ret out => .ret out
  | .error e => .error e
  | .select next => .select fun d => (next d).relabel g
  | .stmt locks write next => .stmt locks write fun s n => (next s n).relabel g
  | .commit tag next => .commit (g tag) (next.relabel g)
  | .rollback next => .rollback (next.relabel g)

/-- One step of a program that commits nothing: it may also wait or be cut off. -/
inductive Quiet : Prog D K T E O → Prog D K T E O → Prop
  | wait (prog : Prog D K T E O) : Quiet prog prog
  | abort (prog : Prog D K T E O) : Quiet prog (.error none)
  | select (next : D → Prog D K T E O) (d : D) : Quiet (.select next) (next d)
  | stmt (locks : D → D → List (K × LockMode)) (write : D → D → D → D)
      (next : D → D → Prog D K T E O) (s n : D) : Quiet (.stmt locks write next) (next s n)
  | rollback (next : Prog D K T E O) : Quiet (.rollback next) next

variable {prog prog' : Prog D K T E O}

/-- What is to be yielded stays so. -/
theorem Yields.quiet (h : prog.Yields taken P rs) (hq : Quiet prog prog') :
    prog'.Yields taken P rs := by
  cases hq with
  | wait => exact h
  | abort => trivial
  | select next d => exact h d
  | stmt locks write next s n => exact h s n
  | rollback => exact h

/-- What is acceptable throughout stays so. -/
theorem Throughout.quiet {P : List R → Prop} (h : prog.Throughout taken P rs)
    (hq : Quiet prog prog') : prog'.Throughout taken P rs := by
  cases hq with
  | wait => exact h
  | abort => exact h.here
  | select next d => exact h.2 d
  | stmt locks write next s n => exact h.2 s n
  | rollback => exact h.2

/-- The labels to come stay so. -/
theorem Labels.quiet {P : T → Prop} (h : prog.Labels P) (hq : Quiet prog prog') :
    prog'.Labels P := by
  cases hq with
  | wait => exact h
  | abort => trivial
  | select next d => exact h d
  | stmt locks write next s n => exact h s n
  | rollback => exact h

/-- The commit to come stays the last. -/
theorem CommitsLast.quiet {P : O → Prop} (h : prog.CommitsLast P) (hq : Quiet prog prog') :
    prog'.CommitsLast P := by
  cases hq with
  | wait => exact h
  | abort => trivial
  | select next d => exact h d
  | stmt locks write next s n => exact h s n
  | rollback => exact h

end Prog

section Runs

variable [Fintype I] [DecidableEq I] [DecidableEq K] {s s' : State I D K T E O} {i : I} {act : Act}
  {sched : List (I × Act)}

/-- The commit that a step makes, when it makes one. -/
def State.event (s s' : State I D K T E O) (i : I) : Act → Option (Event I D T)
  | .abort => none
  | .go => (s.committing i).map fun tag =>
      { proc := i, tag := tag, before := s.db, after := s'.db }

/-- The commits of a run in their order. -/
def State.history (s : State I D K T E O) : List (I × Act) → List (Event I D T)
  | [] => []
  | (i, act) :: rest =>
    match s.step i act with
    | none => []
    | some s' => (s.event s' i act).toList ++ s'.history rest

/-- The commits of a run after its first step. -/
theorem State.history_cons {rest : List (I × Act)} (h : s.step i act = some s') :
    s.history ((i, act) :: rest) = (s.event s' i act).toList ++ s'.history rest := by
  rw [State.history, h]

/-- A step is a commit, or it leaves the database and commits nothing. -/
theorem State.step_event (h : s.step i act = some s') :
    (s.event s' i act = none ∧ s'.db = s.db ∧ (s.procs i).prog.Quiet (s'.procs i).prog) ∨
      ∃ tag next, act = .go ∧ (s.procs i).prog = .commit tag next ∧
        s.event s' i act = some { proc := i, tag := tag, before := s.db, after := s'.db } ∧
        (s'.procs i).prog = next := by
  have hnone : (∀ tag next, (s.procs i).prog ≠ .commit tag next) → s.event s' i act = none := by
    intro hne
    have hc : s.committing i = none := by
      unfold State.committing
      split
      · rename_i tag next hp
        exact (hne tag next hp).elim
      · rfl
    cases act with
    | abort => rfl
    | go => rw [State.event, hc, Option.map_none]
  rcases State.step_cases h with ⟨rfl, rfl⟩ | ⟨next, hp, rfl⟩ | ⟨locks, write, next, hp, hs, rfl⟩ |
    ⟨locks, write, next, snap, hp, hs, hf, rfl⟩ | ⟨tag, next, rfl, hp, rfl⟩ | ⟨next, hp, rfl⟩
  · left
    rw [State.set_procs_self]
    exact ⟨rfl, rfl, .abort _⟩
  · left
    rw [State.set_procs_self]
    exact ⟨hnone (by simp [hp]), rfl, hp ▸ .select next _⟩
  · left
    rw [State.set_procs_self]
    exact ⟨hnone (by simp [hp]), rfl, .wait _⟩
  · left
    rw [State.set_procs_self]
    exact ⟨hnone (by simp [hp]), rfl, hp ▸ .stmt locks write next _ _⟩
  · right
    refine ⟨tag, next, rfl, hp, ?_, by rw [State.set_procs_self]⟩
    simp [State.event, State.committing, hp]
  · left
    rw [State.set_procs_self]
    exact ⟨hnone (by simp [hp]), rfl, hp ▸ .rollback next⟩

/-- What holds of every commit label and the database before it holds at every commit. -/
theorem State.commits_of_history {P : T → D → Prop} (h : s.exec sched = some s')
    (hP : ∀ e ∈ s.history sched, P e.tag e.before) : s.Commits P sched := by
  induction sched generalizing s with
  | nil => trivial
  | cons x rest ih =>
    obtain ⟨i, act⟩ := x
    obtain ⟨s₁, h₁, h₂⟩ := Option.bind_eq_some_iff.mp h
    rw [State.history_cons h₁] at hP
    constructor
    · rintro rfl tag htag
      have hevent : ({ proc := i, tag := tag, before := s.db, after := s₁.db } : Event I D T) ∈
          s.event s₁ i .go := Option.mem_map_of_mem _ htag
      exact hP _ (List.mem_append_left _ (Option.mem_toList.mpr hevent))
    · intro s₃ h₃
      cases h₁.symm.trans h₃
      exact ih h₂ fun e he => hP e (List.mem_append_right _ he)

/-- A property of the database holds in every state of a run if and only if every commit is
allowed, when a commit from a database with the property keeps it exactly if it is allowed. -/
theorem State.reached_iff_commits {P : D → Prop} {allow : T → D → Prop} (hP : P s.db)
    (h : s.exec sched = some s')
    (he : ∀ e ∈ s.history sched, P e.before → (P e.after ↔ allow e.tag e.before)) :
    (∀ before after s₁, sched = before ++ after → s.exec before = some s₁ → P s₁.db) ↔
      s.Commits allow sched := by
  induction sched generalizing s with
  | nil =>
    refine iff_of_true (fun before after s₁ hsplit h₁ => ?_) trivial
    obtain ⟨rfl, -⟩ := List.append_eq_nil_iff.mp hsplit.symm
    cases h₁
    exact hP
  | cons x rest ih =>
    obtain ⟨i, act⟩ := x
    obtain ⟨s₁, h₁, h₂⟩ := Option.bind_eq_some_iff.mp h
    rw [State.history_cons h₁] at he
    have hstep : P s₁.db ↔ (act = .go → ∀ tag ∈ s.committing i, allow tag s.db) := by
      rcases State.step_event h₁ with ⟨hnone, hdb, -⟩ | ⟨tag, next, rfl, hp, hevent, -⟩
      · refine iff_of_true (hdb ▸ hP) ?_
        rintro rfl tag htag
        have hsome : s.event s₁ i .go = some
            { proc := i, tag := tag, before := s.db, after := s₁.db } := by
          rw [State.event, Option.mem_def.mp htag, Option.map_some]
        cases hnone.symm.trans hsome
      · rw [hevent] at he
        have hiff := he _ (List.mem_append_left _ List.mem_cons_self) hP
        have hcommitting : s.committing i = some tag := by rw [State.committing, hp]
        rw [hiff, hcommitting]
        constructor
        · rintro hallow - t ⟨⟩
          exact hallow
        · intro hallow
          exact hallow rfl tag rfl
    have hrest (hP₁ : P s₁.db) := ih hP₁ h₂ fun e hmem => he e (List.mem_append_right _ hmem)
    constructor
    · intro hall
      have hP₁ := hall [(i, act)] rest s₁ rfl (by rw [State.exec, h₁]; rfl)
      refine ⟨hstep.mp hP₁, fun s₂ hs₂ => ?_⟩
      cases h₁.symm.trans hs₂
      refine (hrest hP₁).mp fun before after s₂ hsplit h₂ => ?_
      apply hall ((i, act) :: before) after s₂ (by rw [hsplit]; rfl)
      rw [State.exec, h₁]
      exact h₂
    · rintro ⟨hallow, hcommits⟩ before after s₂ hsplit h₂
      cases before with
      | nil =>
        cases h₂
        exact hP
      | cons y before =>
        obtain ⟨rfl, hrest'⟩ := List.cons.inj hsplit
        obtain ⟨s₃, h₃, h₄⟩ := Option.bind_eq_some_iff.mp h₂
        cases h₁.symm.trans h₃
        exact (hrest (hstep.mpr hallow)).mpr (hcommits s₁ h₁) before after s₂ hrest' h₄

/-- A step of one request leaves the others where they are. -/
theorem State.step_procs_ne {j : I} (h : s.step j act = some s') (hij : i ≠ j) :
    s'.procs i = s.procs i := by
  rcases State.step_cases h with ⟨rfl, rfl⟩ | ⟨next, hp, rfl⟩ | ⟨locks, write, next, hp, hs, rfl⟩ |
    ⟨locks, write, next, snap, hp, hs, hf, rfl⟩ | ⟨tag, next, rfl, hp, rfl⟩ | ⟨next, hp, rfl⟩
  · exact State.set_procs_ne _ hij _
  · exact State.set_procs_ne _ hij _
  · exact State.set_procs_ne _ hij _
  · exact State.set_procs_ne _ hij _
  · exact State.set_procs_ne _ hij _
  · exact State.set_procs_ne _ hij _

omit [Fintype I] [DecidableEq I] [DecidableEq K] in
/-- The commit of a step is made by the request that steps. -/
theorem State.proc_of_mem_event {e : Event I D T} (h : e ∈ s.event s' i act) : e.proc = i := by
  cases act with
  | abort => cases h
  | go =>
    obtain ⟨tag, _, rfl⟩ := Option.map_eq_some_iff.mp h
    rfl

omit [Fintype I] [DecidableEq I] [DecidableEq K] in
/-- The commit of a step takes the database from one state to the next. -/
theorem State.db_of_mem_event {e : Event I D T} (h : e ∈ s.event s' i act) :
    e.before = s.db ∧ e.after = s'.db := by
  cases act with
  | abort => cases h
  | go =>
    obtain ⟨tag, _, rfl⟩ := Option.map_eq_some_iff.mp h
    exact ⟨rfl, rfl⟩

/-- What no commit changes stays. -/
theorem State.view_of_history {V : Type} (view : D → V) (h : s.exec sched = some s')
    (hv : ∀ e ∈ s.history sched, view e.after = view e.before) : view s'.db = view s.db := by
  induction sched generalizing s with
  | nil =>
    cases h
    rfl
  | cons x rest ih =>
    obtain ⟨i, act⟩ := x
    obtain ⟨s₁, h₁, h₂⟩ := Option.bind_eq_some_iff.mp h
    rw [State.history_cons h₁] at hv
    have hrest := ih h₂ fun e he => hv e (List.mem_append_right _ he)
    rcases State.step_event h₁ with ⟨-, hdb, -⟩ | ⟨tag, next, -, -, hevent, -⟩
    · rw [hrest, hdb]
    · rw [hevent] at hv
      exact hrest.trans (hv _ (List.mem_append_left _ List.mem_cons_self))

/-- What no commit changes after a given one stays as that one left it. -/
theorem State.view_of_history_tail {V : Type} (view : D → V) {before after : List (Event I D T)}
    {e : Event I D T} (h : s.exec sched = some s') (hh : s.history sched = before ++ e :: after)
    (hv : ∀ e' ∈ after, view e'.after = view e'.before) : view s'.db = view e.after := by
  induction sched generalizing s before with
  | nil => simp [State.history] at hh
  | cons x rest ih =>
    obtain ⟨i, act⟩ := x
    obtain ⟨s₁, h₁, h₂⟩ := Option.bind_eq_some_iff.mp h
    rw [State.history_cons h₁] at hh
    rcases State.step_event h₁ with ⟨hnone, -, -⟩ | ⟨tag, next, -, -, hevent, -⟩
    · rw [hnone, Option.toList_none, List.nil_append] at hh
      exact ih h₂ hh
    · rw [hevent, Option.toList_some, List.singleton_append] at hh
      cases before with
      | nil =>
        obtain ⟨rfl, rfl⟩ := List.cons.inj hh
        exact State.view_of_history view h₂ hv
      | cons e₀ before => exact ih h₂ (List.cons.inj hh).2

/-- A list that every commit extends as its label says. -/
theorem State.view_append {V : Type} (view : D → List V) (adds : T → List V)
    (h : s.exec sched = some s')
    (hv : ∀ e ∈ s.history sched, view e.after = view e.before ++ adds e.tag) :
    view s'.db = view s.db ++ (s.history sched).flatMap fun e => adds e.tag := by
  induction sched generalizing s with
  | nil =>
    cases h
    exact (List.append_nil _).symm
  | cons x rest ih =>
    obtain ⟨i, act⟩ := x
    obtain ⟨s₁, h₁, h₂⟩ := Option.bind_eq_some_iff.mp h
    rw [State.history_cons h₁] at hv ⊢
    have hrest := ih h₂ fun e he => hv e (List.mem_append_right _ he)
    rcases State.step_event h₁ with ⟨hnone, hdb, -⟩ | ⟨tag, next, -, -, hevent, -⟩
    · rw [hrest, hdb, hnone, Option.toList_none, List.nil_append]
    · rw [hevent] at hv ⊢
      have hfirst := hv _ (List.mem_append_left _ List.mem_cons_self)
      rw [hrest, hfirst, List.append_assoc, Option.toList_some, List.singleton_append,
        List.flatMap_cons]

/-- What a commit took, when it is one of the given request. -/
def Event.taken (taken : T → Option R) (i : I) (e : Event I D T) : Option R :=
  if e.proc = i then taken e.tag else none

/-- What the commits of a request took in a run. -/
def State.taken (taken : T → Option R) (s : State I D K T E O) (i : I) (sched : List (I × Act)) :
    List R :=
  (s.history sched).filterMap (Event.taken taken i)

variable {taken : T → Option R} {P : List R → O → Prop} {rs : List R}

/-- A commit of one request is not one of another. -/
theorem State.event_ne {j : I} (h : s.step j act = some s') (hij : i ≠ j) :
    (s'.procs i).prog = (s.procs i).prog ∧ ∀ e ∈ s.event s' j act, e.proc ≠ i := by
  rw [State.step_procs_ne h hij]
  refine ⟨rfl, fun e he hei => hij ?_⟩
  rw [← hei, State.proc_of_mem_event he]

omit [Fintype I] [DecidableEq K] in
/-- What one commit took. -/
theorem Event.filterMap_taken (tag : T) (before after : D) :
    ([{ proc := i, tag := tag, before := before, after := after }] :
      List (Event I D T)).filterMap (Event.taken taken i) = (taken tag).toList := by
  cases ht : taken tag with
  | none => simp [Event.taken, ht]
  | some r => simp [Event.taken, ht]

/-- What the others commit is not taken by a request. -/
theorem State.filterMap_taken_ne {j : I} (h : s.step j act = some s') (hij : i ≠ j) :
    (s.event s' j act).toList.filterMap (Event.taken taken i) = [] := by
  rw [List.filterMap_eq_nil_iff]
  intro e he
  exact if_neg ((State.event_ne h hij).2 e (Option.mem_toList.mp he))

/-- What is still to come after a step, given what the step took. -/
theorem State.yields_step {j : I} (h : s.step j act = some s')
    (hy : (s.procs i).prog.Yields taken P rs) : (s'.procs i).prog.Yields taken P
      (rs ++ (s.event s' j act).toList.filterMap (Event.taken taken i)) := by
  by_cases hij : i = j
  · subst hij
    rcases State.step_event h with ⟨hnone, -, hq⟩ | ⟨tag, next, rfl, hp, hevent, hnext⟩
    · rw [hnone, Option.toList_none, List.filterMap_nil, List.append_nil]
      exact hy.quiet hq
    · rw [hp] at hy
      rw [hnext, hevent, Option.toList_some, Event.filterMap_taken]
      exact hy
  · rw [State.filterMap_taken_ne h hij, List.append_nil, (State.event_ne h hij).1]
    exact hy

/-- What is acceptable throughout stays so, given what a step took. -/
theorem State.throughout_step {j : I} {P : List R → Prop} (h : s.step j act = some s')
    (hy : (s.procs i).prog.Throughout taken P rs) : (s'.procs i).prog.Throughout taken P
      (rs ++ (s.event s' j act).toList.filterMap (Event.taken taken i)) := by
  by_cases hij : i = j
  · subst hij
    rcases State.step_event h with ⟨hnone, -, hq⟩ | ⟨tag, next, rfl, hp, hevent, hnext⟩
    · rw [hnone, Option.toList_none, List.filterMap_nil, List.append_nil]
      exact hy.quiet hq
    · rw [hp] at hy
      rw [hnext, hevent, Option.toList_some, Event.filterMap_taken]
      exact hy.2
  · rw [State.filterMap_taken_ne h hij, List.append_nil, (State.event_ne h hij).1]
    exact hy

/-- What the commits of a request took in a run is acceptable. -/
theorem State.throughout {P : List R → Prop} (h : s.exec sched = some s')
    (hy : (s.procs i).prog.Throughout taken P rs) : P (rs ++ s.taken taken i sched) := by
  induction sched generalizing s rs with
  | nil =>
    rw [State.taken, State.history, List.filterMap_nil, List.append_nil]
    exact hy.here
  | cons x rest ih =>
    obtain ⟨j, act⟩ := x
    obtain ⟨s₁, h₁, h₂⟩ := Option.bind_eq_some_iff.mp h
    rw [State.taken, State.history_cons h₁, List.filterMap_append, ← List.append_assoc]
    exact ih h₂ (State.throughout_step h₁ hy)

/-- An answer of a run comes with what the commits of its request took. -/
theorem State.yields_of_answer {out : O} (h : s.exec sched = some s')
    (hy : (s.procs i).prog.Yields taken P rs) (hout : (s'.procs i).prog = .ret out) :
    P (rs ++ s.taken taken i sched) out := by
  induction sched generalizing s rs with
  | nil =>
    cases h
    rw [hout] at hy
    rw [State.taken, State.history, List.filterMap_nil, List.append_nil]
    exact hy
  | cons x rest ih =>
    obtain ⟨j, act⟩ := x
    obtain ⟨s₁, h₁, h₂⟩ := Option.bind_eq_some_iff.mp h
    rw [State.taken, State.history_cons h₁, List.filterMap_append, ← List.append_assoc]
    exact ih h₂ (State.yields_step h₁ hy)

/-- Every commit of a request has one of its labels. -/
theorem State.label_of_mem_history {Q : T → Prop} (h : s.exec sched = some s')
    (hl : (s.procs i).prog.Labels Q) : ∀ e ∈ s.history sched, e.proc = i → Q e.tag := by
  induction sched generalizing s with
  | nil =>
    intro e he
    exact (List.not_mem_nil he).elim
  | cons x rest ih =>
    obtain ⟨j, act⟩ := x
    obtain ⟨s₁, h₁, h₂⟩ := Option.bind_eq_some_iff.mp h
    rw [State.history_cons h₁]
    intro e he hei
    by_cases hij : i = j
    · subst hij
      rcases State.step_event h₁ with ⟨hnone, -, hq⟩ | ⟨tag, next, rfl, hp, hevent, hnext⟩
      · rw [hnone, Option.toList_none, List.nil_append] at he
        exact ih h₂ (hl.quiet hq) e he hei
      · rw [hp] at hl
        rw [hevent, Option.toList_some, List.singleton_append, List.mem_cons] at he
        rcases he with rfl | he
        · exact hl.1
        · exact ih h₂ (hnext ▸ hl.2) e he hei
    · obtain ⟨hprog, hne⟩ := State.event_ne h₁ hij
      rcases List.mem_append.mp he with he | he
      · exact (hne e (Option.mem_toList.mp he) hei).elim
      · exact ih h₂ (hprog ▸ hl) e he hei

/-- A request that answered commits nothing more. -/
theorem State.answered {out : O} (h : s.exec sched = some s') (hp : (s.procs i).prog = .ret out) :
    (s'.procs i).prog = .ret out ∧ ∀ e ∈ s.history sched, e.proc ≠ i := by
  induction sched generalizing s with
  | nil =>
    cases h
    exact ⟨hp, fun e he => (List.not_mem_nil he).elim⟩
  | cons x rest ih =>
    obtain ⟨j, act⟩ := x
    obtain ⟨s₁, h₁, h₂⟩ := Option.bind_eq_some_iff.mp h
    have hij : i ≠ j := by
      rintro rfl
      cases act with
      | abort => simp [State.step, hp] at h₁
      | go => simp [State.step, hp] at h₁
    obtain ⟨hprog, hne⟩ := State.event_ne h₁ hij
    obtain ⟨hret, hrest⟩ := ih h₂ (hprog.trans hp)
    rw [State.history_cons h₁]
    refine ⟨hret, fun e he => ?_⟩
    rcases List.mem_append.mp he with he | he
    · exact hne e (Option.mem_toList.mp he)
    · exact hrest e he

/-- Of these events request `i`, now at `prog`, made none, or it made one and has answered. -/
def CommittedOnce (Q : O → Prop) (i : I) (prog : Prog D K T E O) (events : List (Event I D T)) :
    Prop :=
  (∀ e ∈ events, e.proc ≠ i) ∨
    ∃ before e after out, events = before ++ e :: after ∧ e.proc = i ∧
      (∀ e' ∈ before ++ after, e'.proc ≠ i) ∧ Q out ∧ prog = .ret out

omit [Fintype I] [DecidableEq I] [DecidableEq K] in
/-- Commits of others come on top. -/
theorem CommittedOnce.append {Q : O → Prop} {prog : Prog D K T E O}
    {events others : List (Event I D T)} (h : CommittedOnce Q i prog events)
    (hothers : ∀ e ∈ others, e.proc ≠ i) : CommittedOnce Q i prog (others ++ events) := by
  rcases h with hnone | ⟨before, e, after, out, rfl, hei, hne, hQ, hout⟩
  · left
    intro e he
    exact (List.mem_append.mp he).elim (hothers e) (hnone e)
  · right
    refine ⟨others ++ before, e, after, out, by rw [List.append_assoc], hei, ?_, hQ, hout⟩
    intro e' he'
    rw [List.append_assoc] at he'
    exact (List.mem_append.mp he').elim (hothers e') (hne e')

/-- A request that answers as soon as it has committed has committed once and answered, or not at
all. -/
theorem State.committedOnce {Q : O → Prop} (h : s.exec sched = some s')
    (hl : (s.procs i).prog.CommitsLast Q) :
    CommittedOnce Q i (s'.procs i).prog (s.history sched) := by
  induction sched generalizing s with
  | nil =>
    left
    intro e he
    exact (List.not_mem_nil he).elim
  | cons x rest ih =>
    obtain ⟨j, act⟩ := x
    obtain ⟨s₁, h₁, h₂⟩ := Option.bind_eq_some_iff.mp h
    rw [State.history_cons h₁]
    by_cases hij : i = j
    · subst hij
      rcases State.step_event h₁ with ⟨hnone, -, hq⟩ | ⟨tag, next, rfl, hp, hevent, hnext⟩
      · exact (ih h₂ (hl.quiet hq)).append (by simp [hnone])
      · rw [hp] at hl
        obtain ⟨out, hQ, rfl⟩ := hl
        obtain ⟨hret, hrest⟩ := State.answered h₂ hnext
        right
        rw [hevent, Option.toList_some, List.singleton_append]
        exact ⟨[], _, s₁.history rest, out, rfl, rfl, hrest, hQ, hret⟩
    · obtain ⟨hprog, hne⟩ := State.event_ne h₁ hij
      exact (ih h₂ (hprog ▸ hl)).append fun e he => hne e (Option.mem_toList.mp he)

omit [Fintype I] [DecidableEq I] [DecidableEq K] in
/-- Two commits of a request that commits once are one. -/
theorem CommittedOnce.eq {Q : O → Prop} {prog : Prog D K T E O} {events : List (Event I D T)}
    (h : CommittedOnce Q i prog events) {e e' : Event I D T} (he : e ∈ events) (hi : e.proc = i)
    (he' : e' ∈ events) (hi' : e'.proc = i) : e = e' := by
  rcases h with hnone | ⟨before, e₀, after, out, rfl, -, hne, -⟩
  · exact (hnone e he hi).elim
  · have hone : ∀ e ∈ before ++ e₀ :: after, e.proc = i → e = e₀ := by
      intro e he hi
      rw [List.mem_append, List.mem_cons] at he
      rcases he with he | rfl | he
      · exact (hne e (List.mem_append_left _ he) hi).elim
      · rfl
      · exact (hne e (List.mem_append_right _ he) hi).elim
    rw [hone e he hi, hone e' he' hi']

omit [Fintype I] [DecidableEq K] in
/-- A request that commits once makes at most one commit. -/
theorem CommittedOnce.length_le {Q : O → Prop} {prog : Prog D K T E O}
    {events : List (Event I D T)} (h : CommittedOnce Q i prog events) :
    (events.filter fun e => e.proc = i).length ≤ 1 := by
  rcases h with hnone | ⟨before, e₀, after, out, rfl, -, hne, -⟩
  · rw [List.filter_eq_nil_iff.mpr fun e he => by simpa using hnone e he]
    exact Nat.zero_le _
  · have hbefore : before.filter (fun e => e.proc = i) = [] :=
      List.filter_eq_nil_iff.mpr fun e he => by simpa using hne e (List.mem_append_left _ he)
    have hafter : after.filter (fun e => e.proc = i) = [] :=
      List.filter_eq_nil_iff.mpr fun e he => by simpa using hne e (List.mem_append_right _ he)
    rw [List.filter_append, hbefore, List.nil_append, List.filter_cons, hafter]
    split
    · exact le_rfl
    · exact Nat.zero_le _

/-- What commits take is no more than what was there and what commits brought. -/
theorem State.taken_le (has : D → Prop) (takes : T → Prop) [DecidablePred has]
    [DecidablePred takes] (h : s.exec sched = some s')
    (ht : ∀ e ∈ s.history sched, takes e.tag → has e.before ∧ ¬ has e.after) :
    ((s.history sched).filter fun e => takes e.tag).length ≤
      ((s.history sched).filter fun e => ¬ has e.before ∧ has e.after).length +
        if has s.db then 1 else 0 := by
  induction sched generalizing s with
  | nil => exact Nat.zero_le _
  | cons x rest ih =>
    obtain ⟨j, act⟩ := x
    obtain ⟨s₁, h₁, h₂⟩ := Option.bind_eq_some_iff.mp h
    rw [State.history_cons h₁] at ht ⊢
    have hrest := ih h₂ fun e he => ht e (List.mem_append_right _ he)
    rcases State.step_event h₁ with ⟨hnone, hdb, -⟩ | ⟨tag, next, rfl, hp, hevent, hnext⟩
    · rwa [hnone, Option.toList_none, List.nil_append, ← hdb]
    · rw [hevent, Option.toList_some] at ht ⊢
      have htake := ht _ List.mem_cons_self
      simp only [List.singleton_append, List.filter_cons, decide_eq_true_eq]
      by_cases htag : takes tag
      · obtain ⟨hbefore, hafter⟩ := htake htag
        simp only [htag, hbefore, hafter, not_true, and_false, if_true, if_false,
          List.length_cons] at hrest ⊢
        omega
      · by_cases hbefore : has s.db
        · simp only [htag, hbefore, not_true, false_and, if_true, if_false] at hrest ⊢
          split at hrest
          · exact hrest
          · omega
        · by_cases hafter : has s₁.db
          · simp only [htag, hbefore, hafter, not_false_eq_true, and_self, if_true, if_false,
              List.length_cons] at hrest ⊢
            omega
          · simpa only [htag, hbefore, hafter, and_false, if_false] using hrest

omit [DecidableEq I] [Fintype I] [DecidableEq K] in
/-- What a commit took, when it is one of the given request. -/
theorem Event.taken_eq_some {e : Event I D T} [DecidableEq I] {r : R} :
    e.taken taken i = some r ↔ e.proc = i ∧ taken e.tag = some r := by
  unfold Event.taken
  split
  · rename_i hei
    simp [hei]
  · rename_i hei
    simp [hei]

/-- A request took what one of its commits took. -/
theorem State.mem_taken {r : R} : r ∈ s.taken taken i sched ↔
    ∃ e ∈ s.history sched, e.proc = i ∧ taken e.tag = some r := by
  rw [State.taken, List.mem_filterMap]
  simp only [Event.taken_eq_some]

/-- Everything that commits took, request by request. -/
theorem State.count_taken [BEq R] (r : R) :
    ((s.history sched).filterMap fun e => taken e.tag).count r =
      ∑ i, (s.taken taken i sched).count r := by
  have hsplit (events : List (Event I D T)) : (events.filterMap fun e => taken e.tag).count r =
      ∑ i, (events.filterMap (Event.taken taken i)).count r := by
    induction events with
    | nil => simp
    | cons e rest ih =>
      have hone : ((taken e.tag).toList).count r =
          ∑ i, ((Event.taken taken i e).toList).count r := by
        rw [Finset.sum_eq_single e.proc]
        · rw [Event.taken, if_pos rfl]
        · intro i _ hi
          rw [Event.taken, if_neg (Ne.symm hi)]
          rfl
        · intro hmem
          exact (hmem (Finset.mem_univ _)).elim
      have hcons {f : Event I D T → Option R} : (e :: rest).filterMap f =
          (f e).toList ++ rest.filterMap f := by
        rw [List.filterMap_cons]
        cases f e <;> rfl
      simp only [hcons, List.count_append, Finset.sum_add_distrib, hone, ih]
  exact hsplit _

/-- No more requests took something than there are commits that took it. -/
theorem State.card_takers_le {takes : T → Prop} {takesRow : R → Prop} [DecidablePred takes]
    [DecidablePred takesRow] (ht : ∀ tag, ∀ r ∈ taken tag, takesRow r → takes tag) :
    (Finset.univ.filter fun i => ∃ r ∈ s.taken taken i sched, takesRow r).card ≤
      ((s.history sched).filter fun e => takes e.tag).length := by
  have hsub : (Finset.univ.filter fun i => ∃ r ∈ s.taken taken i sched, takesRow r) ⊆
      (((s.history sched).filter fun e => takes e.tag).map (·.proc)).toFinset := by
    intro i hi
    obtain ⟨r, hr, hrow⟩ := (Finset.mem_filter.mp hi).2
    obtain ⟨e, he, hei, her⟩ := State.mem_taken.mp hr
    rw [List.mem_toFinset, List.mem_map]
    refine ⟨e, ?_, hei⟩
    rw [List.mem_filter, decide_eq_true_eq]
    exact ⟨he, ht e.tag r her hrow⟩
  calc _ ≤ _ := Finset.card_le_card hsub
    _ ≤ _ := List.toFinset_card_le _
    _ = _ := List.length_map _

end Runs

end ReadCommitted
