import Nopass.Core.Sql.Table

/-!
# Assertions about the request that commits

A label does not say which request commits under it. Labels that do may stand in its place:
the run under them is the run without. A program whose statements are all of one kind that
no other request minds keeps a specification wherever it goes.
-/

namespace ReadCommitted

variable {I D K T T' E O O' : Type}

namespace Prog

/-- A program whose statements are all of one kind, with their locks, and whose commits have
labels with a property. -/
def Statements (W : List (K × LockMode) → (D → D) → Prop) (P : T → Prop) : Prog D K T E O → Prop
  | .ret _ => True
  | .error _ => True
  | .select next => ∀ d, (next d).Statements W P
  | .stmt locks write next => ∀ s n, W (locks s n) (write s n) ∧ (next s n).Statements W P
  | .commit tag next => P tag ∧ next.Statements W P
  | .rollback next => next.Statements W P

variable {W : List (K × LockMode) → (D → D) → Prop} {P : T → Prop}

/-- Programs one after the other. -/
theorem Statements.bind {prog : Prog D K T E O} {f : O → Prog D K T E O'}
    (h : prog.Statements W P) (hf : ∀ out, (f out).Statements W P) :
    (prog >>= f).Statements W P := by
  induction prog with
  | ret out => exact hf out
  | error e => trivial
  | select next ih => exact fun d => ih d (h d)
  | stmt locks write next ih => exact fun s n => ⟨(h s n).1, ih s n (h s n).2⟩
  | commit tag next ih => exact ⟨h.1, ih h.2⟩
  | rollback next ih => exact ih h

/-- Reads are no statements. -/
theorem Reads.statements {prog : Prog D K T E O} (h : prog.Reads) : prog.Statements W P := by
  induction prog with
  | ret out => trivial
  | error e => trivial
  | select next ih => exact fun d => ih d (h d)
  | stmt locks write next => exact h.elim
  | commit tag next => exact h.elim
  | rollback next => exact h.elim

/-- One program or another. -/
theorem Statements.ite {cond : Prop} [Decidable cond] {prog prog' : Prog D K T E O}
    (h : prog.Statements W P) (h' : prog'.Statements W P) :
    (if cond then prog else prog').Statements W P := by
  split
  · exact h
  · exact h'

end Prog

namespace Table

variable {R : Type} [DecidableEq K] {t : Table D K R} {W : List (K × LockMode) → (D → D) → Prop}
  {P : T → Prop}

/-- A statement on its own. -/
theorem statements_autocommit {prog : Prog D K T E O} {tag : O → T} (h : prog.Statements W P)
    (hP : ∀ out, P (tag out)) : (autocommit prog tag).Statements W P :=
  h.bind fun out => ⟨hP out, trivial⟩

/-- A locking read. -/
theorem statements_selectFor {m : LockMode} {cond : D → R → Bool}
    (h : ∀ s n, W (t.locked cond m s n) id) :
    (t.selectFor m cond : Prog D K T E (List R)).Statements W P :=
  fun s n => ⟨h s n, trivial⟩

/-- An update. -/
theorem statements_update {cond : D → R → Bool} {f : R → R} {refs : R → List (Ref D K)}
    (h : ∀ s n L, (∀ k ∈ (t.hits cond s n).map t.key, (k, .noKeyUpdate) ∈ L) →
      W L (t.edit ((t.hits cond s n).map t.key) f)) :
    (t.update cond f refs : Prog D K T E (List R)).Statements W P := by
  intro s n
  constructor
  · apply h
    intro k hk
    obtain ⟨r, hr, rfl⟩ := List.mem_map.mp hk
    exact List.mem_append_left _ (t.locked_of_mem_hits hr .noKeyUpdate)
  · dsimp only
    split
    · trivial
    · trivial

/-- A deletion. -/
theorem statements_delete {cond : D → R → Bool}
    (h : ∀ s n L, (∀ k ∈ (t.hits cond s n).map t.key, (k, .update) ∈ L) →
      W L (t.drop ((t.hits cond s n).map t.key))) :
    (t.delete cond : Prog D K T E (List R)).Statements W P := by
  intro s n
  refine ⟨h s n _ fun k hk => ?_, trivial⟩
  obtain ⟨r, hr, rfl⟩ := List.mem_map.mp hk
  exact t.locked_of_mem_hits hr .update

/-- An insertion that is refused when its key is taken. -/
theorem statements_insert {row : R} {refs : List (Ref D K)} {e : Option E}
    (h : ∀ L, W L (t.push row)) :
    (t.insert row refs (.error e) : Prog D K T E Unit).Statements W P := by
  intro s n
  refine ⟨h _, ?_⟩
  dsimp only
  split
  · split
    · trivial
    · trivial
  · trivial

/-- An insertion that gives way. -/
theorem statements_insertOrIgnore {row : R} {refs : List (Ref D K)} (hnil : ∀ L, W L id)
    (h : ∀ L, W L (t.push row)) :
    (t.insertOrIgnore row refs : Prog D K T E Bool).Statements W P := by
  intro s n
  dsimp only
  split
  · refine ⟨h _, ?_⟩
    split
    · trivial
    · trivial
  · exact ⟨hnil _, trivial⟩

end Table

namespace Spec

variable {S : Spec D K T E} {W : List (K × LockMode) → (D → D) → Prop} {P : T → Prop}
  {L : List (K × LockMode)} {w : D → D} {d : D}

/-- A request in progress stays safe for a weaker outcome. -/
theorem Safe.mono {Q Q' : O → D → Prop} {p : Proc D K T E O} (hQ : ∀ out d, Q out d → Q' out d)
    (h : S.Safe Q p d) : S.Safe Q' p d := by
  unfold Safe at h ⊢
  cases hs : p.snap with
  | none =>
    simp only [hs] at h ⊢
    exact wp_mono (fun out _ _ d => hQ out d) h
  | some snap =>
    simp only [hs] at h ⊢
    obtain ⟨locks, write, next, hp, hw⟩ := h
    exact ⟨locks, write, next, hp, fun n hn => wp_mono (fun out _ _ d => hQ out d) (hw n hn)⟩

/-- Statements of a kind that a specification leaves alone under these labels. -/
structure Routine (S : Spec D K T E) (W : List (K × LockMode) → (D → D) → Prop) (P : T → Prop) :
    Prop where
  /-- Doing nothing is of the kind. -/
  nil : W [] id
  /-- Two such statements are one. -/
  comp : ∀ {L L' w w'}, W L w → W L' w' → W (L ++ L') (w' ∘ w)
  /-- A commit after such statements owes nothing more. -/
  owes : ∀ {L w tag d}, S.inv d → P tag → W L w → S.Owes L tag d (w d)
  /-- Every refusal may happen. -/
  never : ∀ e, ¬ S.never e

/-- A program of such statements keeps the specification. -/
theorem Routine.wp (hr : S.Routine W P) {prog : Prog D K T E O} (h : prog.Statements W P)
    (hw : W L w) : S.wp (fun _ _ _ _ => True) prog L w d := by
  induction prog generalizing L w d with
  | ret out => exact fun _ _ => trivial
  | error e => exact fun x _ => hr.never x
  | select next ih => exact fun d₁ _ => ih _ (h _) hw
  | stmt locks write next ih => exact fun s _ n _ => ih _ _ (h _ _).2 (hr.comp hw (h _ _).1)
  | commit tag next ih => exact fun d₁ h₁ _ => ⟨hr.owes h₁.inv h.1 hw, ih h.2 hr.nil⟩
  | rollback next ih => exact fun d₁ _ => ih h hr.nil

/-- A program of such statements before another program. -/
theorem Routine.wp_bind (hr : S.Routine W P) {Q : O' → List (K × LockMode) → (D → D) → D → Prop}
    {prog : Prog D K T E O} {f : O → Prog D K T E O'} (h : prog.Statements W P) (hi : S.inv d)
    (hw : W L w) (hf : ∀ out L w d, S.inv d → W L w → S.wp Q (f out) L w d) :
    S.wp Q (prog >>= f) L w d := by
  induction prog generalizing L w d with
  | ret out => exact hf out L w d hi hw
  | error e => exact fun x _ => hr.never x
  | select next ih => exact fun d₁ h₁ => ih _ (h _) h₁.inv hw
  | stmt locks write next ih =>
    exact fun s _ n hn => ih _ _ (h _ _).2 hn.inv (hr.comp hw (h _ _).1)
  | commit tag next ih =>
    intro d₁ h₁ _
    have ho := hr.owes h₁.inv h.1 hw
    exact ⟨ho, ih h.2 ho.inv hr.nil⟩
  | rollback next ih => exact fun d₁ h₁ => ih h h₁.inv hr.nil

/-- What the labels are called does not matter. -/
theorem Routine.comap (hr : S.Routine W P) (g : T' → T) :
    (S.comap g).Routine W fun tag => P (g tag) where
  nil := hr.nil
  comp := hr.comp
  owes hi hP hw := owes_comap (hr.owes hi hP hw)
  never := hr.never

end Spec

section Runs

/-- The run with other labels, which may tell the requests apart. -/
def State.relabel (g : I → T → T') (s : State I D K T E O) : State I D K T' E O where
  db := s.db
  procs i := { (s.procs i) with prog := (s.procs i).prog.relabel (g i) }

/-- The commit with its other label. -/
def Event.relabel (g : I → T → T') (e : Event I D T) : Event I D T' where
  proc := e.proc
  tag := g e.proc e.tag
  before := e.before
  after := e.after

variable [DecidableEq I] {g : I → T → T'} {s s' : State I D K T E O} {i : I} {act : Act}
  {sched : List (I × Act)}

/-- Replacing a request and its labels. -/
theorem State.relabel_set (p : Proc D K T E O) : (s.set i p).relabel g =
    (s.relabel g).set i { p with prog := p.prog.relabel (g i) } := by
  rw [State.relabel, State.set, State.mk.injEq]
  refine ⟨rfl, funext fun j => ?_⟩
  by_cases hj : j = i
  · subst hj
    simp [State.set]
  · simp [State.set, hj, State.relabel]

variable [Fintype I] [DecidableEq K]

/-- A step of the run is one of the run with other labels. -/
theorem State.relabel_step (h : s.step i act = some s') :
    (s.relabel g).step i act = some (s'.relabel g) ∧
      (s.relabel g).event (s'.relabel g) i act = (s.event s' i act).map (Event.relabel g) := by
  have hprog : ((s.relabel g).procs i).prog = (s.procs i).prog.relabel (g i) := rfl
  have hdb : (s.relabel g).db = s.db := rfl
  cases act with
  | abort =>
    refine ⟨?_, rfl⟩
    cases hp : (s.procs i).prog <;> simp only [State.step, hp, reduceCtorEq] at h <;>
      cases h <;> simp only [State.step, hprog, hp, Prog.relabel, State.relabel_set]
  | go =>
    cases hp : (s.procs i).prog with
    | ret out => simp [State.step, hp] at h
    | error e => simp [State.step, hp] at h
    | select next =>
      simp only [State.step, hp, Option.some.injEq] at h
      subst h
      rw [State.event, State.event, State.committing, State.committing, hprog, hp]
      refine ⟨?_, rfl⟩
      simp only [State.step, hprog, hp, Prog.relabel, State.relabel_set]
      rfl
    | stmt locks write next =>
      rw [State.event, State.event, State.committing, State.committing, hprog, hp]
      refine ⟨?_, rfl⟩
      have hsnap : ((s.relabel g).procs i).snap = (s.procs i).snap := rfl
      have hlocks : ((s.relabel g).procs i).locks = (s.procs i).locks := rfl
      have hwrite : ((s.relabel g).procs i).write = (s.procs i).write := rfl
      cases hs : (s.procs i).snap with
      | none =>
        simp only [State.step, hp, hs, Option.some.injEq] at h
        subst h
        simp only [State.step, hprog, hp, Prog.relabel, hsnap, hs, State.relabel_set]
        rfl
      | some snap =>
        simp only [State.step, hp, hs] at h
        split at h
        · rename_i hfree
          have hfree' : (s.relabel g).Free i (locks snap ((s.procs i).write s.db)) := hfree
          cases h
          simp only [State.step, hprog, hp, Prog.relabel, hsnap, hs, hwrite, hlocks, hdb,
            State.relabel_set, if_pos hfree']
        · cases h
    | commit tag next =>
      simp only [State.step, hp, Option.some.injEq] at h
      subst h
      rw [State.event, State.event, State.committing, State.committing, hprog, hp]
      refine ⟨?_, rfl⟩
      simp only [State.step, hprog, hp, Prog.relabel, State.relabel_set]
      rfl
    | rollback next =>
      simp only [State.step, hp, Option.some.injEq] at h
      subst h
      rw [State.event, State.event, State.committing, State.committing, hprog, hp]
      refine ⟨?_, rfl⟩
      simp only [State.step, hprog, hp, Prog.relabel, State.relabel_set]

/-- A run is one with other labels, and its commits are the same. -/
theorem State.relabel_exec (h : s.exec sched = some s') :
    (s.relabel g).exec sched = some (s'.relabel g) ∧
      (s.relabel g).history sched = (s.history sched).map (Event.relabel g) := by
  induction sched generalizing s with
  | nil =>
    cases h
    exact ⟨rfl, rfl⟩
  | cons x rest ih =>
    obtain ⟨i, act⟩ := x
    obtain ⟨s₁, h₁, h₂⟩ := Option.bind_eq_some_iff.mp h
    obtain ⟨hstep, hevent⟩ := State.relabel_step (g := g) h₁
    obtain ⟨hexec, hhistory⟩ := ih h₂
    constructor
    · rw [State.exec, hstep]
      exact hexec
    · rw [State.history_cons hstep, State.history_cons h₁, hhistory, hevent, List.map_append]
      congr 1
      cases s.event s₁ i act <;> rfl

/-- Requests that keep a specification under labels that tell them apart: it holds of every
schedule, of every commit under the label of its request, and from each reached state on. -/
theorem Spec.holds_of_relabel {S : Spec D K T' E} {db : D} {reqs : I → Prog D K T E O}
    (hallow : ∀ tag d, S.allow tag d) (hi : S.inv db)
    (hv : ∀ i, (S.comap (g i)).Valid (reqs i) fun _ _ => True)
    (h : (State.start db reqs).exec sched = some s) :
    S.inv s.db ∧
      (∀ before after s₁, sched = before ++ after →
        (State.start db reqs).exec before = some s₁ → S.guar s₁.db s.db) ∧
      ∀ e ∈ (State.start db reqs).history sched, S.asserts (g e.proc e.tag) e.before e.after := by
  have hvalid : ∀ i, S.Valid ((reqs i).relabel (g i)) fun _ _ => True :=
    fun i d hd => Spec.wp_relabel (hv i d hd)
  have hstart : S.Good (fun _ _ _ => True) ((State.start db reqs).relabel g) :=
    Spec.Good.start hi hvalid
  have hcommits {s₁ s₂ : State I D K T' E O} {sched : List (I × Act)}
      (hx : s₁.exec sched = some s₂) : s₁.Commits S.allow sched :=
    State.commits_of_history hx fun e _ => hallow e.tag e.before
  obtain ⟨hexec, hhistory⟩ := State.relabel_exec (g := g) h
  obtain ⟨hgood, -, hasserts⟩ := hstart.exec (hcommits hexec) hexec
  refine ⟨hgood.inv, fun before after s₁ hsplit hs₁ => ?_, fun e he => ?_⟩
  · have hbefore := (State.relabel_exec (g := g) hs₁).1
    have hgood₁ := (hstart.exec (hcommits hbefore) hbefore).1
    rw [hsplit, State.exec_append] at hexec
    obtain ⟨s₂, hs₂, hafter⟩ := hexec
    cases hbefore.symm.trans hs₂
    exact (hgood₁.exec (hcommits hafter) hafter).2.1
  · rw [hhistory] at hasserts
    exact hasserts _ (List.mem_map_of_mem he)

end Runs

end ReadCommitted
