import Nopass.Core.Sql.History

/-!
# Rely and guarantee for concurrent requests

A specification names an invariant of the committed database, a relation that
every commit keeps, and what nobody changes while a row lock is held. Each
program is checked alone, by `wp`, against what the others may commit between
its statements; `exec_good` then speaks about every schedule.
-/

namespace ReadCommitted

variable {I D K T E O O' : Type}

/-- What concurrent requests promise each other. -/
structure Spec (D K T E : Type) where
  /-- Holds of every committed database. -/
  inv : D → Prop
  /-- Holds between the databases before and after a commit. -/
  guar : D → D → Prop
  /-- Doing nothing is always promised. -/
  guar_refl : ∀ d, guar d d
  /-- Promises add up. -/
  guar_trans : ∀ {a b c}, guar a b → guar b c → guar a c
  /-- What stays the same for the holder of a row lock. -/
  keeps : K → LockMode → D → D → Prop
  /-- Doing nothing keeps everything. -/
  keeps_refl : ∀ k m d, keeps k m d d
  /-- What two commits keep, both together keep. -/
  keeps_trans : ∀ {k m a b c}, keeps k m a b → keeps k m b c → keeps k m a c
  /-- What may be assumed of the database at a commit with this label. -/
  allow : T → D → Prop
  /-- What is shown of the databases before and after a commit with this label. -/
  asserts : T → D → D → Prop
  /-- Refusals that are shown never to happen. -/
  never : E → Prop := fun _ => False

namespace Spec

/-- What the other requests may do to the database while the locks `L` are held. -/
structure Rely (S : Spec D K T E) (L : List (K × LockMode)) (d d' : D) : Prop where
  /-- The invariant holds afterwards. -/
  inv : S.inv d'
  /-- The promise was kept. -/
  guar : S.guar d d'
  /-- Locked rows kept what their locks protect. -/
  keeps : ∀ l ∈ L, S.keeps l.1 l.2 d d'

variable {S : Spec D K T E} {L L' : List (K × LockMode)} {a b c d d' : D} {w : D → D}

/-- Others may do nothing. -/
theorem Rely.refl (L : List (K × LockMode)) (h : S.inv d) : S.Rely L d d :=
  ⟨h, S.guar_refl d, fun l _ => S.keeps_refl l.1 l.2 d⟩

/-- Interference adds up. -/
theorem Rely.trans (h : S.Rely L a b) (h' : S.Rely L b c) : S.Rely L a c :=
  ⟨h'.inv, S.guar_trans h.guar h'.guar,
    fun l hl => S.keeps_trans (h.keeps l hl) (h'.keeps l hl)⟩

/-- With fewer locks less is known. -/
theorem Rely.mono (h : S.Rely L' d d') (hL : ∀ l ∈ L, l ∈ L') : S.Rely L d d' :=
  ⟨h.inv, h.guar, fun l hl => h.keeps l (hL l hl)⟩

/-- With the first locks alone less is known. -/
theorem Rely.of_append (h : S.Rely (L ++ L') d d') : S.Rely L d d' :=
  h.mono fun _ hl => List.mem_append_left _ hl

/-- A commit under the locks `L` keeps what every compatible lock protects. -/
def Frame (S : Spec D K T E) (L : List (K × LockMode)) (d d' : D) : Prop :=
  ∀ k m, (∀ l ∈ L, l.1 = k → l.2.compatible m = true) → S.keeps k m d d'

/-- What a commit owes to the other requests. -/
structure Owes (S : Spec D K T E) (L : List (K × LockMode)) (tag : T) (d d' : D) : Prop where
  /-- The label's promise. -/
  asserts : S.asserts tag d d'
  /-- The invariant after. -/
  inv : S.inv d'
  /-- The promise about the change. -/
  guar : S.guar d d'
  /-- Nothing that others have locked changed. -/
  frame : S.Frame L d d'

/-- `wp S prog Q L w d`: from the committed database `d`, with locks `L` and pending writes `w`,
the program keeps the specification whatever the others do within it, and ends in `Q`. -/
def wp (S : Spec D K T E) (Q : O → List (K × LockMode) → (D → D) → D → Prop) :
    Prog D K T E O → List (K × LockMode) → (D → D) → D → Prop
  | .ret out, L, w, d => ∀ d', S.Rely L d d' → Q out L w d'
  | .error e, _, _, _ => ∀ x ∈ e, ¬ S.never x
  | .select next, L, w, d => ∀ d', S.Rely L d d' → wp S Q (next (w d')) L w d'
  | .stmt locks write next, L, w, d => ∀ s, S.Rely L d s → ∀ n, S.Rely L s n →
      wp S Q (next (w s) (w n)) (L ++ locks (w s) (w n)) (write (w s) (w n) ∘ w) n
  | .commit tag next, L, w, d => ∀ d', S.Rely L d d' → S.allow tag d' →
      S.Owes L tag d' (w d') ∧ wp S Q next [] id (w d')
  | .rollback next, L, _, d => ∀ d', S.Rely L d d' → wp S Q next [] id d'

/-- What is shown of a program stays true while the others move. -/
theorem wp_rely {Q : O → List (K × LockMode) → (D → D) → D → Prop} {prog : Prog D K T E O}
    (h : S.wp Q prog L w d) (hr : S.Rely L d d') : S.wp Q prog L w d' := by
  cases prog with
  | ret out => exact fun d₁ h₁ => h d₁ (hr.trans h₁)
  | error e => exact h
  | select next => exact fun d₁ h₁ => h d₁ (hr.trans h₁)
  | stmt locks write next => exact fun s hs n hn => h s (hr.trans hs) n hn
  | commit tag next => exact fun d₁ h₁ ha => h d₁ (hr.trans h₁) ha
  | rollback next => exact fun d₁ h₁ => h d₁ (hr.trans h₁)

/-- A sequence is checked part by part. -/
theorem wp_bind {Q : O' → List (K × LockMode) → (D → D) → D → Prop} {prog : Prog D K T E O}
    {f : O → Prog D K T E O'} (hi : S.inv d)
    (h : S.wp (fun out L w d => S.inv d → S.wp Q (f out) L w d) prog L w d) :
    S.wp Q (prog >>= f) L w d := by
  induction prog generalizing L w d with
  | ret out => exact h d (Rely.refl L hi) hi
  | error e => exact h
  | select next ih => exact fun d₁ h₁ => ih _ h₁.inv (h d₁ h₁)
  | stmt locks write next ih => exact fun s hs n hn => ih _ _ hn.inv (h s hs n hn)
  | commit tag next ih =>
    intro d₁ h₁ ha
    obtain ⟨ho, hn⟩ := h d₁ h₁ ha
    exact ⟨ho, ih ho.inv hn⟩
  | rollback next ih => exact fun d₁ h₁ => ih h₁.inv (h d₁ h₁)

/-- Reads change nothing and may be skipped when no refusal matters. -/
theorem wp_reads_bind {Q : O' → List (K × LockMode) → (D → D) → D → Prop} {prog : Prog D K T E O}
    {f : O → Prog D K T E O'} (h : prog.Reads) (hn : ∀ e, ¬ S.never e)
    (hf : ∀ out d', S.Rely L d d' → S.wp Q (f out) L w d') (hi : S.inv d) :
    S.wp Q (prog >>= f) L w d := by
  induction prog generalizing d with
  | ret out => exact hf out d (Rely.refl L hi)
  | error e => exact fun x _ => hn x
  | select next ih =>
    exact fun d₁ h₁ => ih _ (h (w d₁)) (fun out d₂ h₂ => hf out d₂ (h₁.trans h₂)) h₁.inv
  | stmt locks write next => exact h.elim
  | commit tag next => exact h.elim
  | rollback next => exact h.elim

/-- Reads keep every specification that allows their refusals. -/
theorem wp_of_reads {prog : Prog D K T E O} (h : prog.Reads) (hn : ∀ e, ¬ S.never e) :
    S.wp (fun _ _ _ _ => True) prog L w d := by
  induction prog generalizing d with
  | ret out => exact fun _ _ => trivial
  | error e => exact fun x _ => hn x
  | select next ih => exact fun d₁ _ => ih (w d₁) (h (w d₁))
  | stmt locks write next => exact h.elim
  | commit tag next => exact h.elim
  | rollback next => exact h.elim

/-- Reads change nothing; what they give is kept. -/
theorem wp_gives_bind {Q : O' → List (K × LockMode) → (D → D) → D → Prop} {P : O → Prop}
    {prog : Prog D K T E O} {f : O → Prog D K T E O'} (h : prog.Gives P) (hn : ∀ e, ¬ S.never e)
    (hf : ∀ out d', P out → S.Rely L d d' → S.wp Q (f out) L w d') (hi : S.inv d) :
    S.wp Q (prog >>= f) L w d := by
  induction prog generalizing d with
  | ret out => exact hf out d h (Rely.refl L hi)
  | error e => exact fun x _ => hn x
  | select next ih =>
    exact fun d₁ h₁ => ih _ (h (w d₁)) (fun out d₂ hP h₂ => hf out d₂ hP (h₁.trans h₂)) h₁.inv
  | stmt locks write next => exact h.elim
  | commit tag next => exact h.elim
  | rollback next => exact h.elim

/-- Rule for a read. -/
theorem wp_read_bind {Q : O' → List (K × LockMode) → (D → D) → D → Prop} {read : D → O}
    {f : O → Prog D K T E O'} (h : ∀ d', S.Rely L d d' → S.wp Q (f (read (w d'))) L w d') :
    S.wp Q ((.select fun d => .ret (read d)) >>= f) L w d :=
  h

/-- A weaker outcome follows from a stronger one. -/
theorem wp_mono {Q Q' : O → List (K × LockMode) → (D → D) → D → Prop} {prog : Prog D K T E O}
    (hQ : ∀ out L w d, Q out L w d → Q' out L w d) (h : S.wp Q prog L w d) :
    S.wp Q' prog L w d := by
  induction prog generalizing L w d with
  | ret out => exact fun d₁ h₁ => hQ _ _ _ _ (h d₁ h₁)
  | error e => exact h
  | select next ih => exact fun d₁ h₁ => ih _ (h d₁ h₁)
  | stmt locks write next ih => exact fun s hs n hn => ih _ _ (h s hs n hn)
  | commit tag next ih => exact fun d₁ h₁ ha => ⟨(h d₁ h₁ ha).1, ih (h d₁ h₁ ha).2⟩
  | rollback next ih => exact fun d₁ h₁ => ih (h d₁ h₁)

/-- A part of a transaction that leaves what `view` shows of the database. -/
def Leaves {V : Type} (view : D → V) : Prog D K T E O → Prop
  | .ret _ => True
  | .error _ => True
  | .select next => ∀ d, Leaves view (next d)
  | .stmt _ write next => ∀ s n, (∀ x, view (write s n x) = view x) ∧ Leaves view (next s n)
  | .commit _ _ => False
  | .rollback next => ∃ e, next = .error e

/-- Parts one after the other. -/
theorem Leaves.bind {V : Type} {view : D → V} {prog : Prog D K T E O} {f : O → Prog D K T E O'}
    (h : Leaves view prog) (hf : ∀ out, Leaves view (f out)) : Leaves view (prog >>= f) := by
  induction prog with
  | ret out => exact hf out
  | error e => trivial
  | select next ih => exact fun d => ih d (h d)
  | stmt locks write next ih => exact fun s n => ⟨(h s n).1, ih s n (h s n).2⟩
  | commit tag next => exact h.elim
  | rollback next =>
    obtain ⟨e, rfl⟩ := h
    exact ⟨e, rfl⟩

/-- Reads leave everything. -/
theorem leaves_of_reads {V : Type} {view : D → V} {prog : Prog D K T E O} (h : prog.Reads) :
    Leaves view prog := by
  induction prog with
  | ret out => trivial
  | error e => trivial
  | select next ih => exact fun d => ih d (h d)
  | stmt locks write next => exact h.elim
  | commit tag next => exact h.elim
  | rollback next => exact h.elim

/-- A part that leaves the view adds locks and changes nothing of the view. -/
theorem wp_leaves {V : Type} {view : D → V} {prog : Prog D K T E O} (h : Leaves view prog)
    (hn : ∀ e, ¬ S.never e) :
    S.wp (fun _ L' w' d' => (∀ l ∈ L, l ∈ L') ∧ (∀ x, view (w' x) = view (w x)) ∧ S.Rely L d d')
      prog L w d := by
  induction prog generalizing L w d with
  | ret out => exact fun d₁ h₁ => ⟨fun _ hl => hl, fun _ => rfl, h₁⟩
  | error e => exact fun x _ => hn x
  | select next ih =>
    intro d₁ h₁
    refine wp_mono ?_ (ih (w d₁) (h (w d₁)))
    rintro _ L' w' d' ⟨hL, hw, hr⟩
    exact ⟨hL, hw, h₁.trans hr⟩
  | stmt locks write next ih =>
    intro s hs n hn'
    refine wp_mono ?_ (ih (w s) (w n) (h (w s) (w n)).2)
    rintro _ L' w' d' ⟨hL, hw, hr⟩
    refine ⟨fun l hl => hL l (List.mem_append_left _ hl), fun x => ?_,
      (hs.trans hn').trans hr.of_append⟩
    rw [hw]
    exact (h (w s) (w n)).1 (w x)
  | commit tag next => exact h.elim
  | rollback next =>
    obtain ⟨e, rfl⟩ := h
    exact fun _ _ x _ => hn x

/-- The specification for programs with other labels. -/
def comap {T' : Type} (S : Spec D K T E) (g : T' → T) : Spec D K T' E :=
  { S with allow := fun tag => S.allow (g tag), asserts := fun tag => S.asserts (g tag) }

/-- Labels play no part in what the others may do. -/
theorem rely_comap {T' : Type} {g : T' → T} : (S.comap g).Rely L d d' ↔ S.Rely L d d' :=
  ⟨fun h => ⟨h.inv, h.guar, h.keeps⟩, fun h => ⟨h.inv, h.guar, h.keeps⟩⟩

/-- What a commit owes under its own label it owes under the other. -/
theorem owes_comap {T' : Type} {g : T' → T} {tag : T'} (h : S.Owes L (g tag) d d') :
    (S.comap g).Owes L tag d d' :=
  ⟨h.asserts, h.inv, h.guar, h.frame⟩

/-- A program with other labels keeps a specification when it keeps the one for its own labels. -/
theorem wp_relabel {T' : Type} {g : T' → T} {Q : O → List (K × LockMode) → (D → D) → D → Prop}
    {prog : Prog D K T' E O} (h : (S.comap g).wp Q prog L w d) : S.wp Q (prog.relabel g) L w d := by
  induction prog generalizing L w d with
  | ret out => exact fun d₁ h₁ => h d₁ (rely_comap.mpr h₁)
  | error e => exact h
  | select next ih => exact fun d₁ h₁ => ih _ (h d₁ (rely_comap.mpr h₁))
  | stmt locks write next ih =>
    exact fun s hs n hn => ih _ _ (h s (rely_comap.mpr hs) n (rely_comap.mpr hn))
  | commit tag next ih =>
    intro d₁ h₁ ha
    obtain ⟨ho, hn⟩ := h d₁ (rely_comap.mpr h₁) ha
    exact ⟨⟨ho.asserts, ho.inv, ho.guar, ho.frame⟩, ih hn⟩
  | rollback next ih => exact fun d₁ h₁ => ih (h d₁ (rely_comap.mpr h₁))

/-- A program that keeps the specification from every database that satisfies the invariant,
and whose answers satisfy `Q` for good. -/
def Valid (S : Spec D K T E) (prog : Prog D K T E O) (Q : O → D → Prop) : Prop :=
  ∀ d, S.inv d → S.wp (fun out _ _ d => Q out d) prog [] id d

/-- A request in progress that keeps the specification from here on. -/
def Safe (S : Spec D K T E) (Q : O → D → Prop) (p : Proc D K T E O) (d : D) : Prop :=
  match p.snap with
  | none => S.wp (fun out _ _ d => Q out d) p.prog p.locks p.write d
  | some snap => ∃ locks write next, p.prog = .stmt locks write next ∧
      ∀ n, S.Rely p.locks d n → S.wp (fun out _ _ d => Q out d) (next snap (p.write n))
        (p.locks ++ locks snap (p.write n)) (write snap (p.write n) ∘ p.write) n

/-- A request in progress stays safe while the others move. -/
theorem Safe.rely {Q : O → D → Prop} {p : Proc D K T E O} (h : S.Safe Q p d)
    (hr : S.Rely p.locks d d') : S.Safe Q p d' := by
  unfold Safe at h ⊢
  cases hs : p.snap with
  | none =>
    simp only [hs] at h ⊢
    exact wp_rely h hr
  | some snap =>
    simp only [hs] at h ⊢
    obtain ⟨locks, write, next, hp, hw⟩ := h
    exact ⟨locks, write, next, hp, fun n hn => hw n (hr.trans hn)⟩

/-- An answer that was given satisfies its outcome. -/
theorem Safe.ret {Q : O → D → Prop} {p : Proc D K T E O} {out : O} (h : S.Safe Q p d)
    (hp : p.prog = .ret out) (hi : S.inv d) : Q out d := by
  unfold Safe at h
  cases hs : p.snap with
  | none =>
    simp only [hs, hp] at h
    exact h d (Rely.refl _ hi)
  | some snap =>
    simp only [hs, hp] at h
    obtain ⟨_, _, _, he, _⟩ := h
    cases he

/-- A refusal that was given is one that may happen. -/
theorem Safe.refusal {Q : O → D → Prop} {p : Proc D K T E O} {e : E} (h : S.Safe Q p d)
    (hp : p.prog.refusal = some e) : ¬ S.never e := by
  obtain ⟨prog, snap, locks, write⟩ := p
  cases prog with
  | error e' =>
    cases snap with
    | none => exact h e hp
    | some snap =>
      obtain ⟨_, _, _, he, _⟩ := h
      cases he
  | ret | select | stmt | commit | rollback => cases hp

/-- The invariant of a whole run: the database, the exclusion of locks, every request. -/
structure Good (S : Spec D K T E) (Q : I → O → D → Prop) (s : State I D K T E O) : Prop where
  /-- The committed database satisfies the invariant. -/
  inv : S.inv s.db
  /-- No two requests hold conflicting locks. -/
  excl : ∀ i j, i ≠ j → Compatible (s.procs i).locks (s.procs j).locks
  /-- Every request keeps the specification. -/
  safe : ∀ i, S.Safe (Q i) (s.procs i) s.db


section Run

variable {Q : I → O → D → Prop} {s s' : State I D K T E O}

/-- Requests that are valid one by one start well from any database with the invariant. -/
theorem Good.start {reqs : I → Prog D K T E O} {db : D} (hi : S.inv db)
    (h : ∀ i, S.Valid (reqs i) (Q i)) : S.Good Q (State.start db reqs) :=
  ⟨hi, fun _ _ _ => Compatible.nil_left _, fun i => h i db hi⟩

private theorem wp_of_safe {P : O → D → Prop} {p : Proc D K T E O} {d : D} (h : S.Safe P p d)
    (hp : ∀ locks write next, p.prog ≠ .stmt locks write next) :
    S.wp (fun out _ _ d => P out d) p.prog p.locks p.write d := by
  unfold Safe at h
  cases hs : p.snap with
  | none => simpa only [hs] using h
  | some snap =>
    simp only [hs] at h
    obtain ⟨locks, write, next, he, _⟩ := h
    exact absurd he (hp locks write next)

variable [DecidableEq I]

private theorem good_put {Q' : I → O → D → Prop} {i : I} {p : Proc D K T E O} (hg : S.Good Q s)
    (hQ : ∀ j, j ≠ i → Q' j = Q j) (hl : ∀ j, j ≠ i → Compatible p.locks (s.procs j).locks)
    (hp : S.Safe (Q' i) p s.db) : S.Good Q' (s.set i p) := by
  refine ⟨hg.inv, fun j k hjk => ?_, fun j => ?_⟩
  · by_cases hj : j = i
    · subst hj
      rw [State.set_procs_self, State.set_procs_ne _ (Ne.symm hjk)]
      exact hl k (Ne.symm hjk)
    · rw [State.set_procs_ne _ hj]
      by_cases hk : k = i
      · subst hk
        rw [State.set_procs_self]
        exact (hl j hj).symm
      · rw [State.set_procs_ne _ hk]
        exact hg.excl j k hjk
  · by_cases hj : j = i
    · subst hj
      rw [State.set_procs_self]
      exact hp
    · rw [State.set_procs_ne _ hj, hQ j hj]
      exact hg.safe j

private theorem good_set {i : I} {p : Proc D K T E O} (hg : S.Good Q s)
    (hl : ∀ j, j ≠ i → Compatible p.locks (s.procs j).locks) (hp : S.Safe (Q i) p s.db) :
    S.Good Q (s.set i p) :=
  good_put hg (fun _ _ => rfl) hl hp

/-- A request that is valid may take the place of another one. -/
theorem Good.restart {Q' : I → O → D → Prop} {i : I} {prog : Prog D K T E O} (hg : S.Good Q s)
    (hv : S.Valid prog (Q' i)) (hQ : ∀ j, j ≠ i → Q' j = Q j) :
    S.Good Q' (s.set i { prog := prog }) :=
  good_put hg hQ (fun _ _ => Compatible.nil_left _) (hv s.db hg.inv)

private theorem good_commit {i : I} {tag : T} {next : Prog D K T E O} (hg : S.Good Q s)
    (ho : S.Owes (s.procs i).locks tag s.db ((s.procs i).write s.db))
    (hn : S.wp (fun out _ _ d => Q i out d) next [] id ((s.procs i).write s.db)) :
    S.Good Q ({ s with db := (s.procs i).write s.db }.set i { prog := next }) := by
  refine ⟨ho.inv, fun j k hjk => ?_, fun j => ?_⟩
  · by_cases hj : j = i
    · subst hj
      rw [State.set_procs_self]
      exact Compatible.nil_left _
    · rw [State.set_procs_ne _ hj]
      by_cases hk : k = i
      · subst hk
        rw [State.set_procs_self]
        exact Compatible.nil_right _
      · rw [State.set_procs_ne _ hk]
        exact hg.excl j k hjk
  · by_cases hj : j = i
    · subst hj
      rw [State.set_procs_self]
      exact hn
    · rw [State.set_procs_ne _ hj]
      refine (hg.safe j).rely ⟨ho.inv, ho.guar, fun l hl => ho.frame l.1 l.2 fun x hx hk => ?_⟩
      exact hg.excl i j (Ne.symm hj) x hx l hl hk

variable [Fintype I] [DecidableEq K]

/-- One step of one request keeps the invariant of the run, changes the database only as
promised, and commits only what the label's assertion allows. -/
theorem Good.step {i : I} {act : Act} (hg : S.Good Q s) (h : s.step i act = some s')
    (hc : act = .go → ∀ tag ∈ s.committing i, S.allow tag s.db) :
    S.Good Q s' ∧ S.guar s.db s'.db ∧
      ∀ e ∈ s.event s' i act, S.asserts e.tag e.before e.after := by
  have hquiet : (∀ tag next, (s.procs i).prog ≠ .commit tag next) →
      ∀ e ∈ s.event s' i act, S.asserts e.tag e.before e.after := by
    intro hne e he
    rcases State.step_event h with ⟨hnone, -, -⟩ | ⟨tag, next, -, hp, -, -⟩
    · rw [hnone] at he
      cases he
    · exact (hne tag next hp).elim
  rcases State.step_cases h with ⟨rfl, rfl⟩ | ⟨next, hp, rfl⟩ | ⟨locks, write, next, hp, hs, rfl⟩ |
    ⟨locks, write, next, snap, hp, hs, hf, rfl⟩ | ⟨tag, next, rfl, hp, rfl⟩ | ⟨next, hp, rfl⟩
  · exact ⟨good_set hg (fun j _ => Compatible.nil_left _) nofun, S.guar_refl _, nofun⟩
  · have hw := wp_of_safe (hg.safe i) (by simp [hp])
    rw [hp] at hw
    refine ⟨good_set hg (fun j hj => hg.excl i j (Ne.symm hj)) ?_, S.guar_refl _,
      hquiet (by simp [hp])⟩
    have hn := hw s.db (Rely.refl _ hg.inv)
    unfold Safe
    cases hs : (s.procs i).snap with
    | none => simpa only [hs] using hn
    | some snap =>
      have hsafe := hg.safe i
      simp only [Safe, hs, hp] at hsafe
      obtain ⟨_, _, _, he, _⟩ := hsafe
      cases he
  · have hw := hg.safe i
    simp only [Safe, hs, hp] at hw
    refine ⟨good_set hg (fun j hj => hg.excl i j (Ne.symm hj)) ?_, S.guar_refl _,
      hquiet (by simp [hp])⟩
    exact ⟨locks, write, next, hp, fun n hn => hw s.db (Rely.refl _ hg.inv) n hn⟩
  · have hw := hg.safe i
    simp only [Safe, hs] at hw
    obtain ⟨locks', write', next', he, hn⟩ := hw
    cases hp.symm.trans he
    refine ⟨good_set hg (fun j hj => ?_) (hn s.db (Rely.refl _ hg.inv)), S.guar_refl _,
      hquiet (by simp [hp])⟩
    exact (hg.excl i j (Ne.symm hj)).append_left (hf j hj)
  · have hw := wp_of_safe (hg.safe i) (by simp [hp])
    rw [hp] at hw
    have htag : tag ∈ s.committing i := by simp [State.committing, hp]
    obtain ⟨ho, hn⟩ := hw s.db (Rely.refl _ hg.inv) (hc rfl tag htag)
    refine ⟨good_commit hg ho hn, ho.guar, fun e he => ?_⟩
    obtain ⟨t, ht, rfl⟩ := Option.map_eq_some_iff.mp he
    cases ht.symm.trans htag
    exact ho.asserts
  · have hw := wp_of_safe (hg.safe i) (by simp [hp])
    rw [hp] at hw
    exact ⟨good_set hg (fun j _ => Compatible.nil_left _) (hw s.db (Rely.refl _ hg.inv)),
      S.guar_refl _, hquiet (by simp [hp])⟩

/-- Every schedule whose commits are allowed keeps the invariant of the run, changes the
database only as promised, and makes only commits that its labels' assertions allow. -/
theorem Good.exec {sched : List (I × Act)} (hg : S.Good Q s) (hc : s.Commits S.allow sched)
    (h : s.exec sched = some s') :
    S.Good Q s' ∧ S.guar s.db s'.db ∧
      ∀ e ∈ s.history sched, S.asserts e.tag e.before e.after := by
  induction sched generalizing s with
  | nil =>
    cases h
    exact ⟨hg, S.guar_refl _, fun e he => (List.not_mem_nil he).elim⟩
  | cons x rest ih =>
    obtain ⟨i, act⟩ := x
    obtain ⟨s₁, h₁, h₂⟩ := Option.bind_eq_some_iff.mp h
    obtain ⟨hg₁, hu₁, ha₁⟩ := hg.step h₁ hc.1
    obtain ⟨hg₂, hu₂, ha₂⟩ := ih hg₁ (hc.2 s₁ h₁) h₂
    refine ⟨hg₂, S.guar_trans hu₁ hu₂, fun e he => ?_⟩
    rw [State.history_cons h₁] at he
    rcases List.mem_append.mp he with he | he
    · exact ha₁ e (Option.mem_toList.mp he)
    · exact ha₂ e he

/-- Every commit of a run is made from a database with the invariant, keeps it, and the promise
holds from the start to the commit and from there to the end. -/
theorem Good.guar_of_mem_history {sched : List (I × Act)} (hg : S.Good Q s)
    (hc : s.Commits S.allow sched) (h : s.exec sched = some s') : ∀ e ∈ s.history sched,
      S.inv e.before ∧ S.inv e.after ∧ S.guar s.db e.before ∧ S.guar e.before e.after ∧
        S.guar e.after s'.db := by
  induction sched generalizing s with
  | nil => exact fun e he => (List.not_mem_nil he).elim
  | cons x rest ih =>
    obtain ⟨i, act⟩ := x
    obtain ⟨s₁, h₁, h₂⟩ := Option.bind_eq_some_iff.mp h
    obtain ⟨hg₁, hu₁, -⟩ := hg.step h₁ hc.1
    rw [State.history_cons h₁]
    intro e he
    rcases List.mem_append.mp he with he | he
    · obtain ⟨hbefore, hafter⟩ := State.db_of_mem_event (Option.mem_toList.mp he)
      rw [hbefore, hafter]
      exact ⟨hg.inv, hg₁.inv, S.guar_refl _, hu₁, (hg₁.exec (hc.2 s₁ h₁) h₂).2.1⟩
    · obtain ⟨hib, hia, hub, hue, hua⟩ := ih hg₁ (hc.2 s₁ h₁) h₂ e he
      exact ⟨hib, hia, S.guar_trans hu₁ hub, hue, hua⟩

end Run

end Spec

end ReadCommitted
