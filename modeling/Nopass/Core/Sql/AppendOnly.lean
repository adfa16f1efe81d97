import Mathlib.Data.List.Pairwise
import Nopass.Core.Sql.Table

/-!
# Tables that only grow

The rows of a log are inserted and never changed. A row has a key in each unique index,
and an insertion without a conflict target gives way to a row that has one of them. A
transaction inserts several rows; what it found taken stays taken, and what it found
free is locked until its commit. Rows that are put in follow those that are there, as
long as the rows of every transaction would.
-/

namespace ReadCommitted

variable {D K T E R : Type}

/-- A table with the unique indexes of its rows. -/
structure LogTable (D K R : Type) extends Table D K R where
  /-- The keys of a row, one for each unique index, as lock names. -/
  unique : R → List K
  /-- The primary key is one of them. -/
  key_mem : ∀ r, key r ∈ unique r

namespace LogTable

variable [DecidableEq K]

/-- Two rows have a unique key in common. -/
def Clash (t : LogTable D K R) (r r' : R) : Prop := ∃ k ∈ t.unique r, k ∈ t.unique r'

instance (t : LogTable D K R) (r r' : R) : Decidable (t.Clash r r') :=
  inferInstanceAs (Decidable (∃ k ∈ t.unique r, k ∈ t.unique r'))

/-- No row has one of the keys of `row` yet. -/
def free (t : LogTable D K R) (row : R) (d : D) : Bool :=
  (t.get d).all fun r => decide (¬ t.Clash r row)

/-- `INSERT … VALUES row ON CONFLICT DO NOTHING`, without a conflict target: whether the row
went in. -/
def insertOrIgnore (t : LogTable D K R) (row : R) (refs : List (Ref D K) := []) :
    Prog D K T E Bool :=
  .stmt
    (fun _ n => if t.free row n then
        (t.unique row).map (·, .update) ++ refs.map fun ref => (ref.row, .keyShare) else [])
    (fun _ n d => if t.free row n then t.push row d else d)
    fun _ n =>
      if t.free row n then
        if t.check row && refs.all (·.live n) then .ret true else .rollback (.error none)
      else .ret false

/-- One insertion after the other. -/
def insertAll (t : LogTable D K R) (refs : R → List (Ref D K)) : List R → Prog D K T E Unit
  | [] => .ret ()
  | row :: rest => do
    let _ ← t.insertOrIgnore row (refs row)
    t.insertAll refs rest

variable {t : LogTable D K R} {r r' : R} {d d' : D}

omit [DecidableEq K] in
/-- Who clashes does not depend on who came first. -/
theorem Clash.symm (h : t.Clash r r') : t.Clash r' r := by
  obtain ⟨k, hk, hk'⟩ := h
  exact ⟨k, hk', hk⟩

omit [DecidableEq K] in
/-- A row clashes with itself. -/
theorem clash_self (t : LogTable D K R) (r : R) : t.Clash r r :=
  ⟨t.key r, t.key_mem r, t.key_mem r⟩

/-- A row is free when it clashes with none. -/
theorem free_iff : t.free r d = true ↔ ∀ s ∈ t.get d, ¬ t.Clash s r := by
  simp [free]

/-- A row is taken when it clashes with one. -/
theorem not_free_iff : ¬ t.free r d = true ↔ ∃ s ∈ t.get d, t.Clash s r := by
  rw [free_iff]
  push Not
  rfl

/-- A row that is there is taken. -/
theorem not_free_of_mem (h : r ∈ t.get d) : ¬ t.free r d = true :=
  not_free_iff.mpr ⟨r, h, t.clash_self r⟩

/-- More rows take more. -/
theorem not_free_mono (h : ¬ t.free r d = true) (hd : ∀ s ∈ t.get d, s ∈ t.get d') :
    ¬ t.free r d' = true := by
  obtain ⟨s, hs, hclash⟩ := not_free_iff.mp h
  exact not_free_iff.mpr ⟨s, hd s hs, hclash⟩

/-- Each unique index has each key once. -/
def Unique (t : LogTable D K R) (d : D) : Prop :=
  (t.get d).Pairwise fun r r' => ¬ t.Clash r r'

omit [DecidableEq K] in
/-- Rows that clash are one row. -/
theorem Unique.eq (h : t.Unique d) (hr : r ∈ t.get d) (hr' : r' ∈ t.get d) (hc : t.Clash r r') :
    r = r' := by
  have hsymm : Std.Symm fun r r' => ¬ t.Clash r r' := ⟨fun _ _ hn hc => hn hc.symm⟩
  by_contra hne
  exact List.Pairwise.forall h hr hr' hne hc

omit [DecidableEq K] in
/-- No row is there twice. -/
theorem Unique.nodup (h : t.Unique d) : (t.get d).Nodup := by
  apply List.Pairwise.imp _ h
  rintro a b hclash rfl
  exact hclash (t.clash_self a)

/-- The rows of `d'` are those of `d` and then some, each of which follows those of `d`. -/
def Extends (t : LogTable D K R) (follows : R → R → Prop) (d d' : D) : Prop :=
  ∃ new, t.get d' = t.get d ++ new ∧ ∀ p ∈ new, ∀ s ∈ t.get d, follows s p

/-- What a transaction that inserts `rows` does: the new rows are of these and were free, and
none of these is free afterwards. -/
structure Inserts (t : LogTable D K R) (rows : List R) (d d' : D) (new : List R) : Prop where
  get : t.get d' = t.get d ++ new
  sub : new.Sublist rows
  free : ∀ p ∈ new, t.free p d = true
  taken : ∀ p ∈ rows, ¬ t.free p d' = true

variable {follows : R → R → Prop}

omit [DecidableEq K] in
/-- Nothing new. -/
theorem Extends.refl (d : D) : t.Extends follows d d :=
  ⟨[], (List.append_nil _).symm, nofun⟩

omit [DecidableEq K] in
/-- Rows that are there stay. -/
theorem Extends.mem (h : t.Extends follows d d') (hr : r ∈ t.get d) : r ∈ t.get d' := by
  obtain ⟨new, hget, -⟩ := h
  rw [hget]
  exact List.mem_append_left _ hr

omit [DecidableEq K] in
/-- A row that is there later was there before or follows what was. -/
theorem Extends.cases (h : t.Extends follows d d') (hr : r ∈ t.get d') :
    r ∈ t.get d ∨ ∀ s ∈ t.get d, follows s r := by
  obtain ⟨new, hget, hnew⟩ := h
  rw [hget] at hr
  rcases List.mem_append.mp hr with hr | hr
  · exact Or.inl hr
  · exact Or.inr (hnew r hr)

omit [DecidableEq K] in
/-- Growth adds up. -/
theorem Extends.trans {a b c : D} (h : t.Extends follows a b) (h' : t.Extends follows b c) :
    t.Extends follows a c := by
  obtain ⟨new, hget, hnew⟩ := h
  obtain ⟨new', hget', hnew'⟩ := h'
  refine ⟨new ++ new', by rw [hget', hget, List.append_assoc], fun p hp s hs => ?_⟩
  rcases List.mem_append.mp hp with hp | hp
  · exact hnew p hp s hs
  · apply hnew' p hp s
    rw [hget]
    exact List.mem_append_left _ hs

/-- What concurrent transactions on a log promise each other. A commit is labelled with the
rows that it inserts. -/
def logSpec (t : LogTable D K R) (follows : R → R → Prop) : Spec D K (List R) E where
  inv := t.Unique
  guar := t.Extends follows
  guar_refl := Extends.refl
  guar_trans := Extends.trans
  keeps k _ d d' := ∀ r ∈ t.get d', k ∈ t.unique r → ∃ s ∈ t.get d, k ∈ t.unique s
  keeps_refl k _ d r hr hk := ⟨r, hr, hk⟩
  keeps_trans h h' r hr hk := by
    obtain ⟨s, hs, hks⟩ := h' r hr hk
    exact h s hs hks
  allow rows d := ∀ p ∈ rows, t.free p d = true → ∀ s ∈ t.get d, follows s p
  asserts rows d d' := ∃ new, t.Inserts rows d d' new

/-- A transaction under way: `done` are the rows it came to, `new` those that it puts in. -/
structure Pending (t : LogTable D K R) (done new : List R) (L : List (K × LockMode)) (w : D → D)
    (d : D) : Prop where
  get : ∀ x, t.get (w x) = t.get x ++ new
  locks : ∀ p ∈ new, ∀ k ∈ t.unique p, (k, LockMode.update) ∈ L
  free : ∀ p ∈ new, t.free p d = true
  apart : new.Pairwise fun r r' => ¬ t.Clash r r'
  sub : new.Sublist done
  taken : ∀ p ∈ done, ¬ t.free p (w d) = true

variable {done new rows : List R} {L : List (K × LockMode)} {w : D → D}

/-- A transaction that has not begun. -/
theorem Pending.start (t : LogTable D K R) (d : D) : t.Pending [] [] [] id d where
  get _ := (List.append_nil _).symm
  locks := nofun
  free := nofun
  apart := List.Pairwise.nil
  sub := List.Sublist.refl _
  taken := nofun

/-- What a transaction found stays so while the others move. -/
theorem Pending.rely (h : t.Pending done new L w d)
    (hr : (t.logSpec follows : Spec D K (List R) E).Rely L d d') : t.Pending done new L w d' where
  get := h.get
  locks := h.locks
  free p hp := by
    rw [free_iff]
    rintro s hs ⟨k, hks, hkp⟩
    obtain ⟨s', hs', hk'⟩ := hr.keeps (k, .update) (h.locks p hp k hkp) s hs hks
    exact free_iff.mp (h.free p hp) s' hs' ⟨k, hk', hkp⟩
  apart := h.apart
  sub := h.sub
  taken p hp := by
    apply not_free_mono (h.taken p hp)
    intro s hs
    rw [h.get] at hs ⊢
    rcases List.mem_append.mp hs with hs | hs
    · exact List.mem_append_left _ (Extends.mem hr.guar hs)
    · exact List.mem_append_right _ hs

/-- A row that is taken. -/
theorem Pending.skip (h : t.Pending done new L w d) {row : R}
    (hrow : ¬ t.free row (w d) = true) : t.Pending (done ++ [row]) new L w d where
  get := h.get
  locks := h.locks
  free := h.free
  apart := h.apart
  sub := h.sub.trans (List.sublist_append_left _ _)
  taken p hp := by
    rcases List.mem_append.mp hp with hp | hp
    · exact h.taken p hp
    · rw [List.mem_singleton.mp hp]
      exact hrow

/-- A row that goes in. -/
theorem Pending.put (h : t.Pending done new L w d) {row : R} {L' : List (K × LockMode)}
    (hrow : t.free row (w d) = true) (hL : ∀ k ∈ t.unique row, (k, LockMode.update) ∈ L') :
    t.Pending (done ++ [row]) (new ++ [row]) (L ++ L') (t.push row ∘ w) d := by
  have hget : ∀ x, t.get ((t.push row ∘ w) x) = t.get x ++ (new ++ [row]) := by
    intro x
    rw [Function.comp_apply, Table.push, t.get_set, h.get, List.append_assoc]
  have hfree := free_iff.mp hrow
  rw [h.get] at hfree
  constructor
  · exact hget
  · intro p hp k hk
    rcases List.mem_append.mp hp with hp | hp
    · exact List.mem_append_left _ (h.locks p hp k hk)
    · rw [List.mem_singleton.mp hp] at hk
      exact List.mem_append_right _ (hL k hk)
  · intro p hp
    rcases List.mem_append.mp hp with hp | hp
    · exact h.free p hp
    · rw [List.mem_singleton.mp hp, free_iff]
      exact fun s hs => hfree s (List.mem_append_left _ hs)
  · rw [List.pairwise_append]
    refine ⟨h.apart, List.pairwise_singleton _ _, fun p hp q hq => ?_⟩
    rw [List.mem_singleton.mp hq]
    exact hfree p (List.mem_append_right _ hp)
  · exact h.sub.append (List.Sublist.refl _)
  · intro p hp
    rcases List.mem_append.mp hp with hp | hp
    · apply not_free_mono (h.taken p hp)
      intro s hs
      rw [hget]
      rw [h.get] at hs
      rw [← List.append_assoc]
      exact List.mem_append_left _ hs
    · rw [List.mem_singleton.mp hp]
      apply not_free_of_mem
      rw [hget]
      exact List.mem_append_right _ (List.mem_append_right _ List.mem_cons_self)

/-- The commit of a transaction that came to all its rows. -/
theorem Pending.owes (h : t.Pending rows new L w d) (hinv : t.Unique d)
    (hallow : ∀ p ∈ rows, t.free p d = true → ∀ s ∈ t.get d, follows s p) :
    (t.logSpec follows : Spec D K (List R) E).Owes L rows d (w d) where
  asserts := ⟨new, h.get d, h.sub, h.free, h.taken⟩
  inv := by
    change t.Unique (w d)
    rw [Unique, h.get, List.pairwise_append]
    exact ⟨hinv, h.apart, fun s hs p hp => free_iff.mp (h.free p hp) s hs⟩
  guar := ⟨new, h.get d, fun p hp => hallow p (h.sub.subset hp) (h.free p hp)⟩
  frame k m hcompat r hr hk := by
    rw [h.get] at hr
    rcases List.mem_append.mp hr with hr | hr
    · exact ⟨r, hr, hk⟩
    · have hconflict := hcompat (k, .update) (h.locks r hr k hk) rfl
      rw [LockMode.compatible_comm, LockMode.compatible_update] at hconflict
      cases hconflict

variable {O : Type} {Q : O → List (K × LockMode) → (D → D) → D → Prop}
  {refs : R → List (Ref D K)} {next : Prog D K (List R) E O}

/-- Rule for a transaction that inserts rows: afterwards all of them are taken. -/
theorem wp_insertAll_commit {rest : List R} (h : t.Pending done new L w d)
    (hinv : t.Unique d) (hrows : done ++ rest = rows)
    (hnext : ∀ d', t.Unique d' → (∀ p ∈ rows, ¬ t.free p d' = true) →
      (t.logSpec follows : Spec D K (List R) E).wp Q next [] id d') :
    (t.logSpec follows).wp Q (t.insertAll refs rest >>= fun _ => .commit rows next) L w d := by
  induction rest generalizing done new L w d with
  | nil =>
    rw [List.append_nil] at hrows
    subst hrows
    intro d' hr hallow
    have howes := (h.rely hr).owes (E := E) hr.inv hallow
    exact ⟨howes, hnext _ howes.inv (h.rely hr).taken⟩
  | cons row rest ih =>
    have hrows' : (done ++ [row]) ++ rest = rows := by
      rw [← hrows, List.append_assoc, List.singleton_append]
    intro s hs n hn
    have hpending := (h.rely hs).rely hn
    dsimp only
    by_cases hfree : t.free row (w n) = true
    · simp only [hfree, if_true]
      split
      · have hlocks : ∀ k ∈ t.unique row, (k, LockMode.update) ∈
            (t.unique row).map (·, LockMode.update) ++
              (refs row).map fun ref => (ref.row, LockMode.keyShare) :=
          fun k hk => List.mem_append_left _ (List.mem_map_of_mem hk)
        exact ih (hpending.put hfree hlocks) hn.inv hrows'
      · exact fun _ _ => nofun
    · simp only [hfree, Bool.false_eq_true, if_false, List.append_nil]
      exact ih (hpending.skip hfree) hn.inv hrows'

end LogTable

end ReadCommitted
