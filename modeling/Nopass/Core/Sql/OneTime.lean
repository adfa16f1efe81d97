import Nopass.Core.Sql.Table

/-!
# Rows that are consumed once

The rows may lie in several tables. A program handles them with care when each of its
statements locks for update what it removes and adds acceptable rows only. Under any
schedule of such programs a row that one of them deletes and returns was there until
its commit and is gone after it.
-/

namespace ReadCommitted

variable {D K T E O O' R R' : Type}

/-- Some of the rows of a database, and how locks name them. -/
structure Collection (D K R : Type) where
  /-- The database has the row. -/
  has : D → R → Prop
  /-- The primary key as a lock name. -/
  key : R → K

namespace Collection

/-- A change that removes only rows that are locked for update and adds only acceptable rows. -/
def Careful (c : Collection D K R) (ok : R → Prop) (L : List (K × LockMode)) (w : D → D) : Prop :=
  ∀ d r, (c.has d r → c.has (w d) r ∨ (c.key r, LockMode.update) ∈ L) ∧
    (c.has (w d) r → c.has d r ∨ ok r)

variable {c : Collection D K R} {ok : R → Prop} {L L' : List (K × LockMode)} {w w' : D → D}

/-- Changing nothing is careful. -/
theorem careful_id : c.Careful ok L id :=
  fun _ _ => ⟨Or.inl, Or.inl⟩

/-- What does not concern the rows is careful. -/
theorem careful_of_iff (h : ∀ d r, c.has (w d) r ↔ c.has d r) : c.Careful ok L w :=
  fun d r => ⟨fun hr => .inl ((h d r).mpr hr), fun hr => .inl ((h d r).mp hr)⟩

/-- Careful changes one after the other. -/
theorem Careful.comp (h : c.Careful ok L w) (h' : c.Careful ok L' w') :
    c.Careful ok (L ++ L') (w' ∘ w) := by
  intro d r
  obtain ⟨hkept, hnew⟩ := h d r
  obtain ⟨hkept', hnew'⟩ := h' (w d) r
  constructor
  · intro hr
    rcases hkept hr with hr | hl
    · exact (hkept' hr).imp id (List.mem_append_right _)
    · exact .inr (List.mem_append_left _ hl)
  · intro hr
    exact (hnew' hr).elim hnew .inr

end Collection

namespace Prog

variable (c : Collection D K R) (ok : R → Prop) (consumes : T → Option R)

/-- A program whose statements are careful and whose commits consume nothing. -/
def Handles : Prog D K T E O → Prop
  | .ret _ => True
  | .error _ => True
  | .select next => ∀ d, (next d).Handles
  | .stmt locks write next =>
      ∀ s n, c.Careful ok (locks s n) (write s n) ∧ (next s n).Handles
  | .commit tag next => consumes tag = none ∧ next.Handles
  | .rollback next => next.Handles

variable {c ok consumes}

/-- Programs one after the other. -/
theorem Handles.bind {prog : Prog D K T E O} {f : O → Prog D K T E O'}
    (h : prog.Handles c ok consumes) (hf : ∀ out, (f out).Handles c ok consumes) :
    (prog >>= f).Handles c ok consumes := by
  induction prog with
  | ret out => exact hf out
  | error e => trivial
  | select next ih => exact fun d => ih d (h d)
  | stmt locks write next ih => exact fun s n => ⟨(h s n).1, ih s n (h s n).2⟩
  | commit tag next ih => exact ⟨h.1, ih h.2⟩
  | rollback next ih => exact ih h

/-- Reads handle every row with care. -/
theorem Reads.handles {prog : Prog D K T E O} (h : prog.Reads) : prog.Handles c ok consumes := by
  induction prog with
  | ret out => trivial
  | error e => trivial
  | select next ih => exact fun d => ih d (h d)
  | stmt locks write next => exact h.elim
  | commit tag next => exact h.elim
  | rollback next => exact h.elim

/-- A statement on its own. -/
theorem Handles.autocommit {prog : Prog D K T E O} {tag : O → T}
    (h : prog.Handles c ok consumes) (ht : ∀ out, consumes (tag out) = none) :
    (ReadCommitted.autocommit prog tag).Handles c ok consumes :=
  h.bind fun out => ⟨ht out, trivial⟩

/-- A check before a program. -/
theorem Handles.ite {cond : Prop} [Decidable cond] {prog prog' : Prog D K T E O}
    (h : prog.Handles c ok consumes) (h' : prog'.Handles c ok consumes) :
    (if cond then prog else prog').Handles c ok consumes := by
  split
  · exact h
  · exact h'

/-- Commits that consume nothing say so. -/
theorem Handles.labels {prog : Prog D K T E O} (h : prog.Handles c ok consumes) :
    prog.Labels fun tag => consumes tag = none := by
  induction prog with
  | ret out => trivial
  | error e => trivial
  | select next ih => exact fun d => ih d (h d)
  | stmt locks write next ih => exact fun s n => ih s n (h s n).2
  | commit tag next ih => exact ⟨h.1, ih h.2⟩
  | rollback next ih => exact ih h

end Prog

/-- Rows stay for the holder of their lock; a commit that consumes a row found it, acceptable as it
is, and leaves no row under its key. -/
def oneTimeSpec (c : Collection D K R) (ok : R → Prop) (consumes : T → Option R) :
    Spec D K T E where
  inv d := ∀ r, c.has d r → ok r
  guar _ _ := True
  guar_refl _ := trivial
  guar_trans _ _ := trivial
  keeps k m d d' := m = .update → ∀ r, c.key r = k → c.has d r → c.has d' r
  keeps_refl _ _ _ _ _ _ h := h
  keeps_trans h h' hm r hk hr := h' hm r hk (h hm r hk hr)
  allow _ _ := True
  asserts tag d d' := ∀ r ∈ consumes tag, ok r ∧ c.has d r ∧
    ∀ r', c.has d' r' → c.key r' ≠ c.key r

section Wp

variable {c : Collection D K R} {ok : R → Prop} {consumes : T → Option R}
  {L : List (K × LockMode)} {w : D → D} {d : D}

/-- What a careful transaction owes at its commit, but for the label's promise. -/
theorem owes_of_careful {tag : T} (hi : ∀ r, c.has d r → ok r) (hw : c.Careful ok L w)
    (ht : ∀ r ∈ consumes tag, c.has d r ∧ ∀ r', c.has (w d) r' → c.key r' ≠ c.key r) :
    (oneTimeSpec c ok consumes : Spec D K T E).Owes L tag d (w d) := by
  refine ⟨fun r hr => ⟨hi r (ht r hr).1, ht r hr⟩, fun r hr => ((hw d r).2 hr).elim (hi r) id,
    trivial, ?_⟩
  rintro _ _ hcompat rfl r rfl hr
  refine ((hw d r).1 hr).resolve_right fun hl => ?_
  simpa using hcompat _ hl rfl

/-- Handling rows with care keeps the specification. -/
theorem Prog.Handles.wp {prog : Prog D K T E O} (h : prog.Handles c ok consumes)
    (hw : c.Careful ok L w) :
    (oneTimeSpec c ok consumes).wp (fun _ _ _ _ => True) prog L w d := by
  induction prog generalizing L w d with
  | ret out => exact fun _ _ => trivial
  | error e => exact fun _ _ => nofun
  | select next ih => exact fun d₁ _ => ih _ (h _) hw
  | stmt locks write next ih => exact fun s _ n _ => ih _ _ (h _ _).2 (hw.comp (h _ _).1)
  | commit tag next ih =>
    intro d₁ h₁ _
    refine ⟨owes_of_careful h₁.inv hw ?_, ih h.2 Collection.careful_id⟩
    rw [h.1]
    exact nofun
  | rollback next ih => exact fun d₁ _ => ih h Collection.careful_id

/-- Consuming a row in a statement of its own, and going on with care. -/
theorem wp_consume_bind {locks : D → D → List (K × LockMode)} {write : D → D → D → D}
    {out : D → D → O} {tag : O → T} {f : O → Prog D K T E O'}
    (hw : ∀ s n, c.Careful ok (locks s n) (write s n))
    (ht : ∀ s n, ∀ r ∈ consumes (tag (out s n)), c.has n r ∧ (c.key r, LockMode.update) ∈ locks s n ∧
      ∀ x r', c.has (write s n x) r' → c.key r' ≠ c.key r)
    (hf : ∀ out, (f out).Handles c ok consumes) :
    (oneTimeSpec c ok consumes).wp (fun _ _ _ _ => True)
      (autocommit (.stmt locks write fun s n => .ret (out s n)) tag >>= f) [] id d := by
  intro s hs n hn d₁ h₁ _
  refine ⟨owes_of_careful h₁.inv (hw s n) fun r hr => ?_, (hf _).wp Collection.careful_id⟩
  obtain ⟨hhas, hlock, hgone⟩ := ht s n r hr
  exact ⟨h₁.keeps _ hlock rfl r rfl hhas, hgone d₁⟩

end Wp

namespace Table

variable [DecidableEq K] {c : Collection D K R} {ok : R → Prop} {consumes : T → Option R}
  {t : Table D K R'}

/-- None of the rows lie in the table. -/
def Outside (t : Table D K R') (c : Collection D K R) : Prop :=
  ∀ rows d r, c.has (t.set rows d) r ↔ c.has d r

/-- The rows of the table are among the rows, as `f` says. -/
structure Inside (t : Table D K R') (c : Collection D K R) (f : R' → R) : Prop where
  /-- Locks name a row the same way. -/
  key : ∀ row, c.key (f row) = t.key row
  /-- Locks tell the rows of the table from others. -/
  of_key : ∀ r row, c.key r = t.key row → ∃ row', f row' = r
  /-- The rows of the table are there, and the table holds no others. -/
  has_set : ∀ rows d r, c.has (t.set rows d) r ↔
    (∃ row ∈ rows, f row = r) ∨ (c.has d r ∧ ∀ row, f row ≠ r)

omit [DecidableEq K] in
/-- The rows that are there are those of the table and those elsewhere. -/
theorem Inside.has_iff {f : R' → R} (h : t.Inside c f) (d : D) (r : R) :
    c.has d r ↔ (∃ row ∈ t.get d, f row = r) ∨ (c.has d r ∧ ∀ row, f row ≠ r) := by
  have hset := h.has_set (t.get d) d r
  rwa [t.set_get] at hset

/-- A locking read takes nothing away. -/
theorem handles_selectFor (m : LockMode) (cond : D → R' → Bool) :
    (t.selectFor m cond : Prog D K T E (List R')).Handles c ok consumes :=
  fun _ _ => ⟨Collection.careful_id, trivial⟩

/-- An update of another table. -/
theorem Outside.handles_update (h : t.Outside c) (cond : D → R' → Bool) (f : R' → R')
    (refs : R' → List (Ref D K)) :
    (t.update cond f refs : Prog D K T E (List R')).Handles c ok consumes := by
  refine fun s n => ⟨Collection.careful_of_iff fun d r => h _ _ _, ?_⟩
  dsimp only
  split
  · trivial
  · trivial

/-- A deletion in another table. -/
theorem Outside.handles_delete (h : t.Outside c) (cond : D → R' → Bool) :
    (t.delete cond : Prog D K T E (List R')).Handles c ok consumes :=
  fun _ _ => ⟨Collection.careful_of_iff fun _ _ => h _ _ _, trivial⟩

/-- An insertion into another table. -/
theorem Outside.handles_insert (h : t.Outside c) (row : R') (refs : List (Ref D K)) :
    (t.insert row refs : Prog D K T E Unit).Handles c ok consumes := by
  refine fun s n => ⟨Collection.careful_of_iff fun d r => h _ _ _, ?_⟩
  dsimp only
  split
  · split
    · trivial
    · trivial
  · trivial

/-- The deletion of rows in a statement locks them. -/
theorem Inside.careful_drop {f : R' → R} (h : t.Inside c f) (cond : D → R' → Bool) (s n : D) :
    c.Careful ok (t.locked cond .update s n) (t.drop ((t.hits cond s n).map t.key)) := by
  intro d r
  constructor
  · intro hr
    rcases (h.has_iff d r).mp hr with ⟨row, hrow, rfl⟩ | hout
    · by_cases hk : t.key row ∈ (t.hits cond s n).map t.key
      · obtain ⟨hit, hhit, hkey⟩ := List.mem_map.mp hk
        right
        rw [h.key, ← hkey]
        exact t.locked_of_mem_hits hhit .update
      · left
        refine (h.has_set _ _ _).mpr (.inl ⟨row, ?_, rfl⟩)
        rw [List.mem_filter, decide_eq_true_eq]
        exact ⟨hrow, hk⟩
    · exact .inl ((h.has_set _ _ _).mpr (.inr hout))
  · intro hr
    left
    rcases (h.has_set _ _ _).mp hr with ⟨row, hrow, rfl⟩ | hout
    · exact (h.has_iff d _).mpr (.inl ⟨row, (List.mem_filter.mp hrow).1, rfl⟩)
    · exact hout.1

/-- A deletion. -/
theorem Inside.handles_delete {f : R' → R} (h : t.Inside c f) (cond : D → R' → Bool) :
    (t.delete cond : Prog D K T E (List R')).Handles c ok consumes :=
  fun s n => ⟨h.careful_drop cond s n, trivial⟩

/-- The insertion of an acceptable row. -/
theorem Inside.handles_insert {f : R' → R} (h : t.Inside c f) {row : R'} (hok : ok (f row))
    (refs : List (Ref D K)) :
    (t.insert row refs : Prog D K T E Unit).Handles c ok consumes := by
  refine fun s n => ⟨fun d r => ⟨fun hr => .inl ((h.has_set _ _ _).mpr ?_), fun hr => ?_⟩, ?_⟩
  · exact ((h.has_iff d r).mp hr).imp_left fun ⟨row', hrow', he⟩ =>
      ⟨row', List.mem_append_left _ hrow', he⟩
  · rcases (h.has_set _ _ _).mp hr with ⟨row', hrow', rfl⟩ | hout
    · rcases List.mem_append.mp hrow' with hrow' | hrow'
      · exact .inl ((h.has_iff d _).mpr (.inl ⟨row', hrow', rfl⟩))
      · rw [List.mem_singleton.mp hrow']
        exact .inr hok
    · exact .inl hout.1
  · dsimp only
    split
    · split
      · trivial
      · trivial
    · trivial

/-- A deletion found the rows that it returns, locks them and leaves none under their keys. -/
theorem Inside.consumed {f : R' → R} (h : t.Inside c f) {cond : D → R' → Bool} {s n : D} {row : R'}
    (hrow : row ∈ t.hits cond s n) : c.has n (f row) ∧
      (c.key (f row), LockMode.update) ∈ t.locked cond .update s n ∧
      ∀ x r', c.has (t.drop ((t.hits cond s n).map t.key) x) r' → c.key r' ≠ c.key (f row) := by
  rw [h.key]
  refine ⟨(h.has_iff n _).mpr (.inl ⟨row, ((t.mem_hits).mp hrow).1, rfl⟩),
    t.locked_of_mem_hits hrow .update, fun x r' hr' hk => ?_⟩
  rcases (h.has_set _ _ _).mp hr' with ⟨row', hrow', rfl⟩ | ⟨-, hout⟩
  · rw [h.key] at hk
    rw [List.mem_filter, decide_eq_true_eq, hk] at hrow'
    exact hrow'.2 (List.mem_map_of_mem hrow)
  · obtain ⟨row', hr'⟩ := h.of_key r' row hk
    exact hout row' hr'

end Table

end ReadCommitted
