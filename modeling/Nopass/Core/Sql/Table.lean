import Nopass.Core.Sql.Interference

/-!
# Statements on tables

A table is a list of rows inside the database. A statement that changes rows
finds its candidates in its snapshot, waits for their locks and tests its
condition again on their newest versions, with sub-selects still read from the
snapshot. Foreign keys take key-share locks on the rows they name.
-/

namespace ReadCommitted

variable {D K T E R C : Type}

/-- Where a table lives in the database, and how locks name its rows. -/
structure Table (D K R : Type) where
  /-- The rows in their stored order. -/
  get : D → List R
  /-- Replace the rows. -/
  set : List R → D → D
  /-- The primary key as a lock name. -/
  key : R → K
  /-- The `CHECK` constraints on a row. -/
  check : R → Bool := fun _ => true
  /-- Replaced rows are the ones read back. -/
  get_set : ∀ rows d, get (set rows d) = rows := by intros; rfl
  /-- The last replacement stays. -/
  set_set : ∀ rows rows' d, set rows (set rows' d) = set rows d := by intros; rfl
  /-- Replacing the rows by themselves changes nothing. -/
  set_get : ∀ d, set (get d) d = d := by intros; rfl

/-- A foreign key value: the row it names and whether that row exists. -/
structure Ref (D K : Type) where
  /-- The referenced row. -/
  row : K
  /-- The row is present. -/
  live : D → Bool

/-- The rows with a property that one row has at most, and with another one. -/
theorem filter_unique {rows : List R} {p c : R → Bool} (hnodup : rows.Nodup)
    (hp : ∀ a ∈ rows, ∀ b ∈ rows, p a = true → p b = true → a = b) :
    rows.filter (fun r => p r && c r) = ((rows.find? p).filter c).toList := by
  induction rows with
  | nil => rfl
  | cons a rest ih =>
    obtain ⟨hnew, hnodup⟩ := List.nodup_cons.mp hnodup
    by_cases ha : p a = true
    · have hrest : rest.filter (fun r => p r && c r) = [] := by
        rw [List.filter_eq_nil_iff]
        intro b hb hpb
        have hab : a = b := hp a List.mem_cons_self b (List.mem_cons_of_mem a hb) ha
          (Bool.and_eq_true_iff.mp hpb).1
        exact hnew (hab ▸ hb)
      rw [List.filter_cons, List.find?_cons_of_pos ha, hrest, ha, Bool.true_and,
        Option.filter_some]
      split
      · rfl
      · rfl
    · rw [List.filter_cons, List.find?_cons_of_neg ha, if_neg (by simp [ha])]
      exact ih hnodup fun x hx y hy => hp x (List.mem_cons_of_mem a hx) y (List.mem_cons_of_mem a hy)

/-- The first row with a property that one row has at most is the row that has it. -/
theorem head?_filter_iff {rows : List R} {p : R → Bool}
    (hp : ∀ a ∈ rows, ∀ b ∈ rows, p a = true → p b = true → a = b) {r : R} :
    (rows.filter p).head? = some r ↔ r ∈ rows ∧ p r = true := by
  rw [List.head?_filter]
  constructor
  · intro h
    exact ⟨List.mem_of_find?_eq_some h, List.find?_some h⟩
  · rintro ⟨hr, hpr⟩
    cases hfind : rows.find? p with
    | none => exact (List.find?_eq_none.mp hfind r hr hpr).elim
    | some r' => rw [hp r' (List.mem_of_find?_eq_some hfind) r hr (List.find?_some hfind) hpr]

namespace Table

variable [DecidableEq K]

/-- Change the rows with the given keys. -/
def edit (t : Table D K R) (keys : List K) (f : R → R) (d : D) : D :=
  t.set ((t.get d).map fun r => if t.key r ∈ keys then f r else r) d

/-- Remove the rows with the given keys. -/
def drop (t : Table D K R) (keys : List K) (d : D) : D :=
  t.set ((t.get d).filter fun r => t.key r ∉ keys) d

/-- Append a row. -/
def push (t : Table D K R) (row : R) (d : D) : D :=
  t.set (t.get d ++ [row]) d

/-- Changing no rows. -/
theorem edit_nil (t : Table D K R) (f : R → R) (d : D) : t.edit [] f d = d := by
  simp [edit, t.set_get]

/-- Rows after a change come from rows before it. -/
theorem mem_edit (t : Table D K R) {keys : List K} {f : R → R} {d : D} {r : R} :
    r ∈ t.get (t.edit keys f d) ↔
      ∃ r₀ ∈ t.get d, (if t.key r₀ ∈ keys then f r₀ else r₀) = r := by
  rw [edit, t.get_set, List.mem_map]

/-- A change that keeps keys leaves the list of keys. -/
theorem map_key_edit (t : Table D K R) {keys : List K} {f : R → R} {d : D}
    (hf : ∀ r, t.key (f r) = t.key r) :
    (t.get (t.edit keys f d)).map t.key = (t.get d).map t.key := by
  rw [edit, t.get_set, List.map_map]
  apply List.map_congr_left
  intro r _
  rw [Function.comp_apply]
  split
  · exact hf r
  · rfl

/-- Looking a row up by what a change keeps finds the changed row. -/
theorem find?_edit (t : Table D K R) {p : R → Bool} {keys : List K} {f : R → R} {d : D}
    (hf : ∀ r, p (f r) = p r) : (t.get (t.edit keys f d)).find? p =
      ((t.get d).find? p).map fun r => if t.key r ∈ keys then f r else r := by
  rw [edit, t.get_set, List.find?_map]
  congr 1
  apply congrArg (List.find? · _)
  funext r
  rw [Function.comp_apply]
  split
  · exact hf r
  · rfl

/-- Rows after a removal are the others. -/
theorem mem_drop (t : Table D K R) {keys : List K} {d : D} {r : R} :
    r ∈ t.get (t.drop keys d) ↔ r ∈ t.get d ∧ t.key r ∉ keys := by
  rw [drop, t.get_set, List.mem_filter, decide_eq_true_eq]

omit [DecidableEq K] in
/-- Rows after an insertion are the old ones and the new one. -/
theorem mem_push (t : Table D K R) {row : R} {d : D} {r : R} :
    r ∈ t.get (t.push row d) ↔ r ∈ t.get d ∨ r = row := by
  rw [push, t.get_set, List.mem_append, List.mem_singleton]

/-- The keys of the rows that satisfy the condition in the snapshot `s`. -/
def candidates (t : Table D K R) (cond : D → R → Bool) (s : D) : List K :=
  ((t.get s).filter (cond s)).map t.key

/-- The newest versions `n` of the candidates. -/
def reread (t : Table D K R) (cond : D → R → Bool) (s n : D) : List R :=
  (t.get n).filter fun r => t.key r ∈ t.candidates cond s

/-- The candidates whose newest version still satisfies the condition. -/
def hits (t : Table D K R) (cond : D → R → Bool) (s n : D) : List R :=
  (t.reread cond s n).filter (cond s)

/-- The locks taken on the candidates. -/
def locked (t : Table D K R) (cond : D → R → Bool) (m : LockMode) (s n : D) :
    List (K × LockMode) :=
  (t.reread cond s n).map fun r => (t.key r, m)

/-- Hits are rows of the newest table that satisfied the condition in the snapshot too. -/
theorem mem_hits (t : Table D K R) {cond : D → R → Bool} {s n : D} {r : R} :
    r ∈ t.hits cond s n ↔
      r ∈ t.get n ∧ (∃ r₀ ∈ t.get s, cond s r₀ = true ∧ t.key r₀ = t.key r) ∧ cond s r = true := by
  simp only [hits, reread, candidates, List.mem_filter, List.mem_map, decide_eq_true_eq,
    and_assoc]

/-- Every hit is locked. -/
theorem locked_of_mem_hits (t : Table D K R) {cond : D → R → Bool} {s n : D} {r : R}
    (h : r ∈ t.hits cond s n) (m : LockMode) : (t.key r, m) ∈ t.locked cond m s n :=
  List.mem_map.mpr ⟨r, (List.mem_filter.mp h).1, rfl⟩

/-- With nothing in between, the hits are the rows that satisfy the condition. -/
theorem mem_hits_self (t : Table D K R) {cond : D → R → Bool} {d : D} {r : R} :
    r ∈ t.hits cond d d ↔ r ∈ t.get d ∧ cond d r = true := by
  rw [mem_hits]
  exact ⟨fun h => ⟨h.1, h.2.2⟩, fun h => ⟨h.1, ⟨r, h.1, h.2, rfl⟩, h.2⟩⟩

/-- `SELECT … WHERE cond` without locks. -/
def select (t : Table D K R) (cond : D → R → Bool) : Prog D K T E (List R) :=
  .select fun d => .ret ((t.get d).filter (cond d))

omit [DecidableEq K] in
/-- A plain `SELECT` only reads. -/
@[simp] theorem reads_select {t : Table D K R} {cond : D → R → Bool} :
    (t.select cond : Prog D K T E (List R)).Reads := fun _ => trivial

/-- `SELECT … WHERE cond FOR …`. -/
def selectFor (t : Table D K R) (m : LockMode) (cond : D → R → Bool) : Prog D K T E (List R) :=
  .stmt (t.locked cond m) (fun _ _ d => d) fun s n => .ret (t.hits cond s n)

/-- `UPDATE … SET … WHERE cond RETURNING *`, with the rows before the change. The foreign keys
that the change gives a row are checked and locked. -/
def update (t : Table D K R) (cond : D → R → Bool) (f : R → R)
    (refs : R → List (Ref D K) := fun _ => []) : Prog D K T E (List R) :=
  .stmt
    (fun s n => t.locked cond .noKeyUpdate s n ++
      ((t.hits cond s n).flatMap refs).map fun ref => (ref.row, .keyShare))
    (fun s n => t.edit ((t.hits cond s n).map t.key) f)
    fun s n =>
      if (t.hits cond s n).all (fun r => t.check (f r)) &&
          ((t.hits cond s n).flatMap refs).all (·.live n) then .ret (t.hits cond s n)
      else .rollback (.error none)

/-- `DELETE … WHERE cond`, with the removed rows. -/
def delete (t : Table D K R) (cond : D → R → Bool) : Prog D K T E (List R) :=
  .stmt (t.locked cond .update) (fun s n => t.drop ((t.hits cond s n).map t.key))
    fun s n => .ret (t.hits cond s n)

/-- The newest rows of a child table that name a deleted row. -/
def orphans (t : Table D K R) (child : Table D K C) (refers : R → C → Bool)
    (cond : D → R → Bool) (s n : D) : List C :=
  (child.get n).filter fun c => (t.hits cond s n).any fun r => refers r c

/-- `DELETE … WHERE cond` on a table that a child references with `ON DELETE CASCADE`: the
guards were read in the snapshot, the cascade sees the newest child rows. -/
def deleteCascade (t : Table D K R) (child : Table D K C) (refers : R → C → Bool)
    (cond : D → R → Bool) : Prog D K T E (List R) :=
  .stmt
    (fun s n => t.locked cond .update s n ++
      (t.orphans child refers cond s n).map fun c => (child.key c, .update))
    (fun s n d => child.drop ((t.orphans child refers cond s n).map child.key)
      (t.drop ((t.hits cond s n).map t.key) d))
    fun s n => .ret (t.hits cond s n)

/-- No row has the key of `row` yet. -/
def vacant (t : Table D K R) (row : R) (n : D) : Bool :=
  (t.get n).all fun r => t.key r ≠ t.key row

/-- `INSERT … VALUES row`; `onTaken` answers a primary key that is in use. -/
def insert (t : Table D K R) (row : R) (refs : List (Ref D K) := [])
    (onTaken : Prog D K T E Unit := .error none) : Prog D K T E Unit :=
  .stmt
    (fun _ n => if t.vacant row n then
        (t.key row, .update) :: refs.map fun ref => (ref.row, .keyShare) else [])
    (fun _ _ => t.push row)
    fun _ n =>
      if t.vacant row n then
        if t.check row && refs.all (·.live n) then .ret () else .rollback (.error none)
      else .rollback onTaken

/-- `INSERT … VALUES row ON CONFLICT DO NOTHING`: whether the row went in. -/
def insertOrIgnore (t : Table D K R) (row : R) (refs : List (Ref D K) := []) :
    Prog D K T E Bool :=
  .stmt
    (fun _ n => if t.vacant row n then
        (t.key row, .update) :: refs.map fun ref => (ref.row, .keyShare) else [])
    (fun _ n d => if t.vacant row n then t.push row d else d)
    fun _ n =>
      if t.vacant row n then
        if t.check row && refs.all (·.live n) then .ret true else .rollback (.error none)
      else .ret false

section Wp

variable {O : Type} {S : Spec D K T E} {Q : O → List (K × LockMode) → (D → D) → D → Prop}
  {L : List (K × LockMode)} {w : D → D} {d : D} {t : Table D K R} {cond : D → R → Bool}

omit [DecidableEq K] in
/-- Rule for a plain read. -/
theorem wp_select_bind {k : List R → Prog D K T E O}
    (h : ∀ d', S.Rely L d d' → S.wp Q (k ((t.get (w d')).filter (cond (w d')))) L w d') :
    S.wp Q (t.select cond >>= k) L w d :=
  h

/-- Rule for a locking read. -/
theorem wp_selectFor_bind {m : LockMode} {k : List R → Prog D K T E O}
    (h : ∀ s, S.Rely L d s → ∀ n, S.Rely L s n →
      S.wp Q (k (t.hits cond (w s) (w n))) (L ++ t.locked cond m (w s) (w n)) w n) :
    S.wp Q (t.selectFor m cond >>= k) L w d :=
  h

/-- Rule for an update. -/
theorem wp_update_bind {f : R → R} {refs : R → List (Ref D K)} {k : List R → Prog D K T E O}
    (h : ∀ s, S.Rely L d s → ∀ n, S.Rely L s n →
      (∀ r ∈ t.hits cond (w s) (w n), t.check (f r) = true) →
      S.wp Q (k (t.hits cond (w s) (w n)))
        (L ++ (t.locked cond .noKeyUpdate (w s) (w n) ++
          ((t.hits cond (w s) (w n)).flatMap refs).map fun ref => (ref.row, .keyShare)))
        (t.edit ((t.hits cond (w s) (w n)).map t.key) f ∘ w) n) :
    S.wp Q (t.update cond f refs >>= k) L w d := by
  intro s hs n hn
  dsimp only
  split
  · rename_i hc
    rw [Bool.and_eq_true] at hc
    exact h s hs n hn (List.all_eq_true.mp hc.1)
  · exact fun _ _ => nofun

/-- The view does not show the table. -/
def Hidden {V : Type} (t : Table D K R) (view : D → V) : Prop :=
  ∀ rows d, view (t.set rows d) = view d

/-- Locking rows leaves every view. -/
theorem leaves_selectFor {V : Type} {view : D → V} (m : LockMode) :
    Spec.Leaves view (t.selectFor m cond : Prog D K T E (List R)) :=
  fun _ _ => ⟨fun _ => rfl, trivial⟩

/-- An update of a hidden table leaves the view. -/
theorem Hidden.leaves_update {V : Type} {view : D → V} (h : t.Hidden view) (f : R → R)
    (refs : R → List (Ref D K)) :
    Spec.Leaves view (t.update cond f refs : Prog D K T E (List R)) := by
  refine fun s n => ⟨fun x => h _ x, ?_⟩
  dsimp only
  split
  · trivial
  · exact ⟨none, rfl⟩

/-- A deletion in a hidden table leaves the view. -/
theorem Hidden.leaves_delete {V : Type} {view : D → V} (h : t.Hidden view) :
    Spec.Leaves view (t.delete cond : Prog D K T E (List R)) :=
  fun _ _ => ⟨fun x => h _ x, trivial⟩

/-- Rule for a deletion. -/
theorem wp_delete_bind {k : List R → Prog D K T E O}
    (h : ∀ s, S.Rely L d s → ∀ n, S.Rely L s n →
      S.wp Q (k (t.hits cond (w s) (w n))) (L ++ t.locked cond .update (w s) (w n))
        (t.drop ((t.hits cond (w s) (w n)).map t.key) ∘ w) n) :
    S.wp Q (t.delete cond >>= k) L w d :=
  h

/-- Rule for a deletion that cascades. -/
theorem wp_deleteCascade_bind {child : Table D K C} {refers : R → C → Bool}
    {k : List R → Prog D K T E O}
    (h : ∀ s, S.Rely L d s → ∀ n, S.Rely L s n →
      S.wp Q (k (t.hits cond (w s) (w n)))
        (L ++ (t.locked cond .update (w s) (w n) ++
          (t.orphans child refers cond (w s) (w n)).map fun c => (child.key c, .update)))
        ((fun d => child.drop ((t.orphans child refers cond (w s) (w n)).map child.key)
          (t.drop ((t.hits cond (w s) (w n)).map t.key) d)) ∘ w) n) :
    S.wp Q (t.deleteCascade child refers cond >>= k) L w d :=
  h

/-- Rule for an insertion. -/
theorem wp_insert_bind {row : R} {refs : List (Ref D K)} {e : Option E}
    {k : Unit → Prog D K T E O}
    (h : ∀ n, S.Rely L d n → t.vacant row (w n) = true → (∀ ref ∈ refs, ref.live (w n) = true) →
      S.wp Q (k ()) (L ++ ((t.key row, .update) :: refs.map fun ref => (ref.row, .keyShare)))
        (t.push row ∘ w) n)
    (he : ∀ x ∈ e, ¬ S.never x) :
    S.wp Q (t.insert row refs (.error e) >>= k) L w d := by
  intro s hs n hn
  dsimp only
  split
  · rename_i hv
    split
    · rename_i hc
      rw [Bool.and_eq_true] at hc
      exact h n (hs.trans hn) hv (List.all_eq_true.mp hc.2)
    · exact fun _ _ => nofun
  · exact fun _ _ => he

/-- Rule for an insertion that gives way to an existing row. -/
theorem wp_insertOrIgnore_bind {row : R} {refs : List (Ref D K)} {k : Bool → Prog D K T E O}
    (h : ∀ n, S.Rely L d n → t.vacant row (w n) = true → (∀ ref ∈ refs, ref.live (w n) = true) →
      S.wp Q (k true) (L ++ ((t.key row, .update) :: refs.map fun ref => (ref.row, .keyShare)))
        (t.push row ∘ w) n)
    (h' : ∀ n, S.Rely L d n → S.wp Q (k false) L w n) :
    S.wp Q (t.insertOrIgnore row refs >>= k) L w d := by
  intro s hs n hn
  dsimp only
  by_cases hv : t.vacant row (w n) = true
  · simp only [hv, if_true]
    split
    · rename_i hc
      rw [Bool.and_eq_true] at hc
      exact h n (hs.trans hn) hv (List.all_eq_true.mp hc.2)
    · exact fun _ _ => nofun
  · simp only [hv, Bool.false_eq_true, if_false, List.append_nil]
    exact h' n (hs.trans hn)

end Wp

section Alone

variable {O : Type} {w : D → D} {d d' : D} {out : O} {t : Table D K R} {cond : D → R → Bool}

/-- With nothing in between, the hits are the rows that satisfy the condition. -/
theorem hits_self (t : Table D K R) (cond : D → R → Bool) (d : D) :
    t.hits cond d d = (t.get d).filter (cond d) := by
  rw [hits, reread, List.filter_filter]
  refine List.filter_congr fun r hr => ?_
  by_cases hc : cond d r = true
  · have hk : t.key r ∈ t.candidates cond d :=
      List.mem_map.mpr ⟨r, List.mem_filter.mpr ⟨hr, hc⟩, rfl⟩
    rw [hc, decide_eq_true hk, Bool.and_self]
  · rw [Bool.not_eq_true] at hc
    rw [hc, Bool.false_and]

/-- With nothing in between, a locking read finds the rows that satisfy its condition. -/
theorem alone_selectFor_bind (m : LockMode) (k : List R → Prog D K T E O) :
    (t.selectFor m cond >>= k).alone w d = (k ((t.get (w d)).filter (cond (w d)))).alone w d := by
  rw [selectFor, Prog.stmt_bind, Prog.alone, hits_self]
  rfl

/-- With nothing in between, a deletion removes the rows that satisfy its condition. -/
theorem alone_delete_bind (k : List R → Prog D K T E O) :
    (t.delete cond >>= k).alone w d = (k ((t.get (w d)).filter (cond (w d)))).alone
      (t.drop (((t.get (w d)).filter (cond (w d))).map t.key) ∘ w) d := by
  rw [delete, Prog.stmt_bind, Prog.alone, hits_self]
  rfl

/-- When keys are distinct, a row's key is among those that satisfy a condition exactly when the
row does. -/
theorem mem_map_key_filter (t : Table D K R) {rows : List R} (hk : (rows.map t.key).Nodup)
    {c : R → Bool} {r : R} (hr : r ∈ rows) : t.key r ∈ (rows.filter c).map t.key ↔ c r = true := by
  constructor
  · intro hmem
    obtain ⟨r', hr', hkey⟩ := List.mem_map.mp hmem
    obtain ⟨hr', hc⟩ := List.mem_filter.mp hr'
    rwa [List.inj_on_of_nodup_map hk hr' hr hkey] at hc
  · intro hc
    exact List.mem_map_of_mem (List.mem_filter.mpr ⟨hr, hc⟩)

/-- When keys are distinct, changing the rows that satisfy a condition changes no others. -/
theorem get_edit_filter (t : Table D K R) {c : R → Bool} {d : D} (f : R → R)
    (hk : ((t.get d).map t.key).Nodup) :
    t.get (t.edit (((t.get d).filter c).map t.key) f d) =
      (t.get d).map fun r => if c r then f r else r := by
  rw [edit, t.get_set]
  apply List.map_congr_left
  intro r hr
  simp only [t.mem_map_key_filter hk hr]

/-- When keys are distinct, removing the rows that satisfy a condition removes no others. -/
theorem get_drop_filter (t : Table D K R) {c : R → Bool} {d : D}
    (hk : ((t.get d).map t.key).Nodup) :
    t.get (t.drop (((t.get d).filter c).map t.key) d) = (t.get d).filter fun r => !c r := by
  rw [drop, t.get_set]
  apply List.filter_congr
  intro r hr
  simp only [t.mem_map_key_filter hk hr, Bool.not_eq_true]
  cases c r <;> rfl

/-- When keys are distinct, a change goes by the condition. -/
theorem edit_filter (t : Table D K R) {c : R → Bool} {d : D} (f : R → R)
    (hk : ((t.get d).map t.key).Nodup) :
    t.edit (((t.get d).filter c).map t.key) f d =
      t.set ((t.get d).map fun r => if c r then f r else r) d := by
  rw [← t.get_edit_filter f hk, edit, t.get_set]

/-- When keys are distinct, a removal goes by the condition. -/
theorem drop_filter (t : Table D K R) {c : R → Bool} {d : D} (hk : ((t.get d).map t.key).Nodup) :
    t.drop (((t.get d).filter c).map t.key) d = t.set ((t.get d).filter fun r => !c r) d := by
  rw [← t.get_drop_filter hk, drop, t.get_set]

/-- With nothing in between, an update whose condition goes by the key changes the rows that
satisfy it. -/
theorem get_edit_self (t : Table D K R) {cond : D → R → Bool} {d : D} (f : R → R)
    (hkey : ∀ r r', t.key r = t.key r' → cond d r = cond d r') :
    t.get (t.edit ((t.hits cond d d).map t.key) f d) =
      (t.get d).map fun r => if cond d r then f r else r := by
  rw [edit, t.get_set, hits_self]
  refine List.map_congr_left fun r hr => ?_
  have hmem : t.key r ∈ ((t.get d).filter (cond d)).map t.key ↔ cond d r = true := by
    rw [List.mem_map]
    constructor
    · rintro ⟨r', hr', hk⟩
      rw [← hkey r' r hk]
      exact (List.mem_filter.mp hr').2
    · intro hc
      exact ⟨r, List.mem_filter.mpr ⟨hr, hc⟩, rfl⟩
  simp only [hmem]

/-- An update without foreign keys goes through when its rows keep the checks. -/
theorem alone_update_eq {f : R → R} {k : List R → Prog D K T E O}
    (h : ∀ r ∈ (t.get (w d)).filter (cond (w d)), t.check (f r) = true) :
    (t.update cond f >>= k).alone w d =
      (k ((t.get (w d)).filter (cond (w d)))).alone
        (t.edit (((t.get (w d)).filter (cond (w d))).map t.key) f ∘ w) d := by
  rw [update, Prog.stmt_bind, Prog.alone, hits_self, if_pos, Prog.ret_bind]
  rw [List.all_eq_true.mpr h, Bool.true_and]
  simp

/-- An update of rows that break a check or name a missing row changes nothing. -/
theorem alone_update_error {f : R → R} {refs : R → List (Ref D K)} {k : List R → Prog D K T E O}
    (h : ¬ (((t.get (w d)).filter (cond (w d))).all (fun r => t.check (f r)) &&
      (((t.get (w d)).filter (cond (w d))).flatMap refs).all (·.live (w d))) = true) :
    (t.update cond f refs >>= k).alone w d = (.error none, d) := by
  rw [update, Prog.stmt_bind, Prog.alone, hits_self, if_neg h]
  rfl

/-- A lone update goes through or changes nothing. -/
theorem alone_update_cases (f : R → R) (refs : R → List (Ref D K)) (k : List R → Prog D K T E O) :
    (t.update cond f refs >>= k).alone w d = (.error none, d) ∨
      (t.update cond f refs >>= k).alone w d =
        (k ((t.get (w d)).filter (cond (w d)))).alone
          (t.edit (((t.get (w d)).filter (cond (w d))).map t.key) f ∘ w) d := by
  by_cases h : (((t.get (w d)).filter (cond (w d))).all (fun r => t.check (f r)) &&
      (((t.get (w d)).filter (cond (w d))).flatMap refs).all (·.live (w d))) = true
  · right
    rw [update, Prog.stmt_bind, Prog.alone, hits_self, if_pos h, Prog.ret_bind]
  · left
    exact alone_update_error h

/-- When a lone request goes through an update, and how it goes on. -/
theorem alone_update_iff {f : R → R} {refs : R → List (Ref D K)} {k : List R → Prog D K T E O}
    {x : D} : (t.update cond f refs >>= k).alone (fun _ => x) d = (.ok out, d') ↔
      (∀ r ∈ (t.get x).filter (cond x), t.check (f r) = true ∧ ∀ ref ∈ refs r, ref.live x = true) ∧
        (k ((t.get x).filter (cond x))).alone
          (fun _ => t.edit (((t.get x).filter (cond x)).map t.key) f x) d = (.ok out, d') := by
  have hcond : (((t.get x).filter (cond x)).all (fun r => t.check (f r)) &&
      (((t.get x).filter (cond x)).flatMap refs).all (·.live x)) = true ↔
        ∀ r ∈ (t.get x).filter (cond x), t.check (f r) = true ∧ ∀ ref ∈ refs r, ref.live x = true := by
    simp only [Bool.and_eq_true, List.all_eq_true, List.mem_flatMap, forall_exists_index, and_imp]
    exact ⟨fun h r hr => ⟨h.1 r hr, fun ref href => h.2 ref r hr href⟩,
      fun h => ⟨fun r hr => (h r hr).1, fun ref r hr href => (h r hr).2 ref href⟩⟩
  rw [← hcond, update, Prog.stmt_bind, Prog.alone, hits_self]
  constructor
  · intro h
    split at h
    · rename_i hc
      exact ⟨hc, h⟩
    · cases h
  · rintro ⟨hc, h⟩
    rw [if_pos hc]
    exact h

/-- An update that a lone request went through. -/
theorem alone_update_bind {f : R → R} {refs : R → List (Ref D K)} {k : List R → Prog D K T E O}
    (h : (t.update cond f refs >>= k).alone w d = (.ok out, d')) :
    (∀ r ∈ t.hits cond (w d) (w d), t.check (f r) = true) ∧
      (k (t.hits cond (w d) (w d))).alone
        (t.edit ((t.hits cond (w d) (w d)).map t.key) f ∘ w) d = (.ok out, d') := by
  rw [update, Prog.stmt_bind, Prog.alone] at h
  split at h
  · rename_i hc
    rw [Bool.and_eq_true] at hc
    exact ⟨List.all_eq_true.mp hc.1, h⟩
  · cases h

/-- With nothing in between, a row goes in when its key is free, it keeps the checks and the rows
that it names are there. -/
theorem alone_insert_bind {row : R} {refs : List (Ref D K)} {k : Unit → Prog D K T E O} :
    (t.insert row refs >>= k).alone w d =
      if t.vacant row (w d) ∧ t.check row ∧ refs.all (·.live (w d)) then
        (k ()).alone (t.push row ∘ w) d
      else (.error none, d) := by
  rw [insert, Prog.stmt_bind, Prog.alone]
  by_cases hv : t.vacant row (w d) = true
  · by_cases hc : (t.check row && refs.all (·.live (w d))) = true
    · rw [if_pos hv, if_pos hc, if_pos ⟨hv, by rwa [Bool.and_eq_true] at hc⟩, Prog.ret_bind]
    · have hfail : ¬(t.vacant row (w d) = true ∧ t.check row = true ∧
          refs.all (·.live (w d)) = true) := by
        rw [Bool.and_eq_true] at hc
        exact fun h => hc h.2
      rw [if_pos hv, if_neg hc, if_neg hfail]
      rfl
  · rw [if_neg hv, if_neg fun h => hv h.1]
    rfl

end Alone

end Table

section Commits

variable {O : Type} {t : Table D K R} [DecidableEq K]

/-- A locking read commits nothing. -/
theorem neverCommits_selectFor (m : LockMode) (cond : D → R → Bool) :
    (t.selectFor m cond : Prog D K T E (List R)).NeverCommits := fun _ _ => trivial

/-- An update commits nothing by itself. -/
theorem neverCommits_update (cond : D → R → Bool) (f : R → R) (refs : R → List (Ref D K)) :
    (t.update cond f refs : Prog D K T E (List R)).NeverCommits := by
  intro s n
  dsimp only
  split
  · trivial
  · trivial

/-- A deletion commits nothing by itself. -/
theorem neverCommits_delete (cond : D → R → Bool) :
    (t.delete cond : Prog D K T E (List R)).NeverCommits := fun _ _ => trivial

/-- An insertion that gives way commits nothing by itself. -/
theorem neverCommits_insertOrIgnore (row : R) (refs : List (Ref D K)) :
    (t.insertOrIgnore row refs : Prog D K T E Bool).NeverCommits := by
  intro s n
  dsimp only
  split
  · split
    · trivial
    · trivial
  · trivial

/-- An insertion commits nothing by itself. -/
theorem neverCommits_insert (row : R) (refs : List (Ref D K)) :
    (t.insert row refs : Prog D K T E Unit).NeverCommits := by
  intro s n
  dsimp only
  split
  · split
    · trivial
    · trivial
  · trivial

end Commits

/-- The single row of a `fetch_one`; no row is an internal error that ends the transaction. -/
def fetchOne : List R → Prog D K T E R
  | [] => .rollback (.error none)
  | row :: _ => .ret row

/-- A lone request goes on with the first row. -/
theorem alone_fetchOne_iff {O : Type} {rows : List R} {k : R → Prog D K T E O} {w : D → D}
    {d d' : D} {out : O} : (fetchOne rows >>= k).alone w d = (.ok out, d') ↔
      ∃ row, rows.head? = some row ∧ (k row).alone w d = (.ok out, d') := by
  cases rows with
  | nil =>
    constructor
    · intro h
      cases h
    · rintro ⟨row, hrow, -⟩
      cases hrow
  | cons row rows =>
    constructor
    · intro h
      exact ⟨row, rfl, h⟩
    · rintro ⟨row', hrow, h⟩
      cases hrow
      exact h

/-- Taking the row of a `fetch_one` commits nothing. -/
theorem neverCommits_fetchOne (rows : List R) :
    (fetchOne rows : Prog D K T E R).NeverCommits := by
  cases rows with
  | nil => trivial
  | cons row rows => trivial

/-- Rule for a row that must be there. -/
theorem wp_fetchOne_bind {O : Type} {S : Spec D K T E}
    {Q : O → List (K × LockMode) → (D → D) → D → Prop} {L : List (K × LockMode)} {w : D → D}
    {d : D} {rows : List R} {k : R → Prog D K T E O}
    (h : ∀ row ∈ rows, S.wp Q (k row) L w d) : S.wp Q (fetchOne rows >>= k) L w d := by
  cases rows with
  | nil => exact fun _ _ => nofun
  | cons row rows => exact h row List.mem_cons_self

/-- A statement outside any transaction commits on its own. -/
def autocommit (prog : Prog D K T E R) (tag : R → T) : Prog D K T E R := do
  let out ← prog
  .commit (tag out) (.ret out)

/-- A statement that commits on its own takes what its label says. -/
theorem throughout_autocommit_bind {O R' : Type} {taken : T → Option R'} {P : List R' → Prop}
    {rs : List R'} {prog : Prog D K T E R} {tag : R → T} {f : R → Prog D K T E O}
    (h : prog.NeverCommits) (hP : P rs)
    (hf : ∀ out, (f out).Throughout taken P (rs ++ (taken (tag out)).toList)) :
    (autocommit prog tag >>= f).Throughout taken P rs := by
  rw [autocommit, Prog.bind_bind]
  exact h.labels.throughout_bind hP fun out => ⟨hP, hf out⟩

end ReadCommitted
