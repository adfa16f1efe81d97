import Nopass.Core.Sql.Table

/-!
# Batches of updates

A batch updates, entry by entry, the rows in its scope that have the entry's key. When
the keys of the entries are distinct, every row is updated by one entry at most, so
the batch is one change of the table. Several rows may have the key of one entry.
-/

namespace ReadCommitted

variable {D K T E R A I O : Type}

/-- How the entries `A` of a batch are written into the rows of a table. -/
structure Batch (D K R A I : Type) where
  table : Table D K R
  /-- The rows that the batch is about. -/
  scope : R → Bool
  /-- What entries and rows are matched by. -/
  rowKey : R → I
  entryKey : A → I
  write : A → R → R
  /-- The foreign keys that a write gives a row. -/
  refs : A → R → List (Ref D K)
  key_write : ∀ a r, table.key (write a r) = table.key r
  scope_write : ∀ a r, scope (write a r) = scope r
  rowKey_write : ∀ a r, rowKey (write a r) = rowKey r
  live_set : ∀ a r, ∀ ref ∈ refs a r, ∀ rows d, ref.live (table.set rows d) = ref.live d

namespace Batch

variable [DecidableEq K] [DecidableEq I] {b : Batch D K R A I}

/-- The updates one after the other. -/
def run (b : Batch D K R A I) : List A → Prog D K T E Unit
  | [] => .ret ()
  | a :: rest => do
    let _ ← b.table.update (fun _ r => b.scope r && decide (b.rowKey r = b.entryKey a))
      (b.write a) (b.refs a)
    b.run rest

/-- What the entries make of a row in the scope. -/
def after (b : Batch D K R A I) (entries : List A) (r : R) : R :=
  match entries.find? fun a => b.entryKey a = b.rowKey r with
  | some a => b.write a r
  | none => r

/-- The database after the batch. -/
def apply (b : Batch D K R A I) (entries : List A) (d : D) : D :=
  b.table.set ((b.table.get d).map fun r => if b.scope r then b.after entries r else r) d

/-- Every updated row keeps the checks of its table, and the rows that it names are there. -/
def Fits (b : Batch D K R A I) (entries : List A) (d : D) : Prop :=
  ∀ r ∈ b.table.get d, b.scope r = true → ∀ a ∈ entries, b.entryKey a = b.rowKey r →
    b.table.check (b.write a r) = true ∧ ∀ ref ∈ b.refs a r, ref.live d = true

omit [DecidableEq K] in
/-- An entry is written into the rows of its key. -/
theorem after_singleton (a : A) (r : R) :
    b.after [a] r = if b.rowKey r = b.entryKey a then b.write a r else r := by
  rw [after, List.find?_singleton]
  by_cases h : b.rowKey r = b.entryKey a
  · rw [if_pos (decide_eq_true h.symm), if_pos h]
  · have h' : ¬ decide (b.entryKey a = b.rowKey r) = true := by
      rw [decide_eq_true_eq]
      exact fun heq => h heq.symm
    rw [if_neg h', if_neg h]

omit [DecidableEq K] in
/-- A row without an entry stays. -/
theorem after_of_not_mem {entries : List A} {r : R} (h : b.rowKey r ∉ entries.map b.entryKey) :
    b.after entries r = r := by
  have hnone : entries.find? (fun a => b.entryKey a = b.rowKey r) = none := by
    rw [List.find?_eq_none]
    intro a ha heq
    apply h
    rw [← of_decide_eq_true heq]
    exact List.mem_map_of_mem ha
  rw [after, hnone]

omit [DecidableEq K] in
/-- When the entries' keys are distinct, a row is updated by the entry of its key. -/
theorem after_of_mem {entries : List A} (hkeys : (entries.map b.entryKey).Nodup) {a : A}
    (ha : a ∈ entries) {r : R} (h : b.entryKey a = b.rowKey r) :
    b.after entries r = b.write a r := by
  have hfind : entries.find? (fun a => b.entryKey a = b.rowKey r) = some a := by
    cases hfirst : entries.find? fun a => b.entryKey a = b.rowKey r with
    | none =>
      have hnone := List.find?_eq_none.mp hfirst a ha
      rw [decide_eq_true_eq] at hnone
      exact (hnone h).elim
    | some a' =>
      have ha' := List.mem_of_find?_eq_some hfirst
      have h' : b.entryKey a' = b.rowKey r := by simpa using List.find?_some hfirst
      rw [List.inj_on_of_nodup_map hkeys ha' ha (h'.trans h.symm)]
  rw [after, hfind]

omit [DecidableEq K] in
/-- What a batch keeps of every write it keeps of every row. -/
theorem after_keeps {C : Type} {f : R → C} (hf : ∀ a r, f (b.write a r) = f r)
    (entries : List A) (r : R) : f (b.after entries r) = f r := by
  rw [after]
  split
  · exact hf _ r
  · rfl

omit [DecidableEq K] in
/-- The first entry is written into its rows, the others into theirs. -/
theorem after_cons {a : A} {rest : List A} (hnew : b.entryKey a ∉ rest.map b.entryKey) (r : R) :
    b.after (a :: rest) r = b.after rest (b.after [a] r) := by
  rw [after_singleton]
  by_cases h : b.rowKey r = b.entryKey a
  · have hstays : b.after rest (b.write a r) = b.write a r := by
      apply after_of_not_mem
      rw [b.rowKey_write, h]
      exact hnew
    have hfirst : (a :: rest).find? (fun a' => b.entryKey a' = b.rowKey r) = some a :=
      List.find?_cons_of_pos (decide_eq_true h.symm)
    rw [if_pos h, hstays, after, hfirst]
  · have hrest : (a :: rest).find? (fun a' => b.entryKey a' = b.rowKey r) =
        rest.find? fun a' => b.entryKey a' = b.rowKey r := by
      apply List.find?_cons_of_neg
      rw [decide_eq_true_eq]
      exact fun heq => h heq.symm
    rw [if_neg h, after, after, hrest]

omit [DecidableEq K] in
/-- The rows after a batch. -/
theorem get_apply (entries : List A) (d : D) : b.table.get (b.apply entries d) =
    (b.table.get d).map fun r => if b.scope r then b.after entries r else r := by
  rw [apply, b.table.get_set]

omit [DecidableEq K] in
/-- A batch without entries changes nothing. -/
theorem apply_nil (d : D) : b.apply [] d = d := by
  have hrows : ((b.table.get d).map fun r => if b.scope r then b.after [] r else r) =
      b.table.get d := by
    rw [List.map_congr_left (g := id), List.map_id]
    intro r _
    split
    · rfl
    · rfl
  rw [apply, hrows, b.table.set_get]

omit [DecidableEq K] in
/-- The entries of a batch are written one after the other. -/
theorem apply_cons {a : A} {rest : List A} (hnew : b.entryKey a ∉ rest.map b.entryKey) (d : D) :
    b.apply (a :: rest) d = b.apply rest (b.apply [a] d) := by
  rw [apply, apply, get_apply, List.map_map, apply, b.table.set_set]
  apply congrArg (b.table.set · d)
  apply List.map_congr_left
  intro r _
  rw [Function.comp_apply]
  by_cases hs : b.scope r = true
  · have hs' : b.scope (b.after [a] r) = true := by
      rw [after_keeps b.scope_write, hs]
    rw [if_pos hs, if_pos hs, if_pos hs', after_cons hnew]
  · rw [if_neg hs, if_neg hs, if_neg hs]

omit [DecidableEq K] in
/-- A batch keeps what every write keeps. -/
theorem map_apply {C : Type} {f : R → C} (hf : ∀ a r, f (b.write a r) = f r) (entries : List A)
    (d : D) : (b.table.get (b.apply entries d)).map f = (b.table.get d).map f := by
  rw [get_apply, List.map_map]
  apply List.map_congr_left
  intro r _
  rw [Function.comp_apply]
  split
  · exact after_keeps hf entries r
  · rfl

omit [DecidableEq K] in
/-- Rows that one entry is written into are not written into again. -/
theorem fits_cons {a : A} {rest : List A} (hnew : b.entryKey a ∉ rest.map b.entryKey) (d : D) :
    b.Fits (a :: rest) d ↔ b.Fits [a] d ∧ b.Fits rest (b.apply [a] d) := by
  have hother {a' : A} (ha' : a' ∈ rest) {r : R} (h : b.entryKey a' = b.rowKey r) :
      (if b.scope r then b.after [a] r else r) = r := by
    split
    · rw [after_singleton, if_neg]
      intro heq
      apply hnew
      rw [← heq, ← h]
      exact List.mem_map_of_mem ha'
    · rfl
  have hlive (a' : A) (r : R) : (∀ ref ∈ b.refs a' r, ref.live (b.apply [a] d) = true) ↔
      ∀ ref ∈ b.refs a' r, ref.live d = true := by
    constructor
    · intro h ref href
      rw [← b.live_set a' r ref href]
      exact h ref href
    · intro h ref href
      rw [apply, b.live_set a' r ref href]
      exact h ref href
  constructor
  · intro h
    constructor
    · intro r hr hs a' ha'
      exact h r hr hs a' (List.mem_cons.mpr (.inl (List.mem_singleton.mp ha')))
    · intro r hr hs a' ha' heq
      rw [get_apply] at hr
      obtain ⟨r₀, hr₀, rfl⟩ := List.mem_map.mp hr
      have heq₀ : b.entryKey a' = b.rowKey r₀ := by
        revert heq
        split
        · rw [after_keeps b.rowKey_write]
          exact id
        · exact id
      rw [hother ha' heq₀] at hs ⊢
      have hfit := h r₀ hr₀ hs a' (List.mem_cons_of_mem _ ha') heq₀
      exact ⟨hfit.1, (hlive a' r₀).mpr hfit.2⟩
  · rintro ⟨hone, hrest⟩ r hr hs a' ha' heq
    rcases List.mem_cons.mp ha' with rfl | ha'
    · exact hone r hr hs a' List.mem_cons_self heq
    · have hmem : r ∈ b.table.get (b.apply [a] d) := by
        rw [get_apply]
        exact List.mem_map.mpr ⟨r, hr, hother ha' heq⟩
      have hfit := hrest r hmem hs a' ha' heq
      exact ⟨hfit.1, (hlive a' r).mp hfit.2⟩

/-- The update of one entry. -/
theorem edit_eq_apply {d : D} (hk : ((b.table.get d).map b.table.key).Nodup) (a : A) :
    b.table.edit (((b.table.get d).filter fun r =>
        b.scope r && decide (b.rowKey r = b.entryKey a)).map b.table.key) (b.write a) d =
      b.apply [a] d := by
  rw [b.table.edit_filter (b.write a) hk, apply]
  apply congrArg (b.table.set · d)
  apply List.map_congr_left
  intro r _
  rw [after_singleton]
  by_cases hs : b.scope r = true
  · rw [if_pos hs, hs, Bool.true_and]
    simp only [decide_eq_true_eq]
  · rw [if_neg hs, Bool.not_eq_true _ |>.mp hs, Bool.false_and, if_neg Bool.false_ne_true]

/-- A lone request goes through a batch exactly when the updated rows fit their table. -/
theorem alone_run_iff {d d' x : D} {out : O} {entries : List A} {k : Unit → Prog D K T E O}
    (hk : ((b.table.get x).map b.table.key).Nodup) (hkeys : (entries.map b.entryKey).Nodup) :
    (b.run entries >>= k).alone (fun _ => x) d = (.ok out, d') ↔
      b.Fits entries x ∧ (k ()).alone (fun _ => b.apply entries x) d = (.ok out, d') := by
  induction entries generalizing x with
  | nil =>
    rw [apply_nil]
    constructor
    · intro h
      exact ⟨fun r _ _ a ha => (List.not_mem_nil ha).elim, h⟩
    · intro h
      exact h.2
  | cons a rest ih =>
    obtain ⟨hnew, hkeys⟩ := List.nodup_cons.mp hkeys
    have hk' : ((b.table.get (b.apply [a] x)).map b.table.key).Nodup :=
      map_apply b.key_write [a] x ▸ hk
    have hcheck : (∀ r ∈ (b.table.get x).filter fun r =>
          b.scope r && decide (b.rowKey r = b.entryKey a),
          b.table.check (b.write a r) = true ∧ ∀ ref ∈ b.refs a r, ref.live x = true) ↔
        b.Fits [a] x := by
      simp only [List.mem_filter, Bool.and_eq_true, decide_eq_true_eq, Fits, List.mem_singleton,
        forall_eq, and_imp]
      exact ⟨fun h r hr hs heq => h r hr hs heq.symm, fun h r hr hs heq => h r hr hs heq.symm⟩
    rw [run, Prog.bind_bind, Table.alone_update_iff, hcheck, edit_eq_apply hk a, ih hk' hkeys,
      fits_cons hnew, apply_cons hnew, and_assoc]

/-- A batch commits nothing by itself. -/
theorem neverCommits_run (entries : List A) : (b.run entries : Prog D K T E Unit).NeverCommits := by
  induction entries with
  | nil => trivial
  | cons a rest ih => exact (neverCommits_update _ _ _).bind fun _ => ih

end Batch

end ReadCommitted
