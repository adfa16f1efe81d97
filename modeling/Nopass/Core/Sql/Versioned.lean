import Nopass.Core.Sql.Table
import Mathlib.Order.Basic

/-!
# Rows with a version

Every change of a row gives it a higher version. A row that comes back under its key at
the version that it had is then the row that it was, however much happened in between,
as long as keys are distinct.
-/

namespace ReadCommitted

variable {D K R V : Type} [Preorder V]

/-- The same row, or a newer version of it under the same key. -/
def Table.Newer (t : Table D K R) (version : R → V) (r r' : R) : Prop :=
  t.key r' = t.key r ∧ (r' = r ∨ version r < version r')

/-- Every row stays, maybe at a newer version. -/
def Table.Rises (t : Table D K R) (version : R → V) (d d' : D) : Prop :=
  ∀ r ∈ t.get d, ∃ r' ∈ t.get d', t.Newer version r r'

/-- No row appears but as a newer version of one. -/
def Table.Stems (t : Table D K R) (version : R → V) (d d' : D) : Prop :=
  ∀ r' ∈ t.get d', ∃ r ∈ t.get d, t.Newer version r r'

namespace Table

variable {t : Table D K R} {version : R → V} {a b c d d' : D} {r r' r'' : R}

/-- A row is as new as itself. -/
theorem Newer.refl (r : R) : t.Newer version r r := ⟨rfl, Or.inl rfl⟩

/-- Newer versions have newer versions. -/
theorem Newer.trans (h : t.Newer version r r') (h' : t.Newer version r' r'') :
    t.Newer version r r'' := by
  refine ⟨h'.1.trans h.1, ?_⟩
  rcases h.2 with rfl | hlt
  · exact h'.2
  · rcases h'.2 with rfl | hlt'
    · exact Or.inr hlt
    · exact Or.inr (hlt.trans hlt')

/-- A newer version is no lower. -/
theorem Newer.le (h : t.Newer version r r') : version r ≤ version r' := by
  rcases h.2 with rfl | hlt
  · exact le_rfl
  · exact hlt.le

/-- A row at the version that it had is the row that it was. -/
theorem Newer.eq (h : t.Newer version r r') (hv : version r' = version r) : r' = r := by
  rcases h.2 with rfl | hlt
  · rfl
  · rw [hv] at hlt
    exact (lt_irrefl _ hlt).elim

/-- Nothing changed. -/
theorem Rises.refl (d : D) : t.Rises version d d := fun r hr => ⟨r, hr, .refl r⟩

/-- Changes add up. -/
theorem Rises.trans (h : t.Rises version a b) (h' : t.Rises version b c) :
    t.Rises version a c := by
  intro r hr
  obtain ⟨r', hr', hn⟩ := h r hr
  obtain ⟨r'', hr'', hn'⟩ := h' r' hr'
  exact ⟨r'', hr'', hn.trans hn'⟩

/-- Changes of other tables. -/
theorem Rises.of_get (h : t.get d' = t.get d) : t.Rises version d d' := by
  intro r hr
  rw [h]
  exact ⟨r, hr, .refl r⟩

/-- An insertion. -/
theorem Rises.push (row : R) (d : D) : t.Rises version d (t.push row d) :=
  fun r hr => ⟨r, t.mem_push.mpr (Or.inl hr), .refl r⟩

/-- The row of a key is never older than it was. -/
theorem Rises.newer (h : t.Rises version d d') (hk : ((t.get d').map t.key).Nodup)
    (hr : r ∈ t.get d) (hr' : r' ∈ t.get d') (hkey : t.key r' = t.key r) :
    t.Newer version r r' := by
  obtain ⟨r₁, hr₁, hn⟩ := h r hr
  rwa [List.inj_on_of_nodup_map hk hr' hr₁ (hkey.trans hn.1.symm)]

/-- Nothing changed. -/
theorem Stems.refl (d : D) : t.Stems version d d := fun r hr => ⟨r, hr, .refl r⟩

/-- Changes add up. -/
theorem Stems.trans (h : t.Stems version a b) (h' : t.Stems version b c) :
    t.Stems version a c := by
  intro r'' hr''
  obtain ⟨r', hr', hn'⟩ := h' r'' hr''
  obtain ⟨r, hr, hn⟩ := h r' hr'
  exact ⟨r, hr, hn.trans hn'⟩

/-- Changes of other tables. -/
theorem Stems.of_get (h : t.get d' = t.get d) : t.Stems version d d' := by
  intro r hr
  rw [h] at hr
  exact ⟨r, hr, .refl r⟩

/-- The row of a key is never older than it was. -/
theorem Stems.newer (h : t.Stems version d d') (hk : ((t.get d).map t.key).Nodup)
    (hr : r ∈ t.get d) (hr' : r' ∈ t.get d') (hkey : t.key r' = t.key r) :
    t.Newer version r r' := by
  obtain ⟨r₁, hr₁, hn⟩ := h r' hr'
  rwa [List.inj_on_of_nodup_map hk hr hr₁ (hkey.symm.trans hn.1)]

section Changes

variable [DecidableEq K]

/-- An update that gives rows a higher version. -/
theorem Rises.edit {keys : List K} {f : R → R} (hkey : ∀ r, t.key (f r) = t.key r)
    (hv : ∀ r, version r < version (f r)) (d : D) : t.Rises version d (t.edit keys f d) := by
  intro r hr
  refine ⟨_, t.mem_edit.mpr ⟨r, hr, rfl⟩, ?_⟩
  split
  · exact ⟨hkey r, Or.inr (hv r)⟩
  · exact .refl r

/-- An update that gives rows a higher version. -/
theorem Stems.edit {keys : List K} {f : R → R} (hkey : ∀ r, t.key (f r) = t.key r)
    (hv : ∀ r, version r < version (f r)) (d : D) : t.Stems version d (t.edit keys f d) := by
  intro r' hr'
  obtain ⟨r, hr, rfl⟩ := t.mem_edit.mp hr'
  refine ⟨r, hr, ?_⟩
  split
  · exact ⟨hkey r, Or.inr (hv r)⟩
  · exact .refl r

/-- A deletion. -/
theorem Stems.drop (keys : List K) (d : D) : t.Stems version d (t.drop keys d) :=
  fun r hr => ⟨r, (t.mem_drop.mp hr).1, .refl r⟩

end Changes

end Table

end ReadCommitted
