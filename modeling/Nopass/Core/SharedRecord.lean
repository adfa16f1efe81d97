import Mathlib.Order.Defs.Unbundled

/-!
# A record that several copies share

A record is kept in one place. Whoever opens it takes a copy; an operation changes its
own copy and writes the whole copy back. `R a b` says that `b` holds whatever `a` holds.
Nothing is lost exactly as long as each written copy holds what the record holds.
-/

variable {S : Type}

/-- A record and the copies that were taken of it, in the order in which they were opened. -/
structure SharedRecord (S : Type) where
  persisted : S
  copies : List S

namespace SharedRecord

/-- Open the record: it is loaded, and kept as it was loaded. -/
def opened (r : SharedRecord S) (load : S → S) : SharedRecord S where
  persisted := load r.persisted
  copies := r.copies ++ [load r.persisted]

/-- An operation on one copy, which writes it back when it changes it. -/
def write (r : SharedRecord S) (i : Nat) (change : S → Option S) : Option (SharedRecord S) :=
  r.copies[i]?.map fun copy =>
    match change copy with
    | some copy' => { persisted := copy', copies := r.copies.set i copy' }
    | none => r

/-- What may happen to a record. -/
inductive Moves (r : SharedRecord S) : SharedRecord S → Prop
  | refl : Moves r r
  | opened {r' : SharedRecord S} (load : S → S) (h : r.opened load = r') : Moves r r'
  | write {r' : SharedRecord S} (i : Nat) (change : S → Option S) (h : r.write i change = some r') :
    Moves r r'

variable (R R' : S → S → Prop)

/-- The record holds what its copies hold. -/
def Covers (r : SharedRecord S) : Prop := ∀ copy ∈ r.copies, R copy r.persisted

/-- What operation `change` on a copy would write holds what the record holds. -/
def WriteHolds (r : SharedRecord S) (i : Nat) (change : S → Option S) : Prop :=
  ∀ copy ∈ r.copies[i]?, ∀ copy' ∈ change copy, R r.persisted copy'

/-- Nothing was lost from one time to a later one: the record holds what it held, and a copy that
was opened since holds what the copies of the earlier time held. -/
structure Forward (r r' : SharedRecord S) : Prop where
  persisted : R r.persisted r'.persisted
  opened : ∀ copy ∈ r.copies, ∀ i, r.copies.length ≤ i → ∀ copy' ∈ r'.copies[i]?, R' copy copy'

variable {R R'} {r r₀ r' : SharedRecord S} {i : Nat} {change : S → Option S}

/-- What an operation on a copy does. -/
theorem write_eq_some (h : r.write i change = some r') :
    ∃ copy, r.copies[i]? = some copy ∧ ((change copy = none ∧ r' = r) ∨
      ∃ copy', change copy = some copy' ∧
        r' = { persisted := copy', copies := r.copies.set i copy' }) := by
  obtain ⟨copy, hcopy, rfl⟩ := Option.map_eq_some_iff.mp h
  cases hchange : change copy with
  | none => exact ⟨copy, hcopy, .inl ⟨hchange, rfl⟩⟩
  | some copy' => exact ⟨copy, hcopy, .inr ⟨copy', hchange, rfl⟩⟩

/-- No operation on a copy that was not opened. -/
theorem writeHolds_of_write_eq_none (h : r.write i change = none) : r.WriteHolds R i change := by
  intro copy hcopy
  rw [write, Option.map_eq_none_iff] at h
  rw [h] at hcopy
  cases hcopy

/-- An operation keeps what the record holds exactly when what it writes holds it. -/
theorem writeHolds_iff [IsPreorder S R] (h : r.write i change = some r') :
    r.WriteHolds R i change ↔ R r.persisted r'.persisted := by
  obtain ⟨copy, hcopy, ⟨hnone, rfl⟩ | ⟨copy', hsome, rfl⟩⟩ := write_eq_some h
  · constructor
    · intro _
      exact refl_of R _
    · intro _ c hc c' hc'
      cases hcopy.symm.trans hc
      rw [hnone] at hc'
      cases hc'
  · constructor
    · intro hw
      exact hw copy hcopy copy' hsome
    · intro hR c hc c' hc'
      cases hcopy.symm.trans hc
      cases hsome.symm.trans hc'
      exact hR

/-- What an operation writes, when it is known when and what it changes. -/
theorem writeHolds_congr {C : S → Prop} {new : S → S}
    (h : ∀ copy copy', change copy = some copy' ↔ C copy ∧ new copy = copy') :
    r.WriteHolds R i change ↔ ∀ copy ∈ r.copies[i]?, C copy → R r.persisted (new copy) := by
  constructor
  · intro hw copy hcopy hC
    exact hw copy hcopy (new copy) ((h copy _).mpr ⟨hC, rfl⟩)
  · intro hw copy hcopy copy' hcopy'
    obtain ⟨hC, rfl⟩ := (h copy copy').mp hcopy'
    exact hw copy hcopy hC

/-- What an operation writes that always writes. -/
theorem writeHolds_always {new : S → S} : r.WriteHolds R i (fun copy => some (new copy)) ↔
    ∀ copy ∈ r.copies[i]?, R r.persisted (new copy) := by
  have hchange : ∀ copy copy', some (new copy) = some copy' ↔ True ∧ new copy = copy' := by
    intro copy copy'
    rw [Option.some.injEq, true_and]
  have h := writeHolds_congr (R := R) (r := r) (i := i) hchange
  simpa only [forall_const] using h

/-- A record that holds what it held still holds what its copies hold. -/
theorem Covers.moves [IsPreorder S R] (hc : r.Covers R) (hm : Moves r r')
    (hR : R r.persisted r'.persisted) : r'.Covers R := by
  intro copy hcopy
  cases hm with
  | refl => exact hc copy hcopy
  | opened load hload =>
    subst hload
    rcases List.mem_append.mp hcopy with hold | hnew
    · exact trans_of R (hc copy hold) hR
    · cases List.mem_singleton.mp hnew
      exact refl_of R _
  | write i change hw =>
    obtain ⟨_, _, ⟨_, rfl⟩ | ⟨copy', _, rfl⟩⟩ := write_eq_some hw
    · exact hc copy hcopy
    · rcases List.mem_or_eq_of_mem_set hcopy with hold | rfl
      · exact trans_of R (hc copy hold) hR
      · exact refl_of R _

/-- Whatever is at the place of a copy after a step was there before, or holds the record. -/
theorem Moves.getElem? [IsPreorder S R] (hm : Moves r r') (hR : R r.persisted r'.persisted)
    {copy' : S} (h : r'.copies[i]? = some copy') :
    r.copies[i]? = some copy' ∨ R r.persisted copy' := by
  cases hm with
  | refl => exact .inl h
  | opened load hload =>
    subst hload
    rcases Nat.lt_or_ge i r.copies.length with hlt | hge
    · rw [SharedRecord.opened, List.getElem?_append_left hlt] at h
      exact .inl h
    · rw [SharedRecord.opened, List.getElem?_append_right hge] at h
      cases List.mem_singleton.mp (List.mem_of_getElem? h)
      exact .inr hR
  | write j change hw =>
    obtain ⟨_, _, ⟨_, rfl⟩ | ⟨new, _, rfl⟩⟩ := write_eq_some hw
    · exact .inl h
    · by_cases hij : j = i
      · subst hij
        have hnew : copy' = new := by
          rw [List.getElem?_set_self'] at h
          obtain ⟨_, _, rfl⟩ := Option.map_eq_some_iff.mp h
          rfl
        rw [hnew]
        exact .inr hR
      · rw [List.getElem?_set_ne hij] at h
        exact .inl h

/-- From a record that covers its copies, nothing is lost at first. -/
theorem Forward.refl [IsPreorder S R] (r : SharedRecord S) : Forward R R' r r where
  persisted := refl_of R _
  opened := by
    intro _ _ i hi copy' hcopy'
    rw [List.getElem?_eq_none hi] at hcopy'
    cases hcopy'

/-- One more step in which the record keeps what it held. -/
theorem Forward.moves [IsPreorder S R] [IsPreorder S R'] (hsub : ∀ a b, R a b → R' a b)
    (h₀ : r₀.Covers R') (hf : Forward R R' r₀ r) (hm : Moves r r')
    (hR : R r.persisted r'.persisted) : Forward R R' r₀ r' where
  persisted := trans_of R hf.persisted hR
  opened := by
    intro copy hcopy i hi copy' hcopy'
    rcases hm.getElem? hR hcopy' with hold | hnew
    · exact hf.opened copy hcopy i hi copy' hold
    · have hkept : R' copy r.persisted := trans_of R' (h₀ copy hcopy) (hsub _ _ hf.persisted)
      exact trans_of R' hkept (hsub _ _ hnew)

end SharedRecord
