import Mathlib.Algebra.Ring.Int.Defs
import Nopass.Core.Sql.History

/-!
# Accounts over a run

The commits of a run lead from its first database to its last one, each from where the one
before it left. A quantity that every commit changes by what its label says is at the end
what it was, plus what came in, less what went out.
-/

namespace ReadCommitted

variable {I D K T E O : Type}

/-- The commits lead from one database to another. -/
def Leads : D → List (Event I D T) → D → Prop
  | d, [], d' => d' = d
  | d, e :: rest, d' => e.before = d ∧ Leads e.after rest d'

section Leads

variable {d d' : D} {before after events : List (Event I D T)} {e : Event I D T}

/-- The way to a commit and the way from it. -/
theorem Leads.split (h : Leads d (before ++ e :: after) d') :
    Leads d before e.before ∧ Leads e.after after d' := by
  induction before generalizing d with
  | nil => exact ⟨h.1, h.2⟩
  | cons first rest ih =>
    obtain ⟨hfirst, hrest⟩ := h
    obtain ⟨hto, hfrom⟩ := ih hrest
    exact ⟨⟨hfirst, hto⟩, hfrom⟩

/-- What every commit keeps holds at the end. -/
theorem Leads.invariant {P : D → Prop} (h : Leads d events d') (hd : P d)
    (he : ∀ e ∈ events, P e.before → P e.after) : P d' := by
  induction events generalizing d with
  | nil =>
    cases h
    exact hd
  | cons first rest ih =>
    obtain ⟨rfl, hrest⟩ := h
    exact ih hrest (he first List.mem_cons_self hd) fun e hmem =>
      he e (List.mem_cons_of_mem first hmem)

/-- What comes in and goes out adds up. -/
theorem Leads.balance (amount : D → Int) (inflow outflow : T → Int) (h : Leads d events d')
    (he : ∀ e ∈ events, amount e.after + outflow e.tag = amount e.before + inflow e.tag) :
    amount d' + (events.map fun e => outflow e.tag).sum =
      amount d + (events.map fun e => inflow e.tag).sum := by
  induction events generalizing d with
  | nil =>
    cases h
    rfl
  | cons first rest ih =>
    obtain ⟨rfl, hrest⟩ := h
    have hfirst := he first List.mem_cons_self
    have hsum := ih hrest fun e hmem => he e (List.mem_cons_of_mem first hmem)
    simp only [List.map_cons, List.sum_cons]
    omega

/-- What never comes in grows no larger. -/
theorem Leads.le_of_outflow (amount : D → Int) (outflow : T → Int) (h : Leads d events d')
    (he : ∀ e ∈ events, amount e.after + outflow e.tag = amount e.before)
    (hout : ∀ e ∈ events, 0 ≤ outflow e.tag) : amount d' ≤ amount d := by
  induction events generalizing d with
  | nil =>
    cases h
    exact Int.le_refl _
  | cons first rest ih =>
    obtain ⟨rfl, hrest⟩ := h
    have hfirst := he first List.mem_cons_self
    have hpos := hout first List.mem_cons_self
    have hle := ih hrest (fun e hmem => he e (List.mem_cons_of_mem first hmem)) fun e hmem =>
      hout e (List.mem_cons_of_mem first hmem)
    omega

end Leads

/-- The commits of a run lead from its first database to its last one. -/
theorem State.leads [DecidableEq I] [Fintype I] [DecidableEq K] {s s' : State I D K T E O}
    {sched : List (I × Act)} (h : s.exec sched = some s') :
    Leads s.db (s.history sched) s'.db := by
  induction sched generalizing s with
  | nil =>
    cases h
    rfl
  | cons x rest ih =>
    obtain ⟨i, act⟩ := x
    obtain ⟨s₁, h₁, h₂⟩ := Option.bind_eq_some_iff.mp h
    rw [State.history_cons h₁]
    rcases State.step_event h₁ with ⟨hnone, hdb, -⟩ | ⟨tag, next, -, -, hevent, -⟩
    · rw [hnone, ← hdb]
      exact ih h₂
    · rw [hevent]
      exact ⟨rfl, ih h₂⟩

end ReadCommitted
