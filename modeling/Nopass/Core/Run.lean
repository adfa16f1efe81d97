/-!
# Runs of a partial step function

An event that is not enabled in a state ends the run. `EventsMeet` puts a condition on
each event in the state that it starts from; an invariant that every such event
preserves holds after the run.
-/

variable {S E : Type}

/-- The state after a list of events, none when one of them was not enabled. -/
def runEvents (step : S → E → Option S) : List E → S → Option S
  | [], s => some s
  | e :: rest, s => (step s e).bind (runEvents step rest)

/-- Each event of a run meets a condition in the state that it starts from. -/
def EventsMeet (step : S → E → Option S) (cond : S → E → Prop) : List E → S → Prop
  | [], _ => True
  | e :: rest, s => cond s e ∧ ∀ s' ∈ step s e, EventsMeet step cond rest s'

instance decidableEventsMeet (step : S → E → Option S) (cond : S → E → Prop)
    [∀ s e, Decidable (cond s e)] : ∀ events s, Decidable (EventsMeet step cond events s)
  | [], _ => inferInstanceAs (Decidable True)
  | e :: rest, s =>
    have := decidableEventsMeet step cond rest
    inferInstanceAs (Decidable (cond s e ∧ ∀ s' ∈ step s e, _))

variable {step : S → E → Option S} {cond : S → E → Prop} {inv : S → Prop} {events : List E}
  {s s' : S}

/-- A run goes on from where another ended. -/
theorem runEvents_append (before after : List E) :
    runEvents step (before ++ after) s = (runEvents step before s).bind (runEvents step after) := by
  induction before generalizing s with
  | nil => rfl
  | cons e rest ih =>
    rw [List.cons_append, runEvents, runEvents, Option.bind_assoc]
    congr 1
    funext s₁
    exact ih

/-- The condition on a run is the condition on each event after those before it. -/
theorem eventsMeet_iff : EventsMeet step cond events s ↔
    ∀ before e after, events = before ++ e :: after →
      ∀ s', runEvents step before s = some s' → cond s' e := by
  induction events generalizing s with
  | nil =>
    constructor
    · intro _ before e after h
      simp at h
    · intro _
      trivial
  | cons e rest ih =>
    constructor
    · intro hc before e' after hsplit s' hrun
      cases before with
      | nil =>
        cases hsplit
        cases hrun
        exact hc.1
      | cons _ before =>
        cases hsplit
        obtain ⟨s₁, hstep, hrun⟩ := Option.bind_eq_some_iff.mp hrun
        exact ih.mp (hc.2 s₁ hstep) before e' after rfl s' hrun
    · intro h
      constructor
      · exact h [] e rest rfl s rfl
      · intro s₁ hstep
        apply ih.mpr
        intro before e' after hsplit s' hrun
        exact h (e :: before) e' after (congrArg (e :: ·) hsplit) s'
          (Option.bind_eq_some_iff.mpr ⟨s₁, hstep, hrun⟩)

/-- The condition on the parts of a run. -/
theorem EventsMeet.of_append {before after : List E}
    (hc : EventsMeet step cond (before ++ after) s) :
    EventsMeet step cond before s ∧
      ∀ s', runEvents step before s = some s' → EventsMeet step cond after s' := by
  rw [eventsMeet_iff] at hc
  constructor
  · rw [eventsMeet_iff]
    intro b e a hsplit
    exact hc b e (a ++ after) (by rw [hsplit, List.append_assoc, List.cons_append])
  · intro s' hrun
    rw [eventsMeet_iff]
    intro b e a hsplit s₁ hrun₁
    apply hc (before ++ b) e a (by rw [hsplit, List.append_assoc])
    rw [runEvents_append, hrun, Option.bind_some, hrun₁]

/-- What every event of a run that meets the condition preserves holds after it. -/
theorem invariant_of_events
    (hstep : ∀ e ∈ events, ∀ s s', inv s → cond s e → step s e = some s' → inv s')
    (hs : inv s) (hc : EventsMeet step cond events s) (h : runEvents step events s = some s') :
    inv s' := by
  induction events generalizing s with
  | nil =>
    cases h
    exact hs
  | cons e rest ih =>
    obtain ⟨s₁, hstep₁, h⟩ := Option.bind_eq_some_iff.mp h
    have hs₁ : inv s₁ := hstep e List.mem_cons_self s s₁ hs hc.1 hstep₁
    exact ih (fun e he => hstep e (List.mem_cons_of_mem _ he)) hs₁ (hc.2 s₁ hstep₁) h

/-- What every event preserves holds after every run. -/
theorem invariant_of_run (hstep : ∀ e s s', inv s → step s e = some s' → inv s') (hs : inv s)
    (h : runEvents step events s = some s') : inv s' := by
  have hmeets : EventsMeet step (fun _ _ => True) events s := by
    rw [eventsMeet_iff]
    exact fun _ _ _ _ _ _ => trivial
  exact invariant_of_events (fun e _ s s' hs _ he => hstep e s s' hs he) hs hmeets h
