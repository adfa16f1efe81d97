import Mathlib.Data.List.Basic

/-!
# Histories with and without hidden events

A system answers events as they come. A relation between states unwinds a set of hidden
events when it does not notice them and keeps up with all others. Then the answers do
not depend on which hidden events a history has, nor on where.
-/

section Unwinding

variable {S E O : Type}

/-- The answers in a history. -/
def outputs (step : S → E → S) (output : S → E → Option O) : List E → S → List O
  | [], _ => []
  | e :: rest, s => (output s e).toList ++ outputs step output rest (step s e)

/-- Every event of a history meets a condition where it happens. -/
def Throughout (step : S → E → S) (cond : S → E → Prop) : List E → S → Prop
  | [], _ => True
  | e :: rest, s => cond s e ∧ Throughout step cond rest (step s e)

instance decidableThroughout (step : S → E → S) (cond : S → E → Prop)
    [∀ s e, Decidable (cond s e)] : ∀ history s, Decidable (Throughout step cond history s)
  | [], _ => inferInstanceAs (Decidable True)
  | e :: rest, s =>
    have := decidableThroughout step cond rest (step s e)
    inferInstanceAs (Decidable (cond s e ∧ Throughout step cond rest (step s e)))

variable {step : S → E → S} {output : S → E → Option O} {cond : S → E → Prop}
  {visible : E → Bool} {R : S → S → Prop}

/-- A relation that does not notice hidden events and keeps up with the visible ones. Where a
visible event meets the condition its answer is the same on both sides. -/
structure Unwinds (step : S → E → S) (output : S → E → Option O) (cond : S → E → Prop)
    (visible : E → Bool) (R : S → S → Prop) : Prop where
  hidden : ∀ e s s', visible e = false → R s s' → R (step s e) s'
  common : ∀ e s s', visible e = true → R s s' → R (step s e) (step s' e)
  output_hidden : ∀ e s, visible e = false → output s e = none
  output_common : ∀ e s s', visible e = true → R s s' → cond s e → output s e = output s' e
  cond_hidden : ∀ e s, visible e = false → cond s e
  cond_common : ∀ e s s', visible e = true → R s s' → (cond s e ↔ cond s' e)

/-- Leaving hidden events out changes no condition. -/
theorem Unwinds.throughout_filter (hu : Unwinds step output cond visible R) (history : List E)
    {s s' : S} (h : R s s') :
    Throughout step cond history s ↔ Throughout step cond (history.filter visible) s' := by
  induction history generalizing s s' with
  | nil => exact Iff.rfl
  | cons e rest ih =>
    cases hv : visible e with
    | false =>
      rw [List.filter_cons_of_neg (by rw [hv]; exact Bool.false_ne_true), Throughout]
      rw [ih (hu.hidden e s s' hv h)]
      exact and_iff_right (hu.cond_hidden e s hv)
    | true =>
      rw [List.filter_cons_of_pos hv, Throughout, Throughout, ih (hu.common e s s' hv h),
        hu.cond_common e s s' hv h]

/-- Leaving hidden events out changes no answer. -/
theorem Unwinds.outputs_filter (hu : Unwinds step output cond visible R) (history : List E)
    {s s' : S} (h : R s s') (hc : Throughout step cond history s) :
    outputs step output history s = outputs step output (history.filter visible) s' := by
  induction history generalizing s s' with
  | nil => rfl
  | cons e rest ih =>
    obtain ⟨he, hrest⟩ := hc
    cases hv : visible e with
    | false =>
      rw [List.filter_cons_of_neg (by rw [hv]; exact Bool.false_ne_true), outputs,
        hu.output_hidden e s hv, ih (hu.hidden e s s' hv h) hrest]
      rfl
    | true =>
      rw [List.filter_cons_of_pos hv, outputs, outputs, hu.output_common e s s' hv h he,
        ih (hu.common e s s' hv h) hrest]

/-- Histories with the same visible events have the same answers. -/
theorem Unwinds.outputs_eq (hu : Unwinds step output cond visible R) {history history' : List E}
    (hsame : history.filter visible = history'.filter visible) {s : S} (hs : R s s)
    (hc : Throughout step cond history s) :
    Throughout step cond history' s ∧
      outputs step output history s = outputs step output history' s := by
  have hc' : Throughout step cond history' s := by
    rw [hu.throughout_filter history' hs, ← hsame, ← hu.throughout_filter history hs]
    exact hc
  constructor
  · exact hc'
  · rw [hu.outputs_filter history hs hc, hsame, ← hu.outputs_filter history' hs hc']

end Unwinding
