import Mathlib.Logic.Basic

/-!
# Programs on a state that may throw

What such a program has written stays when it throws. `Result.final` is the state it
ends in, whether it returned or threw; an unchanged one is where it started.
-/

namespace EStateM

variable {ε σ α β : Type}

/-- The state that a program ends in. -/
def Result.final : Result ε σ α → σ
  | .ok _ s => s
  | .error _ s => s

/-- Go on or throw. -/
def throwUnless (cond : Bool) (e : ε) : EStateM ε σ Unit := if cond then pure () else throw e

/-- A value or a throw. -/
def orThrow (e : ε) : Option α → EStateM ε σ α
  | some a => pure a
  | none => throw e

/-- A sequence goes on with what the first part returned. -/
theorem bind_of_ok {x : EStateM ε σ α} {s s₁ : σ} {a : α} (h : x s = .ok a s₁)
    (f : α → EStateM ε σ β) : (x >>= f) s = f a s₁ := by
  change EStateM.bind x f s = _
  rw [EStateM.bind, h]

/-- A sequence ends with the throw of the first part. -/
theorem bind_of_error {x : EStateM ε σ α} {s s₁ : σ} {e : ε} (h : x s = .error e s₁)
    (f : α → EStateM ε σ β) : (x >>= f) s = .error e s₁ := by
  change EStateM.bind x f s = _
  rw [EStateM.bind, h]

/-- A sequence returns when both parts do. -/
theorem bind_eq_ok {x : EStateM ε σ α} {f : α → EStateM ε σ β} {s s' : σ} {b : β} :
    (x >>= f) s = .ok b s' ↔ ∃ a s₁, x s = .ok a s₁ ∧ f a s₁ = .ok b s' := by
  cases hx : x s with
  | ok a s₁ =>
    rw [bind_of_ok hx]
    constructor
    · intro h
      exact ⟨a, s₁, rfl, h⟩
    · rintro ⟨_, _, hx', h⟩
      cases hx'
      exact h
  | error e s₁ =>
    rw [bind_of_error hx]
    constructor
    · intro h
      cases h
    · rintro ⟨_, _, hx', _⟩
      cases hx'

/-- A sequence throws when the first part does, or goes on and then does. -/
theorem bind_eq_error {x : EStateM ε σ α} {f : α → EStateM ε σ β} {s s' : σ} {e : ε} :
    (x >>= f) s = .error e s' ↔
      x s = .error e s' ∨ ∃ a s₁, x s = .ok a s₁ ∧ f a s₁ = .error e s' := by
  cases hx : x s with
  | ok a s₁ =>
    rw [bind_of_ok hx]
    constructor
    · intro h
      exact Or.inr ⟨a, s₁, rfl, h⟩
    · rintro (hx' | ⟨_, _, hx', h⟩)
      · cases hx'
      · cases hx'
        exact h
  | error e₁ s₁ =>
    rw [bind_of_error hx]
    constructor
    · intro h
      cases h
      exact Or.inl rfl
    · rintro (hx' | ⟨_, _, hx', _⟩)
      · cases hx'
        rfl
      · cases hx'

/-- What holds at the start of a loop and after each of its turns holds at its end. -/
theorem foldlM_eq_ok {f : β → α → EStateM ε σ β} (holds : List α → β → Prop)
    (hstep : ∀ seen b a s b' s', holds seen b → f b a s = .ok b' s' → holds (seen ++ [a]) b')
    {start : β} (hstart : holds [] start) {list : List α} {s s' : σ} {b : β}
    (h : list.foldlM f start s = .ok b s') : holds list b := by
  have hrun : ∀ list seen start s, holds seen start → list.foldlM f start s = .ok b s' →
      holds (seen ++ list) b := by
    intro list
    induction list with
    | nil =>
      intro seen start s hseen hrun
      cases hrun
      rwa [List.append_nil]
    | cons a list ih =>
      intro seen start s hseen hrun
      rw [List.foldlM_cons] at hrun
      obtain ⟨b₁, s₁, hturn, hrest⟩ := bind_eq_ok.mp hrun
      have hnext := ih (seen ++ [a]) b₁ s₁ (hstep seen start a s b₁ s₁ hseen hturn) hrest
      rwa [List.append_assoc] at hnext
  exact hrun list [] start s hstart h

/-- A throw is handled in the state that it left. -/
theorem tryCatch_bind_pure (x : EStateM ε σ α) (f : α → β) (handle : ε → EStateM ε σ β) (s : σ) :
    tryCatch (x >>= fun a => pure (f a)) handle s =
      match x s with
      | .ok a s₁ => .ok (f a) s₁
      | .error e s₁ => handle e s₁ := by
  change EStateM.tryCatch (EStateM.bind x fun a => EStateM.pure (f a)) handle s = _
  delta EStateM.tryCatch EStateM.bind
  dsimp only
  cases x s with
  | ok a s₁ => rfl
  | error e s₁ => rfl

@[simp] theorem pure_eq_ok {a b : α} {s s' : σ} :
    (pure a : EStateM ε σ α) s = .ok b s' ↔ b = a ∧ s' = s := by
  constructor
  · intro h
    cases h
    exact ⟨rfl, rfl⟩
  · rintro ⟨rfl, rfl⟩
    rfl

@[simp] theorem throw_ne_ok {e : ε} {s s' : σ} {a : α} :
    (throw e : EStateM ε σ α) s ≠ .ok a s' := nofun

@[simp] theorem throwUnless_eq_ok {cond : Bool} {e : ε} {s s' : σ} {u : Unit} :
    throwUnless cond e s = .ok u s' ↔ cond = true ∧ s' = s := by
  cases cond with
  | false => simp [throwUnless]
  | true => simp [throwUnless]

@[simp] theorem orThrow_eq_ok {e : ε} {a? : Option α} {s s' : σ} {a : α} :
    orThrow e a? s = .ok a s' ↔ a? = some a ∧ s' = s := by
  cases a? with
  | none => simp [orThrow]
  | some a' =>
    rw [orThrow, pure_eq_ok, Option.some_inj]
    exact and_congr_left fun _ => eq_comm

@[simp] theorem throwUnless_eq_error {cond : Bool} {e e' : ε} {s s' : σ} :
    (throwUnless cond e : EStateM ε σ Unit) s = .error e' s' ↔
      cond = false ∧ e' = e ∧ s' = s := by
  cases cond with
  | true =>
    simp only [throwUnless, if_true, Bool.true_eq_false, false_and, iff_false]
    intro h
    cases h
  | false =>
    constructor
    · intro h
      cases h
      exact ⟨rfl, rfl, rfl⟩
    · rintro ⟨_, rfl, rfl⟩
      rfl

/-- A program that leaves the state as it is. -/
def Unchanged (x : EStateM ε σ α) : Prop := ∀ s, (x s).final = s

theorem unchanged_pure (a : α) : Unchanged (pure a : EStateM ε σ α) := fun _ => rfl

theorem unchanged_throw (e : ε) : Unchanged (throw e : EStateM ε σ α) := fun _ => rfl

theorem unchanged_throwUnless (cond : Bool) (e : ε) :
    Unchanged (throwUnless cond e : EStateM ε σ Unit) := by
  cases cond with
  | false => exact unchanged_throw e
  | true => exact unchanged_pure ()

theorem unchanged_orThrow (e : ε) (a? : Option α) :
    Unchanged (orThrow e a? : EStateM ε σ α) := by
  cases a? with
  | none => exact unchanged_throw e
  | some a => exact unchanged_pure a

/-- A sequence of programs that leave the state leaves it. -/
theorem Unchanged.bind {x : EStateM ε σ α} {f : α → EStateM ε σ β} (hx : Unchanged x)
    (hf : ∀ a, Unchanged (f a)) : Unchanged (x >>= f) := by
  intro s
  have hs := hx s
  cases hr : x s with
  | ok a s₁ =>
    rw [hr] at hs
    rw [bind_of_ok hr]
    exact (hf a s₁).trans hs
  | error e s₁ =>
    rw [hr] at hs
    rw [bind_of_error hr]
    exact hs

/-- A program that leaves the state as it is when it throws. -/
def UnchangedOnThrow (x : EStateM ε σ α) : Prop := ∀ s e s', x s = .error e s' → s' = s

/-- A sequence leaves the state on a throw when the first part never writes. -/
theorem Unchanged.bind_onThrow {x : EStateM ε σ α} {f : α → EStateM ε σ β} (hx : Unchanged x)
    (hf : ∀ a, UnchangedOnThrow (f a)) : UnchangedOnThrow (x >>= f) := by
  intro s e s' h
  have hs := hx s
  cases hr : x s with
  | ok a s₁ =>
    rw [hr] at hs
    rw [bind_of_ok hr] at h
    exact (hf a s₁ e s' h).trans hs
  | error e₁ s₁ =>
    rw [hr] at hs
    rw [bind_of_error hr] at h
    cases h
    exact hs

/-- An unchanged program returns in the state it started in. -/
theorem Unchanged.eq_of_ok {x : EStateM ε σ α} (hx : Unchanged x) {s s' : σ} {a : α}
    (h : x s = .ok a s') : s' = s := by
  rw [← hx s, h]
  rfl

/-- What holds where a program returns and where it throws. -/
def Ends (x : EStateM ε σ α) (s : σ) (returned : α → σ → Prop) (thrown : ε → σ → Prop) : Prop :=
  match x s with
  | .ok a s' => returned a s'
  | .error e s' => thrown e s'

section Ends

variable {x : EStateM ε σ α} {s s' : σ} {returned returned' : α → σ → Prop}
  {thrown thrown' : ε → σ → Prop}

@[simp] theorem ends_pure {a : α} :
    Ends (pure a : EStateM ε σ α) s returned thrown ↔ returned a s := Iff.rfl

@[simp] theorem ends_throw {e : ε} :
    Ends (throw e : EStateM ε σ α) s returned thrown ↔ thrown e s := Iff.rfl

/-- A sequence ends as its second part does, or with the throw of the first. -/
@[simp] theorem ends_bind {f : α → EStateM ε σ β} {returned : β → σ → Prop} :
    Ends (x >>= f) s returned thrown ↔
      Ends x s (fun a s' => Ends (f a) s' returned thrown) thrown := by
  unfold Ends
  cases hx : x s with
  | ok a s₁ => rw [bind_of_ok hx]
  | error e s₁ => rw [bind_of_error hx]

@[simp] theorem ends_throwUnless {cond : Bool} {e : ε} {returned : Unit → σ → Prop} :
    Ends (throwUnless cond e) s returned thrown ↔
      (cond = true → returned () s) ∧ (cond = false → thrown e s) := by
  cases cond with
  | false => simp [throwUnless]
  | true => simp [throwUnless]

/-- What holds at the ends may be weakened. -/
theorem Ends.mono (h : Ends x s returned thrown) (hr : ∀ a s', returned a s' → returned' a s')
    (ht : ∀ e s', thrown e s' → thrown' e s') : Ends x s returned' thrown' := by
  unfold Ends at h ⊢
  cases hx : x s with
  | ok a s₁ =>
    rw [hx] at h
    exact hr a s₁ h
  | error e s₁ =>
    rw [hx] at h
    exact ht e s₁ h

/-- What holds where a program returns. -/
theorem Ends.of_ok (h : Ends x s returned thrown) {a : α} (hx : x s = .ok a s') :
    returned a s' := by
  unfold Ends at h
  rwa [hx] at h

/-- What holds at every end holds of the final state. -/
theorem Ends.final {holds : σ → Prop} (h : Ends x s (fun _ => holds) (fun _ => holds)) :
    holds (x s).final := by
  unfold Ends at h
  cases hx : x s with
  | ok a s₁ =>
    rw [hx] at h
    exact h
  | error e s₁ =>
    rw [hx] at h
    exact h

end Ends

end EStateM
