import Nopass.Core.Sql.Bystanders

/-!
# Requests on a part of a database

A request that was written for one part of a database runs on the whole, with its own
names for rows, labels and errors inside those of the whole. It leaves the rest alone.
-/

namespace ReadCommitted

variable {D D' K K' T T' E E' O O' : Type}

/-- A part `D` of the database `D'`. -/
structure Part (D' D : Type) where
  get : D' → D
  put : D → D' → D'
  get_put : ∀ x d, get (put x d) = x := by intros; rfl

/-- The names of a part inside the whole. -/
structure Names (K K' T T' E E' : Type) where
  row : K → K'
  label : T → T'
  error : E → E'

namespace Prog

variable (part : Part D' D) (names : Names K K' T T' E E')

/-- The program on the whole database. -/
def on : Prog D K T E O → Prog D' K' T' E' O
  | .ret out => .ret out
  | .error e => .error (e.map names.error)
  | .select next => .select fun d => (next (part.get d)).on
  | .stmt locks write next => .stmt
      (fun s n => (locks (part.get s) (part.get n)).map fun l => (names.row l.1, l.2))
      (fun s n d => part.put (write (part.get s) (part.get n) (part.get d)) d)
      fun s n => (next (part.get s) (part.get n)).on
  | .commit tag next => .commit (names.label tag) next.on
  | .rollback next => .rollback next.on

variable {part names}

/-- A sequence on the whole is the sequence of the parts. -/
theorem on_bind {prog : Prog D K T E O} {f : O → Prog D K T E O'} :
    (prog >>= f).on part names = prog.on part names >>= fun out => (f out).on part names := by
  induction prog with
  | ret out => rfl
  | error e => rfl
  | select next ih => exact congrArg Prog.select (funext fun d => ih (part.get d))
  | stmt locks write next ih =>
    exact congrArg (Prog.stmt _ _) (funext fun s => funext fun n => ih (part.get s) (part.get n))
  | commit tag next ih => exact congrArg (Prog.commit _) ih
  | rollback next ih => exact congrArg Prog.rollback ih

/-- Reads of a part are reads. -/
theorem Reads.on {prog : Prog D K T E O} (h : prog.Reads) : (prog.on part names).Reads := by
  induction prog with
  | ret out => trivial
  | error e => trivial
  | select next ih => exact fun d => ih _ (h _)
  | stmt locks write next => exact h.elim
  | commit tag next => exact h.elim
  | rollback next => exact h.elim

/-- A program on a part keeps to what is agreed about the rest. -/
theorem keeps_on_bind {t : Truce D' K' T' E' O'} {prog : Prog D K T E O}
    {f : O → Prog D' K' T' E' O'} (hrel : ∀ x d, t.rel d (part.put x d))
    (hf : ∀ out, t.Keeps (f out)) : t.Keeps (prog.on part names >>= f) := by
  induction prog with
  | ret out => exact hf out
  | error e => trivial
  | select next ih => exact fun d => ih _
  | stmt locks write next ih => exact fun s n => ⟨fun _ d => hrel _ d, ih _ _⟩
  | commit tag next ih => exact ih
  | rollback next ih => exact ih

/-- A request that may fail goes on after a program on a part, whatever that did to it. -/
theorem wp_on_bind {t : Truce D' K' T' E' O'} {mayFail : Prop} {Q : O' → D' → Prop}
    {prog : Prog D K T E O} {f : O → Prog D' K' T' E' O'} {w : D' → D'} {d : D'}
    (hrel : ∀ x d, t.rel d (part.put x d)) (hfail : mayFail) (hw : ∀ d, t.rel d (w d))
    (hf : ∀ out w d', (∀ d, t.rel d (w d)) → t.rel d d' → t.wp mayFail Q (f out) w d') :
    t.wp mayFail Q (prog.on part names >>= f) w d := by
  induction prog generalizing w d with
  | ret out => exact hf out w d hw (t.rel_refl d)
  | error e => exact hfail
  | select next ih =>
    exact fun d₁ h₁ => ih _ hw fun out w' d₂ hw' h₂ => hf out w' d₂ hw' (t.rel_trans h₁ h₂)
  | stmt locks write next ih =>
    intro s hs _ n hn
    apply ih _ _ (fun d => t.rel_trans (hw d) (hrel _ _))
    intro out w' d₂ hw' h₂
    exact hf out w' d₂ hw' (t.rel_trans hs (t.rel_trans hn h₂))
  | commit tag next ih =>
    intro d₁ h₁
    apply ih t.rel_refl
    intro out w' d₂ hw' h₂
    exact hf out w' d₂ hw' (t.rel_trans h₁ (t.rel_trans (hw d₁) h₂))
  | rollback next ih =>
    intro d₁ h₁
    apply ih t.rel_refl
    intro out w' d₂ hw' h₂
    exact hf out w' d₂ hw' (t.rel_trans h₁ h₂)

end Prog

end ReadCommitted
