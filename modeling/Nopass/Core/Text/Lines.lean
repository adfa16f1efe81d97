import Mathlib.Data.List.Basic

/-!
# Lines

A text falls into lines, each with its terminator: a line feed with or without a carriage
return before it. The last line has none. Splitting and joining are inverse to each other.
-/

namespace Lines

variable {α : Type} {cr lf : α}

/-- An element more at the start of the first line. -/
def prepend (a : α) : List (List α × List α) → List (List α × List α)
  | [] => [([a], [])]
  | line :: lines => (a :: line.1, line.2) :: lines

/-- The text of lines. -/
def join (lines : List (List α × List α)) : List α := lines.flatMap fun line => line.1 ++ line.2

/-- A terminator that may follow the text of a line. -/
def Ends (cr lf : α) (line : List α × List α) : Prop :=
  line.2 = [lf] ∧ line.1.getLast? ≠ some cr ∨ line.2 = [cr, lf]

/-- Lines as they come from a text: every line but the last one is terminated. -/
inductive Proper (cr lf : α) : List (List α × List α) → Prop
  | last {text : List α} : lf ∉ text → Proper cr lf [(text, [])]
  | cons {line : List α × List α} {lines : List (List α × List α)} :
      lf ∉ line.1 → Ends cr lf line → Proper cr lf lines → Proper cr lf (line :: lines)

@[simp] theorem join_cons (line : List α × List α) (lines : List (List α × List α)) :
    join (line :: lines) = line.1 ++ line.2 ++ join lines := rfl

@[simp] theorem join_prepend (a : α) (lines : List (List α × List α)) :
    join (prepend a lines) = a :: join lines := by
  cases lines with
  | nil => rfl
  | cons line lines => simp [prepend]

/-- An element inside a line keeps the lines proper. -/
theorem Proper.prepend {a : α} {lines : List (List α × List α)} (h : Proper cr lf lines)
    (ha : a ≠ lf) (hcr : a = cr → (join lines).head? ≠ some lf) :
    Proper cr lf (prepend a lines) := by
  cases h with
  | last htext =>
    exact .last (by simpa [ha.symm] using htext)
  | cons htext hends hlines =>
    rename_i line lines
    refine .cons (by simpa [ha.symm] using htext) ?_ hlines
    rcases hends with ⟨hlf, hlast⟩ | hcrlf
    · left
      refine ⟨hlf, ?_⟩
      cases htext : line.1 with
      | nil =>
        rw [List.getLast?_singleton]
        rintro ⟨⟩
        apply hcr rfl
        rw [join_cons, htext, hlf]
        rfl
      | cons b text =>
        rw [htext] at hlast
        rwa [List.getLast?_cons_cons]
    · exact .inr hcrlf

/-- A line ends with one of two terminators, or with the text. -/
theorem Proper.terminator {lines : List (List α × List α)} (h : Proper cr lf lines)
    {line : List α × List α} (hline : line ∈ lines) :
    line.2 = [] ∨ line.2 = [lf] ∨ line.2 = [cr, lf] := by
  induction h with
  | last =>
    rw [List.mem_singleton] at hline
    exact .inl (by rw [hline])
  | cons _ hends _ ih =>
    rcases List.mem_cons.mp hline with rfl | hline
    · rcases hends with ⟨hlf, -⟩ | hcrlf
      · exact .inr (.inl hlf)
      · exact .inr (.inr hcrlf)
    · exact ih hline

/-- Lines stay proper when the text of one is replaced by a text without line ends. -/
theorem Proper.set {lines : List (List α × List α)} (h : Proper cr lf lines) {index : Nat}
    {line : List α × List α} (hline : lines[index]? = some line) {text : List α}
    (hlf : lf ∉ text) (hcr : cr ∉ text) : Proper cr lf (lines.set index (text, line.2)) := by
  induction h generalizing index with
  | last =>
    cases index with
    | zero =>
      cases hline
      exact .last hlf
    | succ index => cases hline
  | cons htext hends hrest ih =>
    cases index with
    | zero =>
      cases hline
      refine .cons hlf ?_ hrest
      rcases hends with ⟨hterminator, -⟩ | hcrlf
      · exact .inl ⟨hterminator, fun hlast => hcr (List.mem_of_getLast? hlast)⟩
      · exact .inr hcrlf
    | succ index => exact .cons htext hends (ih hline)

variable [DecidableEq α]

/-- The lines of a text, each with its terminator. -/
def split (cr lf : α) : List α → List (List α × List α)
  | [] => [([], [])]
  | [a] => if a = lf then [([], [a]), ([], [])] else [([a], [])]
  | a :: b :: rest =>
    if a = lf then ([], [a]) :: split cr lf (b :: rest)
    else if a = cr ∧ b = lf then ([], [a, b]) :: split cr lf rest
    else prepend a (split cr lf (b :: rest))

@[simp] theorem split_lf (rest : List α) :
    split cr lf (lf :: rest) = ([], [lf]) :: split cr lf rest := by
  cases rest with
  | nil => simp [split]
  | cons b rest => simp [split]

/-- What follows an element inside a line. -/
theorem split_cons {a : α} {rest : List α} (ha : a ≠ lf) (hcr : a = cr → rest.head? ≠ some lf) :
    split cr lf (a :: rest) = prepend a (split cr lf rest) := by
  cases rest with
  | nil => simp [split, ha, prepend]
  | cons b rest =>
    have hpair : ¬ (a = cr ∧ b = lf) := by
      rintro ⟨rfl, rfl⟩
      exact hcr rfl rfl
    rw [split, if_neg ha, if_neg hpair]

/-- A carriage return before a line feed belongs to the terminator. -/
theorem split_cr_lf (hne : cr ≠ lf) (rest : List α) :
    split cr lf (cr :: lf :: rest) = ([], [cr, lf]) :: split cr lf rest := by
  rw [split, if_neg hne, if_pos ⟨rfl, rfl⟩]

/-- The lines of a text make up the text. -/
@[simp] theorem join_split (text : List α) : join (split cr lf text) = text := by
  induction text using split.induct cr lf with
  | case1 => rfl
  | case2 => simp [split, join]
  | case3 a h => simp [split, h, join]
  | case4 b rest ih => simp [ih]
  | case5 a b rest h hpair ih =>
    obtain ⟨rfl, rfl⟩ := hpair
    simp [split_cr_lf h, ih]
  | case6 a b rest h hpair ih => simp [split, h, hpair, ih]

/-- The lines of a text are proper. -/
theorem proper_split (hne : cr ≠ lf) (text : List α) : Proper cr lf (split cr lf text) := by
  induction text using split.induct cr lf with
  | case1 => exact .last List.not_mem_nil
  | case2 =>
    rw [split_lf]
    exact .cons List.not_mem_nil (.inl ⟨rfl, by simp⟩) (.last List.not_mem_nil)
  | case3 a h =>
    rw [split, if_neg h]
    exact .last (by simpa using fun heq => h heq.symm)
  | case4 b rest ih =>
    rw [split_lf]
    exact .cons List.not_mem_nil (.inl ⟨rfl, by simp⟩) ih
  | case5 a b rest h hpair ih =>
    obtain ⟨rfl, rfl⟩ := hpair
    rw [split_cr_lf hne]
    exact .cons List.not_mem_nil (.inr rfl) ih
  | case6 a b rest h hpair ih =>
    have hcr : a = cr → (b :: rest).head? ≠ some lf := by
      rintro rfl hb
      exact hpair ⟨rfl, Option.some.inj hb⟩
    rw [split_cons h hcr]
    exact ih.prepend h (by rwa [join_split])

/-- A text without a line feed is one line. -/
theorem split_of_not_mem {text : List α} (h : lf ∉ text) : split cr lf text = [(text, [])] := by
  induction text with
  | nil => rfl
  | cons a rest ih =>
    rw [List.mem_cons, not_or] at h
    have hhead : a = cr → rest.head? ≠ some lf := fun _ hlf => h.2 (List.mem_of_mem_head? hlf)
    rw [split_cons (fun ha => h.1 ha.symm) hhead, ih h.2]
    rfl

/-- A terminated line comes first. -/
theorem split_append (hne : cr ≠ lf) {line : List α × List α} (h : lf ∉ line.1)
    (hends : Ends cr lf line) (rest : List α) :
    split cr lf (line.1 ++ line.2 ++ rest) = line :: split cr lf rest := by
  obtain ⟨text, terminator⟩ := line
  induction text with
  | nil =>
    rcases hends with ⟨hlf, -⟩ | hcrlf
    · simp only at hlf
      rw [hlf]
      exact split_lf rest
    · simp only at hcrlf
      rw [hcrlf]
      exact split_cr_lf hne rest
  | cons a text ih =>
    simp only [List.mem_cons, not_or] at h ih
    have hrest : Ends cr lf (text, terminator) := by
      rcases hends with ⟨hlf, hlast⟩ | hcrlf
      · refine .inl ⟨hlf, ?_⟩
        intro hcr
        cases text with
        | nil => cases hcr
        | cons b text => exact hlast (by simpa using hcr)
      · exact .inr hcrlf
    have hhead : a = cr → (text ++ terminator ++ rest).head? ≠ some lf := by
      rintro rfl hlf
      cases text with
      | nil =>
        rcases hends with ⟨-, hlast⟩ | hcrlf
        · exact hlast rfl
        · simp only at hcrlf
          rw [hcrlf] at hlf
          exact hne (Option.some.inj hlf)
      | cons b text => exact h.2 (by simpa using Or.inl (Option.some.inj hlf).symm)
    have hsplit := split_cons (fun ha => h.1 ha.symm) hhead
    rw [ih h.2 hrest] at hsplit
    exact hsplit

/-- Proper lines are found again in their text. -/
theorem split_join (hne : cr ≠ lf) {lines : List (List α × List α)} (h : Proper cr lf lines) :
    split cr lf (join lines) = lines := by
  induction h with
  | last htext => simpa [join] using split_of_not_mem htext
  | cons htext hends _ ih => rw [join_cons, split_append hne htext hends, ih]

end Lines
