import Mathlib.Data.List.Nodup

/-!
# Lists whose entries keep their places

Entries are known by their place. A list grows at its end, and an entry is replaced by another
in its place.
-/

namespace Places

variable {α β : Type} {l : List α} {i j : Nat} {a b x : α}

/-- An entry after a replacement is the new one or one that was there. -/
theorem set_cases (h : (l.set i b)[j]? = some x) : j = i ∧ x = b ∨ j ≠ i ∧ l[j]? = some x := by
  by_cases hji : j = i
  · subst hji
    rw [List.getElem?_set_self (by simpa using (List.getElem?_eq_some_iff.mp h).1),
      Option.some.injEq] at h
    exact Or.inl ⟨rfl, h.symm⟩
  · rw [List.getElem?_set_ne (Ne.symm hji)] at h
    exact Or.inr ⟨hji, h⟩

/-- The new entry is in its place. -/
theorem set_self (h : l[i]? = some a) (b : α) : (l.set i b)[i]? = some b :=
  List.getElem?_set_self (List.getElem?_eq_some_iff.mp h).1

/-- An entry that was there is replaced or stays. -/
theorem mem_set (h : l[i]? = some a) (b : α) (hx : x ∈ l) :
    x = a ∧ b ∈ l.set i b ∨ x ∈ l.set i b := by
  obtain ⟨j, hj⟩ := List.mem_iff_getElem?.mp hx
  by_cases hji : j = i
  · subst hji
    rw [h, Option.some.injEq] at hj
    exact Or.inl ⟨hj.symm, List.mem_of_getElem? (set_self h b)⟩
  · refine Or.inr (List.mem_of_getElem? (i := j) ?_)
    rw [List.getElem?_set_ne (Ne.symm hji)]
    exact hj

/-- What the new entry shares with the old one stays. -/
theorem map_set {f : α → β} (h : l[i]? = some a) (hf : f b = f a) :
    (l.set i b).map f = l.map f := by
  apply List.ext_getElem?
  intro j
  rw [List.getElem?_map, List.getElem?_map]
  by_cases hji : j = i
  · subst hji
    rw [set_self h b, h, Option.map_some, Option.map_some, hf]
  · rw [List.getElem?_set_ne (Ne.symm hji)]

/-- An entry of a list that has grown is the new one or one that was there. -/
theorem concat_cases (h : (l ++ [b])[j]? = some x) :
    l[j]? = some x ∨ j = l.length ∧ x = b := by
  rw [List.getElem?_append] at h
  split at h
  · exact Or.inl h
  · rename_i hj
    obtain ⟨hlt, hget⟩ := List.getElem?_eq_some_iff.mp h
    rw [List.length_singleton] at hlt
    have hzero : j - l.length = 0 := by omega
    simp only [hzero, List.getElem_cons_zero] at hget
    exact Or.inr ⟨by omega, hget.symm⟩

/-- An entry stays in a list that grows. -/
theorem concat_of_getElem? (h : l[j]? = some x) (b : α) : (l ++ [b])[j]? = some x := by
  rw [List.getElem?_append_left (List.getElem?_eq_some_iff.mp h).1]
  exact h

/-- Entries with a text of their own are known by it. -/
theorem eq_of_nodup {f : α → β} (h : (l.map f).Nodup) (ha : l[i]? = some a) (hb : l[j]? = some b)
    (hf : f a = f b) : i = j := by
  obtain ⟨hi, rfl⟩ := List.getElem?_eq_some_iff.mp ha
  obtain ⟨hj, rfl⟩ := List.getElem?_eq_some_iff.mp hb
  have hinjective := List.nodup_iff_injective_get.mp h
  have hsame := @hinjective ⟨i, by simpa using hi⟩ ⟨j, by simpa using hj⟩ (by simpa using hf)
  exact congrArg Fin.val hsame

end Places
