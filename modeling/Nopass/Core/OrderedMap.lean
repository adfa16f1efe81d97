import Mathlib.Data.List.Induction
import Mathlib.Data.List.Nodup

/-!
# Maps that keep the order of insertion

A key that is set again keeps its place; a new key goes to the end.
-/

/-- A map as its entries in order, each key once. -/
structure OrderedMap (K V : Type) where
  entries : List (K × V)
  nodup : (entries.map (·.1)).Nodup

namespace OrderedMap

variable {K V : Type} [DecidableEq K]

/-- The entries with a new value for a key. -/
def setEntries (k : K) (v : V) : List (K × V) → List (K × V)
  | [] => [(k, v)]
  | e :: rest => if e.1 = k then (k, v) :: rest else e :: setEntries k v rest

/-- The value of a key among entries. -/
def getEntries (k : K) : List (K × V) → Option V
  | [] => none
  | e :: rest => if e.1 = k then some e.2 else getEntries k rest

/-- Setting a key keeps the list of keys or adds it at the end. -/
theorem keys_setEntries (k : K) (v : V) (entries : List (K × V)) :
    (setEntries k v entries).map (·.1) =
      if k ∈ entries.map (·.1) then entries.map (·.1) else entries.map (·.1) ++ [k] := by
  induction entries with
  | nil => rfl
  | cons e rest ih =>
    rw [setEntries]
    by_cases he : e.1 = k
    · simp [he]
    · have hne : k ≠ e.1 := fun h => he h.symm
      rw [if_neg he, List.map_cons, ih, List.map_cons]
      simp only [List.mem_cons, hne, false_or]
      split
      · rfl
      · rfl

/-- What is found after setting a key. -/
theorem getEntries_setEntries (k k' : K) (v : V) (entries : List (K × V)) :
    getEntries k' (setEntries k v entries) = if k' = k then some v else getEntries k' entries := by
  induction entries with
  | nil => simp [setEntries, getEntries, eq_comm]
  | cons e rest ih =>
    rw [setEntries]
    by_cases he : e.1 = k
    · rw [if_pos he, getEntries, getEntries]
      by_cases hk : k' = k
      · rw [if_pos hk.symm, if_pos hk]
      · have hne : ¬ e.1 = k' := fun h => hk (h.symm.trans he)
        rw [if_neg (fun h => hk h.symm), if_neg hk, if_neg hne]
    · rw [if_neg he, getEntries, getEntries, ih]
      by_cases hk : e.1 = k'
      · have hne : ¬ k' = k := fun h => he (hk.trans h)
        rw [if_pos hk, if_neg hne, if_pos hk]
      · rw [if_neg hk, if_neg hk]

/-- A key is found exactly when it is there. -/
theorem isSome_getEntries (k : K) (entries : List (K × V)) :
    (getEntries k entries).isSome ↔ k ∈ entries.map (·.1) := by
  induction entries with
  | nil => simp [getEntries]
  | cons e rest ih =>
    rw [getEntries, List.map_cons, List.mem_cons]
    by_cases he : e.1 = k
    · simp [he]
    · rw [if_neg he, ih]
      have hne : k ≠ e.1 := fun h => he h.symm
      simp only [hne, false_or]

/-- Entries with distinct keys are known by their keys and what is found. -/
theorem entries_ext {l l' : List (K × V)} (hl : (l.map (·.1)).Nodup)
    (hkeys : l.map (·.1) = l'.map (·.1)) (hget : ∀ k, getEntries k l = getEntries k l') :
    l = l' := by
  induction l generalizing l' with
  | nil => exact (List.map_eq_nil_iff.mp hkeys.symm).symm
  | cons e rest ih =>
    cases l' with
    | nil => cases hkeys
    | cons e' rest' =>
      rw [List.map_cons, List.map_cons, List.cons.injEq] at hkeys
      obtain ⟨hkey, hrest⟩ := hkeys
      rw [List.map_cons, List.nodup_cons] at hl
      have hvalue : e.2 = e'.2 := by
        have h := hget e.1
        rw [getEntries, getEntries, if_pos rfl, if_pos hkey.symm] at h
        exact Option.some.inj h
      rw [Prod.ext hkey hvalue]
      congr 1
      refine ih hl.2 hrest fun k => ?_
      by_cases hk : e.1 = k
      · have hnone : ∀ m : List (K × V), k ∉ m.map (·.1) → getEntries k m = none := by
          intro m hm
          rw [← isSome_getEntries, Bool.not_eq_true, Option.isSome_eq_false_iff,
            Option.isNone_iff_eq_none] at hm
          exact hm
        subst hk
        rw [hnone rest hl.1, hnone rest' (hrest ▸ hl.1)]
      · have h := hget k
        rwa [getEntries, getEntries, if_neg hk, if_neg (hkey ▸ hk)] at h

/-- No entries. -/
def empty : OrderedMap K V := ⟨[], List.nodup_nil⟩

/-- `map.set(k, v)`. -/
def set (m : OrderedMap K V) (k : K) (v : V) : OrderedMap K V where
  entries := setEntries k v m.entries
  nodup := by
    rw [keys_setEntries]
    split
    · exact m.nodup
    · rename_i hk
      refine List.nodup_append.mpr ⟨m.nodup, List.nodup_singleton k, fun a ha b hb => ?_⟩
      rw [List.mem_singleton.mp hb]
      rintro rfl
      exact hk ha

/-- `map.delete(k)`. -/
def delete (m : OrderedMap K V) (k : K) : OrderedMap K V where
  entries := m.entries.filter fun e => decide (e.1 ≠ k)
  nodup := m.nodup.sublist (List.filter_sublist.map _)

/-- `map.get(k)`. -/
def get (m : OrderedMap K V) (k : K) : Option V := getEntries k m.entries

/-- The keys in order. -/
def keys (m : OrderedMap K V) : List K := m.entries.map (·.1)

/-- `map.values()`. -/
def values (m : OrderedMap K V) : List V := m.entries.map (·.2)

/-- `new Map(entries)`: a later entry of a key takes the place of an earlier one. -/
def ofList (entries : List (K × V)) : OrderedMap K V :=
  entries.foldl (fun m e => m.set e.1 e.2) empty

variable {m m' : OrderedMap K V}

@[simp] theorem get_empty (k : K) : (empty : OrderedMap K V).get k = none := rfl

@[simp] theorem get_set (m : OrderedMap K V) (k k' : K) (v : V) :
    (m.set k v).get k' = if k' = k then some v else m.get k' :=
  getEntries_setEntries k k' v m.entries

/-- The keys after setting one. -/
theorem keys_set (m : OrderedMap K V) (k : K) (v : V) :
    (m.set k v).keys = if k ∈ m.keys then m.keys else m.keys ++ [k] :=
  keys_setEntries k v m.entries

/-- A key is found exactly when it is there. -/
theorem isSome_get {k : K} : (m.get k).isSome ↔ k ∈ m.keys :=
  isSome_getEntries k m.entries

/-- Setting a key that is there keeps the keys. -/
theorem keys_set_of_mem {k : K} (h : (m.get k).isSome) (v : V) : (m.set k v).keys = m.keys := by
  rw [keys_set, if_pos (isSome_get.mp h)]

/-- Maps are known by their keys and what is found. -/
theorem ext (hkeys : m.keys = m'.keys) (hget : ∀ k, m.get k = m'.get k) : m = m' := by
  have h := entries_ext m.nodup hkeys hget
  cases m
  cases m'
  simpa using h

/-- The entry of a key is what is found. -/
theorem mem_entries {k : K} {v : V} : (k, v) ∈ m.entries ↔ m.get k = some v := by
  obtain ⟨entries, nodup⟩ := m
  change (k, v) ∈ entries ↔ getEntries k entries = some v
  induction entries with
  | nil => simp [getEntries]
  | cons e rest ih =>
    rw [List.map_cons, List.nodup_cons] at nodup
    rw [getEntries, List.mem_cons]
    by_cases he : e.1 = k
    · rw [if_pos he]
      constructor
      · rintro (rfl | hrest)
        · rfl
        · exact (nodup.1 (he ▸ List.mem_map_of_mem hrest)).elim
      · intro hv
        left
        rw [← he, ← Option.some.inj hv]
    · rw [if_neg he, ← ih nodup.2]
      constructor
      · rintro (rfl | hrest)
        · exact (he rfl).elim
        · exact hrest
      · exact Or.inr

/-- What is found after deleting a key. -/
@[simp] theorem get_delete (m : OrderedMap K V) (k k' : K) :
    (m.delete k).get k' = if k' = k then none else m.get k' := by
  ext v
  by_cases hk : k' = k
  · rw [← mem_entries, if_pos hk, delete, List.mem_filter, hk]
    simp
  · rw [← mem_entries, if_neg hk, ← mem_entries, delete, List.mem_filter]
    simp [hk]

/-- Maps with the same entries are the same. -/
theorem eq_of_entries (h : m.entries = m'.entries) : m = m' := by
  cases m
  cases m'
  simpa using h

/-- A new key goes to the end. -/
theorem entries_set_of_not_mem {k : K} (h : k ∉ m.keys) (v : V) :
    (m.set k v).entries = m.entries ++ [(k, v)] := by
  obtain ⟨entries, nodup⟩ := m
  change setEntries k v entries = entries ++ [(k, v)]
  change k ∉ entries.map (·.1) at h
  clear nodup
  induction entries with
  | nil => rfl
  | cons e rest ih =>
    rw [List.map_cons, List.mem_cons, not_or] at h
    have hne : ¬ e.1 = k := fun he => h.1 he.symm
    rw [setEntries, if_neg hne, ih h.2, List.cons_append]

/-- Entries with distinct keys are read back. -/
theorem entries_ofList {entries : List (K × V)} (h : (entries.map (·.1)).Nodup) :
    (ofList entries).entries = entries := by
  induction entries using List.reverseRecOn with
  | nil => rfl
  | append_singleton entries e ih =>
    rw [List.map_append, List.nodup_append] at h
    have hrest := ih h.1
    rw [ofList, List.foldl_append, List.foldl_cons, List.foldl_nil]
    change ((ofList entries).set e.1 e.2).entries = _
    rw [entries_set_of_not_mem, hrest]
    rw [keys, hrest]
    intro hmem
    exact h.2.2 e.1 hmem e.1 (by simp) rfl

end OrderedMap

namespace Nopass

/-- What every object inherits; these properties are there and are no numbers. -/
def objectPrototype : List String :=
  ["__proto__", "constructor", "hasOwnProperty", "isPrototypeOf", "propertyIsEnumerable",
    "toLocaleString", "toString", "valueOf", "__defineGetter__", "__defineSetter__",
    "__lookupGetter__", "__lookupSetter__"]

end Nopass
