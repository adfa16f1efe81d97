import Mathlib.Data.List.Induction
import Mathlib.Data.List.Infix

/-!
# Domain names and lists of public suffixes

A name is a text; what follows one of its dots is a name that it is under. A list of public
suffixes is any set of names. The registrable domain of a name is its longest listed suffix
with one more label, unless the name is listed itself or is an address.
-/

/-- `s.endsWith(suffix)`. -/
def endsWith (s suffix : String) : Bool := suffix.toList.isSuffixOf s.toList

/-- `s.startsWith(start)`. -/
def startsWith (s start : String) : Bool := start.toList.isPrefixOf s.toList

namespace Domain

/-- The names that a name is under, longest first. -/
def parents : List Char → List (List Char)
  | [] => []
  | c :: rest => if c = '.' then rest :: parents rest else parents rest

/-- A name and the names that it is under. -/
def chain (name : List Char) : List (List Char) := name :: parents name

/-- One name is under another. -/
def Under (name parent : List Char) : Prop := ('.' :: parent) <:+ name

instance (name parent : List Char) : Decidable (Under name parent) :=
  inferInstanceAs (Decidable (('.' :: parent) <:+ name))

/-- What a name is under. -/
theorem parents_append (front name : List Char) :
    parents (front ++ '.' :: name) =
      (parents front).map (· ++ '.' :: name) ++ name :: parents name := by
  induction front with
  | nil => simp [parents]
  | cons c rest ih =>
    rw [List.cons_append, parents, parents, ih]
    split
    · rfl
    · rfl

/-- A name is under exactly what follows its dots. -/
theorem mem_parents {name parent : List Char} : parent ∈ parents name ↔ Under name parent := by
  constructor
  · intro h
    induction name with
    | nil => cases h
    | cons c rest ih =>
      rw [parents] at h
      by_cases hc : c = '.'
      · rw [if_pos hc] at h
        rcases List.mem_cons.mp h with rfl | h
        · rw [hc]
          exact List.suffix_refl _
        · exact (ih h).trans (List.suffix_cons c rest)
      · rw [if_neg hc] at h
        exact (ih h).trans (List.suffix_cons c rest)
  · rintro ⟨front, rfl⟩
    rw [parents_append]
    exact List.mem_append_right _ List.mem_cons_self

/-- A name is longer than what it is under. -/
theorem Under.length_lt {name parent : List Char} (h : Under name parent) :
    parent.length < name.length := by
  have hle := h.length_le
  rw [List.length_cons] at hle
  omega

/-- The names of a chain get shorter. -/
theorem pairwise_chain (name : List Char) :
    (chain name).Pairwise fun a b => b.length < a.length := by
  refine List.pairwise_cons.mpr ⟨fun a ha => (mem_parents.mp ha).length_lt, ?_⟩
  induction name with
  | nil => exact List.Pairwise.nil
  | cons c rest ih =>
    rw [parents]
    split
    · exact List.pairwise_cons.mpr ⟨fun a ha => (mem_parents.mp ha).length_lt, ih⟩
    · exact ih

end Domain

/-- A list of public suffixes, and what counts as an address. -/
structure SuffixList where
  listed : List Char → Bool
  isIp : List Char → Bool

namespace SuffixList

open Domain

variable {psl : SuffixList} {name parent : List Char}

/-- The first listed name of a chain. -/
def publicSuffix (psl : SuffixList) (name : List Char) : Option (List Char) :=
  (chain name).find? psl.listed

/-- The name of a chain before the first listed one; none when that is the first of all. -/
def beforeListed (psl : SuffixList) : List (List Char) → Option (List Char)
  | a :: b :: rest =>
    if psl.listed a then none
    else if psl.listed b then some a
    else psl.beforeListed (b :: rest)
  | _ => none

/-- The registrable domain of a name. -/
def domain (psl : SuffixList) (name : List Char) : Option (List Char) :=
  if psl.isIp name then none else psl.beforeListed (chain name)

/-- Names that are not listed play no part before the others. -/
theorem beforeListed_append {front rest : List (List Char)} {a : List Char}
    (hfront : ∀ b ∈ front, psl.listed b = false) (ha : psl.listed a = false) :
    psl.beforeListed (front ++ a :: rest) = psl.beforeListed (a :: rest) := by
  induction front with
  | nil => rfl
  | cons b front ih =>
    have hb := hfront b List.mem_cons_self
    have hrest := ih fun c hc => hfront c (List.mem_cons_of_mem _ hc)
    cases front with
    | nil =>
      rw [List.singleton_append, beforeListed, if_neg (by simp [hb]), if_neg (by simp [ha])]
    | cons c front =>
      have hc := hfront c (List.mem_cons_of_mem _ List.mem_cons_self)
      rw [List.cons_append, List.cons_append, beforeListed, if_neg (by simp [hb]),
        if_neg (by simp [hc])]
      exact hrest

/-- A name before the first listed one is not listed, and stands before every listed one. -/
theorem beforeListed_eq_some {names : List (List Char)} {a : List Char}
    (h : psl.beforeListed names = some a) : ∃ front b rest, names = front ++ a :: b :: rest ∧
      (∀ c ∈ front, psl.listed c = false) ∧ psl.listed a = false ∧ psl.listed b = true := by
  induction names with
  | nil => cases h
  | cons x names ih =>
    cases names with
    | nil => cases h
    | cons y rest =>
      rw [beforeListed] at h
      by_cases hx : psl.listed x = true
      · rw [if_pos hx] at h
        cases h
      · rw [if_neg hx] at h
        rw [Bool.not_eq_true] at hx
        by_cases hy : psl.listed y = true
        · rw [if_pos hy] at h
          cases h
          exact ⟨[], y, rest, rfl, nofun, hx, hy⟩
        · rw [if_neg hy] at h
          obtain ⟨front, b, rest', hsplit, hfront, ha, hb⟩ := ih h
          refine ⟨x :: front, b, rest', by rw [hsplit, List.cons_append], fun c hc => ?_, ha, hb⟩
          rcases List.mem_cons.mp hc with rfl | hc
          · exact hx
          · exact hfront c hc

/-- A name that has a registrable domain is not listed. -/
theorem listed_of_domain (h : psl.domain name ≠ none) : psl.listed name = false := by
  obtain ⟨a, ha⟩ := Option.ne_none_iff_exists'.mp h
  rw [domain] at ha
  split at ha
  · cases ha
  · obtain ⟨front, b, rest, hsplit, hfront, hlisted, -⟩ := beforeListed_eq_some ha
    cases front with
    | nil =>
      rw [List.nil_append, chain, List.cons.injEq] at hsplit
      rw [hsplit.1]
      exact hlisted
    | cons x front =>
      rw [List.cons_append, chain, List.cons.injEq] at hsplit
      rw [hsplit.1]
      exact hfront x List.mem_cons_self

/-- The names of a chain that are under one of its names stand before it. -/
theorem chain_of_under (h : Under name parent) : ∃ front, chain name = front ++ chain parent ∧
    ∀ a ∈ front, Under a parent := by
  obtain ⟨front, rfl⟩ := h
  refine ⟨(front ++ '.' :: parent) :: (parents front).map (· ++ '.' :: parent), ?_, ?_⟩
  · rw [chain, parents_append]
    rfl
  · intro a ha
    rcases List.mem_cons.mp ha with rfl | ha
    · exact ⟨front, rfl⟩
    · obtain ⟨b, -, rfl⟩ := List.mem_map.mp ha
      exact ⟨b, rfl⟩

/-- The registrable domain of a name is a name that it is under, and that is registrable itself,
exactly when no listed suffix of the name lies in between. -/
theorem domain_eq_of_under (h : Under name parent) (hparent : psl.domain parent = some parent) :
    psl.domain name = some parent ↔ psl.isIp name = false ∧
      ∀ s ∈ chain name, psl.listed s = true → ¬ Under s parent := by
  obtain ⟨front, hchain, hfront⟩ := chain_of_under h
  have hunlisted := listed_of_domain (by rw [hparent]; exact Option.some_ne_none _)
  have hbefore : psl.beforeListed (chain parent) = some parent := by
    rw [domain] at hparent
    split at hparent
    · cases hparent
    · exact hparent
  constructor
  · intro hname
    rw [domain] at hname
    split at hname
    · cases hname
    · rename_i hip
      refine ⟨by simpa using hip, fun s hs hlisted hunder => ?_⟩
      obtain ⟨front', b, rest, hsplit, hfront', hself, -⟩ := beforeListed_eq_some hname
      -- whatever stands before the parent is not listed, and whatever follows is no longer
      rw [hsplit] at hs
      rcases List.mem_append.mp hs with hs | hs
      · rw [hfront' s hs] at hlisted
        cases hlisted
      · rcases List.mem_cons.mp hs with rfl | hs
        · rw [hself] at hlisted
          cases hlisted
        · have hpair := pairwise_chain name
          rw [hsplit, List.pairwise_append] at hpair
          have hshort := (List.pairwise_cons.mp hpair.2.1).1 s hs
          have hlong := hunder.length_lt
          omega
  · rintro ⟨hip, hnone⟩
    rw [domain, if_neg (by simp [hip]), hchain]
    change psl.beforeListed (front ++ parent :: parents parent) = _
    rw [beforeListed_append (fun a ha => ?_) hunlisted]
    · exact hbefore
    · have hmem : a ∈ chain name := by
        rw [hchain]
        exact List.mem_append_left _ ha
      by_contra hlisted
      exact hnone a hmem (by simpa using hlisted) (hfront a ha)

/-- The names of a chain are suffixes of its name. -/
theorem suffix_of_mem_chain {s : List Char} (h : s ∈ chain name) : s <:+ name := by
  rcases List.mem_cons.mp h with rfl | h
  · exact List.suffix_refl _
  · exact (List.suffix_cons '.' s).trans (mem_parents.mp h)

/-- The public suffix of a name is below another name exactly when some listed suffix is. -/
theorem publicSuffix_under_iff : (∃ s ∈ psl.publicSuffix name, Under s parent) ↔
    ∃ s ∈ chain name, psl.listed s = true ∧ Under s parent := by
  constructor
  · rintro ⟨s, hs, hunder⟩
    exact ⟨s, List.mem_of_find?_eq_some hs, List.find?_some hs, hunder⟩
  · rintro ⟨s, hs, hlisted, hunder⟩
    obtain ⟨p, hp⟩ := Option.isSome_iff_exists.mp
      (List.find?_isSome.mpr ⟨s, hs, hlisted⟩)
    refine ⟨p, hp, ?_⟩
    obtain ⟨-, before, after, hsplit, hbefore⟩ := List.find?_eq_some_iff_append.mp hp
    have hle : s.length ≤ p.length := by
      have hpair := pairwise_chain name
      rw [hsplit] at hs hpair
      rcases List.mem_append.mp hs with hs | hs
      · have hnot := hbefore s hs
        rw [hlisted] at hnot
        cases hnot
      · rcases List.mem_cons.mp hs with rfl | hs
        · exact le_rfl
        · exact ((List.pairwise_cons.mp (List.pairwise_append.mp hpair).2.1).1 s hs).le
    have hsuffix : s <:+ p := List.suffix_of_suffix_length_le (suffix_of_mem_chain hs)
      (suffix_of_mem_chain (List.mem_of_find?_eq_some hp)) hle
    exact hunder.trans hsuffix

end SuffixList
