import Nopass.Cli.SecretRefs

/-!
# What a reference resolves to

The fields of a login item share the variables that start with the item's key. Each is
written under its folded name, empty ones not at all, and a later field takes the place
of an earlier one. A reference reads the variable that its own folded name stands for.
-/

namespace Nopass

open JsText

/-- The folded names of a login item's fields with their values, in the order in which they are
written; the password is written under the item's key alone. -/
def LoginItem.slots (cases : CaseMapping) (item : LoginItem) : List (JsText × JsText) :=
  (js "USERNAME", item.username) :: (js "TOTP", item.totp.getD []) ::
    item.customFields.map fun field => (toEnvKey cases field.name, field.value)

/-- The last of the slots that have this name and a value. -/
def LastUnder (slots : List (JsText × JsText)) (name value : JsText) : Prop :=
  ∃ before after, slots = before ++ (name, value) :: after ∧ value ≠ [] ∧
    ∀ slot ∈ after, slot.1 = name → slot.2 = []

/-- A reference to a field of an item gives the field's value, and an error when there is none. -/
def Answers (cases : CaseMapping) (vault : List VaultItemPlaintext) (itemName field value : JsText) :
    Prop :=
  if value = [] then ∃ e, resolveReference cases vault (formatReference itemName field) = .error e
  else resolveReference cases vault (formatReference itemName field) = .ok value

/-- Every field of a login item is found under its own name. -/
structure FieldsResolve (cases : CaseMapping) (vault : List VaultItemPlaintext) (item : LoginItem) :
    Prop where
  password : Answers cases vault item.name (js "password") item.password
  username : Answers cases vault item.name (js "username") item.username
  totp : Answers cases vault item.name (js "totp") (item.totp.getD [])
  custom : ∀ field ∈ item.customFields,
    resolveReference cases vault (formatReference item.name field.name) = .ok field.value

/-- No field of a login item stands in another's place. -/
structure Unshadowed (cases : CaseMapping) (item : LoginItem) : Prop where
  /-- An item without a name has nothing to refer to. -/
  named : item.name = [] → item.password = [] ∧ item.username = [] ∧ item.totp.getD [] = [] ∧
    item.customFields = []
  /-- A custom field whose name folds to `USERNAME` holds the username. -/
  username : ∀ value, LastUnder (item.slots cases) (js "USERNAME") value → value = item.username
  totp : ∀ value, LastUnder (item.slots cases) (js "TOTP") value → value = item.totp.getD []
  /-- A custom field called `password` holds the password; any other has a value, and is the last
  that has one among the fields whose names fold to what its lower-case name folds to. -/
  custom : ∀ field ∈ item.customFields,
    if cases.toLowerCase field.name = js "password" then
      field.value ≠ [] ∧ field.value = item.password
    else LastUnder (item.slots cases) (toEnvKey cases (cases.toLowerCase field.name)) field.value

section Slots

variable {cases : CaseMapping} {start name value : JsText} {slots : List (JsText × JsText)}

/-- The last slot with a name and a value, one slot further. -/
theorem lastUnder_cons {slot : JsText × JsText} : LastUnder (slot :: slots) name value ↔
    LastUnder slots name value ∨
      slot = (name, value) ∧ value ≠ [] ∧ ∀ s ∈ slots, s.1 = name → s.2 = [] := by
  constructor
  · rintro ⟨before, after, heq, hvalue, hlast⟩
    cases before with
    | nil =>
      obtain ⟨rfl, rfl⟩ := List.cons.inj heq
      exact .inr ⟨rfl, hvalue, hlast⟩
    | cons s before =>
      obtain ⟨rfl, rfl⟩ := List.cons.inj heq
      exact .inl ⟨before, after, rfl, hvalue, hlast⟩
  · rintro (⟨before, after, rfl, hvalue, hlast⟩ | ⟨rfl, hvalue, hlast⟩)
    · exact ⟨slot :: before, after, rfl, hvalue, hlast⟩
    · exact ⟨[], slots, rfl, hvalue, hlast⟩

/-- Under a name that has a value there is a last one. -/
theorem exists_lastUnder (h : ∃ slot ∈ slots, slot.1 = name ∧ slot.2 ≠ []) :
    ∃ value, LastUnder slots name value := by
  induction slots with
  | nil => simp at h
  | cons s slots ih =>
    by_cases hlater : ∃ slot ∈ slots, slot.1 = name ∧ slot.2 ≠ []
    · obtain ⟨value, hlast⟩ := ih hlater
      exact ⟨value, lastUnder_cons.mpr (.inl hlast)⟩
    · have hnone : ∀ slot ∈ slots, slot.1 = name → slot.2 = [] := by
        intro slot hslot hname
        by_contra hvalue
        exact hlater ⟨slot, hslot, hname, hvalue⟩
      obtain ⟨slot, hslot, hname, hvalue⟩ := h
      rcases List.mem_cons.mp hslot with rfl | hslot
      · exact ⟨slot.2, lastUnder_cons.mpr (.inr ⟨Prod.ext hname rfl, hvalue, hnone⟩)⟩
      · exact (hlater ⟨slot, hslot, hname, hvalue⟩).elim

/-- What is found after a value was set if there is one. -/
theorem get_setIfTruthy (vars : EnvVars) (key key' value : JsText) :
    (setIfTruthy vars key value).get key' =
      if key' = key ∧ value ≠ [] then some value else vars.get key' := by
  rw [setIfTruthy]
  by_cases hvalue : value = []
  · simp [hvalue]
  · simp [hvalue]

/-- The slots written one after the other under names with a common start. -/
def writeSlots (start : JsText) (slots : List (JsText × JsText)) (vars : EnvVars) : EnvVars :=
  slots.foldl (fun vars slot => setIfTruthy vars (start ++ slot.1) slot.2) vars

/-- Slots leave the variables that do not start as they do. -/
theorem get_writeSlots_of_ne {key : JsText} (hkey : ∀ name, key ≠ start ++ name) (vars : EnvVars) :
    (writeSlots start slots vars).get key = vars.get key := by
  induction slots generalizing vars with
  | nil => rfl
  | cons slot slots ih =>
    have hrest := ih (setIfTruthy vars (start ++ slot.1) slot.2)
    rw [get_setIfTruthy, if_neg fun h => hkey _ h.1] at hrest
    exact hrest

/-- A variable holds what the last slot of its name has. -/
theorem get_writeSlots_iff (vars : EnvVars) :
    (writeSlots start slots vars).get (start ++ name) = some value ↔ LastUnder slots name value ∨
      (∀ slot ∈ slots, slot.1 = name → slot.2 = []) ∧ vars.get (start ++ name) = some value := by
  induction slots generalizing vars with
  | nil => simp [writeSlots, LastUnder]
  | cons slot slots ih =>
    have hrest := ih (setIfTruthy vars (start ++ slot.1) slot.2)
    rw [get_setIfTruthy] at hrest
    refine hrest.trans ?_
    rw [lastUnder_cons, List.forall_mem_cons, or_assoc]
    refine or_congr_right ?_
    by_cases hslot : slot.1 = name ∧ slot.2 ≠ []
    · obtain ⟨rfl, hvalue⟩ := hslot
      simp only [true_and, ne_eq, hvalue, not_false_eq_true, if_true,
        Option.some_inj, forall_const, false_and, or_false, Prod.ext_iff]
      constructor
      · rintro ⟨hnone, rfl⟩
        exact ⟨rfl, hvalue, hnone⟩
      · rintro ⟨rfl, -, hnone⟩
        exact ⟨hnone, rfl⟩
    · have hcond : ¬ (start ++ name = start ++ slot.1 ∧ slot.2 ≠ []) := by
        rintro ⟨hname, hvalue⟩
        exact hslot ⟨(List.append_cancel_left hname).symm, hvalue⟩
      rw [if_neg hcond]
      constructor
      · rintro ⟨hnone, hget⟩
        refine .inr ⟨⟨fun hname => ?_, hnone⟩, hget⟩
        by_contra hvalue
        exact hslot ⟨hname, hvalue⟩
      · rintro (⟨rfl, hvalue, -⟩ | ⟨⟨-, hnone⟩, hget⟩)
        · exact (hslot ⟨rfl, hvalue⟩).elim
        · exact ⟨hnone, hget⟩

end Slots

section Items

variable {cases : CaseMapping} {vault : List VaultItemPlaintext} {item : LoginItem}

/-- The names of the built-in fields in upper case. -/
theorem toEnvKey_builtin :
    toEnvKey cases (js "username") = js "USERNAME" ∧ toEnvKey cases (js "totp") = js "TOTP" := by
  constructor
  · rw [toEnvKey, cases.upper_ascii _ (by decide)]
    decide
  · rw [toEnvKey, cases.upper_ascii _ (by decide)]
    decide

/-- The names of the built-in fields are in lower case. -/
theorem toLowerCase_builtin (cases : CaseMapping) :
    cases.toLowerCase (js "password") = js "password" ∧
      cases.toLowerCase (js "username") = js "username" ∧
      cases.toLowerCase (js "totp") = js "totp" := by
  refine ⟨?_, ?_, ?_⟩
  · rw [cases.lower_ascii _ (by decide)]
    decide
  · rw [cases.lower_ascii _ (by decide)]
    decide
  · rw [cases.lower_ascii _ (by decide)]
    decide

/-- Every field but the password is looked up under its folded name. -/
theorem fieldKey_of_ne {itemKey field : JsText} (h : field ≠ js "password") :
    fieldKey cases itemKey field = itemKey ++ js "_" ++ toEnvKey cases field := by
  rw [fieldKey, if_neg h]
  split
  · rename_i husername
    rw [husername, toEnvKey_builtin.1, List.append_assoc]
    rfl
  · split
    · rename_i htotp
      rw [htotp, toEnvKey_builtin.2, List.append_assoc]
      rfl
    · rfl

/-- The variables of a login item are its slots after the password. -/
theorem itemToEnvVars_login : itemToEnvVars cases (.login item) =
    writeSlots (toEnvKey cases item.name ++ js "_") (item.slots cases)
      (setIfTruthy .empty (toEnvKey cases item.name) item.password) := by
  rw [itemToEnvVars, writeSlots, LoginItem.slots, List.foldl_cons, List.foldl_cons,
    List.foldl_map, List.append_assoc, List.append_assoc]
  rfl

/-- The item's key holds the password. -/
theorem get_password : (itemToEnvVars cases (.login item)).get (toEnvKey cases item.name) =
    if item.password = [] then none else some item.password := by
  have hkey : ∀ name, toEnvKey cases item.name ≠ toEnvKey cases item.name ++ js "_" ++ name := by
    intro name h
    have hlength := congrArg List.length h
    rw [List.length_append, List.length_append] at hlength
    have hone : (js "_").length = 1 := by decide
    omega
  rw [itemToEnvVars_login, get_writeSlots_of_ne hkey, get_setIfTruthy]
  by_cases hpassword : item.password = []
  · simp [hpassword]
  · simp [hpassword]

/-- The item's other variables hold what the last slot of their name has. -/
theorem get_slot {name value : JsText} : (itemToEnvVars cases (.login item)).get
      (toEnvKey cases item.name ++ js "_" ++ name) = some value ↔
    LastUnder (item.slots cases) name value := by
  have hkey : toEnvKey cases item.name ++ js "_" ++ name ≠ toEnvKey cases item.name := by
    intro h
    have hlength := congrArg List.length h
    rw [List.length_append, List.length_append] at hlength
    have hone : (js "_").length = 1 := by decide
    omega
  rw [itemToEnvVars_login, get_writeSlots_iff, get_setIfTruthy, if_neg fun h => hkey h.1]
  simp

/-- A name without a slash ends at the first slash. -/
theorem splitAt_slash {name : JsText} (hslash : (0x2f : UInt16) ∉ name) (rest : JsText) :
    (name ++ js "/" ++ rest).takeWhile (· ≠ 0x2f) = name ∧
      (name ++ js "/" ++ rest).dropWhile (· ≠ 0x2f) = 0x2f :: rest := by
  have hname : ∀ u ∈ name, decide (u ≠ 0x2f) = true := by
    intro u hu
    exact decide_eq_true fun h => hslash (h ▸ hu)
  have hjs : js "/" = [0x2f] := by decide
  rw [List.append_assoc, List.takeWhile_append_of_pos hname, List.dropWhile_append_of_pos hname, hjs]
  simp

/-- Names that differ ignoring case belong to one item each. -/
theorem find?_name (hnames : (vault.map fun i => cases.toLowerCase i.name).Nodup)
    {i : VaultItemPlaintext} (hi : i ∈ vault) :
    vault.find? (fun j => decide (cases.toLowerCase j.name = cases.toLowerCase i.name)) = some i := by
  cases hfind : vault.find? fun j => decide (cases.toLowerCase j.name = cases.toLowerCase i.name) with
  | none => simpa using List.find?_eq_none.mp hfind i hi
  | some j =>
    have hj := List.find?_some hfind
    rw [decide_eq_true_eq] at hj
    rw [List.inj_on_of_nodup_map hnames (List.mem_of_find?_eq_some hfind) hi hj]

/-- A reference to an item without a name is malformed. -/
theorem resolveReference_unnamed (field : JsText) :
    ∃ e, resolveReference cases vault (formatReference [] field) = .error e := by
  have hrest : (formatReference [] field).drop refPrefix.length = [] ++ js "/" ++ field := by
    rw [formatReference, List.append_nil, List.append_assoc, List.drop_left, List.nil_append]
  have hslash : (0x2f : UInt16) ∉ ([] : JsText) := List.not_mem_nil
  obtain ⟨htake, hdrop⟩ := splitAt_slash hslash field
  refine ⟨js "malformed reference " ++ formatReference [] field, ?_⟩
  simp only [resolveReference, hrest, htake, hdrop, List.isEmpty_nil, Bool.or_true, if_true]

/-- A reference to an item that is found under its name reads one of the item's variables. -/
theorem resolveReference_of_find {i : VaultItemPlaintext} (hfind : vault.find? (fun j =>
      decide (cases.toLowerCase j.name = cases.toLowerCase i.name)) = some i)
    (hslash : (0x2f : UInt16) ∉ i.name) (hname : i.name ≠ []) (field value : JsText) :
    resolveReference cases vault (formatReference i.name field) = .ok value ↔
      (itemToEnvVars cases i).get
        (fieldKey cases (toEnvKey cases i.name) (cases.toLowerCase field)) = some value := by
  have hrest : (formatReference i.name field).drop refPrefix.length = i.name ++ js "/" ++ field := by
    rw [formatReference, List.append_assoc, List.append_assoc, List.drop_left, List.append_assoc]
  have hprefix : isReference (formatReference i.name field) = true := by
    rw [isReference, formatReference, List.append_assoc, List.append_assoc,
      List.isPrefixOf_iff_prefix]
    exact List.prefix_append _ _
  obtain ⟨htake, hdrop⟩ := splitAt_slash hslash field
  have hempty : i.name.isEmpty = false := by simpa using hname
  simp only [resolveReference, hrest, htake, hdrop, hprefix, hempty, hfind, Bool.not_true,
    Bool.or_self, Bool.false_eq_true, if_false]
  cases (itemToEnvVars cases i).get
      (fieldKey cases (toEnvKey cases i.name) (cases.toLowerCase field)) with
  | none => simp
  | some found => simp

/-- A slot without a name of its own answers with its value exactly when no other slot of its
name has another one. -/
theorem answers_iff (hnames : (vault.map fun i => cases.toLowerCase i.name).Nodup)
    (hslash : ∀ i ∈ vault, (0x2f : UInt16) ∉ i.name) (hitem : .login item ∈ vault)
    (hname : item.name ≠ []) {field value : JsText} (hlower : cases.toLowerCase field = field)
    (hfield : field ≠ js "password") (hslot : (toEnvKey cases field, value) ∈ item.slots cases) :
    Answers cases vault item.name field value ↔
      ∀ v, LastUnder (item.slots cases) (toEnvKey cases field) v → v = value := by
  have hresolve : ∀ v, resolveReference cases vault (formatReference item.name field) = .ok v ↔
      LastUnder (item.slots cases) (toEnvKey cases field) v := by
    intro v
    have hread := resolveReference_of_find (find?_name hnames hitem) (hslash _ hitem) hname field v
    rw [hlower, fieldKey_of_ne hfield] at hread
    exact hread.trans get_slot
  rw [Answers]
  by_cases hvalue : value = []
  · rw [if_pos hvalue]
    constructor
    · rintro ⟨e, he⟩ v hv
      rw [(hresolve v).mpr hv] at he
      cases he
    · intro h
      cases hr : resolveReference cases vault (formatReference item.name field) with
      | error e => exact ⟨e, rfl⟩
      | ok v =>
        have hlast := (hresolve v).mp hr
        have hempty := (h v hlast).trans hvalue
        obtain ⟨_, _, _, hne, _⟩ := hlast
        exact (hne hempty).elim
  · rw [if_neg hvalue, hresolve]
    constructor
    · intro hlast v hv
      have hboth := ((hresolve v).mpr hv).symm.trans ((hresolve value).mpr hlast)
      exact Except.ok.inj hboth
    · intro h
      obtain ⟨v, hv⟩ := exists_lastUnder ⟨_, hslot, rfl, hvalue⟩
      exact h v hv ▸ hv

/-- A reference to the password of an item that is found under its name. -/
theorem resolve_password_iff (hfind : vault.find? (fun j =>
      decide (cases.toLowerCase j.name = cases.toLowerCase item.name)) = some (.login item))
    (hslash : (0x2f : UInt16) ∉ item.name) (hname : item.name ≠ []) (value : JsText) :
    resolveReference cases vault (formatReference item.name (js "password")) = .ok value ↔
      (if item.password = [] then none else some item.password) = some value := by
  have hread := resolveReference_of_find (i := .login item) hfind hslash hname (js "password") value
  rw [(toLowerCase_builtin cases).1, fieldKey, if_pos rfl] at hread
  change _ ↔ (itemToEnvVars cases (.login item)).get (toEnvKey cases item.name) = some value at hread
  rwa [get_password] at hread

/-- The password answers. -/
theorem answers_password (hnames : (vault.map fun i => cases.toLowerCase i.name).Nodup)
    (hslash : ∀ i ∈ vault, (0x2f : UInt16) ∉ i.name) (hitem : .login item ∈ vault)
    (hname : item.name ≠ []) : Answers cases vault item.name (js "password") item.password := by
  have hresolve := resolve_password_iff (find?_name hnames hitem) (hslash _ hitem) hname
  rw [Answers]
  by_cases hpassword : item.password = []
  · rw [if_pos hpassword]
    cases hr : resolveReference cases vault (formatReference item.name (js "password")) with
    | error e => exact ⟨e, rfl⟩
    | ok v =>
      have hv := (hresolve v).mp hr
      rw [if_pos hpassword] at hv
      cases hv
  · rw [if_neg hpassword]
    exact (hresolve _).mpr (if_neg hpassword)

/-- A custom field is found under its own name. -/
theorem resolve_custom_iff (hnames : (vault.map fun i => cases.toLowerCase i.name).Nodup)
    (hslash : ∀ i ∈ vault, (0x2f : UInt16) ∉ i.name) (hitem : .login item ∈ vault)
    (hname : item.name ≠ []) (field : CustomField) :
    resolveReference cases vault (formatReference item.name field.name) = .ok field.value ↔
      if cases.toLowerCase field.name = js "password" then
        field.value ≠ [] ∧ field.value = item.password
      else LastUnder (item.slots cases) (toEnvKey cases (cases.toLowerCase field.name))
        field.value := by
  have hread := resolveReference_of_find (find?_name hnames hitem) (hslash _ hitem) hname
    field.name field.value
  refine hread.trans ?_
  by_cases hpassword : cases.toLowerCase field.name = js "password"
  · rw [if_pos hpassword, hpassword, fieldKey, if_pos rfl]
    change (itemToEnvVars cases (.login item)).get (toEnvKey cases item.name) = _ ↔ _
    rw [get_password]
    by_cases hempty : item.password = []
    · rw [if_pos hempty]
      constructor
      · intro h
        cases h
      · rintro ⟨hvalue, heq⟩
        exact (hvalue (heq.trans hempty)).elim
    · rw [if_neg hempty, Option.some_inj]
      constructor
      · intro h
        exact ⟨fun hvalue => hempty (h.trans hvalue), h.symm⟩
      · rintro ⟨-, heq⟩
        exact heq.symm
  · rw [if_neg hpassword, fieldKey_of_ne hpassword]
    exact get_slot

/-- The fields of an item without a name resolve exactly when it has none. -/
theorem fieldsResolve_unnamed_iff (hname : item.name = []) : FieldsResolve cases vault item ↔
    item.password = [] ∧ item.username = [] ∧ item.totp.getD [] = [] ∧ item.customFields = [] := by
  have herror : ∀ field, ∃ e, resolveReference cases vault (formatReference item.name field) =
      .error e := by
    intro field
    rw [hname]
    exact resolveReference_unnamed field
  have hanswers : ∀ field value, Answers cases vault item.name field value ↔ value = [] := by
    intro field value
    obtain ⟨e, he⟩ := herror field
    rw [Answers]
    by_cases hvalue : value = []
    · simp only [hvalue, if_true]
      exact ⟨fun _ => trivial, fun _ => ⟨e, he⟩⟩
    · simp [hvalue, he]
  constructor
  · intro h
    refine ⟨(hanswers _ _).mp h.password, (hanswers _ _).mp h.username, (hanswers _ _).mp h.totp, ?_⟩
    rw [List.eq_nil_iff_forall_not_mem]
    intro field hfield
    obtain ⟨e, he⟩ := herror field.name
    have hok := h.custom field hfield
    rw [he] at hok
    cases hok
  · rintro ⟨hpassword, husername, htotp, hcustom⟩
    constructor
    · exact (hanswers _ _).mpr hpassword
    · exact (hanswers _ _).mpr husername
    · exact (hanswers _ _).mpr htotp
    · simp [hcustom]

end Items

/-- In a vault whose item names differ ignoring case and contain no slash, every field of a login
item is found under its own name if and only if none stands in another's place. -/
theorem fieldsResolve_iff (cases : CaseMapping) {vault : List VaultItemPlaintext} {item : LoginItem}
    (hnames : (vault.map fun i => cases.toLowerCase i.name).Nodup)
    (hslash : ∀ i ∈ vault, (0x2f : UInt16) ∉ i.name) (hitem : .login item ∈ vault) :
    FieldsResolve cases vault item ↔ Unshadowed cases item := by
  by_cases hname : item.name = []
  · rw [fieldsResolve_unnamed_iff hname]
    constructor
    · rintro ⟨hpassword, husername, htotp, hcustom⟩
      have hnone : ∀ name value, ¬ LastUnder (item.slots cases) name value := by
        rintro name value ⟨before, after, heq, hvalue, -⟩
        have hmem : (name, value) ∈ item.slots cases := by simp [heq]
        simp only [LoginItem.slots, husername, htotp, hcustom, List.map_nil, List.mem_cons,
          Prod.mk.injEq, List.not_mem_nil, or_false] at hmem
        rcases hmem with ⟨-, rfl⟩ | ⟨-, rfl⟩
        · exact hvalue rfl
        · exact hvalue rfl
      constructor
      · exact fun _ => ⟨hpassword, husername, htotp, hcustom⟩
      · exact fun value h => (hnone _ _ h).elim
      · exact fun value h => (hnone _ _ h).elim
      · simp [hcustom]
    · intro h
      exact h.named hname
  · obtain ⟨-, hlowerUsername, hlowerTotp⟩ := toLowerCase_builtin cases
    have husernameSlot : (toEnvKey cases (js "username"), item.username) ∈ item.slots cases := by
      simp [toEnvKey_builtin, LoginItem.slots]
    have htotpSlot : (toEnvKey cases (js "totp"), item.totp.getD []) ∈ item.slots cases := by
      simp [toEnvKey_builtin, LoginItem.slots]
    have husername := answers_iff hnames hslash hitem hname hlowerUsername (by decide)
      husernameSlot
    have htotp := answers_iff hnames hslash hitem hname hlowerTotp (by decide) htotpSlot
    rw [toEnvKey_builtin.1] at husername
    rw [toEnvKey_builtin.2] at htotp
    have hcustom := resolve_custom_iff hnames hslash hitem hname
    constructor
    · intro h
      constructor
      · exact fun hempty => (hname hempty).elim
      · exact husername.mp h.username
      · exact htotp.mp h.totp
      · exact fun field hfield => (hcustom field).mp (h.custom field hfield)
    · intro h
      constructor
      · exact answers_password hnames hslash hitem hname
      · exact husername.mpr h.username
      · exact htotp.mpr h.totp
      · exact fun field hfield => (hcustom field).mpr (h.custom field hfield)

/-- A database login with one custom field. -/
private def databaseLogin (field : String) : LoginItem where
  name := js "db"
  username := js "root"
  password := js "pw"
  customFields := [{ name := js field, value := js "admin" }]

/-- A custom field with a name of its own leaves the others where they are. -/
theorem unshadowed_host : Unshadowed .ascii (databaseLogin "Host") := by
  have hnames : ([.login (databaseLogin "Host")].map fun i : VaultItemPlaintext =>
      CaseMapping.ascii.toLowerCase i.name).Nodup := List.nodup_singleton _
  apply (fieldsResolve_iff .ascii hnames (by decide) (by simp)).mp
  constructor
  · rw [Answers, if_neg (by decide)]
    decide
  · rw [Answers, if_neg (by decide)]
    decide
  · rw [Answers, if_pos (by decide)]
    exact ⟨js "field \"totp\" not found in vault item \"db\"", by decide⟩
  · decide

/-- A custom field called `Username` is found in the place of the username. -/
theorem not_fieldsResolve_username : ¬ ∀ (cases : CaseMapping) (vault : List VaultItemPlaintext)
    (item : LoginItem), (vault.map fun i => cases.toLowerCase i.name).Nodup →
      (∀ i ∈ vault, (0x2f : UInt16) ∉ i.name) → .login item ∈ vault →
      FieldsResolve cases vault item := by
  intro h
  have hfields := h .ascii [.login (databaseLogin "Username")] (databaseLogin "Username")
    (List.nodup_singleton _) (by decide) (by simp)
  have husername : ¬ Answers .ascii [.login (databaseLogin "Username")] (js "db") (js "username")
      (js "root") := by
    rw [Answers, if_neg (by decide)]
    decide
  exact husername hfields.username

end Nopass
