import Mathlib.Algebra.Order.BigOperators.Group.Finset
import Nopass.Server.OrgEpochs
import Nopass.Server.RotationExact

/-!
# Owners of organizations

A creation stores the caller's keys, the organization and its owner in three statements, each
for good. Nothing else adds an organization or an owner, and no invite, re-wrap or rotation
takes an owner away. So an organization has exactly one owner as long as its creation got to
the last statement, and a creation that fails behind the first leaves what it stored.
-/

namespace Nopass

open ReadCommitted

/-- The requests that write organizations. -/
inductive OrgsRequest where
  | createOrg (fresh auth : Uuid) (body : CreateOrgBody)
  | removeMember
  | within (orgId : Uuid) (request : OrgRequest)

/-- The program of a request. -/
def OrgsRequest.run (config : Config) : OrgsRequest → Request Unit
  | .createOrg fresh auth body => Orgs.createOrg fresh auth body
  | .removeMember => Orgs.removeMember
  | .within orgId request => request.run config orgId

/-- The ids of the organizations. -/
def orgIds (d : Db) : List Uuid := d.organizations.map (·.id)

/-- The primary keys of `organization_members`. -/
def memberKeys (d : Db) : List RowId := d.organizationMembers.map Tables.organizationMembers.key

/-- An owner as the rows tell: organization, account and status. -/
def ownerOf (m : OrganizationMember) : Option (Uuid × Uuid × MemberStatus) :=
  if m.role = .owner then some (m.orgId, m.userId, m.status) else none

/-- The owners in the order of their rows. -/
def owners (d : Db) : List (Uuid × Uuid × MemberStatus) := d.organizationMembers.filterMap ownerOf

/-- An active member of the organization. -/
def isActive (orgId : Uuid) (m : OrganizationMember) : Bool :=
  decide (m.orgId = orgId) && decide (m.status = .active)

/-- How many members of the organization are active. -/
def activeMembers (orgId : Uuid) (d : Db) : Nat := d.organizationMembers.countP (isActive orgId)

/-- Every organization has exactly one owner, who is active. -/
def OneOwner (d : Db) : Prop :=
  ∀ o ∈ d.organizations, (d.organizationMembers.filter fun m =>
    decide (m.orgId = o.id) && decide (m.role = .owner)).map (·.status) = [.active]

instance (d : Db) : Decidable (OneOwner d) :=
  inferInstanceAs (Decidable (∀ o ∈ d.organizations, (d.organizationMembers.filter fun m =>
    decide (m.orgId = o.id) && decide (m.role = .owner)).map (·.status) = [.active]))

/-- Every owner stays an owner and is active. -/
def KeepsOwners (d d' : Db) : Prop :=
  ∀ m ∈ d.organizationMembers, m.role = .owner → ∃ m' ∈ d'.organizationMembers,
    m'.orgId = m.orgId ∧ m'.userId = m.userId ∧ m'.role = .owner ∧ m'.status = .active

/-- What the schema guarantees of users, organizations and members. -/
structure OrgsConsistent (d : Db) : Prop where
  users : (d.users.map (·.id)).Nodup
  checks : ∀ u ∈ d.users, Tables.users.check u = true
  orgs : (orgIds d).Nodup
  members : (memberKeys d).Nodup
  /-- `REFERENCES organizations(id)`. -/
  refs : ∀ m ∈ d.organizationMembers, m.orgId ∈ orgIds d

/-- The organization that a commit adds. -/
def Tag.organizes : Tag → List Uuid
  | .organized orgId => [orgId]
  | _ => []

/-- The owner that a commit adds. -/
def Tag.owns : Tag → List (Uuid × Uuid × MemberStatus)
  | .owned orgId userId => [(orgId, userId, .active)]
  | _ => []

/-- The commit makes a member of the organization active. -/
def Tag.activates (orgId : Uuid) : Tag → Bool
  | .owned orgId' _ => orgId' = orgId
  | .accepted orgId' => orgId' = orgId
  | _ => false

/-- How a commit changes the number of active members: one more when its label says so, and no
more otherwise. -/
structure CountsActive (tag : Tag) (d d' : Db) : Prop where
  joined : ∀ orgId, tag.activates orgId = true →
    activeMembers orgId d' = activeMembers orgId d + 1
  others : ∀ orgId, tag.activates orgId = false → activeMembers orgId d' ≤ activeMembers orgId d

/-- Every organization that a run added has got its owner. -/
def OwnersFollow {I : Type} (events : List (Event I Db Tag)) : Prop :=
  ∀ orgId, (∃ e ∈ events, e.tag = .organized orgId) →
    ∃ e ∈ events, ∃ userId, e.tag = .owned orgId userId

/-- What the requests keep: keys are unique and owners are active. -/
structure Governed (d : Db) : Prop where
  orgs : (orgIds d).Nodup
  members : (memberKeys d).Nodup
  active : ∀ x ∈ owners d, x.2.2 = .active

/-- What a writer's lock of a row protects: no organization of this id appears, and the members of
this key stay as they are. -/
structure RowKept (k : RowId) (d d' : Db) : Prop where
  org : ∀ id ∈ orgIds d', .organization id = k → id ∈ orgIds d
  member : ∀ m, Tables.organizationMembers.key m = k →
    (m ∈ d'.organizationMembers ↔ m ∈ d.organizationMembers)

/-- The specification: organizations, owners and active members are added by the commits that say
so. -/
def ownerSpec : Spec Db RowId Tag ApiError where
  inv := Governed
  guar _ _ := True
  guar_refl _ := trivial
  guar_trans _ _ := trivial
  keeps k m d d' := m = .noKeyUpdate ∨ m = .update → RowKept k d d'
  keeps_refl _ _ _ _ := ⟨fun _ h _ => h, fun _ _ => Iff.rfl⟩
  keeps_trans h h' hm :=
    ⟨fun id hid hk => (h hm).org id ((h' hm).org id hid hk) hk,
      fun r hk => ((h' hm).member r hk).trans ((h hm).member r hk)⟩
  allow _ _ := True
  asserts tag d d' := orgIds d' = orgIds d ++ tag.organizes ∧ owners d' = owners d ++ tag.owns ∧
    CountsActive tag d d'

/-- The row is as it was, or a writer's lock of it is held. -/
def Untouched (L : List (RowId × LockMode)) (d d' : Db) (m : OrganizationMember) : Prop :=
  (m ∈ d'.organizationMembers ↔ m ∈ d.organizationMembers) ∨
    ∃ l ∈ L, l.1 = Tables.organizationMembers.key m ∧ (l.2 = .noKeyUpdate ∨ l.2 = .update)

/-- Writes of a transaction that adds no organization and no active member, keeps the owners and
touches no member row that it has not locked. -/
structure Settles (L : List (RowId × LockMode)) (w : Db → Db) (n : Db) : Prop where
  orgs : ∀ d, orgIds (w d) = orgIds d
  keys : ∀ d, (memberKeys (w d)).Sublist (memberKeys d)
  owners : ∀ d, ownerSpec.Rely L n d → owners (w d) = owners d
  active : ∀ d orgId, activeMembers orgId (w d) ≤ activeMembers orgId d
  rows : ∀ d m, Untouched L d (w d) m

variable {L L' : List (RowId × LockMode)} {w g : Db → Db} {d d' n n' : Db} {tag : Tag}

/-- With more locks a row is untouched all the more. -/
theorem Untouched.mono {m : OrganizationMember} (h : Untouched L d d' m)
    (hL : ∀ l ∈ L, l ∈ L') : Untouched L' d d' m :=
  h.imp_right fun ⟨l, hl, hk⟩ => ⟨l, hL l hl, hk⟩

/-- A row that neither of two writes touches. -/
theorem Untouched.trans {d'' : Db} {m : OrganizationMember} (h : Untouched L d d' m)
    (h' : Untouched L d' d'' m) : Untouched L d d'' m := by
  rcases h with h | h
  · rcases h' with h' | h'
    · exact .inl (h'.trans h)
    · exact .inr h'
  · exact .inr h

/-- Writing nothing. -/
theorem Settles.id : Settles L id n :=
  ⟨fun _ => rfl, fun _ => List.Sublist.refl _, fun _ _ => rfl, fun _ _ => le_rfl,
    fun _ _ => .inl Iff.rfl⟩

/-- The others do not get in the way. -/
theorem Settles.rely (h : Settles L w n) (hr : ownerSpec.Rely L n n') : Settles L w n' :=
  { h with owners := fun d hd => h.owners d (hr.trans hd) }

/-- More locks do not get in the way. -/
theorem Settles.locks (h : Settles L w n) (L' : List (RowId × LockMode)) :
    Settles (L ++ L') w n :=
  { h with
    owners := fun d hd => h.owners d hd.of_append
    rows := fun d m => (h.rows d m).mono fun _ hl => List.mem_append_left _ hl }

/-- Writes to other tables do not matter. -/
theorem Settles.frame (h : Settles L w n) (ho : ∀ d, orgIds (g d) = orgIds d)
    (hm : ∀ d, (g d).organizationMembers = d.organizationMembers) :
    Settles (L ++ L') (g ∘ w) n where
  orgs d := (ho (w d)).trans (h.orgs d)
  keys d := by
    have heq : memberKeys (g (w d)) = memberKeys (w d) := by rw [memberKeys, hm, memberKeys]
    rw [Function.comp_apply, heq]
    exact h.keys d
  owners d hd := by
    have heq : Nopass.owners (g (w d)) = Nopass.owners (w d) := by
      rw [Nopass.owners, hm, Nopass.owners]
    rw [Function.comp_apply, heq]
    exact h.owners d hd.of_append
  active d orgId := by
    rw [Function.comp_apply, activeMembers, hm]
    exact h.active d orgId
  rows d m := by
    have hrow := (h.locks L').rows d m
    unfold Untouched at hrow ⊢
    rwa [Function.comp_apply, hm]

/-- A change of member rows that leaves key, role and status. -/
structure KeepsSeat (f : OrganizationMember → OrganizationMember) : Prop where
  key : ∀ m, Tables.organizationMembers.key (f m) = Tables.organizationMembers.key m
  owner : ∀ m, ownerOf (f m) = ownerOf m
  active : ∀ orgId m, isActive orgId (f m) = isActive orgId m

section Edits

variable {keys : List RowId} {f : OrganizationMember → OrganizationMember}

/-- Edits keep the keys of the members. -/
theorem memberKeys_edit
    (hf : ∀ m, Tables.organizationMembers.key (f m) = Tables.organizationMembers.key m) :
    memberKeys (Tables.organizationMembers.edit keys f d) = memberKeys d :=
  Tables.organizationMembers.map_key_edit hf

/-- Edits that leave the owners' seats keep the owners. -/
theorem owners_edit (hf : ∀ m ∈ d.organizationMembers, ownerOf (f m) = ownerOf m) :
    owners (Tables.organizationMembers.edit keys f d) = owners d := by
  change (d.organizationMembers.map fun m =>
    if Tables.organizationMembers.key m ∈ keys then f m else m).filterMap ownerOf = _
  rw [List.filterMap_map, owners]
  apply List.filterMap_congr
  intro m hm
  rw [Function.comp_apply]
  split
  · exact hf m hm
  · rfl

/-- Edits that leave who is active keep the number of active members. -/
theorem activeMembers_edit {orgId : Uuid} (hf : ∀ m ∈ d.organizationMembers,
    Tables.organizationMembers.key m ∈ keys → isActive orgId (f m) = isActive orgId m) :
    activeMembers orgId (Tables.organizationMembers.edit keys f d) = activeMembers orgId d := by
  change (d.organizationMembers.map fun m =>
    if Tables.organizationMembers.key m ∈ keys then f m else m).countP (isActive orgId) = _
  rw [List.countP_map, activeMembers]
  apply List.countP_congr
  intro m hm
  rw [Function.comp_apply]
  split
  · rename_i hk
    rw [hf m hm hk]
  · exact Iff.rfl

/-- Rows of other keys stay. -/
theorem mem_edit_of_not_mem {m : OrganizationMember}
    (hf : ∀ m, Tables.organizationMembers.key (f m) = Tables.organizationMembers.key m)
    (hm : Tables.organizationMembers.key m ∉ keys) :
    m ∈ (Tables.organizationMembers.edit keys f d).organizationMembers ↔
      m ∈ d.organizationMembers := by
  constructor
  · intro h
    obtain ⟨m₀, hm₀, rfl⟩ := (Tables.organizationMembers.mem_edit).mp h
    by_cases hk : Tables.organizationMembers.key m₀ ∈ keys
    · rw [if_pos hk, hf] at hm
      exact (hm hk).elim
    · rwa [if_neg hk]
  · intro h
    exact (Tables.organizationMembers.mem_edit).mpr ⟨m, h, if_neg hm⟩

end Edits

section Hits

variable {cond : Db → OrganizationMember → Bool} {s : Db}
  {f : OrganizationMember → OrganizationMember}

/-- An update touches the rows that it locks. -/
theorem untouched_edit
    (hf : ∀ m, Tables.organizationMembers.key (f m) = Tables.organizationMembers.key m)
    (d : Db) (m : OrganizationMember) :
    Untouched (L ++ (Tables.organizationMembers.locked cond .noKeyUpdate s n ++ L')) d
      (Tables.organizationMembers.edit ((Tables.organizationMembers.hits cond s n).map
        Tables.organizationMembers.key) f d) m := by
  by_cases hk : Tables.organizationMembers.key m ∈
      (Tables.organizationMembers.hits cond s n).map Tables.organizationMembers.key
  · obtain ⟨r, hr, hkey⟩ := List.mem_map.mp hk
    have hlock := Tables.organizationMembers.locked_of_mem_hits hr .noKeyUpdate
    exact .inr ⟨_, List.mem_append_right _ (List.mem_append_left _ hlock), hkey, .inl rfl⟩
  · exact .inl (mem_edit_of_not_mem hf hk)

/-- An update that leaves every seat. -/
theorem Settles.edit (h : Settles L w n) (hf : KeepsSeat f) :
    Settles (L ++ (Tables.organizationMembers.locked cond .noKeyUpdate (w s) (w n) ++ L'))
      (Tables.organizationMembers.edit ((Tables.organizationMembers.hits cond (w s) (w n)).map
        Tables.organizationMembers.key) f ∘ w) n where
  orgs := h.orgs
  keys d := by
    rw [Function.comp_apply, memberKeys_edit hf.key]
    exact h.keys d
  owners d hd := by
    rw [Function.comp_apply, owners_edit fun m _ => hf.owner m]
    exact h.owners d hd.of_append
  active d orgId := by
    rw [Function.comp_apply, activeMembers_edit fun m _ _ => hf.active orgId m]
    exact h.active d orgId
  rows d m := ((h.locks _).rows d m).trans (untouched_edit hf.key (w d) m)

/-- Members that are owners are not dropped. -/
theorem owners_drop {keys : List RowId} (h : ∀ m ∈ d.organizationMembers,
    Tables.organizationMembers.key m ∈ keys → ownerOf m = none) :
    owners (Tables.organizationMembers.drop keys d) = owners d := by
  change (d.organizationMembers.filter fun m =>
    decide (Tables.organizationMembers.key m ∉ keys)).filterMap ownerOf = _
  rw [List.filterMap_filter, owners]
  apply List.filterMap_congr
  intro m hm
  by_cases hk : Tables.organizationMembers.key m ∈ keys
  · simp [hk, h m hm hk]
  · simp [hk]

/-- Locked rows that are not owners may be removed. -/
theorem Settles.drop (hn : Governed n) (hc : ∀ m, cond s m = true → ownerOf m = none) :
    Settles (L ++ Tables.organizationMembers.locked cond .update s n)
      (Tables.organizationMembers.drop ((Tables.organizationMembers.hits cond s n).map
        Tables.organizationMembers.key)) n where
  orgs _ := rfl
  keys _ := List.filter_sublist.map _
  owners d hd := by
    apply owners_drop
    intro m hm hk
    obtain ⟨r, hr, hkey⟩ := List.mem_map.mp hk
    -- the lock holds the row, so it still is the one that the condition was checked on
    have hlock := Tables.organizationMembers.locked_of_mem_hits hr .update
    have hkept := hd.keeps _ (List.mem_append_right _ hlock) (.inr rfl)
    have hmn := (hkept.member m hkey.symm).mp hm
    obtain ⟨hrn, -, hcond⟩ := (Tables.organizationMembers.mem_hits).mp hr
    rw [List.inj_on_of_nodup_map hn.members hmn hrn hkey.symm]
    exact hc r hcond
  active _ _ := List.filter_sublist.countP_le
  rows d m := by
    by_cases hk : Tables.organizationMembers.key m ∈
        (Tables.organizationMembers.hits cond s n).map Tables.organizationMembers.key
    · obtain ⟨r, hr, hkey⟩ := List.mem_map.mp hk
      have hlock := Tables.organizationMembers.locked_of_mem_hits hr .update
      exact .inr ⟨_, List.mem_append_right _ hlock, hkey, .inr rfl⟩
    · left
      exact (Tables.organizationMembers.mem_drop).trans (and_iff_left hk)

end Hits

/-- Commits under these labels add no organization, no owner and no active member. -/
structure Tag.Settled (tag : Tag) : Prop where
  organizes : tag.organizes = [] := by rfl
  owns : tag.owns = [] := by rfl
  activates : ∀ orgId, tag.activates orgId = false := by exact fun _ => rfl

/-- A commit without a label of its own adds none of them. -/
theorem Tag.settled_plain : Tag.plain.Settled where
  organizes := rfl
  owns := rfl
  activates _ := rfl

/-- What a commit that touches only locked rows keeps for the others. -/
theorem frame_of_untouched (ho : ∀ id ∈ orgIds d', id ∈ orgIds d)
    (h : ∀ m, Untouched L d d' m) : ownerSpec.Frame L d d' := by
  intro k m hfree hm
  refine ⟨fun id hid _ => ho id hid, fun r hk => ?_⟩
  rcases h r with h | ⟨l, hl, hkey, hmode⟩
  · exact h
  · have hcompat := hfree l hl (hkey.trans hk)
    rcases hmode with hmode | hmode <;> rcases hm with rfl | rfl <;> rw [hmode] at hcompat <;>
      cases hcompat

/-- What such a transaction owes. -/
theorem Settles.owes (h : Settles L w d) (hi : Governed d) (ht : tag.Settled) :
    ownerSpec.Owes L tag d (w d) := by
  have howners := h.owners d (Spec.Rely.refl L hi)
  refine ⟨⟨?_, ?_, fun orgId hjoined => ?_, fun orgId _ => h.active d orgId⟩,
    ⟨?_, hi.members.sublist (h.keys d), ?_⟩, trivial, frame_of_untouched (fun id hid => ?_)
      (h.rows d)⟩
  · rw [h.orgs, ht.organizes, List.append_nil]
  · rw [howners, ht.owns, List.append_nil]
  · rw [ht.activates orgId] at hjoined
    cases hjoined
  · rw [h.orgs]
    exact hi.orgs
  · rw [howners]
    exact hi.active
  · rwa [h.orgs] at hid

/-- Storing a wrap leaves the owners. -/
theorem rewrapMember_wp {O : Type} {Q : O → List (RowId × LockMode) → (Db → Db) → Db → Prop}
    {orgId ownerId : Uuid} {x : RewrapEntry} {k : List OrganizationMember → Request O}
    (h : Settles L w d)
    (hk : ∀ rows L' w' n, Settles L' w' n → Governed n → ownerSpec.wp Q (k rows) L' w' n) :
    ownerSpec.wp Q (DbOrgs.rewrapMember orgId ownerId x >>= k) L w d := by
  refine Table.wp_update_bind fun s hs n hn _ => hk _ _ _ _ ?_ hn.inv
  exact ((h.rely hs).rely hn).edit ⟨fun _ => rfl, fun _ => rfl, fun _ _ => rfl⟩

/-- A re-wrap leaves the owners. -/
theorem rewrapMembers_owner_wp {orgId ownerId : Uuid} (ht : tag.Settled)
    (wraps : List RewrapEntry) (h : Settles L w d) :
    ownerSpec.wp (fun _ _ _ _ => True) (DbOrgs.rewrapMembers orgId ownerId tag wraps) L w d := by
  induction wraps generalizing L w d with
  | nil => exact fun d₁ h₁ _ => ⟨(h.rely h₁).owes h₁.inv ht, fun _ _ => trivial⟩
  | cons x wraps ih =>
    refine rewrapMember_wp h fun rows L' w' n hn _ => ?_
    split
    · exact fun _ _ _ _ => trivial
    · exact ih hn

/-- Storing the wraps of a rotation leaves the owners. -/
theorem wrapMembers_owner_wp {orgId ownerId : Uuid} (wraps : List RewrapEntry)
    (h : Settles L w d) :
    ownerSpec.wp (fun _ L w d => Settles L w d) (DbOrgs.wrapMembers orgId ownerId wraps) L w d := by
  induction wraps generalizing L w d with
  | nil => exact fun d₁ h₁ => h.rely h₁
  | cons x wraps ih => exact rewrapMember_wp h fun rows L' w' n hn _ => ih hn

/-- Re-encrypting items leaves the owners. -/
theorem reencryptItems_owner_wp {orgId : Uuid} (items : List ReencryptedItem)
    (h : Settles L w d) :
    ownerSpec.wp (fun _ L w d => Settles L w d) (DbOrgs.reencryptItems orgId items) L w d := by
  induction items generalizing L w d with
  | nil => exact fun d₁ h₁ => h.rely h₁
  | cons item items ih =>
    refine Table.wp_update_bind fun s hs n hn _ => ih ?_
    exact ((h.rely hs).rely hn).frame (fun _ => rfl) fun _ => rfl

/-- Removing a member leaves the owners. -/
theorem removeMember_owner_wp {orgId : Uuid} (removed : Option Uuid) :
    ownerSpec.wp (fun _ L w d => Settles L w d) (DbOrgs.removeMember orgId removed) L id d := by
  cases removed with
  | none => exact fun _ _ => .id
  | some removed =>
    refine Table.wp_delete_bind fun s hs n hn d' hr => ?_
    refine (Settles.drop hn.inv fun m hm => ?_).rely hr
    rw [Bool.and_eq_true, decide_eq_true_eq] at hm
    exact if_neg hm.2

/-- A new epoch leaves the ids. -/
theorem orgIds_setEpoch {keys : List RowId} {epoch : Int} (d : Db) :
    orgIds (Tables.organizations.edit keys (DbOrgs.setEpoch epoch) d) = orgIds d := by
  change (d.organizations.map fun o => if Tables.organizations.key o ∈ keys then
    DbOrgs.setEpoch epoch o else o).map (·.id) = d.organizations.map (·.id)
  rw [List.map_map]
  apply List.map_congr_left
  intro o _
  rw [Function.comp_apply]
  split
  · rfl
  · rfl

/-- A rotation leaves the owners. -/
theorem rotateKey_owner_wp {orgId ownerId : Uuid} (r : Rotation) :
    ownerSpec.wp (fun _ _ _ _ => True) (DbOrgs.rotateKey orgId ownerId r) [] id d := by
  refine Table.wp_selectFor_bind fun s hs n hn => wp_fetchOne_bind fun org _ => ?_
  split
  · exact fun _ _ _ _ => trivial
  refine Spec.wp_bind hn.inv (Spec.wp_mono (fun removed L w d => ?_) (removeMember_owner_wp _))
  intro h₁ hd
  split
  · exact fun _ _ _ _ => trivial
  refine Table.wp_selectFor_bind fun s₁ hs₁ n₁ hn₁ => ?_
  have h₂ := ((h₁.rely hs₁).rely hn₁).locks
    (Tables.organizationMembers.locked (DbOrgs.inOrg orgId) .update (w s₁) (w n₁))
  split
  · exact fun _ _ _ _ => trivial
  refine Table.wp_selectFor_bind fun s₂ hs₂ n₂ hn₂ => ?_
  have h₃ := ((h₂.rely hs₂).rely hn₂).locks
    (Tables.vaultItems.locked (DbOrgs.isOrgItem orgId) .update (w s₂) (w n₂))
  split
  · exact fun _ _ _ _ => trivial
  refine Table.wp_delete_bind fun s₃ hs₃ n₃ hn₃ => ?_
  refine Spec.wp_bind hn₃.inv (Spec.wp_mono (fun _ L₄ w₄ d₄ h₄ hd₄ => ?_)
    (reencryptItems_owner_wp r.items
      (((h₃.rely hs₃).rely hn₃).frame (fun _ => rfl) fun _ => rfl)))
  refine Spec.wp_bind hd₄ (Spec.wp_mono (fun _ L₅ w₅ d₅ h₅ hd₅ => ?_)
    (wrapMembers_owner_wp r.wraps h₄))
  refine Table.wp_update_bind fun s₆ hs₆ n₆ hn₆ _ d₆ h₆ _ => ?_
  refine ⟨Settles.owes (Settles.rely ?_ h₆) h₆.inv Tag.settled_plain, fun _ _ => trivial⟩
  exact ((h₅.rely hs₆).rely hn₆).frame orgIds_setEpoch fun _ => rfl

section Acceptance

variable {orgId auth : Uuid} {keys : List RowId} {r : OrganizationMember}

/-- Owners are active already. -/
theorem ownerOf_activate (hd : Governed d) {m : OrganizationMember}
    (hm : m ∈ d.organizationMembers) : ownerOf (DbOrgs.activate m) = ownerOf m := by
  by_cases hrole : m.role = .owner
  · have howner : ownerOf m = some (m.orgId, m.userId, m.status) := if_pos hrole
    have hactive : m.status = .active := hd.active _ (List.mem_filterMap.mpr ⟨m, hm, howner⟩)
    rw [howner, hactive]
    exact if_pos hrole
  · rw [ownerOf, ownerOf, if_neg hrole]
    exact if_neg hrole

/-- Activating one pending member adds one active member. -/
theorem activeMembers_activate (hd : Governed d) (hr : r ∈ d.organizationMembers)
    (hp : r.status = .pending)
    (hk : ∀ m, Tables.organizationMembers.key m ∈ keys ↔
      Tables.organizationMembers.key m = Tables.organizationMembers.key r) :
    activeMembers r.orgId (Tables.organizationMembers.edit keys DbOrgs.activate d) =
      activeMembers r.orgId d + 1 := by
  obtain ⟨before, after, hsplit⟩ := List.append_of_mem hr
  have hnodup := hd.members
  rw [memberKeys, hsplit, List.map_append, List.map_cons, List.nodup_middle,
    List.nodup_cons, ← List.map_append] at hnodup
  have hothers {l : List OrganizationMember} (hl : ∀ m ∈ l, m ∈ before ++ after) :
      (l.map fun m => if Tables.organizationMembers.key m ∈ keys then DbOrgs.activate m else m) =
        l := by
    refine (List.map_congr_left fun m hm => ?_).trans (List.map_id l)
    rw [if_neg]
    · rfl
    · rw [hk]
      intro heq
      exact hnodup.1 (heq ▸ List.mem_map_of_mem (hl m hm))
  have hpending : isActive r.orgId r = false := by simp [isActive, hp]
  have hactive : isActive r.orgId (DbOrgs.activate r) = true := by
    simp [isActive, DbOrgs.activate]
  change (d.organizationMembers.map fun m => if Tables.organizationMembers.key m ∈ keys then
    DbOrgs.activate m else m).countP (isActive r.orgId) = _
  rw [activeMembers, hsplit, List.map_append, List.map_cons,
    hothers fun m hm => List.mem_append_left _ hm, hothers fun m hm => List.mem_append_right _ hm,
    if_pos ((hk r).mpr rfl), List.countP_append, List.countP_append, List.countP_cons_of_pos hactive,
    List.countP_cons_of_neg (by rw [hpending]; exact Bool.false_ne_true)]
  omega

/-- What activating one pending member under its lock owes. -/
theorem owes_activate (hr : ownerSpec.Rely L n d) (hrn : r ∈ n.organizationMembers)
    (hp : r.status = .pending) (hl : (Tables.organizationMembers.key r, .noKeyUpdate) ∈ L)
    (hk : ∀ m, Tables.organizationMembers.key m ∈ keys ↔
      Tables.organizationMembers.key m = Tables.organizationMembers.key r) :
    ownerSpec.Owes L (.accepted r.orgId) d
      (Tables.organizationMembers.edit keys DbOrgs.activate d) := by
  have hrd := ((hr.keeps _ hl (.inl rfl)).member r rfl).mpr hrn
  have howners : owners (Tables.organizationMembers.edit keys DbOrgs.activate d) = owners d :=
    owners_edit fun m hm => ownerOf_activate hr.inv hm
  refine ⟨⟨(List.append_nil _).symm, howners.trans (List.append_nil _).symm, fun o ho => ?_,
    fun o ho => ?_⟩, ⟨hr.inv.orgs, ?_, ?_⟩, trivial, frame_of_untouched (fun _ hid => hid)
      fun m => ?_⟩
  · obtain rfl : r.orgId = o := of_decide_eq_true ho
    exact activeMembers_activate hr.inv hrd hp hk
  · have hother : r.orgId ≠ o := of_decide_eq_false ho
    refine le_of_eq (activeMembers_edit fun m _ hm => ?_)
    have hmo : m.orgId = r.orgId := (RowId.organizationMember.inj ((hk m).mp hm)).1
    have hne : m.orgId ≠ o := fun h => hother (hmo.symm.trans h)
    simp [isActive, DbOrgs.activate, hne]
  · rw [memberKeys_edit (f := DbOrgs.activate) fun _ => rfl]
    exact hr.inv.members
  · exact howners ▸ hr.inv.active
  · by_cases hm : Tables.organizationMembers.key m ∈ keys
    · exact .inr ⟨_, hl, ((hk m).mp hm).symm, .inl rfl⟩
    · exact .inl (mem_edit_of_not_mem (fun _ => rfl) hm)

/-- The rows that an acceptance activates. -/
theorem acceptInvite_hits {s : Db} (hr : r ∈ Tables.organizationMembers.hits
      (fun d m => DbOrgs.isMember orgId auth d m && decide (m.status = .pending)) s n) :
    r ∈ n.organizationMembers ∧ r.orgId = orgId ∧ r.userId = auth ∧ r.status = .pending := by
  obtain ⟨hrn, -, hc⟩ := (Tables.organizationMembers.mem_hits).mp hr
  simp only [DbOrgs.isMember, Bool.and_eq_true, decide_eq_true_eq] at hc
  exact ⟨hrn, hc.1.1, hc.1.2, hc.2⟩

/-- An acceptance leaves the owners and adds one active member, or nothing. -/
theorem acceptInvite_owner_wp (orgId auth : Uuid) :
    ownerSpec.wp (fun _ _ _ _ => True) (Orgs.acceptInvite orgId auth) [] id d := by
  simp only [Orgs.acceptInvite, DbOrgs.acceptInvite, autocommit, bind_assoc]
  refine Table.wp_update_bind fun s hs n hn _ d' hr _ => ⟨?_, wp_require id fun _ _ => trivial⟩
  split
  · rename_i hnone
    refine Settles.owes (Settles.rely (Settles.id.frame (fun _ => rfl) fun x => ?_) hr)
      hr.inv Tag.settled_plain
    rw [List.isEmpty_iff.mp hnone]
    exact (List.map_congr_left fun m _ => if_neg List.not_mem_nil).trans (List.map_id _)
  · rename_i hsome
    obtain ⟨r, hrhits⟩ := List.exists_mem_of_ne_nil _ fun h => hsome (List.isEmpty_iff.mpr h)
    obtain ⟨hrn, hro, hru, hrp⟩ := acceptInvite_hits hrhits
    have hlock := Tables.organizationMembers.locked_of_mem_hits hrhits .noKeyUpdate
    have htag : Tag.accepted orgId = .accepted r.orgId := by rw [hro]
    rw [htag]
    refine owes_activate hr hrn hrp (List.mem_append_right _ (List.mem_append_left _ hlock))
      fun m => ⟨fun hmem => ?_, fun heq => heq ▸ List.mem_map_of_mem hrhits⟩
    obtain ⟨r', hr', hkey⟩ := List.mem_map.mp hmem
    obtain ⟨-, hro', hru', -⟩ := acceptInvite_hits hr'
    rw [← hkey]
    change RowId.organizationMember r'.orgId r'.userId = .organizationMember r.orgId r.userId
    rw [hro', hru', hro, hru]

end Acceptance

/-- A new member row under the lock of its key, which was free when the lock was taken. -/
theorem owes_push {row : OrganizationMember} (hr : ownerSpec.Rely L n d)
    (hv : Tables.organizationMembers.vacant row n = true)
    (hl : (Tables.organizationMembers.key row, .update) ∈ L) (ho : tag.organizes = [])
    (how : (ownerOf row).toList = tag.owns) (hactive : ∀ x ∈ ownerOf row, x.2.2 = .active)
    (hcounts : ∀ orgId, isActive orgId row = tag.activates orgId) :
    ownerSpec.Owes L tag d (Tables.organizationMembers.push row d) := by
  have howners : owners (Tables.organizationMembers.push row d) =
      owners d ++ (ownerOf row).toList := by
    change (d.organizationMembers ++ [row]).filterMap ownerOf = _
    rw [List.filterMap_append, List.filterMap_cons, List.filterMap_nil]
    cases ownerOf row <;> rfl
  have hcount (orgId : Uuid) : activeMembers orgId (Tables.organizationMembers.push row d) =
      activeMembers orgId d + if isActive orgId row then 1 else 0 := by
    change (d.organizationMembers ++ [row]).countP (isActive orgId) = _
    rw [List.countP_append, List.countP_singleton]
    rfl
  refine ⟨⟨?_, howners.trans (congrArg _ how), fun orgId hj => ?_, fun orgId hj => ?_⟩,
    ⟨hr.inv.orgs, ?_, fun x hx => ?_⟩, trivial, frame_of_untouched (fun _ hid => hid) fun m => ?_⟩
  · rw [ho, List.append_nil]
    rfl
  · rw [hcount, hcounts, hj]
    rfl
  · rw [hcount, hcounts, hj]
    exact le_rfl
  · change (List.map _ (d.organizationMembers ++ [row])).Nodup
    rw [List.map_append, List.nodup_append]
    refine ⟨hr.inv.members, List.nodup_singleton _, fun k hk k' hk' => ?_⟩
    obtain ⟨m, hm, rfl⟩ := List.mem_map.mp hk
    rw [List.map_singleton, List.mem_singleton] at hk'
    rw [hk']
    intro heq
    have hmn := ((hr.keeps _ hl (.inr rfl)).member m heq).mp hm
    exact of_decide_eq_true (List.all_eq_true.mp hv m hmn) heq
  · rw [howners, List.mem_append, Option.mem_toList] at hx
    exact hx.elim (hr.inv.active x) (hactive x)
  · by_cases hm : m = row
    · exact .inr ⟨_, hl, by rw [hm], .inr rfl⟩
    · exact .inl ((Tables.organizationMembers.mem_push).trans (or_iff_left hm))

/-- A role that is read as the owner's is spelled so. -/
theorem Role.text_of_parse {text : String} {role : Role} (h : Role.parse text = some role) :
    text = role.text := by
  unfold Role.parse at h
  grind [Role.text]

/-- An invite adds no owner. -/
theorem inviteMember_owner_wp {orgId userId invitedBy : Uuid} {role : String} (wrap : SignedWrap)
    (hrole : role ≠ "owner") :
    ownerSpec.wp (fun _ _ _ _ => True) (DbOrgs.inviteMember orgId userId role wrap invitedBy)
      [] id d := by
  refine Table.wp_selectFor_bind fun s hs n hn => wp_fetchOne_bind fun org _ => ?_
  split
  · exact fun _ _ _ _ => trivial
  cases hparse : Role.parse role with
  | none => exact fun _ _ => nofun
  | some role' =>
    have hnot : role' ≠ .owner := fun h => hrole (Role.text_of_parse (h ▸ hparse))
    refine Table.wp_insertOrIgnore_bind (fun n₁ h₁ hv _ d₂ h₂ _ => ?_) (fun n₁ h₁ d₂ h₂ _ => ?_)
    · refine ⟨owes_push h₂ hv (List.mem_append_right _ List.mem_cons_self) rfl ?_ ?_ fun o => ?_,
        fun _ _ => trivial⟩
      · rw [ownerOf, if_neg hnot]
        rfl
      · rw [ownerOf, if_neg hnot]
        exact nofun
      · rw [isActive, decide_eq_false (fun h : MemberStatus.pending = .active => by cases h),
          Bool.and_false]
        rfl
    · exact ⟨Settles.id.owes h₂.inv Tag.settled_plain, fun _ _ => trivial⟩

/-- Requests inside an organization add no organization and leave the owners. -/
theorem OrgRequest.owner_wp (config : Config) (orgId : Uuid) (r : OrgRequest)
    (hd : Governed d) : ownerSpec.wp (fun _ _ _ _ => True) (r.run config orgId) [] id d := by
  cases r with
  | inviteMember auth body =>
    refine Spec.wp_reads_bind (DbOrgs.reads_getOrgMember orgId auth) nofun (fun _ d₁ h₁ => ?_) hd
    refine wp_okOr_bind nofun fun _ _ => wp_require_bind nofun fun _ => ?_
    refine wp_require_bind nofun fun hrole => ?_
    refine Spec.wp_reads_bind (Orgs.reads_requireSeat orgId auth) nofun (fun _ d₂ h₂ => ?_) h₁.inv
    refine Spec.wp_reads_bind (reads_getPublicKeyByAccountKey _) nofun (fun _ d₃ h₃ => ?_) h₂.inv
    refine wp_okOr_bind nofun fun invitee _ => wp_require_bind nofun fun _ => Spec.wp_bind h₃.inv ?_
    exact Spec.wp_mono (fun _ _ _ _ _ _ => wp_require nofun fun _ _ => trivial)
      (inviteMember_owner_wp body.toSignedWrap (of_decide_eq_true hrole))
  | rewrapMembers auth body =>
    refine Spec.wp_reads_bind (Orgs.reads_requireOwner orgId auth) nofun (fun _ d₁ h₁ => ?_) hd
    refine Spec.wp_reads_bind (DbOrgs.reads_currentKeyEpoch orgId) nofun (fun _ d₂ h₂ => ?_) h₁.inv
    refine wp_require_bind nofun fun _ => Spec.wp_bind h₂.inv ?_
    refine Spec.wp_mono (fun _ _ _ _ _ _ => wp_require nofun fun _ _ => trivial)
      (rewrapMembers_owner_wp ?_ body.wraps .id)
    split
    · exact Tag.settled_plain
    · exact ⟨rfl, rfl, fun _ => rfl⟩
  | acceptInvite auth => exact acceptInvite_owner_wp orgId auth
  | rotateKey auth body =>
    refine Spec.wp_reads_bind (Orgs.reads_requireOwner orgId auth) nofun (fun _ d₁ h₁ => ?_) hd
    refine wp_require_bind nofun fun _ => wp_require_bind nofun fun _ => ?_
    split
    · exact wp_refuse nofun
    · refine Spec.wp_bind h₁.inv (Spec.wp_mono (fun outcome L w d _ _ => ?_) (rotateKey_owner_wp _))
      split
      · exact fun _ _ => trivial
      · exact wp_refuse nofun

/-- Rule for texts bound to a statement. -/
theorem wp_bindTexts_bind {O : Type} {S : Spec Db RowId Tag ApiError}
    {Q : O → List (RowId × LockMode) → (Db → Db) → Db → Prop} {texts : List String}
    {k : Unit → Request O} (h : S.wp Q (k ()) L w d) :
    S.wp Q (bindTexts texts >>= k) L w d := by
  unfold bindTexts
  split
  · exact h
  · exact nofun

/-- A new organization row under the lock of its id, which was free when the lock was taken. -/
theorem owes_organized {o : Organization} (hr : ownerSpec.Rely L n d)
    (hv : Tables.organizations.vacant o n = true) (hl : (.organization o.id, .update) ∈ L) :
    ownerSpec.Owes L (.organized o.id) d (Tables.organizations.push o d) := by
  have hids : orgIds (Tables.organizations.push o d) = orgIds d ++ [o.id] := by
    change (d.organizations ++ [o]).map (·.id) = _
    rw [List.map_append]
    rfl
  refine ⟨⟨hids, (List.append_nil _).symm, nofun, fun _ _ => le_rfl⟩,
    ⟨?_, hr.inv.members, hr.inv.active⟩, trivial, ?_⟩
  · rw [hids, List.nodup_append]
    refine ⟨hr.inv.orgs, List.nodup_singleton _, fun id hid id' hid' => ?_⟩
    rw [List.mem_singleton.mp hid']
    rintro rfl
    obtain ⟨o', ho', heq⟩ := List.mem_map.mp ((hr.keeps _ hl (.inr rfl)).org o.id hid rfl)
    exact of_decide_eq_true (List.all_eq_true.mp hv o' ho') (congrArg RowId.organization heq)
  · intro k m hfree hm
    refine ⟨fun id hid hk => ?_, fun _ _ => Iff.rfl⟩
    rw [hids, List.mem_append, List.mem_singleton] at hid
    rcases hid with hid | rfl
    · exact hid
    · have hcompat := hfree _ hl hk
      rcases hm with rfl | rfl <;> cases hcompat

section Creation

variable {Q : Unit → List (RowId × LockMode) → (Db → Db) → Db → Prop} {k : Request Unit}

/-- Storing the caller's keys leaves organizations and owners. -/
theorem publishKeys_owner_wp (auth : Uuid) (body : CreateOrgBody)
    (hk : ∀ d, ownerSpec.wp Q k [] id d) :
    ownerSpec.wp Q (autocommit (Tables.users.update (fun _ u => decide (u.id = auth))
      (Orgs.publishKeys body)) (fun _ => .published auth) >>= fun _ => k) [] id d := by
  simp only [autocommit, bind_assoc]
  refine Table.wp_update_bind fun s hs n hn _ d₁ h₁ _ => ⟨?_, hk _⟩
  exact Settles.owes (Settles.rely (Settles.id.frame (fun _ => rfl) fun _ => rfl) h₁)
    h₁.inv ⟨rfl, rfl, fun _ => rfl⟩

/-- Storing the organization adds its id. -/
theorem insertOrg_owner_wp (o : Organization) (hk : ∀ d, ownerSpec.wp Q k [] id d) :
    ownerSpec.wp Q (autocommit (Tables.organizations.insert o [userRef o.createdBy])
      (fun _ => .organized o.id) >>= fun _ => k) [] id d := by
  simp only [autocommit, bind_assoc]
  refine Table.wp_insert_bind (fun n hn hv _ d₁ h₁ _ => ⟨?_, hk _⟩)
    fun x hx => absurd hx (Option.not_mem_none x)
  exact owes_organized h₁ hv (List.mem_append_right _ List.mem_cons_self)

/-- Storing the owner's row adds the owner. -/
theorem insertOwner_owner_wp {m : OrganizationMember} (hrole : m.role = .owner)
    (hstatus : m.status = .active) (refs : List (Ref Db RowId)) :
    ownerSpec.wp (fun _ _ _ _ => True) (autocommit (Tables.organizationMembers.insert m refs)
      fun _ => .owned m.orgId m.userId) [] id d := by
  have howner : ownerOf m = some (m.orgId, m.userId, .active) := by
    rw [ownerOf, if_pos hrole, hstatus]
  refine Table.wp_insert_bind (fun n hn hv _ d₁ h₁ _ => ⟨?_, fun _ _ => trivial⟩) nofun
  refine owes_push h₁ hv (List.mem_append_right _ List.mem_cons_self) rfl ?_ ?_ fun o => ?_
  · rw [howner]
    rfl
  · rw [howner]
    rintro x ⟨⟩
    rfl
  · rw [isActive, decide_eq_true hstatus, Bool.and_true]
    rfl

/-- A creation adds an organization and then its owner. -/
theorem createOrg_owner_wp (fresh auth : Uuid) (body : CreateOrgBody) :
    ownerSpec.wp (fun _ _ _ _ => True) (Orgs.createOrg fresh auth body) [] id d := by
  refine wp_require_bind nofun fun _ => ?_
  refine wp_bindTexts_bind (publishKeys_owner_wp auth body fun d₁ => ?_)
  refine wp_bindTexts_bind (insertOrg_owner_wp _ fun d₂ => wp_bindTexts_bind ?_)
  exact insertOwner_owner_wp rfl rfl _

end Creation

/-- Each request keeps the specification. -/
theorem OrgsRequest.valid (config : Config) (r : OrgsRequest) :
    ownerSpec.Valid (r.run config) fun _ _ => True := by
  intro d hd
  cases r with
  | createOrg fresh auth body => exact createOrg_owner_wp fresh auth body
  | removeMember => exact wp_refuse nofun
  | within orgId request => exact request.owner_wp config orgId hd

/-- What a commit does to organizations: it adds one, or its owner. -/
def Tag.founds : Tag → Option (Uuid × Bool)
  | .organized orgId => some (orgId, false)
  | .owned orgId _ => some (orgId, true)
  | _ => none

/-- The commits that add an organization. -/
theorem Tag.mem_organizes {orgId : Uuid} : orgId ∈ tag.organizes ↔ tag = .organized orgId := by
  cases tag <;> simp [Tag.organizes, eq_comm]

/-- The commits that add an owner. -/
theorem Tag.founds_eq_owned {orgId : Uuid} :
    tag.founds = some (orgId, true) ↔ ∃ userId, tag = .owned orgId userId := by
  cases tag <;> simp [Tag.founds]

/-- The commits of a creation in their order. -/
def Founding (founded : List (Uuid × Bool)) : Prop :=
  founded = [] ∨ ∃ orgId, founded = [(orgId, false)] ∨ founded = [(orgId, false), (orgId, true)]

/-- A creation adds an owner only behind its organization. -/
theorem Founding.count_le {founded : List (Uuid × Bool)} (h : Founding founded) (orgId : Uuid) :
    founded.count (orgId, true) ≤ founded.count (orgId, false) := by
  rcases h with rfl | ⟨id, rfl | rfl⟩
  · simp
  · simp
  · by_cases hid : id = orgId
    · simp [hid]
    · simp [hid]

/-- Organizations that commits add, as they are counted. -/
theorem count_organizes {I : Type} (events : List (Event I Db Tag)) (orgId : Uuid) :
    (events.flatMap fun e => e.tag.organizes).count orgId =
      (events.filterMap fun e => e.tag.founds).count (orgId, false) := by
  induction events with
  | nil => rfl
  | cons e rest ih =>
    rw [List.flatMap_cons, List.count_append, ih]
    cases htag : e.tag <;> simp [htag, Tag.organizes, Tag.founds, List.count_cons, Nat.add_comm]

/-- Owners that commits add, as they are counted. -/
theorem statuses_owns {I : Type} (events : List (Event I Db Tag)) (orgId : Uuid) :
    ((events.flatMap fun e => e.tag.owns).filter (·.1 = orgId)).map (·.2.2) =
      List.replicate ((events.filterMap fun e => e.tag.founds).count (orgId, true)) .active := by
  induction events with
  | nil => rfl
  | cons e rest ih =>
    rw [List.flatMap_cons, List.filter_append, List.map_append, ih]
    cases htag : e.tag with
    | owned id userId =>
      by_cases hid : id = orgId
      · simp [htag, Tag.owns, Tag.founds, hid, List.replicate_succ]
      · simp [htag, Tag.owns, Tag.founds, hid]
    | _ => simp [htag, Tag.owns, Tag.founds]

section Labels

variable {P : Tag → Prop}

/-- A re-wrap commits under its label. -/
theorem labels_rewrapMembers (ht : P tag) (orgId ownerId : Uuid) (wraps : List RewrapEntry) :
    (DbOrgs.rewrapMembers orgId ownerId tag wraps).Labels P := by
  induction wraps with
  | nil => exact ⟨ht, trivial⟩
  | cons x wraps ih =>
    refine (neverCommits_update _ _ _).labels.bind fun rows => ?_
    split
    · trivial
    · exact ih

/-- A rotation commits under one label. -/
theorem labels_rotateKey (ht : P .plain) (orgId ownerId : Uuid) (r : Rotation) :
    (DbOrgs.rotateKey orgId ownerId r).Labels P := by
  refine (neverCommits_selectFor _ _).labels.bind fun rows => ?_
  refine (neverCommits_fetchOne rows).labels.bind fun org => ?_
  split
  · trivial
  refine (neverCommits_removeMember _ _).labels.bind fun removed => ?_
  split
  · trivial
  refine (neverCommits_selectFor _ _).labels.bind fun members => ?_
  split
  · trivial
  refine (neverCommits_selectFor _ _).labels.bind fun existing => ?_
  split
  · trivial
  refine (neverCommits_delete _).labels.bind fun _ => ?_
  rw [reencryptItems_eq, wrapMembers_eq]
  refine (Batch.neverCommits_run _).labels.bind fun _ => ?_
  refine (Batch.neverCommits_run _).labels.bind fun _ => ?_
  exact (neverCommits_update _ _ _).labels.bind fun _ => ⟨ht, trivial⟩

/-- Requests inside an organization commit under these labels. -/
theorem OrgRequest.labels (config : Config) (orgId : Uuid) (r : OrgRequest) (ht : P .plain)
    (hrewrap : ∀ epoch, P (.rewrap orgId epoch)) (haccept : P (.accepted orgId)) :
    (r.run config orgId).Labels P := by
  cases r with
  | inviteMember auth body =>
    refine (DbOrgs.reads_getOrgMember orgId auth).neverCommits.labels.bind fun _ => ?_
    refine labels_okOr_bind fun _ _ => (reads_require _ _).neverCommits.labels.bind fun _ => ?_
    refine (reads_require _ _).neverCommits.labels.bind fun _ => ?_
    refine (Orgs.reads_requireSeat orgId auth).neverCommits.labels.bind fun _ => ?_
    refine (reads_getPublicKeyByAccountKey _).neverCommits.labels.bind fun _ => ?_
    refine labels_okOr_bind fun invitee _ => (reads_require _ _).neverCommits.labels.bind fun _ => ?_
    refine Prog.Labels.bind ?_ fun _ => (reads_require _ _).neverCommits.labels
    refine (neverCommits_selectFor _ _).labels.bind fun rows => ?_
    refine (neverCommits_fetchOne rows).labels.bind fun org => ?_
    split
    · trivial
    split
    · trivial
    · exact (neverCommits_insertOrIgnore _ _).labels.bind fun _ => ⟨ht, trivial⟩
  | rewrapMembers auth body =>
    refine (Orgs.reads_requireOwner orgId auth).neverCommits.labels.bind fun _ => ?_
    refine (DbOrgs.reads_currentKeyEpoch orgId).neverCommits.labels.bind fun _ => ?_
    refine (reads_require _ _).neverCommits.labels.bind fun _ => ?_
    refine Prog.Labels.bind (labels_rewrapMembers ?_ orgId auth _) fun _ =>
      (reads_require _ _).neverCommits.labels
    split
    · exact ht
    · exact hrewrap _
  | acceptInvite auth =>
    refine Prog.Labels.bind ?_ fun _ => (reads_require _ _).neverCommits.labels
    refine Prog.Labels.bind ?_ fun _ => trivial
    refine (neverCommits_update _ _ _).labels.bind fun rows => ⟨?_, trivial⟩
    dsimp only
    split
    · exact ht
    · exact haccept
  | rotateKey auth body =>
    refine (Orgs.reads_requireOwner orgId auth).neverCommits.labels.bind fun _ => ?_
    refine (reads_require _ _).neverCommits.labels.bind fun _ => ?_
    refine (reads_require _ _).neverCommits.labels.bind fun _ => ?_
    split
    · trivial
    · refine (labels_rotateKey ht orgId auth _).bind fun outcome => ?_
      split
      · trivial
      · trivial

end Labels

/-- A request founds at most one organization: first its row, then its owner. -/
theorem OrgsRequest.founding (config : Config) (r : OrgsRequest) :
    (r.run config).Throughout Tag.founds Founding [] := by
  cases r with
  | createOrg fresh auth body =>
    refine (reads_require _ _).neverCommits.labels.throughout_bind (.inl rfl) fun _ => ?_
    refine (reads_bindTexts _).neverCommits.labels.throughout_bind (.inl rfl) fun _ => ?_
    refine throughout_autocommit_bind (neverCommits_update _ _ _) (.inl rfl) fun _ => ?_
    refine (reads_bindTexts _).neverCommits.labels.throughout_bind (.inl rfl) fun _ => ?_
    refine throughout_autocommit_bind (neverCommits_insert _ _) (.inl rfl) fun _ => ?_
    have hone : Founding [(body.id.getD fresh, false)] := .inr ⟨_, .inl rfl⟩
    refine (reads_bindTexts _).neverCommits.labels.throughout_bind hone fun _ => ?_
    rw [← Prog.bind_ret (autocommit _ _)]
    refine throughout_autocommit_bind (neverCommits_insert _ _) hone fun _ => ?_
    exact .inr ⟨_, .inr rfl⟩
  | removeMember => exact .inl rfl
  | within orgId request =>
    have hlabels : (request.run config orgId).Labels fun tag => tag.founds = none :=
      request.labels config orgId rfl (fun _ => rfl) rfl
    exact hlabels.throughout (.inl rfl)

/-- The statuses of an organization's owners. -/
theorem statuses_eq (orgId : Uuid) (d : Db) : (d.organizationMembers.filter fun m =>
      decide (m.orgId = orgId) && decide (m.role = .owner)).map (·.status) =
    ((owners d).filter (·.1 = orgId)).map (·.2.2) := by
  rw [owners]
  induction d.organizationMembers with
  | nil => rfl
  | cons m rest ih =>
    by_cases hrole : m.role = .owner
    · by_cases horg : m.orgId = orgId
      · simp [ownerOf, hrole, horg, ih]
      · simp [ownerOf, hrole, horg, ih]
    · simp [ownerOf, hrole, ih]

/-- Organizations with one active owner each, and no owners of others. -/
theorem governed_of_oneOwner (hd : OrgsConsistent d) (ho : OneOwner d) : Governed d := by
  refine ⟨hd.orgs, hd.members, fun x hx => ?_⟩
  obtain ⟨m, hm, hx⟩ := List.mem_filterMap.mp hx
  rw [ownerOf] at hx
  split at hx
  · rename_i hrole
    cases hx
    obtain ⟨o, horg, hid⟩ := List.mem_map.mp (hd.refs m hm)
    have hmem : m.status ∈ (d.organizationMembers.filter fun m =>
        decide (m.orgId = o.id) && decide (m.role = .owner)).map (·.status) := by
      apply List.mem_map_of_mem
      simp [hm, hid, hrole]
    rw [ho o horg, List.mem_singleton] at hmem
    exact hmem
  · cases hx

section Runs

variable {I : Type} [Fintype I] [DecidableEq I] {config : Config} {reqs : I → OrgsRequest}
  {db : Db} {sched : List (I × Act)} {s : State I Db RowId Tag ApiError Unit}

omit [Fintype I] [DecidableEq I] in
/-- Any interleaving of requests keeps the specification. -/
theorem good_orgs (config : Config) (reqs : I → OrgsRequest) (hdb : Governed db) :
    ownerSpec.Good (fun _ _ _ => True) (State.start db fun i => (reqs i).run config) :=
  Spec.Good.start hdb fun i => (reqs i).valid config

/-- Organizations and owners after a run are those before and those that its commits added. -/
theorem added_by_run (hdb : Governed db)
    (h : (State.start db fun i => (reqs i).run config).exec sched = some s) :
    Governed s.db ∧
      orgIds s.db = orgIds db ++ ((State.start db fun i => (reqs i).run config).history
        sched).flatMap (·.tag.organizes) ∧
      owners s.db = owners db ++ ((State.start db fun i => (reqs i).run config).history
        sched).flatMap (·.tag.owns) := by
  have hc := State.commits_of_history (P := ownerSpec.allow) h fun _ _ => trivial
  obtain ⟨hgood, -, hasserts⟩ := (good_orgs config reqs hdb).exec hc h
  exact ⟨hgood.inv, State.view_append orgIds Tag.organizes h fun e he => (hasserts e he).1,
    State.view_append owners Tag.owns h fun e he => (hasserts e he).2.1⟩

/-- Owners are added only behind their organizations. -/
theorem count_founds_le
    (h : (State.start db fun i => (reqs i).run config).exec sched = some s) (orgId : Uuid) :
    (((State.start db fun i => (reqs i).run config).history sched).filterMap
        fun e => e.tag.founds).count (orgId, true) ≤
      (((State.start db fun i => (reqs i).run config).history sched).filterMap
        fun e => e.tag.founds).count (orgId, false) := by
  rw [State.count_taken, State.count_taken]
  apply Finset.sum_le_sum
  intro i _
  have hfounding := State.throughout (i := i) h ((reqs i).founding config)
  rw [List.nil_append] at hfounding
  exact hfounding.count_le orgId

/-- An organization that was there before a run keeps its one owner. -/
theorem statuses_of_before (hdb : OrgsConsistent db) (hone : OneOwner db)
    (h : (State.start db fun i => (reqs i).run config).exec sched = some s) {orgId : Uuid}
    (hid : orgId ∈ orgIds db) : ((owners s.db).filter (·.1 = orgId)).map (·.2.2) = [.active] := by
  obtain ⟨hgov, hids, howners⟩ := added_by_run (governed_of_oneOwner hdb hone) h
  have hnodup := hgov.orgs
  rw [hids, List.nodup_append] at hnodup
  have hnone := List.count_eq_zero.mpr fun hnew => hnodup.2.2 orgId hid orgId hnew rfl
  rw [count_organizes] at hnone
  have hle := count_founds_le h orgId
  rw [hnone, Nat.le_zero] at hle
  obtain ⟨o, ho, rfl⟩ := List.mem_map.mp hid
  rw [howners, List.filter_append, List.map_append, statuses_owns, hle, ← statuses_eq, hone o ho]
  rfl

/-- An organization that a run added has one owner once its owner's row is there. -/
theorem statuses_of_added (hdb : OrgsConsistent db) (hone : OneOwner db)
    (h : (State.start db fun i => (reqs i).run config).exec sched = some s) {orgId : Uuid}
    (hid : orgId ∈ ((State.start db fun i => (reqs i).run config).history
      sched).flatMap (·.tag.organizes)) :
    ((owners s.db).filter (·.1 = orgId)).map (·.2.2) = [.active] ↔
      (orgId, true) ∈ ((State.start db fun i => (reqs i).run config).history
        sched).filterMap fun e => e.tag.founds := by
  obtain ⟨hgov, hids, howners⟩ := added_by_run (governed_of_oneOwner hdb hone) h
  have hnodup := hgov.orgs
  rw [hids, List.nodup_append] at hnodup
  have hone := List.count_eq_one_of_mem hnodup.2.1 hid
  rw [count_organizes] at hone
  have hle := count_founds_le h orgId
  rw [hone] at hle
  -- no row names an organization that is not there
  have hbefore : (owners db).filter (·.1 = orgId) = [] := by
    rw [List.filter_eq_nil_iff]
    intro x hx heq
    obtain ⟨m, hm, hmx⟩ := List.mem_filterMap.mp hx
    have hmorg : m.orgId = x.1 := by
      rw [ownerOf] at hmx
      split at hmx
      · cases hmx
        rfl
      · cases hmx
    rw [decide_eq_true_eq, ← hmorg] at heq
    exact hnodup.2.2 orgId (heq ▸ hdb.refs m hm) orgId hid rfl
  rw [howners, List.filter_append, List.map_append, statuses_owns, hbefore, List.map_nil,
    List.nil_append, ← List.count_pos_iff]
  constructor
  · intro heq
    have hlength := congrArg List.length heq
    rw [List.length_replicate] at hlength
    rw [hlength]
    exact Nat.one_pos
  · intro hpos
    have hcount := Nat.le_antisymm hle hpos
    rw [hcount]
    rfl

/-- After a run every organization has exactly one owner, who is active, if and only if every
organization that it added has got its owner. -/
theorem oneOwner_iff_ownersFollow (hdb : OrgsConsistent db) (hone : OneOwner db)
    (h : (State.start db fun i => (reqs i).run config).exec sched = some s) : OneOwner s.db ↔
      OwnersFollow ((State.start db fun i => (reqs i).run config).history sched) := by
  obtain ⟨-, hids, -⟩ := added_by_run (governed_of_oneOwner hdb hone) h
  constructor
  · intro hs orgId ⟨e, he, htag⟩
    have hadded : orgId ∈ ((State.start db fun i => (reqs i).run config).history
        sched).flatMap (·.tag.organizes) := by
      rw [List.mem_flatMap]
      exact ⟨e, he, by rw [htag]; exact List.mem_singleton_self _⟩
    have hmem : orgId ∈ orgIds s.db := by
      rw [hids]
      exact List.mem_append_right _ hadded
    obtain ⟨o, ho, rfl⟩ := List.mem_map.mp hmem
    have hstatuses := hs o ho
    rw [statuses_eq, statuses_of_added hdb hone h hadded, List.mem_filterMap] at hstatuses
    obtain ⟨e', he', hfounds⟩ := hstatuses
    exact ⟨e', he', Tag.founds_eq_owned.mp hfounds⟩
  · intro hfollow o ho
    have hmem : o.id ∈ orgIds s.db := List.mem_map_of_mem ho
    rw [statuses_eq]
    rw [hids, List.mem_append] at hmem
    rcases hmem with hmem | hmem
    · exact statuses_of_before hdb hone h hmem
    · rw [statuses_of_added hdb hone h hmem, List.mem_filterMap]
      obtain ⟨e, he, hadds⟩ := List.mem_flatMap.mp hmem
      obtain ⟨e', he', howned⟩ := hfollow o.id ⟨e, he, Tag.mem_organizes.mp hadds⟩
      exact ⟨e', he', Tag.founds_eq_owned.mpr howned⟩

/-- No commit of a run takes an owner away. -/
theorem keepsOwners_of_run (hdb : Governed db)
    (h : (State.start db fun i => (reqs i).run config).exec sched = some s) :
    ∀ e ∈ (State.start db fun i => (reqs i).run config).history sched,
      KeepsOwners e.before e.after := by
  have hc := State.commits_of_history (P := ownerSpec.allow) h fun _ _ => trivial
  intro e he m hm hrole
  obtain ⟨hbefore, -⟩ := (good_orgs config reqs hdb).guar_of_mem_history hc h e he
  have howners := (((good_orgs config reqs hdb).exec hc h).2.2 e he).2.1
  have hmem : (m.orgId, m.userId, m.status) ∈ owners e.before :=
    List.mem_filterMap.mpr ⟨m, hm, if_pos hrole⟩
  have hactive := hbefore.active _ hmem
  have hafter : (m.orgId, m.userId, m.status) ∈ owners e.after := by
    rw [howners]
    exact List.mem_append_left _ hmem
  obtain ⟨m', hm', hx⟩ := List.mem_filterMap.mp hafter
  rw [ownerOf] at hx
  split at hx
  · rename_i hrole'
    simp only [Option.some.injEq, Prod.mk.injEq] at hx
    exact ⟨m', hm', hx.1, hx.2.1, hrole', hx.2.2.trans hactive⟩
  · cases hx

end Runs

section Failure

variable {fresh auth : Uuid} {body : CreateOrgBody}

/-- The caller has a key pair already. -/
def KeysStored (auth : Uuid) (d : Db) : Prop :=
  ∀ u ∈ d.users, u.id = auth → u.publicKey.isSome = true ∧ u.protectedPrivateKey.isSome = true ∧
    u.protectedPrivateKeyIv.isSome = true

/-- Organizations, members and the caller's row are as they were. -/
def LeavesOrgs (auth : Uuid) (d d' : Db) : Prop :=
  d'.organizations = d.organizations ∧ d'.organizationMembers = d.organizationMembers ∧
    d'.users.filter (·.id = auth) = d.users.filter (·.id = auth)

/-- A creation that fails leaves what it is about as it was. -/
def FailsWhole (fresh auth : Uuid) (body : CreateOrgBody) (d : Db) : Prop :=
  ∀ e d', (Orgs.createOrg fresh auth body).alone id d = (.error e, d') → LeavesOrgs auth d d'

/-- The creation is refused before it stores anything, or it has nothing to store before it is
refused, or its last statement is accepted. -/
def StoresAllOrNothing (fresh auth : Uuid) (body : CreateOrgBody) (d : Db) : Prop :=
  trim body.name = "" ∨
  ¬ [body.publicKey, body.protectedPrivateKey, body.protectedPrivateKeyIv].all isSqlText = true ∨
  (∀ u ∈ d.users, u.id ≠ auth) ∨
  if isSqlText (trim body.name) = true ∧ body.id.getD fresh ∉ orgIds d then
    (body.encryptedOrgKey :: body.wrapSignature.toList).all isSqlText = true ∧
      body.keyEpoch.all (1 ≤ ·) = true
  else KeysStored auth d

/-- The database once the caller's keys are stored. -/
def publishedDb (auth : Uuid) (body : CreateOrgBody) (d : Db) : Db :=
  { d with users := d.users.map fun u => if u.id = auth then Orgs.publishKeys body u else u }

/-- A lone request goes on with texts that PostgreSQL takes. -/
theorem alone_bindTexts_bind {O : Type} {texts : List String} {k : Unit → Request O} :
    (bindTexts texts >>= k).alone w d =
      if texts.all isSqlText then (k ()).alone w d else (.error none, d) := by
  unfold bindTexts
  split
  · rfl
  · rfl

/-- Storing keys changes nothing exactly when they are there. -/
theorem publishKeys_eq_iff {u : User} : Orgs.publishKeys body u = u ↔
    u.publicKey.isSome = true ∧ u.protectedPrivateKey.isSome = true ∧
      u.protectedPrivateKeyIv.isSome = true := by
  obtain ⟨⟩ := u
  simp only [Orgs.publishKeys, User.mk.injEq, true_and, and_true]
  rename_i publicKey key iv _ _ _ _ _ _ _ _
  cases publicKey <;> cases key <;> cases iv <;> simp

/-- Storing the caller's keys leaves the caller's row exactly when they are there. -/
theorem users_publishedDb_iff : (publishedDb auth body d).users.filter (·.id = auth) =
    d.users.filter (·.id = auth) ↔ KeysStored auth d := by
  have hid (u : User) : (if u.id = auth then Orgs.publishKeys body u else u).id = u.id := by
    split
    · rfl
    · rfl
  have hmap : (publishedDb auth body d).users.filter (·.id = auth) =
      (d.users.filter (·.id = auth)).map (Orgs.publishKeys body) := by
    change (d.users.map _).filter _ = _
    rw [List.filter_map]
    simp only [Function.comp_def, hid]
    apply List.map_congr_left
    intro u hu
    rw [List.mem_filter, decide_eq_true_eq] at hu
    exact if_pos hu.2
  rw [hmap]
  constructor
  · intro h u hu hua
    have hself := List.map_inj_left.mp (h.trans (List.map_id _).symm)
    exact publishKeys_eq_iff.mp (hself u (List.mem_filter.mpr ⟨hu, decide_eq_true hua⟩))
  · intro h
    refine (List.map_congr_left fun u hu => ?_).trans (List.map_id _)
    rw [List.mem_filter, decide_eq_true_eq] at hu
    exact publishKeys_eq_iff.mpr (h u hu.1 hu.2)

/-- Of a lone creation with a name and texts that PostgreSQL takes, the keys are stored first. -/
theorem alone_createOrg (hd : OrgsConsistent d) (hname : trim body.name ≠ "")
    (htexts : [body.publicKey, body.protectedPrivateKey, body.protectedPrivateKeyIv].all
      isSqlText = true) : (Orgs.createOrg fresh auth body).alone id d =
      (DbOrgs.createOrg (body.id.getD fresh) (trim body.name) auth body.encryptedOrgKey
        body.wrapSignature body.keyEpoch).alone id (publishedDb auth body d) := by
  have hstmt : (Tables.users.edit (((Tables.users.get d).filter fun u =>
      decide (u.id = auth)).map Tables.users.key) (Orgs.publishKeys body)) d =
      publishedDb auth body d := by
    rw [Tables.users.edit_filter]
    · simp only [decide_eq_true_eq]
      rfl
    · have hkeys : (Tables.users.get d).map Tables.users.key =
          ((d.users.map (·.id)).map RowId.user) := by
        rw [List.map_map]
        rfl
      rw [hkeys]
      exact hd.users.map fun _ _ => RowId.user.inj
  unfold Orgs.createOrg
  rw [decide_eq_true hname, require, if_pos rfl, Prog.ret_bind, alone_bindTexts_bind, if_pos htexts,
    autocommit, Prog.bind_bind, Table.alone_update_eq, ← hstmt]
  · rfl
  · intro u hu
    exact hd.checks u (List.mem_filter.mp hu).1

/-- An id that no organization has is free. -/
theorem vacant_organization {o : Organization} {x : Db} :
    Tables.organizations.vacant o x = true ↔ o.id ∉ orgIds x := by
  rw [Table.vacant, List.all_eq_true, orgIds, List.mem_map, not_exists]
  constructor
  · rintro h o' ⟨ho', hid⟩
    exact of_decide_eq_true (h o' ho') (congrArg RowId.organization hid)
  · intro h o' ho'
    rw [decide_eq_true_eq]
    exact fun heq => h o' ⟨ho', RowId.organization.inj heq⟩

section Rows

variable {orgId : Uuid} {name key : String} {signature : Option String} {epoch : Option Int}
  {x : Db}

/-- A lone creation of an organization that cannot be stored stores nothing. -/
theorem alone_dbCreateOrg_refused
    (h : ¬ (isSqlText name = true ∧ orgId ∉ orgIds x ∧ (userRef auth).live x = true)) :
    (DbOrgs.createOrg orgId name auth key signature epoch).alone id x = (.error none, x) := by
  unfold DbOrgs.createOrg
  rw [alone_bindTexts_bind]
  by_cases hname : isSqlText name = true
  · have htexts : [name].all isSqlText = true := by simp [hname]
    have hfail : ¬ (Tables.organizations.vacant
        { id := orgId, name := name, createdBy := auth } x = true ∧
        Tables.organizations.check { id := orgId, name := name, createdBy := auth } = true ∧
        [userRef auth].all (·.live x) = true) := by
      rw [vacant_organization]
      exact fun hall => h ⟨hname, hall.1, by simpa using hall.2.2⟩
    rw [if_pos htexts, autocommit, Prog.bind_bind, Table.alone_insert_bind, id_eq, if_neg hfail]
  · have htexts : ¬ [name].all isSqlText = true := by simp [hname]
    rw [if_neg htexts]

/-- A lone creation of an organization that can be stored stores it for good, and then its owner
or nothing. -/
theorem alone_dbCreateOrg_stored (h : isSqlText name = true ∧ orgId ∉ orgIds x)
    (hrefs : ∀ m ∈ x.organizationMembers, m.orgId ∈ orgIds x)
    (huser : (userRef auth).live x = true) :
    ∃ x', (DbOrgs.createOrg orgId name auth key signature epoch).alone id x =
      if (key :: signature.toList).all isSqlText = true ∧ epoch.all (1 ≤ ·) = true then (.ok (), x')
      else (.error none, Tables.organizations.push
        { id := orgId, name := name, createdBy := auth } x) := by
  have htexts : [name].all isSqlText = true := by simp [h.1]
  have hinsert : Tables.organizations.vacant
      { id := orgId, name := name, createdBy := auth } x = true ∧
      Tables.organizations.check { id := orgId, name := name, createdBy := auth } = true ∧
      [userRef auth].all (·.live x) = true := by
    rw [vacant_organization]
    exact ⟨h.2, rfl, by simp [huser]⟩
  unfold DbOrgs.createOrg
  rw [alone_bindTexts_bind, if_pos htexts, autocommit, Prog.bind_bind, Table.alone_insert_bind,
    id_eq, if_pos hinsert, Prog.commit_bind, Prog.alone, Prog.ret_bind, alone_bindTexts_bind]
  by_cases hkey : (key :: signature.toList).all isSqlText = true
  · rw [if_pos hkey, autocommit, Table.alone_insert_bind]
    by_cases hepoch : epoch.all (1 ≤ ·) = true
    · refine ⟨_, (if_pos ⟨?_, hepoch, ?_⟩).trans (if_pos ⟨hkey, hepoch⟩).symm⟩
      · rw [Table.vacant, List.all_eq_true]
        intro m hm
        rw [decide_eq_true_eq]
        intro heq
        have hid : m.orgId = orgId := (RowId.organizationMember.inj heq).1
        exact h.2 (hid ▸ hrefs m hm)
      · have horg : (organizationRef orgId).live (Tables.organizations.push
            { id := orgId, name := name, createdBy := auth } x) = true := by
          simp [organizationRef, Table.push, Tables.organizations]
        have huser' : (userRef auth).live (Tables.organizations.push
            { id := orgId, name := name, createdBy := auth } x) = true := huser
        simp [horg, huser']
    · exact ⟨x, (if_neg fun hall => hepoch hall.2.1).trans
        (if_neg fun hall => hepoch hall.2).symm⟩
  · rw [if_neg hkey]
    exact ⟨x, (if_neg fun hall => hkey hall.1).symm⟩

end Rows

/-- A lone creation that is refused before it stores anything. -/
theorem alone_createOrg_refused (h : trim body.name = "" ∨
    ¬ [body.publicKey, body.protectedPrivateKey, body.protectedPrivateKeyIv].all isSqlText = true) :
    ∃ e, (Orgs.createOrg fresh auth body).alone id d = (.error e, d) := by
  unfold Orgs.createOrg
  by_cases hname : trim body.name = ""
  · rw [decide_eq_false (not_not_intro hname)]
    exact ⟨_, rfl⟩
  · rw [decide_eq_true hname, require, if_pos rfl, Prog.ret_bind, alone_bindTexts_bind,
      if_neg (h.resolve_left hname)]
    exact ⟨_, rfl⟩

/-- Once the keys are stored, what the creation is about is as it was exactly when they were there
before. -/
theorem leavesOrgs_publishedDb : LeavesOrgs auth d (publishedDb auth body d) ↔ KeysStored auth d :=
  ⟨fun h => users_publishedDb_iff.mp h.2.2, fun h => ⟨rfl, rfl, users_publishedDb_iff.mpr h⟩⟩

/-- The caller has a row once the keys are stored if and only if before. -/
theorem live_publishedDb : (userRef auth).live (publishedDb auth body d) = true ↔
    ∃ u ∈ d.users, u.id = auth := by
  have hid (u : User) : (if u.id = auth then Orgs.publishKeys body u else u).id = u.id := by
    split
    · rfl
    · rfl
  simp [userRef, publishedDb, hid]

/-- An answer of a lone request is what it fails with. -/
theorem failsWhole_of_alone {e : Option ApiError} {d' : Db}
    (h : (Orgs.createOrg fresh auth body).alone id d = (.error e, d')) :
    FailsWhole fresh auth body d ↔ LeavesOrgs auth d d' := by
  constructor
  · exact fun hwhole => hwhole e d' h
  · intro hleaves e' d'' h'
    cases h.symm.trans h'
    exact hleaves

/-- A lone creation that fails leaves what it is about as it was, if and only if it is refused
before it stores anything, has nothing to store before it is refused, or is not refused at its last
statement. -/
theorem failsWhole_iff (hd : OrgsConsistent d) :
    FailsWhole fresh auth body d ↔ StoresAllOrNothing fresh auth body d := by
  unfold StoresAllOrNothing
  by_cases hfirst : trim body.name = "" ∨
      ¬ [body.publicKey, body.protectedPrivateKey, body.protectedPrivateKeyIv].all isSqlText = true
  · obtain ⟨e, h⟩ : ∃ e, (Orgs.createOrg fresh auth body).alone id d = (.error e, d) :=
      alone_createOrg_refused hfirst
    rw [failsWhole_of_alone h]
    refine iff_of_true ⟨rfl, rfl, rfl⟩ ?_
    rw [← or_assoc]
    exact .inl hfirst
  obtain ⟨hname, htexts⟩ := not_or.mp hfirst
  rw [not_not] at htexts
  have halone : (Orgs.createOrg fresh auth body).alone id d =
      (DbOrgs.createOrg (body.id.getD fresh) (trim body.name) auth body.encryptedOrgKey
        body.wrapSignature body.keyEpoch).alone id (publishedDb auth body d) :=
    alone_createOrg hd hname htexts
  rw [or_iff_right hname, or_iff_right (not_not_intro htexts)]
  by_cases huser : ∃ u ∈ d.users, u.id = auth
  swap
  · have hnone : ∀ u ∈ d.users, u.id ≠ auth := fun u hu hid => huser ⟨u, hu, hid⟩
    rw [alone_dbCreateOrg_refused fun hall => huser (live_publishedDb.mp hall.2.2)] at halone
    rw [failsWhole_of_alone halone, leavesOrgs_publishedDb]
    exact iff_of_true (fun u hu hid => (hnone u hu hid).elim) (.inl hnone)
  have hsome : ¬ ∀ u ∈ d.users, u.id ≠ auth := by
    intro h
    obtain ⟨u, hu, hid⟩ := huser
    exact h u hu hid
  rw [or_iff_right hsome]
  by_cases hstored : isSqlText (trim body.name) = true ∧ body.id.getD fresh ∉ orgIds d
  · obtain ⟨x', hx⟩ : ∃ x', (DbOrgs.createOrg (body.id.getD fresh) (trim body.name) auth
        body.encryptedOrgKey body.wrapSignature body.keyEpoch).alone id (publishedDb auth body d) =
        if (body.encryptedOrgKey :: body.wrapSignature.toList).all isSqlText = true ∧
          body.keyEpoch.all (1 ≤ ·) = true then (.ok (), x')
        else (.error none, Tables.organizations.push
          { id := body.id.getD fresh, name := trim body.name, createdBy := auth }
          (publishedDb auth body d)) :=
      alone_dbCreateOrg_stored hstored hd.refs (live_publishedDb.mpr huser)
    rw [if_pos hstored]
    rw [hx] at halone
    split at halone
    · rename_i hlast
      refine iff_of_true (fun e d' h => ?_) hlast
      cases halone.symm.trans h
    · rename_i hlast
      rw [failsWhole_of_alone halone]
      refine iff_of_false (fun h => ?_) hlast
      -- the organization stays without an owner
      have hlength := congrArg List.length h.1
      simp [Table.push, Tables.organizations, publishedDb] at hlength
  · rw [alone_dbCreateOrg_refused (x := publishedDb auth body d)
      fun hall => hstored ⟨hall.1, hall.2.1⟩] at halone
    rw [if_neg hstored, failsWhole_of_alone halone, leavesOrgs_publishedDb]

end Failure

/-- An account without keys. -/
private def newcomer : Db where
  users := [{ id := 1, opaqueRecord := some [] }]

/-- The newcomer's organization, with a wrap for this epoch. -/
private def founding (epoch : Int) : CreateOrgBody where
  id := some 2
  name := "org"
  publicKey := "key"
  protectedPrivateKey := "wrapped"
  protectedPrivateKeyIv := "iv"
  encryptedOrgKey := "org key"
  keyEpoch := some epoch

private theorem newcomer_consistent : OrgsConsistent newcomer :=
  ⟨by decide, by decide, by decide, by decide, nofun⟩

private def foundingStart (epoch : Int) : State (Fin 1) Db RowId Tag ApiError Unit :=
  State.start newcomer fun _ => (OrgsRequest.createOrg 3 1 (founding epoch)).run ⟨id⟩

end Nopass
