import Nopass.Server.Orgs

/-!
# Wraps and the current epoch

Invites and rotations check the epoch under the lock of the organization row, so they
leave every wrap at the current epoch under any interleaving. A re-wrap checks it
before its transaction: a rotation that commits in between leaves the re-wrapped rows
at the retired epoch.
-/

namespace Nopass

open ReadCommitted

/-- Requests that write wraps or members of one organization, each by its caller. -/
inductive OrgRequest where
  | inviteMember (auth : Uuid) (body : InviteMemberBody)
  | rewrapMembers (auth : Uuid) (body : RewrapBody)
  | acceptInvite (auth : Uuid)
  | rotateKey (auth : Uuid) (body : RotateKeyBody)

/-- The program of a request. -/
def OrgRequest.run (config : Config) (orgId : Uuid) : OrgRequest → Request Unit
  | .inviteMember auth body => Orgs.inviteMember config orgId auth body
  | .rewrapMembers auth body => Orgs.rewrapMembers orgId auth body
  | .acceptInvite auth => Orgs.acceptInvite orgId auth
  | .rotateKey auth body => Orgs.rotateKey orgId auth body

/-- Every wrap of the organization is at its current epoch. -/
def EpochsAgree (orgId : Uuid) (d : Db) : Prop :=
  ∀ m ∈ d.organizationMembers, m.orgId = orgId → ∀ e ∈ m.keyEpoch,
    ∀ o ∈ d.organizations, o.id = orgId → e = o.keyEpoch

instance (orgId : Uuid) (d : Db) : Decidable (EpochsAgree orgId d) :=
  inferInstanceAs (Decidable (∀ m ∈ d.organizationMembers, m.orgId = orgId → ∀ e ∈ m.keyEpoch,
    ∀ o ∈ d.organizations, o.id = orgId → e = o.keyEpoch))

/-- The organization has one row. -/
def OneOrg (orgId : Uuid) (d : Db) : Prop :=
  ∀ o ∈ d.organizations, ∀ o' ∈ d.organizations, o.id = orgId → o'.id = orgId → o = o'

instance (orgId : Uuid) (d : Db) : Decidable (OneOrg orgId d) :=
  inferInstanceAs (Decidable (∀ o ∈ d.organizations, ∀ o' ∈ d.organizations, o.id = orgId →
    o'.id = orgId → o = o'))

/-- A re-wrap commits while the epoch that its route read is still current. -/
def RewrapCurrent : Tag → Db → Prop
  | .rewrap orgId epoch, d => ∀ o ∈ d.organizations, o.id = orgId → o.keyEpoch = epoch
  | _, _ => True

instance : ∀ tag d, Decidable (RewrapCurrent tag d)
  | .rewrap orgId epoch, d => inferInstanceAs
      (Decidable (∀ o ∈ d.organizations, o.id = orgId → o.keyEpoch = epoch))
  | .plain, _ | .deleteVault _ _, _ | .handshake _ _, _ | .authorized _ _ _, _ |
    .consumed _, _ | .issued _ _, _ | .replacedKit _ _, _ | .wrote _ _ _, _ |
    .rekeyed _ _, _ | .reencrypted _, _ |
    .published _, _ | .organized _, _ | .owned _ _, _ | .accepted _, _ =>
      inferInstanceAs (Decidable True)

/-- The member accounts of the organization. -/
def HasMember (orgId userId : Uuid) (d : Db) : Prop :=
  ∃ m ∈ d.organizationMembers, m.orgId = orgId ∧ m.userId = userId

/-- What the lock of the organization row protects: the row, and through the foreign key of
its members, that no member is added. -/
structure OrgKept (orgId : Uuid) (d d' : Db) : Prop where
  org : ∀ o ∈ d'.organizations, o.id = orgId → o ∈ d.organizations
  members : ∀ userId, HasMember orgId userId d' → HasMember orgId userId d

/-- The specification that invites, re-wraps, acceptances and rotations keep together. -/
def epochSpec (orgId : Uuid) : Spec Db RowId Tag ApiError where
  inv d := EpochsAgree orgId d ∧ OneOrg orgId d
  guar _ _ := True
  guar_refl _ := trivial
  guar_trans _ _ := trivial
  keeps k m d d' := k = .organization orgId → m = .update → OrgKept orgId d d'
  keeps_refl _ _ _ _ _ := ⟨fun _ ho _ => ho, fun _ hm => hm⟩
  keeps_trans h h' hk hm :=
    ⟨fun o ho hid => (h hk hm).org o ((h' hk hm).org o ho hid) hid,
      fun userId hu => (h hk hm).members userId ((h' hk hm).members userId hu)⟩
  allow := RewrapCurrent
  asserts _ _ _ := True

variable {orgId ownerId : Uuid} {e : Option Int} {w : Db → Db} {L : List (RowId × LockMode)} {d d' : Db}

/-- Under the lock of the organization row nothing it protects changes. -/
theorem orgKept_of_rely (h : (epochSpec orgId).Rely L d d')
    (hl : (.organization orgId, .update) ∈ L) : OrgKept orgId d d' :=
  h.keeps _ hl rfl rfl

/-- Pending writes that leave organizations alone, add no member and give no row an epoch
other than `e`. -/
structure WritesEpoch (orgId : Uuid) (e : Option Int) (w : Db → Db) : Prop where
  orgs : ∀ d, (w d).organizations = d.organizations
  rows : ∀ d, ∀ m ∈ (w d).organizationMembers, m.orgId = orgId →
    ∃ m₀ ∈ d.organizationMembers, m₀.orgId = orgId ∧ m₀.userId = m.userId ∧
      (m.keyEpoch = m₀.keyEpoch ∨ ∃ x ∈ e, m.keyEpoch = some x)

/-- No writes. -/
theorem WritesEpoch.id (orgId : Uuid) (e : Option Int) : WritesEpoch orgId e id :=
  ⟨fun _ => rfl, fun _ m hm ho => ⟨m, hm, ho, rfl, Or.inl rfl⟩⟩

/-- Such writes add no member. -/
theorem WritesEpoch.hasMember (h : WritesEpoch orgId e w) {userId : Uuid}
    (hm : HasMember orgId userId (w d)) : HasMember orgId userId d := by
  obtain ⟨m, hm, ho, hu⟩ := hm
  obtain ⟨m₀, hm₀, ho₀, hu₀, _⟩ := h.rows d m hm ho
  exact ⟨m₀, hm₀, ho₀, hu₀.trans hu⟩

/-- Editing member rows in place, with the epoch kept or set to `e`. -/
theorem WritesEpoch.edit (h : WritesEpoch orgId e w) (keys : List RowId)
    {f : OrganizationMember → OrganizationMember}
    (hf : ∀ m, (f m).orgId = m.orgId ∧ (f m).userId = m.userId)
    (he : ∀ m, (f m).keyEpoch = m.keyEpoch ∨ ∃ x ∈ e, (f m).keyEpoch = some x) :
    WritesEpoch orgId e (Tables.organizationMembers.edit keys f ∘ w) := by
  refine ⟨h.orgs, fun d m hm ho => ?_⟩
  obtain ⟨m₁, hm₁, rfl⟩ := (Tables.organizationMembers.mem_edit).mp hm
  have ho₁ : m₁.orgId = orgId := by
    split at ho
    · rw [← (hf m₁).1]
      exact ho
    · exact ho
  obtain ⟨m₀, hm₀, ho₀, hu₀, he₀⟩ := h.rows d m₁ hm₁ ho₁
  refine ⟨m₀, hm₀, ho₀, ?_, ?_⟩
  · split
    · rw [(hf m₁).2, hu₀]
    · exact hu₀
  · split
    · rcases he m₁ with he | he
      · rw [he]
        exact he₀
      · exact Or.inr he
    · exact he₀

/-- Writes that agree with the current epoch keep the invariant. -/
theorem WritesEpoch.inv (h : WritesEpoch orgId e w) (hd : EpochsAgree orgId d ∧ OneOrg orgId d)
    (he : ∀ x ∈ e, ∀ o ∈ d.organizations, o.id = orgId → o.keyEpoch = x) :
    EpochsAgree orgId (w d) ∧ OneOrg orgId (w d) := by
  constructor
  · intro m hm ho x hx o hoo hid
    rw [h.orgs] at hoo
    obtain ⟨m₀, hm₀, ho₀, _, hk⟩ := h.rows d m hm ho
    rcases hk with hk | ⟨y, hy, hk⟩
    · exact hd.1 m₀ hm₀ ho₀ x (hk ▸ hx) o hoo hid
    · cases hk.symm.trans hx
      exact (he x hy o hoo hid).symm
  · intro o ho o' ho' hid hid'
    rw [h.orgs] at ho ho'
    exact hd.2 o ho o' ho' hid hid'

/-- Such writes keep what the organization lock protects. -/
theorem WritesEpoch.kept (h : WritesEpoch orgId e w) : OrgKept orgId d (w d) :=
  ⟨fun o ho _ => by rwa [h.orgs] at ho, fun _ hm => h.hasMember hm⟩

private theorem owes_of_writes (h : WritesEpoch orgId e w) (tag : Tag)
    (hd : EpochsAgree orgId d ∧ OneOrg orgId d)
    (he : ∀ x ∈ e, ∀ o ∈ d.organizations, o.id = orgId → o.keyEpoch = x) :
    (epochSpec orgId).Owes L tag d (w d) :=
  ⟨trivial, h.inv hd he, trivial, fun _ _ _ _ _ => h.kept⟩

/-- The re-wrap transaction keeps the specification when all its wraps carry the epoch that its
label names. -/
theorem rewrapMembers_wp {epoch : Int} (wraps : List RewrapEntry)
    (hx : ∀ x ∈ wraps, x.keyEpoch = epoch) (hw : WritesEpoch orgId (some epoch) w) :
    (epochSpec orgId).wp (fun _ L w _ => L = [] ∧ w = id)
      (DbOrgs.rewrapMembers orgId ownerId (.rewrap orgId epoch) wraps) L w d := by
  induction wraps generalizing L w d with
  | nil =>
    intro d' hr ha
    refine ⟨owes_of_writes hw _ hr.inv ?_, fun _ _ => ⟨rfl, rfl⟩⟩
    rintro x ⟨⟩
    exact ha
  | cons x wraps ih =>
    refine Table.wp_update_bind fun s hs n hn _ => ?_
    split
    · exact fun _ _ _ _ => ⟨rfl, rfl⟩
    · refine ih (fun y hy => hx y (List.mem_cons_of_mem x hy)) ?_
      refine hw.edit _ (fun m => ⟨rfl, rfl⟩) fun m => Or.inr ⟨epoch, rfl, ?_⟩
      rw [← hx x List.mem_cons_self]
      rfl

/-- Editing member rows in place adds and removes no member. -/
theorem hasMember_edit {userId : Uuid} {keys : List RowId}
    {f : OrganizationMember → OrganizationMember}
    (hf : ∀ m, (f m).orgId = m.orgId ∧ (f m).userId = m.userId) :
    HasMember orgId userId (Tables.organizationMembers.edit keys f d) ↔
      HasMember orgId userId d := by
  constructor
  · rintro ⟨m, hm, ho, hu⟩
    obtain ⟨m₀, hm₀, rfl⟩ := (Tables.organizationMembers.mem_edit).mp hm
    refine ⟨m₀, hm₀, ?_, ?_⟩
    · split at ho
      · rw [← ho, (hf m₀).1]
      · exact ho
    · split at hu
      · rw [← hu, (hf m₀).2]
      · exact hu
  · rintro ⟨m, hm, ho, hu⟩
    refine ⟨_, (Tables.organizationMembers.mem_edit).mpr ⟨m, hm, rfl⟩, ?_, ?_⟩
    · split
      · rw [(hf m).1, ho]
      · exact ho
    · split
      · rw [(hf m).2, hu]
      · exact hu

/-- Removing rows removes the members with these keys. -/
theorem hasMember_drop {userId : Uuid} {keys : List RowId} :
    HasMember orgId userId (Tables.organizationMembers.drop keys d) ↔
      HasMember orgId userId d ∧ .organizationMember orgId userId ∉ keys := by
  constructor
  · rintro ⟨m, hm, rfl, rfl⟩
    obtain ⟨hm, hk⟩ := (Tables.organizationMembers.mem_drop).mp hm
    exact ⟨⟨m, hm, rfl, rfl⟩, hk⟩
  · rintro ⟨⟨m, hm, rfl, rfl⟩, hk⟩
    exact ⟨m, (Tables.organizationMembers.mem_drop).mpr ⟨hm, hk⟩, rfl, rfl⟩

/-- The members among the hits of a statement are those of the newest rows, as long as no
member was added since its snapshot. -/
theorem mem_hits_of_hasMember {cond : Db → OrganizationMember → Bool} {userId : Uuid} {s n : Db}
    (hn : HasMember orgId userId n) (hs : HasMember orgId userId n → HasMember orgId userId s)
    (hc : ∀ m, m.orgId = orgId → m.userId = userId → cond s m = true) :
    ∃ m ∈ Tables.organizationMembers.hits cond s n, m.orgId = orgId ∧ m.userId = userId := by
  obtain ⟨m, hm, ho, hu⟩ := hn
  obtain ⟨m₀, hm₀, ho₀, hu₀⟩ := hs ⟨m, hm, ho, hu⟩
  refine ⟨m, (Tables.organizationMembers.mem_hits).mpr ⟨hm, ⟨m₀, hm₀, hc m₀ ho₀ hu₀, ?_⟩,
    hc m ho hu⟩, ho, hu⟩
  change RowId.organizationMember m₀.orgId m₀.userId = .organizationMember m.orgId m.userId
  rw [ho₀, hu₀, ho, hu]

/-- A rotation under way to the epoch `e`: it holds the lock of the organization row, its wraps
`ids` cover the members and the rows of the accounts in `done` already carry `e`. -/
structure Rotating (orgId : Uuid) (e : Int) (ids done : List Uuid) (L : List (RowId × LockMode))
    (w : Db → Db) (n : Db) : Prop where
  lock : (.organization orgId, .update) ∈ L
  orgs : ∀ d, (w d).organizations = d.organizations
  mono : ∀ userId d d', (HasMember orgId userId d' → HasMember orgId userId d) →
    HasMember orgId userId (w d') → HasMember orgId userId (w d)
  covered : ∀ d, (∀ userId, HasMember orgId userId d → HasMember orgId userId n) →
    ∀ userId, HasMember orgId userId (w d) → userId ∈ ids
  rewrapped : ∀ d, (∀ userId, HasMember orgId userId d → HasMember orgId userId n) →
    ∀ m ∈ (w d).organizationMembers, m.orgId = orgId → m.userId ∈ done → m.keyEpoch = some e

variable {ids done : List Uuid} {epoch : Int}

/-- The others cannot disturb a rotation. -/
theorem Rotating.rely (h : Rotating orgId epoch ids done L w d) (hr : (epochSpec orgId).Rely L d d') :
    Rotating orgId epoch ids done L w d' :=
  have hk := (orgKept_of_rely hr h.lock).members
  { h with
    covered := fun x hx => h.covered x fun u hu => hk u (hx u hu)
    rewrapped := fun x hx => h.rewrapped x fun u hu => hk u (hx u hu) }

/-- More locks do not disturb a rotation. -/
theorem Rotating.locks (h : Rotating orgId epoch ids done L w d) (L' : List (RowId × LockMode)) :
    Rotating orgId epoch ids done (L ++ L') w d :=
  { h with lock := List.mem_append_left _ h.lock }

/-- Writes to other tables do not matter to a rotation. -/
theorem Rotating.frame (h : Rotating orgId epoch ids done L w d) {g : Db → Db}
    {L' : List (RowId × LockMode)} (ho : ∀ d, (g d).organizations = d.organizations)
    (hm : ∀ d, (g d).organizationMembers = d.organizationMembers) :
    Rotating orgId epoch ids done (L ++ L') (g ∘ w) d where
  lock := List.mem_append_left _ h.lock
  orgs x := (ho (w x)).trans (h.orgs x)
  mono userId x y hxy := by
    simp only [HasMember, Function.comp_apply, hm]
    exact h.mono userId x y hxy
  covered x hx userId := by
    simp only [HasMember, Function.comp_apply, hm]
    exact h.covered x hx userId
  rewrapped x hx := by
    simp only [Function.comp_apply, hm]
    exact h.rewrapped x hx

/-- Storing one wrap at the new epoch. -/
theorem Rotating.rewrap {s n : Db} {L' : List (RowId × LockMode)} {x : RewrapEntry}
    (h : Rotating orgId epoch ids done L w n) (hs : (epochSpec orgId).Rely L s n)
    (hx : x.keyEpoch = epoch) :
    Rotating orgId epoch ids (x.userId :: done) (L ++ L')
      (Tables.organizationMembers.edit ((Tables.organizationMembers.hits
        (DbOrgs.isMember orgId x.userId) (w s) (w n)).map Tables.organizationMembers.key)
        (DbOrgs.setWrap ownerId x) ∘ w) n := by
  have hk := (orgKept_of_rely hs h.lock).members
  have hf : ∀ m, (DbOrgs.setWrap ownerId x m).orgId = m.orgId ∧
      (DbOrgs.setWrap ownerId x m).userId = m.userId := fun m => ⟨rfl, rfl⟩
  refine ⟨List.mem_append_left _ h.lock, h.orgs, ?_, ?_, ?_⟩
  · intro userId a b hab hm
    rw [Function.comp_apply, hasMember_edit hf] at hm ⊢
    exact h.mono userId a b hab hm
  · intro a ha userId hm
    rw [Function.comp_apply, hasMember_edit hf] at hm
    exact h.covered a ha userId hm
  · intro a ha m hm ho hu
    obtain ⟨m₀, hm₀, rfl⟩ := (Tables.organizationMembers.mem_edit).mp hm
    split at ho
    · rename_i hkey
      rw [if_pos hkey, ← hx]
      rfl
    · rename_i hkey
      rw [if_neg hkey] at hu ⊢
      rcases List.mem_cons.mp hu with hu | hu
      · -- the row of this account exists in both versions, so the statement hits it
        have hn : HasMember orgId x.userId (w n) :=
          h.mono _ n a (ha x.userId) ⟨m₀, hm₀, ho, hu⟩
        have hhit : ∃ r ∈ Tables.organizationMembers.hits (DbOrgs.isMember orgId x.userId)
            (w s) (w n), r.orgId = orgId ∧ r.userId = x.userId :=
          mem_hits_of_hasMember hn (h.mono _ s n (hk x.userId))
            fun m ho hu => by simp [DbOrgs.isMember, ho, hu]
        obtain ⟨r, hr, hro, hru⟩ := hhit
        refine absurd (List.mem_map.mpr ⟨r, hr, ?_⟩) hkey
        change RowId.organizationMember r.orgId r.userId = .organizationMember m₀.orgId m₀.userId
        rw [hro, hru, ho, hu]
      · exact h.rewrapped a ha m₀ hm₀ ho hu

/-- Re-encrypting items keeps the rotation on its way. -/
theorem reencryptItems_wp (items : List ReencryptedItem)
    (h : Rotating orgId epoch ids done L w d) :
    (epochSpec orgId).wp (fun _ => Rotating orgId epoch ids done)
      (DbOrgs.reencryptItems orgId items) L w d := by
  induction items generalizing L w d with
  | nil => exact fun d' hr => h.rely hr
  | cons item items ih =>
    refine Table.wp_update_bind fun s hs n hn _ => ih ?_
    exact ((h.rely hs).rely hn).frame (fun _ => rfl) (fun _ => rfl)

/-- Storing the wraps brings every covered member to the new epoch. -/
theorem wrapMembers_wp (wraps : List RewrapEntry) (hw : ∀ x ∈ wraps, x.keyEpoch = epoch)
    (h : Rotating orgId epoch ids done L w d) :
    (epochSpec orgId).wp
      (fun _ => Rotating orgId epoch ids ((wraps.map (·.userId)).reverse ++ done))
      (DbOrgs.wrapMembers orgId ownerId wraps) L w d := by
  induction wraps generalizing L w d done with
  | nil => exact fun d' hr => h.rely hr
  | cons x wraps ih =>
    rw [List.map_cons, List.reverse_cons, List.append_assoc, List.singleton_append]
    refine Table.wp_update_bind fun s hs n hn _ => ?_
    refine ih (fun y hy => hw y (List.mem_cons_of_mem x hy)) ?_
    exact ((h.rely hs).rely hn).rewrap hn (hw x List.mem_cons_self)

/-- Accepting an invite leaves every wrap as it is. -/
theorem acceptInvite_wp (auth : Uuid) :
    (epochSpec orgId).wp (fun _ _ _ _ => True) (Orgs.acceptInvite orgId auth) [] id d := by
  simp only [Orgs.acceptInvite, DbOrgs.acceptInvite, autocommit, bind_assoc]
  refine Table.wp_update_bind fun s hs n hn _ d' hr _ => ⟨?_, wp_require id fun _ _ => trivial⟩
  exact owes_of_writes ((WritesEpoch.id orgId none).edit (f := DbOrgs.activate) _
    (fun m => ⟨rfl, rfl⟩) fun m => Or.inl rfl) _ hr.inv
    fun x hx => absurd hx (Option.not_mem_none x)

/-- Re-wrapping keeps the specification when it commits at the epoch that its route read. -/
theorem rewrapMembers_route_wp (auth : Uuid) (body : RewrapBody)
    (hd : (epochSpec orgId).inv d) :
    (epochSpec orgId).wp (fun _ _ _ _ => True) (Orgs.rewrapMembers orgId auth body) [] id d := by
  refine Spec.wp_reads_bind (Orgs.reads_requireOwner orgId auth) nofun (fun _ d₁ h₁ => ?_) hd
  refine Spec.wp_reads_bind (DbOrgs.reads_currentKeyEpoch orgId) nofun (fun read d₂ h₂ => ?_) h₁.inv
  refine wp_require_bind nofun fun hc => ?_
  refine Spec.wp_bind h₂.inv ?_
  by_cases hb : body.wraps = []
  · rw [hb]
    intro d₃ h₃ _
    refine ⟨owes_of_writes (WritesEpoch.id orgId none) _ h₃.inv nofun, fun _ _ _ => ?_⟩
    exact wp_require nofun fun _ _ => trivial
  · have htag : (if body.wraps.isEmpty = true then Tag.plain
        else .rewrap orgId (read.getD 1)) = .rewrap orgId (read.getD 1) :=
      if_neg (by simpa using hb)
    rw [htag]
    refine Spec.wp_mono (fun out L w d _ _ => wp_require nofun fun _ _ => trivial)
      (rewrapMembers_wp body.wraps (fun x hx => ?_) (WritesEpoch.id orgId _))
    have hx := List.all_eq_true.mp hc x hx
    rw [Bool.and_eq_true, decide_eq_true_eq] at hx
    exact hx.2

/-- The locking read of the organization row, as far as its locks go. -/
private theorem lock_of_mem_hits {s n : Db} {org : Organization}
    (h : org ∈ Tables.organizations.hits (DbOrgs.isOrg orgId) s n) :
    org ∈ n.organizations ∧ org.id = orgId ∧
      ((.organization orgId, .update) : RowId × LockMode) ∈
        Tables.organizations.locked (DbOrgs.isOrg orgId) .update s n := by
  obtain ⟨hn, _, hid⟩ := (Tables.organizations.mem_hits).mp h
  have hid : org.id = orgId := of_decide_eq_true hid
  have hl := Tables.organizations.locked_of_mem_hits h .update
  change (RowId.organization org.id, LockMode.update) ∈ _ at hl
  rw [hid] at hl
  exact ⟨hn, hid, hl⟩

private theorem frame_of_lock (h : (.organization orgId, .update) ∈ L) :
    (epochSpec orgId).Frame L d d' := by
  rintro _ _ hfree rfl rfl
  simpa using hfree _ h rfl

/-- The invite transaction adds its member at the epoch it found under the lock. -/
theorem inviteMember_wp (userId : Uuid) (role : String) (wrap : SignedWrap) (invitedBy : Uuid) :
    (epochSpec orgId).wp (fun _ L w _ => L = [] ∧ w = id)
      (DbOrgs.inviteMember orgId userId role wrap invitedBy) [] id d := by
  refine Table.wp_selectFor_bind fun s hs n hn => wp_fetchOne_bind fun org horg => ?_
  obtain ⟨hmem, hid, hl⟩ := lock_of_mem_hits horg
  rw [List.nil_append]
  split
  · exact fun _ _ _ _ => ⟨rfl, rfl⟩
  · rename_i hepoch
    rw [ne_eq, not_not] at hepoch
    cases Role.parse role with
    | none => exact fun _ _ => nofun
    | some role =>
      refine Table.wp_insertOrIgnore_bind (fun n₁ h₁ _ _ => ?_) (fun n₁ h₁ => ?_)
      · intro d₂ h₂ _
        have hk₁ := orgKept_of_rely h₁ hl
        have hk₂ := orgKept_of_rely h₂ (List.mem_append_left _ hl)
        refine ⟨⟨trivial, ⟨?_, h₂.inv.2⟩, trivial, ?_⟩, fun _ _ => ⟨rfl, rfl⟩⟩
        · intro m hm ho x hx o hoo hoid
          rcases (Tables.organizationMembers.mem_push).mp hm with hm | rfl
          · exact h₂.inv.1 m hm ho x hx o hoo hoid
          · cases hx
            have hon := hk₁.org o (hk₂.org o hoo hoid) hoid
            rw [← hepoch, hn.inv.2 org hmem o hon hid hoid]
        · exact frame_of_lock (List.mem_append_left _ hl)
      · intro d₂ h₂ _
        exact ⟨owes_of_writes (WritesEpoch.id orgId none) _ h₂.inv nofun, fun _ _ => ⟨rfl, rfl⟩⟩

/-- An invite keeps the specification. -/
theorem inviteMember_route_wp (config : Config) (auth : Uuid) (body : InviteMemberBody)
    (hd : (epochSpec orgId).inv d) :
    (epochSpec orgId).wp (fun _ _ _ _ => True) (Orgs.inviteMember config orgId auth body)
      [] id d := by
  refine Spec.wp_reads_bind (DbOrgs.reads_getOrgMember orgId auth) nofun (fun _ d₁ h₁ => ?_) hd
  refine wp_okOr_bind nofun fun _ _ => wp_require_bind nofun fun _ => ?_
  refine wp_require_bind nofun fun _ => ?_
  refine Spec.wp_reads_bind (Orgs.reads_requireSeat orgId auth) nofun (fun _ d₂ h₂ => ?_) h₁.inv
  refine Spec.wp_reads_bind (reads_getPublicKeyByAccountKey _) nofun (fun _ d₃ h₃ => ?_) h₂.inv
  refine wp_okOr_bind nofun fun invitee _ => wp_require_bind nofun fun _ => Spec.wp_bind h₃.inv ?_
  exact Spec.wp_mono (fun _ _ _ _ _ _ => wp_require nofun fun _ _ => trivial)
    (inviteMember_wp invitee body.role body.toSignedWrap auth)

/-- Removing a member keeps the members' existence monotone. -/
theorem removeMember_wp (removed : Option Uuid) (hl : (.organization orgId, .update) ∈ L) :
    (epochSpec orgId).wp (fun _ L w _ => (.organization orgId, .update) ∈ L ∧
        (∀ d, (w d).organizations = d.organizations) ∧
        ∀ userId d d', (HasMember orgId userId d' → HasMember orgId userId d) →
          HasMember orgId userId (w d') → HasMember orgId userId (w d))
      (DbOrgs.removeMember orgId removed) L id d := by
  cases removed with
  | none => exact fun _ _ => ⟨hl, fun _ => rfl, fun _ _ _ h => h⟩
  | some removed =>
    refine Table.wp_delete_bind fun s hs n hn d' hr => ?_
    refine ⟨List.mem_append_left _ hl, fun _ => rfl, fun userId a b hab hm => ?_⟩
    rw [Function.comp_apply, hasMember_drop] at hm ⊢
    exact ⟨hab hm.1, hm.2⟩

/-- Once all members are rewrapped and the organization is at the new epoch, they agree. -/
theorem rotated_inv {keys : List RowId} (h : Rotating orgId epoch ids done L w d)
    (hd : (epochSpec orgId).inv d) 
    (hk : ∀ o ∈ d.organizations, o.id = orgId → .organization orgId ∈ keys)
    (hdone : ∀ userId ∈ ids, userId ∈ done) :
    (epochSpec orgId).inv
      ((Tables.organizations.edit keys (DbOrgs.setEpoch epoch) ∘ w) d) := by
  have horg : ∀ o ∈ (Tables.organizations.edit keys (DbOrgs.setEpoch epoch) (w d)).organizations,
      o.id = orgId → ∃ o₀ ∈ d.organizations, o₀.id = orgId ∧ o = DbOrgs.setEpoch epoch o₀ := by
    intro o ho hid
    obtain ⟨o₀, ho₀, rfl⟩ := (Tables.organizations.mem_edit).mp ho
    rw [show Tables.organizations.get (w d) = d.organizations from h.orgs d] at ho₀
    have hid₀ : o₀.id = orgId := by
      split at hid
      · exact hid
      · exact hid
    refine ⟨o₀, ho₀, hid₀, if_pos ?_⟩
    change RowId.organization o₀.id ∈ keys
    rw [hid₀]
    exact hk o₀ ho₀ hid₀
  constructor
  · intro m hm ho x hx o hoo hid
    obtain ⟨o₀, _, _, rfl⟩ := horg o hoo hid
    have hmember : HasMember orgId m.userId (w d) := ⟨m, hm, ho, rfl⟩
    have hu := hdone _ (h.covered d (fun _ hu => hu) m.userId hmember)
    cases (h.rewrapped d (fun _ hu => hu) m hm ho hu).symm.trans hx
    rfl
  · intro o ho o' ho' hid hid'
    obtain ⟨o₀, ho₀, hid₀, rfl⟩ := horg o ho hid
    obtain ⟨o₁, ho₁, hid₁, rfl⟩ := horg o' ho' hid'
    rw [hd.2 o₀ ho₀ o₁ ho₁ hid₀ hid₁]

/-- The rotation transaction brings every member to the new epoch. -/
theorem rotateKey_wp (r : Rotation) :
    (epochSpec orgId).wp (fun _ L w _ => L = [] ∧ w = id) (DbOrgs.rotateKey orgId ownerId r)
      [] id d := by
  refine Table.wp_selectFor_bind fun s hs n hn => wp_fetchOne_bind fun org horg => ?_
  obtain ⟨_, _, hl⟩ := lock_of_mem_hits horg
  rw [List.nil_append]
  split
  · exact fun _ _ _ _ => ⟨rfl, rfl⟩
  refine Spec.wp_bind hn.inv (Spec.wp_mono (fun removed L w d => ?_) (removeMember_wp _ hl))
  rintro ⟨hl, horgs, hmono⟩ hd
  split
  · exact fun _ _ _ _ => ⟨rfl, rfl⟩
  refine Table.wp_selectFor_bind fun s₁ hs₁ n₁ hn₁ => ?_
  split
  · exact fun _ _ _ _ => ⟨rfl, rfl⟩
  rename_i hcovers
  rw [Bool.not_eq_true', Bool.not_eq_false] at hcovers
  obtain ⟨-, hids, hepochs⟩ := DbOrgs.coversMembers_iff.mp hcovers
  -- nobody joins while the organization row is locked, so the wraps cover every later member
  have hrot : Rotating orgId r.newEpoch (r.wraps.map (·.userId)) [] (L ++
      Tables.organizationMembers.locked (DbOrgs.inOrg orgId) .update (w s₁) (w n₁)) w n₁ := by
    refine ⟨List.mem_append_left _ hl, horgs, hmono, fun a ha userId hm => ?_,
      fun _ _ _ _ _ hdone => absurd hdone List.not_mem_nil⟩
    have hhit : ∃ m ∈ Tables.organizationMembers.hits (DbOrgs.inOrg orgId) (w s₁) (w n₁),
        m.orgId = orgId ∧ m.userId = userId :=
      mem_hits_of_hasMember (hmono userId n₁ a (ha userId) hm)
        (hmono userId s₁ n₁ ((orgKept_of_rely hn₁ hl).members userId))
        fun m ho _ => by simp [DbOrgs.inOrg, ho]
    obtain ⟨m, hmem, _, rfl⟩ := hhit
    exact (hids m.userId).mpr (List.mem_map_of_mem hmem)
  refine Table.wp_selectFor_bind fun s₂ hs₂ n₂ hn₂ => ?_
  split
  · exact fun _ _ _ _ => ⟨rfl, rfl⟩
  have hrot₂ := ((hrot.rely hs₂).rely hn₂).locks
    (Tables.vaultItems.locked (DbOrgs.isOrgItem orgId) .update (w s₂) (w n₂))
  refine Table.wp_delete_bind fun s₃ hs₃ n₃ hn₃ => ?_
  refine Spec.wp_bind hn₃.inv (Spec.wp_mono (fun _ L₄ w₄ d₄ hrot₄ hd₄ => ?_)
    (reencryptItems_wp r.items (((hrot₂.rely hs₃).rely hn₃).frame (fun _ => rfl) fun _ => rfl)))
  refine Spec.wp_bind hd₄ (Spec.wp_mono (fun _ L₅ w₅ d₅ hrot₅ hd₅ => ?_)
    (wrapMembers_wp r.wraps hepochs hrot₄))
  refine Table.wp_update_bind fun s₆ hs₆ n₆ hn₆ _ d₆ h₆ _ => ?_
  have hrot₆ := (((hrot₅.rely hs₆).rely hn₆).rely
    (h₆.mono fun _ hm => List.mem_append_left _ hm))
  have hk : OrgKept orgId n₆ d₆ := orgKept_of_rely h₆ (List.mem_append_left _ hrot₅.lock)
  refine ⟨⟨trivial, ?_, trivial, frame_of_lock (List.mem_append_left _ hrot₅.lock)⟩,
    fun _ _ => ⟨rfl, rfl⟩⟩
  refine rotated_inv hrot₆ h₆.inv (fun o ho hid => ?_) fun userId hu => by simpa using hu
  have hn : o ∈ n₆.organizations := hk.org o ho hid
  have hs : o ∈ s₆.organizations := (orgKept_of_rely hn₆ hrot₅.lock).org o hn hid
  rw [← hrot₅.orgs] at hn hs
  refine List.mem_map.mpr ⟨o, (Tables.organizations.mem_hits).mpr ⟨hn, ⟨o, hs, ?_, rfl⟩, ?_⟩, ?_⟩
  · simp [DbOrgs.isOrg, hid]
  · simp [DbOrgs.isOrg, hid]
  · exact congrArg RowId.organization hid

/-- A rotation keeps the specification. -/
theorem rotateKey_route_wp (auth : Uuid) (body : RotateKeyBody) (hd : (epochSpec orgId).inv d) :
    (epochSpec orgId).wp (fun _ _ _ _ => True) (Orgs.rotateKey orgId auth body) [] id d := by
  refine Spec.wp_reads_bind (Orgs.reads_requireOwner orgId auth) nofun (fun _ d₁ h₁ => ?_) hd
  refine wp_require_bind nofun fun _ => wp_require_bind nofun fun _ => ?_
  split
  · exact wp_refuse nofun
  · refine Spec.wp_bind h₁.inv (Spec.wp_mono (fun outcome L w d _ _ => ?_) (rotateKey_wp _))
    split
    · exact fun _ _ => trivial
    · exact wp_refuse nofun

/-- Each request keeps the specification. -/
theorem OrgRequest.valid (config : Config) (r : OrgRequest) :
    (epochSpec orgId).Valid (r.run config orgId) fun _ _ => True := by
  intro d hd
  cases r with
  | inviteMember auth body => exact inviteMember_route_wp config auth body hd
  | rewrapMembers auth body => exact rewrapMembers_route_wp auth body hd
  | acceptInvite auth => exact acceptInvite_wp auth
  | rotateKey auth body => exact rotateKey_route_wp auth body hd

section Runs

variable {I : Type} [Fintype I] [DecidableEq I]

/-- Under any interleaving of requests on the organization, every wrap stays at the current
epoch, as long as every re-wrap commits at the epoch that its route read. -/
theorem epochsAgree_of_rewrapCurrent (config : Config) (orgId : Uuid) (reqs : I → OrgRequest)
    {db : Db} (hdb : EpochsAgree orgId db) (hone : OneOrg orgId db) {sched : List (I × Act)}
    (hc : (State.start db fun i => (reqs i).run config orgId).Commits RewrapCurrent sched)
    {s : State I Db RowId Tag ApiError Unit}
    (h : (State.start db fun i => (reqs i).run config orgId).exec sched = some s) :
    EpochsAgree orgId s.db :=
  (Spec.Good.exec (Spec.Good.start (S := epochSpec orgId) ⟨hdb, hone⟩
    fun i => (reqs i).valid config) hc h).1.inv.1

end Runs

/-- The owner's wrap at an epoch. -/
private def ownWrap (epoch : Int) : RewrapEntry where
  encryptedOrgKey := "key"
  wrapSignature := Base64.encode (List.replicate 64 0)
  keyEpoch := epoch
  userId := 1

/-- Account 1 has just created organization 2. -/
private def created : Db :=
  (Prog.alone (DbOrgs.createOrg 2 "org" 1 "key" (some "signature") (some 1)) id
    { users := [{ id := 1, publicKey := some "key" }] }).2

/-- The owner re-wraps the key in one request and rotates it in another. -/
private def race : Fin 2 → OrgRequest
  | 0 => .rewrapMembers 1 ⟨[ownWrap 1]⟩
  | 1 => .rotateKey 1 { newEpoch := 2, wraps := [ownWrap 2], items := [] }

private def raceStart : State (Fin 2) Db RowId Tag ApiError Unit :=
  State.start created fun i => (race i).run ⟨id⟩ 2

/-- The whole re-wrap, then the rotation. -/
theorem epochsAgree_of_rewrapCurrent_serial :
    ∃ s, raceStart.exec (List.replicate 5 (0, .go) ++ List.replicate 14 (1, .go)) = some s ∧
      EpochsAgree 2 s.db := by
  have hc : raceStart.Commits RewrapCurrent
      (List.replicate 5 (0, .go) ++ List.replicate 14 (1, .go)) := by decide +kernel
  have hs : (raceStart.exec
      (List.replicate 5 (0, .go) ++ List.replicate 14 (1, .go))).isSome := by decide +kernel
  obtain ⟨s, hs⟩ := Option.isSome_iff_exists.mp hs
  exact ⟨s, hs, epochsAgree_of_rewrapCurrent ⟨id⟩ 2 race (by decide +kernel) (by decide +kernel) hc hs⟩

/-- A rotation between a re-wrap's look at the epoch and its transaction leaves the owner with a
wrap of the retired key. -/
theorem not_epochsAgree_of_rotation_between :
    EpochsAgree 2 created ∧ ¬ ∀ sched s, raceStart.exec sched = some s → EpochsAgree 2 s.db := by
  refine ⟨by decide +kernel, fun h => ?_⟩
  have hrun : (raceStart.exec (List.replicate 2 (0, .go) ++ List.replicate 14 (1, .go) ++
      List.replicate 3 (0, .go))).map (fun s => decide (EpochsAgree 2 s.db)) = some false := by
    decide +kernel
  obtain ⟨s, hs, hn⟩ := Option.map_eq_some_iff.mp hrun
  exact of_decide_eq_false hn (h _ s hs)

end Nopass
