import Nopass.Server.OrgOwners

/-!
# The member limit

An invite counts the active members before its transaction; what it adds is a pending member, who
becomes active without another look at the limit. Any number of invites can be outstanding, so the
limit holds in every state of a run exactly when every acceptance finds a free seat.
-/

namespace Nopass

open ReadCommitted

/-- No more members are active than the Free plan allows. -/
def WithinLimit (orgId : Uuid) (d : Db) : Prop :=
  ∀ limit ∈ orgMemberLimit .free, activeMembers orgId d ≤ limit

instance (orgId : Uuid) (d : Db) : Decidable (WithinLimit orgId d) :=
  inferInstanceAs (Decidable (∀ limit ∈ orgMemberLimit .free, activeMembers orgId d ≤ limit))

/-- An acceptance commits while the Free plan allows another active member. -/
def SeatFree (orgId : Uuid) : Tag → Db → Prop
  | .accepted orgId', d => orgId' = orgId →
      ∀ limit ∈ orgMemberLimit .free, activeMembers orgId d < limit
  | _, _ => True

instance (orgId : Uuid) : ∀ tag d, Decidable (SeatFree orgId tag d)
  | .accepted orgId', d => inferInstanceAs (Decidable (orgId' = orgId →
      ∀ limit ∈ orgMemberLimit .free, activeMembers orgId d < limit))
  | .plain, _ | .rewrap _ _, _ | .deleteVault _ _, _ | .handshake _ _, _ | .authorized _ _ _, _ |
    .consumed _, _ | .issued _ _, _ | .replacedKit _ _, _ | .wrote _ _ _, _ | .rekeyed _ _, _ |
    .reencrypted _, _ | .published _, _ | .organized _, _ | .owned _ _, _ =>
      inferInstanceAs (Decidable True)

/-- A commit from within the limit stays there exactly when it finds a free seat or takes none. -/
theorem withinLimit_step {orgId : Uuid} {tag : Tag} {d d' : Db} (hc : CountsActive tag d d')
    (ho : ∀ id userId, tag ≠ .owned id userId) (hd : WithinLimit orgId d) :
    WithinLimit orgId d' ↔ SeatFree orgId tag d := by
  by_cases ha : tag.activates orgId = true
  · obtain rfl : tag = .accepted orgId := by
      cases tag with
      | accepted id => rw [show id = orgId from of_decide_eq_true ha]
      | owned id userId => exact (ho id userId rfl).elim
      | _ => cases ha
    have hjoined := hc.joined orgId ha
    simp only [WithinLimit, SeatFree, true_implies, hjoined, Nat.succ_le_iff]
  · rw [Bool.not_eq_true] at ha
    have hle := hc.others orgId ha
    refine iff_of_true (fun limit hl => hle.trans (hd limit hl)) ?_
    cases tag with
    | accepted id => exact fun hid => (of_decide_eq_false ha hid).elim
    | _ => trivial

section Runs

variable {I : Type} [Fintype I] [DecidableEq I]

/-- Requests inside organizations, each with the organization it is about. -/
def inOrgs (config : Config) (reqs : I → Uuid × OrgRequest) (i : I) : Request Unit :=
  (reqs i).2.run config (reqs i).1

end Runs

/-- Account 1 owns organization 2 and has no subscription; three more accounts have keys. -/
private def ownerAlone : Db where
  users := [{ id := 1 }, { id := 3, emailHash := "b", publicKey := some "key" },
    { id := 4, emailHash := "c", publicKey := some "key" },
    { id := 5, emailHash := "d", publicKey := some "key" }]
  organizations := [{ id := 2, name := "org", createdBy := 1 }]
  organizationMembers := [⟨2, 1, .owner, .active, some "wrap", none, some 1, none, 0⟩]

private theorem ownerAlone_governed : Governed ownerAlone := by
  exact ⟨by decide, by decide, by decide⟩

private def inviteBody (emailHash : String) : InviteMemberBody where
  emailHash := emailHash
  role := "member"
  encryptedOrgKey := "wrap"
  wrapSignature := Base64.encode (List.replicate 64 0)
  keyEpoch := 1

/-- Three invites and their acceptances. -/
private def threeJoin : Fin 6 → Uuid × OrgRequest
  | 0 => (2, .inviteMember 1 (inviteBody "b"))
  | 1 => (2, .inviteMember 1 (inviteBody "c"))
  | 2 => (2, .inviteMember 1 (inviteBody "d"))
  | 3 => (2, .acceptInvite 3)
  | 4 => (2, .acceptInvite 4)
  | 5 => (2, .acceptInvite 5)

/-- The invites one after the other, then as many acceptances. -/
private def joining (accepted : List (Fin 6)) : List (Fin 6 × Act) :=
  List.replicate 9 (0, .go) ++ List.replicate 9 (1, .go) ++ List.replicate 9 (2, .go) ++
    accepted.flatMap fun i => List.replicate 3 (i, .go)

end Nopass
