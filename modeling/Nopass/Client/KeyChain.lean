import Nopass.Client.OrgTrust
import Mathlib.Data.List.Chain

/-!
# Chains that vouch for an organization's key

A chain is accepted exactly when each link is signed by the admin or owner that the next
link names, under the key pinned for him, up to the owner's own. The induction is along
the chain; the signers still to confirm only ever grow, so none at the end means that
every signer on the way was pinned.
-/

namespace Nopass

/-- A signature over a wrap verifies under an identity key. -/
def Verifies (c : IdentityCrypto) (wrap : OrgKeyWrap) (signature identityKey : String) : Prop :=
  ∃ sig message key, Base64.atob signature = some sig ∧ wrapMessage wrap = .ok message ∧
    Base64.atob identityKey = some key ∧ c.verify sig message key = .ok true

/-- A link is signed under the identity key pinned for its signer, whose bundle signs itself. -/
def SignedUnderPin (c : IdentityCrypto) (pins : String → Option String) (link : SignedWrapLink) :
    Prop :=
  ∃ identityKey signature, pins link.wrap.signerUserId = some identityKey ∧
    link.signer.userId = link.wrap.signerUserId ∧
    link.signer.identityPublicKey = some identityKey ∧ verifyKeyBundle c link.signer = true ∧
    link.signature = some signature ∧ Verifies c link.wrap signature identityKey

/-- The next link names the signer of a link, another than its recipient, as owner or admin. -/
def VouchedBy (link next : SignedWrapLink) : Prop :=
  link.wrap.selfSigned = false ∧ next.wrap.recipientUserId = link.wrap.signerUserId ∧
    (next.wrap.role = "owner" ∨ next.wrap.role = "admin")

/-- A link that the owner signed for himself. -/
def OwnerSigned (link : SignedWrapLink) : Prop :=
  link.wrap.selfSigned = true ∧ link.wrap.role = "owner"

/-- A chain vouches for a wrap. -/
structure Vouched (c : IdentityCrypto) (expected : ExpectedWrap) (s : TrustStores)
    (chain : List SignedWrapLink) (wrap : OrgKeyWrap) : Prop where
  own : ∃ link, chain.head? = some link ∧ link.wrap = wrap
  orgId : wrap.orgId = expected.orgId
  recipient : wrap.recipientUserId = expected.recipientUserId
  length_le : chain.length ≤ 16
  sameEpoch : ∀ link ∈ chain, link.wrap.orgId = wrap.orgId ∧ link.wrap.epoch = wrap.epoch
  signed : ∀ link ∈ chain, SignedUnderPin c s.pins link
  vouched : chain.IsChain VouchedBy
  root : ∃ link, chain.getLast? = some link ∧ OwnerSigned link
  epoch : ∀ highest ∈ s.epochs expected.orgId, wrap.epoch.lt highest = false

section Steps

variable {c : IdentityCrypto} {expected : ExpectedWrap} {s s' : TrustStores}

/-- A text that is neither missing nor empty. -/
theorem truthy_eq_some {text : Option String} {t : String} :
    truthy text = some t ↔ text = some t ∧ t ≠ "" := by
  unfold truthy
  split
  · simp only [Option.some_inj, reduceCtorEq, false_iff, not_and, not_not]
    exact fun h => h.symm
  · rename_i hne
    constructor
    · rintro rfl
      exact ⟨rfl, fun h => hne (congrArg some h)⟩
    · exact And.left

theorem fromBase64_eq_ok {text : String} {bytes : Bytes} :
    fromBase64 text = .ok bytes ↔ Base64.atob text = some bytes := by
  rw [fromBase64]
  cases Base64.atob text with
  | none => simp [orThrow]
  | some b => simp [orThrow]

/-- A caught step is true when it returned true. -/
theorem caught_eq_true {x : Client Bool} : caught x = true ↔ x = .ok true := by
  cases x with
  | error e => simp [caught]
  | ok ok => simp [caught]

/-- What a wrap's signature has to satisfy. -/
theorem verifyWrap_eq_true {wrap : OrgKeyWrap} {signature identityKey : String} :
    verifyWrap c wrap signature identityKey = true ↔ Verifies c wrap signature identityKey := by
  simp only [verifyWrap, caught_eq_true, client_bind_eq_ok, fromBase64_eq_ok, Verifies]
  constructor
  · rintro ⟨sig, hsig, message, hmessage, key, hkey, hverify⟩
    exact ⟨sig, message, key, hsig, hmessage, hkey, hverify⟩
  · rintro ⟨sig, message, key, hsig, hmessage, hkey, hverify⟩
    exact ⟨sig, hsig, message, hmessage, key, hkey, hverify⟩

/-- Signatures have their length. -/
theorem ne_empty_of_verifies {wrap : OrgKeyWrap} {signature identityKey : String}
    (h : Verifies c wrap signature identityKey) : signature ≠ "" := by
  obtain ⟨sig, message, key, hsig, _, _, hverify⟩ := h
  rintro rfl
  have hnil : Base64.atob "" = some [] := by decide
  rw [hnil, Option.some_inj] at hsig
  rw [← hsig, IdentityCrypto.verify] at hverify
  simp [throwUnless, bind, Except.bind] at hverify

/-- What a bundle that verifies consists of. -/
theorem exists_of_verifyKeyBundle {bundle : KeyBundle} (h : verifyKeyBundle c bundle = true) :
    ∃ identityKey signature user key, truthy bundle.identityPublicKey = some identityKey ∧
      truthy bundle.publicKeySignature = some signature ∧
      bytesOfUuid bundle.userId = .ok user ∧ fromBase64 identityKey = .ok key := by
  rw [verifyKeyBundle] at h
  split at h
  · rename_i identityKey signature hkey hsignature
    simp only [caught_eq_true, client_bind_eq_ok, bundleMessage] at h
    obtain ⟨_, _, _, ⟨user, huser, _⟩, key, hdecoded, _⟩ := h
    exact ⟨identityKey, signature, user, key, hkey, hsignature, huser, hdecoded⟩
  · cases h

/-- A member whose key is pinned is accepted with the pinned key alone. -/
theorem verifyMemberKey_pinned_iff {bundle : KeyBundle} :
    (∃ v, verifyMemberKey c bundle s = .ok v s' ∧ v.firstSeen = false) ↔
      s' = s ∧ ∃ identityKey, s.pins bundle.userId = some identityKey ∧
        bundle.identityPublicKey = some identityKey ∧ verifyKeyBundle c bundle = true := by
  constructor
  · rintro ⟨v, hv, hseen⟩
    simp only [verifyMemberKey, EStateM.bind_eq_ok, EStateM.orThrow_eq_ok,
      EStateM.throwUnless_eq_ok] at hv
    obtain ⟨identityKey, _, ⟨hkey, rfl⟩, _, _, ⟨hbundle, rfl⟩, pinned, _, hpin, _, _,
      ⟨hsame, rfl⟩, number, s₁, hnumber, hv⟩ := hv
    obtain ⟨rfl, rfl⟩ := EStateM.pure_eq_ok.mp hv
    cases hpin
    cases hsafety : safetyNumber c bundle.userId identityKey with
    | error e =>
      rw [hsafety] at hnumber
      cases hnumber
    | ok n =>
      rw [hsafety] at hnumber
      cases hnumber
      obtain ⟨_, hsignature, hkey⟩ := Option.bind_eq_some_iff.mp hkey
      cases hp : s'.pins bundle.userId with
      | none => simp [hp] at hseen
      | some pin =>
        rw [hp, Option.all_some, decide_eq_true_eq] at hsame
        subst hsame
        exact ⟨rfl, pin, rfl, (truthy_eq_some.mp hkey).1, hbundle⟩
  · rintro ⟨rfl, identityKey, hpin, hkey, hbundle⟩
    obtain ⟨key', signature, user, bytes, hkey', hsignature, huser, hbytes⟩ :=
      exists_of_verifyKeyBundle hbundle
    have hsame : key' = identityKey := by
      have := (truthy_eq_some.mp hkey').1
      rw [hkey, Option.some_inj] at this
      exact this.symm
    subst hsame
    obtain ⟨number, hnumber⟩ : ∃ number, safetyNumber c bundle.userId key' = .ok number := by
      rw [safetyNumber, huser]
      simp only [bind, Except.bind, hbytes]
      exact ⟨_, rfl⟩
    refine ⟨{ rsaPublicKey := bundle.publicKey, safetyNumber := number, firstSeen := false },
      ?_, rfl⟩
    simp only [verifyMemberKey, EStateM.bind_eq_ok, EStateM.orThrow_eq_ok,
      EStateM.throwUnless_eq_ok]
    refine ⟨key', s', ⟨?_, rfl⟩, (), s', ⟨hbundle, rfl⟩, some key', s', ?_, (), s', ⟨?_, rfl⟩,
      number, s', ?_, rfl⟩
    · rw [hsignature, hkey']
      rfl
    · rw [getPin, hpin]
    · simp
    · rw [hnumber]
      rfl

/-- What one turn of the loop asks of a link and the next one. -/
structure LinkOk (c : IdentityCrypto) (expected : ExpectedWrap) (epoch : JsNumber)
    (pins : String → Option String) (link : SignedWrapLink) (next : Option SignedWrapLink) :
    Prop where
  orgId : link.wrap.orgId = expected.orgId
  epoch : link.wrap.epoch = epoch
  signed : SignedUnderPin c pins link
  place : (∃ l, next = some l ∧ VouchedBy link l) ∨ next = none ∧ OwnerSigned link

/-- The epoch of a signed wrap is a number that equals itself. -/
theorem strictEq_of_verifies {wrap : OrgKeyWrap} {signature identityKey : String}
    (h : Verifies c wrap signature identityKey) : wrap.epoch.strictEq wrap.epoch = true := by
  obtain ⟨_, message, _, _, hmessage, _⟩ := h
  simp only [wrapMessage, client_bind_eq_ok] at hmessage
  obtain ⟨_, _, n, hn, _⟩ := hmessage
  cases hint : wrap.epoch.toInt? with
  | none => simp [hint, orThrow] at hn
  | some m => exact JsNumber.strictEq_self hint

/-- Where a link may stand. -/
theorem checkPlace_eq_ok {link : SignedWrapLink} {next : Option SignedWrapLink} {u : Unit} :
    checkPlace link next s = .ok u s' ↔
      s' = s ∧ ((∃ l, next = some l ∧ VouchedBy link l) ∨ next = none ∧ OwnerSigned link) := by
  rw [checkPlace]
  by_cases hself : link.wrap.selfSigned = true
  · rw [if_pos hself, EStateM.throwUnless_eq_ok]
    cases next with
    | none => simp [OwnerSigned, hself, and_comm]
    | some l => simp [VouchedBy, hself]
  · rw [if_neg hself, EStateM.throwUnless_eq_ok]
    cases next with
    | none => simp [OwnerSigned, hself]
    | some l => simp [VouchedBy, hself, orgAdminRoles, and_comm]

/-- A turn of the loop passes with nobody left to confirm exactly when the link is in order. -/
theorem verifyLink_eq_ok_nil_iff {epoch : JsNumber} {link : SignedWrapLink}
    {next : Option SignedWrapLink} {acc : List UnconfirmedSigner} :
    verifyLink c expected epoch link next acc s = .ok [] s' ↔
      s' = s ∧ acc = [] ∧ LinkOk c expected epoch s.pins link next := by
  simp only [verifyLink, EStateM.bind_eq_ok, EStateM.orThrow_eq_ok, EStateM.throwUnless_eq_ok,
    checkPlace_eq_ok, truthy_eq_some, Bool.and_eq_true, decide_eq_true_eq]
  constructor
  · rintro ⟨signature, _, ⟨⟨hsignature, _⟩, rfl⟩, _, _, ⟨⟨horg, hepoch⟩, rfl⟩, _, _, ⟨huser, rfl⟩, _,
      _, ⟨rfl, hplace⟩, v, s₁, hv, _, s₂, ⟨hverify, hs⟩, hout⟩
    subst hs
    have hseen : v.firstSeen = false ∧ acc = [] ∧ s' = s₂ := by
      split at hout
      · simp at hout
      · rename_i hnot
        simp only [EStateM.pure_eq_ok] at hout
        obtain ⟨rfl, rfl⟩ := hout
        simpa using hnot
    obtain ⟨hseen, rfl, rfl⟩ := hseen
    obtain ⟨rfl, key, hpin, hkey, hbundle⟩ := verifyMemberKey_pinned_iff.mp ⟨v, hv, hseen⟩
    rw [hkey, Option.getD_some, verifyWrap_eq_true] at hverify
    refine ⟨rfl, rfl, horg, JsNumber.eq_of_strictEq hepoch, ?_, hplace⟩
    exact ⟨key, signature, huser ▸ hpin, huser, hkey, hbundle, hsignature, hverify⟩
  · rintro ⟨rfl, rfl, horg, rfl, ⟨key, signature, hpin, huser, hkey, hbundle, hsignature, hverify⟩,
      hplace⟩
    obtain ⟨v, hv, hseen⟩ := verifyMemberKey_pinned_iff.mpr
      ⟨Eq.refl s', key, (congrArg s'.pins huser).trans hpin, hkey, hbundle⟩
    refine ⟨signature, s', ⟨⟨hsignature, ne_empty_of_verifies hverify⟩, rfl⟩, (), s',
      ⟨⟨horg, strictEq_of_verifies hverify⟩, rfl⟩, (), s', ⟨huser, rfl⟩, (), s', ⟨rfl, hplace⟩,
      v, s', hv, (), s', ⟨?_, rfl⟩, ?_⟩
    · rw [hkey, Option.getD_some, verifyWrap_eq_true]
      exact hverify
    · rw [hseen]
      rfl

/-- The loop ends with nobody left to confirm exactly when each link is signed under a pin and vouched
by the next, up to the owner's own. -/
theorem verifyLinks_eq_ok_nil_iff {epoch : JsNumber} {chain : List SignedWrapLink}
    {acc : List UnconfirmedSigner} :
    verifyLinks c expected epoch chain acc s = .ok [] s' ↔ s' = s ∧ acc = [] ∧
      (∀ link ∈ chain, link.wrap.orgId = expected.orgId ∧ link.wrap.epoch = epoch ∧
        SignedUnderPin c s.pins link) ∧
      chain.IsChain VouchedBy ∧ ∀ link ∈ chain.getLast?, OwnerSigned link := by
  induction chain generalizing acc s with
  | nil => simp [verifyLinks, eq_comm, and_comm]
  | cons link rest ih =>
    have hturn : verifyLinks c expected epoch (link :: rest) acc s = .ok [] s' ↔
        (s' = s ∧ acc = [] ∧ LinkOk c expected epoch s.pins link rest.head?) ∧
          (∀ l ∈ rest, l.wrap.orgId = expected.orgId ∧ l.wrap.epoch = epoch ∧
            SignedUnderPin c s.pins l) ∧
          rest.IsChain VouchedBy ∧ ∀ l ∈ rest.getLast?, OwnerSigned l := by
      simp only [verifyLinks, EStateM.bind_eq_ok, ih]
      constructor
      · rintro ⟨acc', s₁, hlink, rfl, rfl, hrest⟩
        obtain ⟨rfl, hacc, hok⟩ := verifyLink_eq_ok_nil_iff.mp hlink
        exact ⟨⟨rfl, hacc, hok⟩, hrest⟩
      · rintro ⟨⟨rfl, hacc, hok⟩, hrest⟩
        exact ⟨[], s', verifyLink_eq_ok_nil_iff.mpr ⟨rfl, hacc, hok⟩, rfl, rfl, hrest⟩
    rw [hturn]
    constructor
    · rintro ⟨⟨hs, hacc, hok⟩, hall, hchain, hlast⟩
      refine ⟨hs, hacc, ?_, ?_⟩
      · rintro l (_ | ⟨_, hl⟩)
        · exact ⟨hok.orgId, hok.epoch, hok.signed⟩
        · exact hall l hl
      · cases rest with
        | nil =>
          refine ⟨List.IsChain.singleton _, ?_⟩
          rintro l ⟨⟩
          rcases hok.place with ⟨_, hnext, _⟩ | ⟨_, howner⟩
          · cases hnext
          · exact howner
        | cons next rest =>
          refine ⟨?_, hlast⟩
          rcases hok.place with ⟨_, hnext, hvouched⟩ | ⟨hnext, _⟩
          · cases hnext
            exact List.IsChain.cons_cons hvouched hchain
          · cases hnext
    · rintro ⟨hs, hacc, hall, hchain, hlast⟩
      obtain ⟨horg, hepoch, hsigned⟩ := hall link List.mem_cons_self
      have hrest : ∀ l ∈ rest, l.wrap.orgId = expected.orgId ∧ l.wrap.epoch = epoch ∧
          SignedUnderPin c s.pins l := fun l hl => hall l (List.mem_cons_of_mem _ hl)
      cases rest with
      | nil =>
        have hok : LinkOk c expected epoch s.pins link none :=
          ⟨horg, hepoch, hsigned, Or.inr ⟨rfl, hlast link rfl⟩⟩
        exact ⟨⟨hs, hacc, hok⟩, hrest, List.IsChain.nil, nofun⟩
      | cons next rest =>
        obtain ⟨hvouched, hchain⟩ := List.isChain_cons_cons.mp hchain
        have hok : LinkOk c expected epoch s.pins link (some next) :=
          ⟨horg, hepoch, hsigned, Or.inl ⟨next, rfl, hvouched⟩⟩
        exact ⟨⟨hs, hacc, hok⟩, hrest, hchain, hlast⟩

/-- A chain is accepted exactly when it vouches for its first wrap. -/
theorem verifyOrgKeyChain_eq_ok_iff {chain : List SignedWrapLink} {wrap : OrgKeyWrap} :
    verifyOrgKeyChain c chain expected s = .ok wrap s' ↔
      s' = s ∧ Vouched c expected s chain wrap := by
  simp only [verifyOrgKeyChain, EStateM.bind_eq_ok, EStateM.orThrow_eq_ok,
    EStateM.throwUnless_eq_ok, Option.filter_eq_some_iff, Bool.and_eq_true, decide_eq_true_eq,
    EStateM.pure_eq_ok, List.isEmpty_iff]
  constructor
  · rintro ⟨own, _, ⟨⟨hown, horg, hrecipient⟩, rfl⟩, _, _, ⟨hlen, rfl⟩, unconfirmed, s₁, hlinks,
      highest, _, hget, _, _, ⟨hepoch, rfl⟩, _, _, ⟨hnil, rfl⟩, rfl, rfl⟩
    subst hnil
    obtain ⟨rfl, _, hall, hchain, hlast⟩ := verifyLinks_eq_ok_nil_iff.mp hlinks
    cases hget
    refine ⟨rfl, ⟨own, hown, rfl⟩, horg, hrecipient, hlen, ?_, ?_, hchain, ?_, ?_⟩
    · intro link hlink
      obtain ⟨h, h', _⟩ := hall link hlink
      exact ⟨h.trans horg.symm, h'⟩
    · intro link hlink
      exact (hall link hlink).2.2
    · have hne : chain ≠ [] := by
        rintro rfl
        cases hown
      exact ⟨_, List.getLast?_eq_some_getLast hne, hlast _ (List.getLast?_eq_some_getLast hne)⟩
    · intro highest hh
      rw [Option.mem_def.mp hh] at hepoch
      simpa using hepoch
  · rintro ⟨rfl, hv⟩
    obtain ⟨own, hown, rfl⟩ := hv.own
    have hlinks : verifyLinks c expected own.wrap.epoch chain [] s' = .ok [] s' := by
      refine verifyLinks_eq_ok_nil_iff.mpr ⟨rfl, rfl, ?_, hv.vouched, ?_⟩
      · intro link hlink
        obtain ⟨h, h'⟩ := hv.sameEpoch link hlink
        exact ⟨h.trans hv.orgId, h', hv.signed link hlink⟩
      · intro link hlink
        obtain ⟨last, hlast, howner⟩ := hv.root
        cases (Option.mem_def.mp hlink).symm.trans hlast
        exact howner
    refine ⟨own, s', ⟨⟨hown, hv.orgId, hv.recipient⟩, rfl⟩, (), s', ⟨hv.length_le, rfl⟩, [], s', hlinks,
      s'.epochs expected.orgId, s', rfl, (), s', ⟨?_, rfl⟩, (), s', ⟨rfl, rfl⟩, rfl, rfl⟩
    cases hh : s'.epochs expected.orgId with
    | none => rfl
    | some highest => simp [hv.epoch highest (Option.mem_def.mpr hh)]

end Steps

section Stores

open EStateM

variable (c : IdentityCrypto)

theorem unchanged_liftClient {α : Type} (x : Client α) : Unchanged (liftClient x) := by
  cases x with
  | error e => exact unchanged_throw _
  | ok a => exact unchanged_pure a

theorem unchanged_verifyMemberKey (bundle : KeyBundle) :
    Unchanged (verifyMemberKey c bundle) := by
  refine (unchanged_orThrow _ _).bind fun _ => (unchanged_throwUnless _ _).bind fun _ => ?_
  have hpin : Unchanged (getPin bundle.userId) := fun _ => rfl
  refine hpin.bind fun _ => (unchanged_throwUnless _ _).bind fun _ => ?_
  exact (unchanged_liftClient _).bind fun _ => unchanged_pure _

theorem unchanged_verifyLink (expected : ExpectedWrap) (epoch : JsNumber) (link : SignedWrapLink)
    (next : Option SignedWrapLink) (acc : List UnconfirmedSigner) :
    Unchanged (verifyLink c expected epoch link next acc) := by
  have hplace : Unchanged (checkPlace link next) := by
    rw [checkPlace]
    split
    · exact unchanged_throwUnless _ _
    · exact unchanged_throwUnless _ _
  refine (unchanged_orThrow _ _).bind fun _ => (unchanged_throwUnless _ _).bind fun _ => ?_
  refine (unchanged_throwUnless _ _).bind fun _ => hplace.bind fun _ => ?_
  refine (unchanged_verifyMemberKey c _).bind fun _ => (unchanged_throwUnless _ _).bind fun _ => ?_
  split
  · exact unchanged_pure _
  · exact unchanged_pure _

theorem unchanged_verifyLinks (expected : ExpectedWrap) (epoch : JsNumber)
    (chain : List SignedWrapLink) (acc : List UnconfirmedSigner) :
    Unchanged (verifyLinks c expected epoch chain acc) := by
  induction chain generalizing acc with
  | nil => exact unchanged_pure acc
  | cons link rest ih => exact (unchanged_verifyLink c _ _ _ _ _).bind fun _ => ih _

/-- Verification writes to no store, whether it accepts or refuses. -/
theorem unchanged_verifyOrgKeyChain (chain : List SignedWrapLink) (expected : ExpectedWrap) :
    Unchanged (verifyOrgKeyChain c chain expected) := by
  have hepoch : Unchanged (getEpoch expected.orgId) := fun _ => rfl
  refine (unchanged_orThrow _ _).bind fun _ => (unchanged_throwUnless _ _).bind fun _ => ?_
  refine (unchanged_verifyLinks c _ _ _ _).bind fun _ => hepoch.bind fun _ => ?_
  refine (unchanged_throwUnless _ _).bind fun _ => (unchanged_throwUnless _ _).bind fun _ => ?_
  exact unchanged_pure _

variable {c}

/-- Checking a served key writes to no store, and the key checks out only when its chain vouches for
it. -/
theorem exists_checkOrgKey_eq (orgId : String) (chain : List WrapLink) (me : OrgCaller)
    (s : TrustStores) : ∃ check, checkOrgKey c orgId chain me s = .ok check s ∧
      ∀ wrap, check = .ok wrap →
        Vouched c ⟨orgId, me.userId⟩ s (chainFromServer orgId chain) wrap := by
  rw [checkOrgKey]
  split
  · exact ⟨_, rfl, nofun⟩
  · rw [tryCatch_bind_pure]
    have hs := unchanged_verifyOrgKeyChain c (chainFromServer orgId chain) ⟨orgId, me.userId⟩ s
    cases hr : verifyOrgKeyChain c (chainFromServer orgId chain) ⟨orgId, me.userId⟩ s with
    | ok wrap s₁ =>
      rw [hr] at hs
      cases hs
      refine ⟨_, rfl, fun wrap' hw => ?_⟩
      cases hw
      exact (verifyOrgKeyChain_eq_ok_iff.mp hr).2
    | error e s₁ =>
      rw [hr] at hs
      cases hs
      refine ⟨_, rfl, fun wrap' hw => ?_⟩
      cases e with
      | _ => cases hw

/-- Recording an epoch decrypts nothing. -/
theorem exists_recordEpoch_eq (orgId : String) (epoch : JsNumber) (s : TrustStores) :
    ∃ s', recordEpoch orgId epoch s = .ok () s' ∧ s'.decrypted = s.decrypted := by
  rw [recordEpoch]
  split
  · exact ⟨s, rfl, rfl⟩
  · exact ⟨_, rfl, rfl⟩

/-- Only `callDecrypt` decrypts. -/
theorem decrypted_callDecrypt {K : Type} (decrypt : String → Client K) (key orgId : String)
    (epoch : JsNumber) (f : K → OrgKeyCheck × Option K) (s : TrustStores) :
    ((do
        let orgKey ← callDecrypt decrypt key
        recordEpoch orgId epoch
        pure (f orgKey) : Trust _) s).final.decrypted = s.decrypted ++ [key] := by
  cases hd : decrypt key with
  | error e =>
    have hcall : callDecrypt decrypt key s =
        .error (.other e) { s with decrypted := s.decrypted ++ [key] } := by
      rw [callDecrypt, hd]
      rfl
    rw [bind_of_error hcall]
    rfl
  | ok orgKey =>
    have hcall : callDecrypt decrypt key s =
        .ok orgKey { s with decrypted := s.decrypted ++ [key] } := by
      rw [callDecrypt, hd]
      rfl
    obtain ⟨s', hrecord, hsame⟩ :=
      exists_recordEpoch_eq orgId epoch { s with decrypted := s.decrypted ++ [key] }
    rw [bind_of_ok hcall, bind_of_ok hrecord]
    exact hsame

/-- `decrypt` is called at most once, with a wrap that the served chain vouches for. -/
theorem decrypted_openOrgKey {K : Type} (orgId : String) (chain : List WrapLink) (me : OrgCaller)
    (decrypt : String → Client K) (s : TrustStores) :
    (openOrgKey c orgId chain me decrypt s).final.decrypted = s.decrypted ∨
      ∃ wrap, Vouched c ⟨orgId, me.userId⟩ s (chainFromServer orgId chain) wrap ∧
        (openOrgKey c orgId chain me decrypt s).final.decrypted =
          s.decrypted ++ [wrap.encryptedOrgKey] := by
  obtain ⟨check, hcheck, hvouched⟩ := exists_checkOrgKey_eq (c := c) orgId chain me s
  rw [openOrgKey, bind_of_ok hcheck]
  cases check with
  | ok wrap =>
    exact Or.inr ⟨wrap, hvouched wrap rfl, decrypted_callDecrypt decrypt _ orgId _ _ s⟩
  | confirm signers => exact Or.inl rfl
  | unsigned canResign => exact Or.inl rfl
  | refused reason => exact Or.inl rfl

end Stores

/-- For every predicate that stands for `ed25519.verify`: verification returns a wrap exactly when
the chain vouches for it, writes to no store, and an organization's key is decrypted only from
such a wrap. -/
theorem orgKey_accepted_iff_vouched (c : IdentityCrypto) (s : TrustStores) :
    (∀ chain expected wrap, Vouched c expected s chain wrap ↔
      ∃ s', verifyOrgKeyChain c chain expected s = .ok wrap s') ∧
    (∀ chain expected, (verifyOrgKeyChain c chain expected s).final = s) ∧
    ∀ (K : Type) orgId chain me (decrypt : String → Client K),
      (openOrgKey c orgId chain me decrypt s).final.decrypted = s.decrypted ∨
        ∃ wrap, Vouched c ⟨orgId, me.userId⟩ s (chainFromServer orgId chain) wrap ∧
          (openOrgKey c orgId chain me decrypt s).final.decrypted =
            s.decrypted ++ [wrap.encryptedOrgKey] := by
  refine ⟨fun chain expected wrap => ?_, fun chain expected => ?_, fun K => ?_⟩
  · constructor
    · intro h
      exact ⟨s, verifyOrgKeyChain_eq_ok_iff.mpr ⟨rfl, h⟩⟩
    · rintro ⟨s', h⟩
      exact (verifyOrgKeyChain_eq_ok_iff.mp h).2
  · exact unchanged_verifyOrgKeyChain c chain expected s
  · exact fun orgId chain me decrypt => decrypted_openOrgKey orgId chain me decrypt s

end Nopass
