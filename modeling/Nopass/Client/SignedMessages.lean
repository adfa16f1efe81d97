import Nopass.Client.EnvelopeBinding
import Nopass.Client.Identity
import Nopass.Core.Text.Arithmetic
import Nopass.Core.Text.Utf8

/-!
# What identity keys sign

A key bundle and a wrap of an organization's key are signed as messages that end in bytes
of any length. The fields before these have a fixed width, but for the role, which stands
behind its length; the labels tell the formats apart. Of a role only what UTF-8 can say is
signed: halves of surrogate pairs that stand alone are all written as U+FFFD.
-/

namespace Nopass

/-- `OrgKeyWrap`, with a role of any JavaScript text. -/
structure JsOrgKeyWrap where
  orgId : String
  epoch : JsNumber
  recipientUserId : String
  signerUserId : String
  role : JsText
  encryptedOrgKey : String

/-- `wrapMessage` for such a wrap. -/
def JsOrgKeyWrap.message (wrap : JsOrgKeyWrap) : Client Bytes := do
  let role := encodeUtf8 wrap.role
  throwUnless (decide (role.length ≤ 255)) "role too long"
  let epoch ← orThrow "invalid key epoch"
    (wrap.epoch.toInt?.filter fun n => decide (1 ≤ n) && decide (n ≤ 0xffffffff))
  let org ← bytesOfUuid wrap.orgId
  let recipient ← bytesOfUuid wrap.recipientUserId
  let signer ← bytesOfUuid wrap.signerUserId
  let key ← fromBase64 wrap.encryptedOrgKey
  pure (utf8 "nopwd-org-key-wrap-v2" ++ [0] ++ org ++ bigEndian 4 epoch.toNat ++ recipient ++
    signer ++ [UInt8.ofNat role.length] ++ role ++ key)

/-- A wrap with a role of whole characters. -/
def OrgKeyWrap.toJs (wrap : OrgKeyWrap) : JsOrgKeyWrap where
  orgId := wrap.orgId
  epoch := wrap.epoch
  recipientUserId := wrap.recipientUserId
  signerUserId := wrap.signerUserId
  role := js wrap.role
  encryptedOrgKey := wrap.encryptedOrgKey

/-- Its message. -/
theorem message_toJs (wrap : OrgKeyWrap) : wrap.toJs.message = wrapMessage wrap := by
  have hrole : encodeUtf8 (js wrap.role) = utf8 wrap.role := by
    rw [encodeUtf8, js, toScalars_utf16]
    rfl
  rw [JsOrgKeyWrap.message, wrapMessage, OrgKeyWrap.toJs, hrole]

/-- Wraps that agree in all that is signed. -/
structure SameWrap (wrap wrap' : JsOrgKeyWrap) : Prop where
  orgId : uuidBytes wrap.orgId = uuidBytes wrap'.orgId
  recipientUserId : uuidBytes wrap.recipientUserId = uuidBytes wrap'.recipientUserId
  signerUserId : uuidBytes wrap.signerUserId = uuidBytes wrap'.signerUserId
  epoch : wrap.epoch = wrap'.epoch
  role : toWellFormed wrap.role = toWellFormed wrap'.role
  encryptedOrgKey : Base64.atob wrap.encryptedOrgKey = Base64.atob wrap'.encryptedOrgKey

/-- What follows the label of a wrap's message. -/
structure WrapFields (wrap : JsOrgKeyWrap) (fields : Bytes) : Prop where
  parts : ∃ (epoch : Nat) (org recipient signer key : Bytes),
    wrap.epoch = .ofNat epoch ∧ epoch < 256 ^ 4 ∧ uuidBytes wrap.orgId = some org ∧
      uuidBytes wrap.recipientUserId = some recipient ∧
      uuidBytes wrap.signerUserId = some signer ∧ (encodeUtf8 wrap.role).length ≤ 255 ∧
      Base64.atob wrap.encryptedOrgKey = some key ∧
      fields = org ++ (bigEndian 4 epoch ++ (recipient ++ (signer ++
        (UInt8.ofNat (encodeUtf8 wrap.role).length :: (encodeUtf8 wrap.role ++ key)))))

/-- The parts of a wrap's message. -/
theorem message_eq_ok {wrap : JsOrgKeyWrap} {message : Bytes} (h : wrap.message = .ok message) :
    ∃ fields, WrapFields wrap fields ∧
      message = utf8 "nopwd-org-key-wrap-v2" ++ (0 :: fields) := by
  simp only [JsOrgKeyWrap.message, bytesOfUuid, fromBase64, client_bind_eq_ok,
    client_throwUnless_eq_ok, client_orThrow_eq_ok, decide_eq_true_eq,
    Option.filter_eq_some_iff, Bool.and_eq_true] at h
  obtain ⟨_, hrole, epoch, ⟨hepoch, hleast, hmost⟩, org, horg, recipient, hrecipient, signer,
    hsigner, key, hkey, h⟩ := h
  cases h
  have hnat : ((epoch.toNat : Nat) : Int) = epoch := Int.toNat_of_nonneg (by omega)
  have hnumber : wrap.epoch = .ofNat epoch.toNat := by
    rw [JsNumber.eq_of_toInt? hepoch, JsNumber.ofNat, ← Int.cast_natCast, hnat]
  refine ⟨_, ⟨epoch.toNat, org, recipient, signer, key, hnumber, by omega, horg, hrecipient,
    hsigner, hrole, hkey, rfl⟩, ?_⟩
  simp only [List.append_assoc, List.cons_append, List.nil_append]

/-- The fields of a wrap are read back from what is signed. -/
theorem sameWrap_of_fields {wrap wrap' : JsOrgKeyWrap} {fields : Bytes}
    (h : WrapFields wrap fields) (h' : WrapFields wrap' fields) : SameWrap wrap wrap' := by
  obtain ⟨epoch, org, recipient, signer, key, hepoch, hfits, horg, hrecipient, hsigner, hrole, hkey,
    hfields⟩ := h.parts
  obtain ⟨epoch', org', recipient', signer', key', hepoch', hfits', horg', hrecipient', hsigner',
    hrole', hkey', hfields'⟩ := h'.parts
  obtain ⟨horgs, hrest⟩ := List.append_inj (hfields.symm.trans hfields')
    ((length_uuidBytes horg).trans (length_uuidBytes horg').symm)
  obtain ⟨hbytes, hrest⟩ := List.append_inj hrest (by rw [length_bigEndian, length_bigEndian])
  obtain ⟨hrecipients, hrest⟩ := List.append_inj hrest
    ((length_uuidBytes hrecipient).trans (length_uuidBytes hrecipient').symm)
  obtain ⟨hsigners, hrest⟩ := List.append_inj hrest
    ((length_uuidBytes hsigner).trans (length_uuidBytes hsigner').symm)
  obtain ⟨hlength, hrest⟩ := List.cons.inj hrest
  have hsame : (encodeUtf8 wrap.role).length = (encodeUtf8 wrap'.role).length := by
    have hnat := congrArg UInt8.toNat hlength
    rw [UInt8.toNat_ofNat', UInt8.toNat_ofNat'] at hnat
    omega
  obtain ⟨hroles, hkeys⟩ := List.append_inj hrest hsame
  constructor
  · rw [horg, horg', horgs]
  · rw [hrecipient, hrecipient', hrecipients]
  · rw [hsigner, hsigner', hsigners]
  · rw [hepoch, hepoch', bigEndian_inj hfits hfits' hbytes]
  · rw [← decodeUtf8_encodeUtf8, hroles, decodeUtf8_encodeUtf8]
  · rw [hkey, hkey', hkeys]

/-- The parts of a bundle's message. -/
theorem bundleMessage_eq_ok {userId rsaPublicKey : String} {message : Bytes}
    (h : bundleMessage userId rsaPublicKey = .ok message) :
    ∃ user key, uuidBytes userId = some user ∧ Base64.atob rsaPublicKey = some key ∧
      message = utf8 "nopwd-key-bundle-v1" ++ (0 :: (user ++ key)) := by
  simp only [bundleMessage, bytesOfUuid, fromBase64, client_bind_eq_ok, client_orThrow_eq_ok] at h
  obtain ⟨user, huser, key, hkey, h⟩ := h
  cases h
  refine ⟨user, key, huser, hkey, ?_⟩
  simp only [List.append_assoc, List.cons_append, List.nil_append]

/-- Signed messages are unambiguous: each format by itself and one against the other. -/
structure MessagesUnambiguous : Prop where
  wrap : ∀ wrap wrap' : JsOrgKeyWrap, ∀ message, wrap.message = .ok message →
    wrap'.message = .ok message → SameWrap wrap wrap'
  bundle : ∀ userId rsaPublicKey userId' rsaPublicKey' message,
    bundleMessage userId rsaPublicKey = .ok message →
    bundleMessage userId' rsaPublicKey' = .ok message →
      uuidBytes userId = uuidBytes userId' ∧ Base64.atob rsaPublicKey = Base64.atob rsaPublicKey'
  apart : ∀ (wrap : JsOrgKeyWrap) userId rsaPublicKey message message',
    wrap.message = .ok message → bundleMessage userId rsaPublicKey = .ok message' →
      message ≠ message'

/-- They are. -/
theorem messagesUnambiguous : MessagesUnambiguous where
  wrap wrap wrap' message h h' := by
    obtain ⟨fields, hfields, rfl⟩ := message_eq_ok h
    obtain ⟨fields', hfields', heq⟩ := message_eq_ok h'
    cases (List.cons.inj (List.append_cancel_left heq)).2
    exact sameWrap_of_fields hfields hfields'
  bundle userId rsaPublicKey userId' rsaPublicKey' message h h' := by
    obtain ⟨user, key, huser, hkey, rfl⟩ := bundleMessage_eq_ok h
    obtain ⟨user', key', huser', hkey', heq⟩ := bundleMessage_eq_ok h'
    obtain ⟨rfl, rfl⟩ := List.append_inj (List.cons.inj (List.append_cancel_left heq)).2
      ((length_uuidBytes huser).trans (length_uuidBytes huser').symm)
    exact ⟨huser.trans huser'.symm, hkey.trans hkey'.symm⟩
  apart wrap userId rsaPublicKey message message' h h' := by
    obtain ⟨fields, _, rfl⟩ := message_eq_ok h
    obtain ⟨user, key, _, _, rfl⟩ := bundleMessage_eq_ok h'
    -- The labels differ in their seventh byte, `o` or `k`.
    intro heq
    have hlabels := congrArg (List.take 7) heq
    rw [List.take_append_of_le_length (by decide), List.take_append_of_le_length (by decide)]
      at hlabels
    exact absurd hlabels (by decide)

/-- A wrap with a role of one code unit. -/
def wrapWithRole (u : UInt16) : JsOrgKeyWrap where
  orgId := "00000000-0000-0000-0000-000000000001"
  epoch := 1
  recipientUserId := "00000000-0000-0000-0000-000000000002"
  signerUserId := "00000000-0000-0000-0000-000000000003"
  role := [u]
  encryptedOrgKey := "AA=="

/-- Roles of one lone half each are signed alike. -/
theorem not_same_role : ¬ ∀ wrap wrap' : JsOrgKeyWrap, ∀ message, wrap.message = .ok message →
    wrap'.message = .ok message → wrap.role = wrap'.role := by
  intro h
  have hsame : (wrapWithRole 0xd800).message = (wrapWithRole 0xd801).message ∧
      (wrapWithRole 0xd800).message.isOk = true := by decide +kernel
  cases hm : (wrapWithRole 0xd800).message with
  | error e =>
    rw [hm] at hsame
    cases hsame.2
  | ok message =>
    have hroles := h _ _ message hm (hsame.1.symm.trans hm)
    exact absurd hroles (by decide)

end Nopass
