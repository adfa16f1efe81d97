import Nopass.Client.AccountKey
import Nopass.Core.Domain

/-!
# Messages to the extension's worker

The browser says of every message which extension sent it, from which tab and frame, and which
address and origin the sending document has. The worker decides by that who may ask for what;
what the message itself says about its sender is never read.
-/

namespace Nopass

/-- `chrome.runtime.MessageSender`, as the browser fills it in. -/
structure MessageSender where
  id : Option String
  /-- The tab that the sender is in, with its id when it has one. -/
  tab : Option (Option Nat)
  frameId : Option Nat
  documentId : Option String
  url : Option String
  origin : Option String
  deriving DecidableEq, Repr

/-- `FillTarget`. -/
structure FillTarget where
  frameId : Nat
  documentId : Option String
  origin : String
  deriving DecidableEq, Repr

section Senders

-- `chrome.runtime.id`, and the `origin` of `new URL(url)` where that does not throw.
variable (runtimeId : String) (urlOrigin : String → Option String) (sender : MessageSender)

/-- `chrome.runtime.getURL("")`. -/
def extensionRoot : String := "chrome-extension://" ++ runtimeId ++ "/"

/-- `chrome.runtime.getURL(CONSENT_PAGE)`. -/
def consentPageUrl : String := extensionRoot runtimeId ++ "src/consent/index.html"

/-- `isExtensionPage`. -/
def isExtensionPage : Bool := decide (sender.id = some runtimeId) && sender.tab.isNone

/-- `isExtensionContext`. -/
def isExtensionContext : Bool :=
  decide (sender.id = some runtimeId) && sender.url.any (startsWith · (extensionRoot runtimeId))

/-- `isConsentPage`. -/
def isConsentPage : Bool :=
  decide (sender.id = some runtimeId) && sender.url.any (startsWith · (consentPageUrl runtimeId))

/-- `senderOrigin`. -/
def senderOrigin : Option String :=
  if sender.id ≠ some runtimeId ∨ sender.tab = none then none
  else (truthy sender.url).bind fun url => (truthy sender.origin).or (urlOrigin url)

/-- `senderFrame`. -/
def senderFrame : Option FillTarget := do
  let origin ← truthy (senderOrigin runtimeId urlOrigin sender)
  let frameId ← sender.frameId
  pure { frameId := frameId, documentId := sender.documentId, origin := origin }

end Senders

/-! ## Who may ask for what -/

/-- What the worker answers before it looks at the vault. -/
inductive Refusal where
  | unauthorized
  /-- `{ unlocked: false }`. -/
  | notUnlocked
  /-- `{ ok: false }`. -/
  | notOk
  /-- `{ available: false }`. -/
  | notAvailable
  /-- `{ matches: false }`. -/
  | noMatches
  | unknownType
  deriving DecidableEq, Repr

/-- The first check of each case of `handleMessage`. -/
def refusalReply (runtimeId : String) (urlOrigin : String → Option String) (type : String)
    (sender : MessageSender) : Option Refusal :=
  let allow (cond : Bool) (r : Refusal) : Option Refusal := if cond then none else some r
  let page := isExtensionPage runtimeId sender
  let context := isExtensionContext runtimeId sender
  let origin := (truthy (senderOrigin runtimeId urlOrigin sender)).isSome
  match type with
  | "UNLOCK" | "LOCK" | "GET_CREDENTIALS" | "AUTOFILL" => allow page .unauthorized
  | "IS_UNLOCKED" => allow context .notUnlocked
  | "GET_ITEMS" | "SEARCH_ITEMS" => allow context .unauthorized
  | "FILL_TARGET" =>
    allow ((senderFrame runtimeId urlOrigin sender).isSome && (sender.tab.bind id).isSome) .notOk
  | "WEBAUTHN_AVAILABLE" => allow origin .notAvailable
  | "WEBAUTHN_HAS_CREDENTIAL" => allow origin .noMatches
  | "WEBAUTHN_CREATE" | "WEBAUTHN_GET" => allow origin .unauthorized
  | "CONSENT_DETAILS" | "CONSENT_RESULT" => allow (isConsentPage runtimeId sender) .unauthorized
  | _ => some .unknownType

section Gates

variable {runtimeId : String} {urlOrigin : String → Option String} {sender : MessageSender}

/-- A text that is taken for true is there. -/
theorem eq_some_of_truthy {text : Option String} {t : String} (h : truthy text = some t) :
    text = some t := by
  unfold truthy at h
  split at h
  · cases h
  · exact h

/-- A content script: in a tab, in a document that is not the extension's. -/
structure IsContentScript (runtimeId : String) (sender : MessageSender) : Prop where
  in_tab : sender.tab ≠ none
  outside : sender.url.any (startsWith · (extensionRoot runtimeId)) = false

/-- The consent page is a page of the extension. -/
theorem isExtensionContext_of_isConsentPage (h : isConsentPage runtimeId sender = true) :
    isExtensionContext runtimeId sender = true := by
  rw [isConsentPage, Bool.and_eq_true] at h
  obtain ⟨hid, hurl⟩ := h
  rw [isExtensionContext, Bool.and_eq_true]
  refine ⟨hid, ?_⟩
  cases hsender : sender.url with
  | none =>
    rw [hsender] at hurl
    cases hurl
  | some url =>
    rw [hsender, Option.any_some, startsWith, List.isPrefixOf_iff_prefix, consentPageUrl,
      String.toList_append] at hurl
    rw [Option.any_some, startsWith, List.isPrefixOf_iff_prefix]
    exact (List.prefix_append _ _).trans hurl

/-- A document outside the extension is not taken for one of its pages. -/
theorem not_page_of_isContentScript (h : IsContentScript runtimeId sender) :
    isExtensionPage runtimeId sender = false ∧ isExtensionContext runtimeId sender = false ∧
      isConsentPage runtimeId sender = false := by
  have hcontext : isExtensionContext runtimeId sender = false := by
    rw [isExtensionContext, h.outside, Bool.and_false]
  refine ⟨?_, hcontext, ?_⟩
  · rw [isExtensionPage]
    cases htab : sender.tab with
    | none => exact absurd htab h.in_tab
    | some tab => rw [Option.isNone_some, Bool.and_false]
  · by_contra hconsent
    rw [Bool.not_eq_false] at hconsent
    rw [isExtensionContext_of_isConsentPage hconsent] at hcontext
    cases hcontext

/-- What a content script is heard for: passkeys, and the frame that it is in. -/
theorem heard_of_isContentScript (h : IsContentScript runtimeId sender) {type : String}
    (hheard : refusalReply runtimeId urlOrigin type sender = none) :
    type ∈ ["FILL_TARGET", "WEBAUTHN_AVAILABLE", "WEBAUTHN_HAS_CREDENTIAL", "WEBAUTHN_CREATE",
      "WEBAUTHN_GET"] := by
  obtain ⟨hpage, hcontext, hconsent⟩ := not_page_of_isContentScript h
  unfold refusalReply at hheard
  simp only [hpage, hcontext, hconsent] at hheard
  split at hheard
  all_goals first
    | (simp; done)
    | cases hheard

end Gates

end Nopass
