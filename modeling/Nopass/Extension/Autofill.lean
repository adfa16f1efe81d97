import Nopass.Client.Envelope
import Nopass.Core.Run
import Nopass.Extension.Messages
import Nopass.Extension.UrlMatch

/-!
# Autofill of the extension

A click in the popup asks the worker for a fill. The worker decrypts the login, finds the frame
whose field was focused last, or the top frame, holds the frame's origin against the login's
addresses, and sends the credentials there. Tabs navigate, frames report and the vault locks at
any of its steps; the content script of the frame looks at its own origin once more.
-/

namespace Nopass

/-- `urlMatches`. -/
def urlMatches (parseUrl : String → Option Url) (psl : SuffixList) (itemUrls : List String)
    (pageUrl : String) : Bool :=
  itemUrls.any fun u => originMatches parseUrl psl u pageUrl

/-- `isFillableOrigin`. -/
def isFillableOrigin (parseUrl : String → Option Url) (origin : String) : Bool :=
  (parseUrl origin).any fun url => decide (url.protocol = "https:") ||
    (decide (url.protocol = "http:") && isLoopback url.hostname)

/-- What a fill uses of a login. -/
structure LoginFields where
  username : String
  password : String
  urls : List String
  deriving DecidableEq, Repr

/-- A document in a frame, as the browser and its content script see it. -/
structure Document where
  documentId : Option String
  url : String
  /-- The origin that the browser puts on its messages. -/
  origin : Option String
  /-- `window.location.origin`. -/
  locationOrigin : String
  /-- Its content script listens. -/
  listens : Bool
  /-- The content script finds a password field that the user can see. -/
  passwordField : Bool
  /-- `findUsernameField` finds one before it. -/
  usernameField : Bool
  deriving DecidableEq, Repr

/-- The sender of a document's messages. -/
def Document.sender (document : Document) (runtimeId : String) (tabId frameId : Nat) :
    MessageSender where
  id := some runtimeId
  tab := some (some tabId)
  frameId := some frameId
  documentId := document.documentId
  url := some document.url
  origin := document.origin

/-- The sender of the popup's messages. -/
def popupSender (runtimeId : String) : MessageSender where
  id := some runtimeId
  tab := none
  frameId := none
  documentId := none
  url := some (extensionRoot runtimeId ++ "src/popup/index.html")
  origin := none

/-- The AUTOFILL message. -/
structure AutofillRequest where
  itemId : String
  tabId : Nat
  confirmedOrigin : Option String
  deriving DecidableEq, Repr

/-- What a handler answers. -/
inductive AutofillAnswer where
  | ok
  | error (text : String)
  | originMismatch (origin : String) (confirmable : Bool)
  /-- It threw. -/
  | threw
  deriving DecidableEq, Repr

/-- Where a handler waits, with what it holds there. -/
inductive AutofillPhase where
  /-- `restoreVaultState`. -/
  | restoring (sender : MessageSender)
  /-- `armAutoLock`. -/
  | arming
  | decrypting (item : EncryptedVaultItem) (keys : VaultKeys)
  /-- `resolveFillTarget`: the recorded frame. -/
  | recalling (plain : LoginFields)
  /-- `resolveFillTarget`: the address of the tab. -/
  | lookingUp (plain : LoginFields)
  /-- The credentials are on their way to a frame. -/
  | sending (plain : LoginFields) (target : FillTarget)
  /-- The frame's answer is on its way back. -/
  | answering (filled : Bool)
  /-- The recorded frame is dropped. -/
  | clearing
  | answered (answer : AutofillAnswer)

/-- A handler of one AUTOFILL message. -/
structure AutofillFlow where
  request : AutofillRequest
  phase : AutofillPhase

/-- The open popup. -/
structure Popup where
  /-- `pendingFill`: a login and the origin that the banner names. -/
  pendingFill : Option (String × String)
  /-- The handlers whose answers it waits for, with the logins they are for. -/
  waiting : List (Nat × String)

/-- History: a click that asks for a fill; the second button is under a banner. -/
structure FillClick where
  itemId : String
  tabId : Nat
  shownOrigin : Option String
  deriving DecidableEq, Repr

/-- The message of a click. -/
def FillClick.request (click : FillClick) : AutofillRequest where
  itemId := click.itemId
  tabId := click.tabId
  confirmedOrigin := truthy click.shownOrigin

/-- History: credentials that a content script has put into a document. -/
structure Fill where
  /-- The handler that sent them. -/
  flow : Nat
  tabId : Nat
  frameId : Nat
  document : Document
  username : Option String
  password : String

/-- `vaultState`, as far as a fill reads it. -/
structure OpenVault where
  items : List EncryptedVaultItem
  keys : VaultKeys

/-- The browser with the extension in it. -/
structure AutofillWorld where
  vault : Option OpenVault
  /-- The document in a frame of a tab. -/
  frames : Nat → Nat → Option Document
  /-- What `storage.session` has under `fillTargetKey`. -/
  fillTargets : Nat → Option FillTarget
  /-- FILL_TARGET messages that are on their way into the storage. -/
  reports : List (Nat × FillTarget)
  flows : List AutofillFlow
  popup : Option Popup
  /-- History: all frames that were reported. -/
  reported : List (Nat × FillTarget)
  /-- History: the vaults that were open. -/
  vaults : List OpenVault
  /-- History: the clicks, with the handlers that they started. -/
  clicks : List (Nat × FillClick)
  fills : List Fill

/-- What happens in a run. -/
inductive AutofillEvent where
  /-- A frame shows another document, or goes away. -/
  | navigate (tabId frameId : Nat) (document : Option Document)
  /-- The user focuses a field of a login form. -/
  | focus (tabId frameId : Nat)
  /-- A report reaches the storage. -/
  | record (report : Nat)
  /-- The vault is unlocked, restored or locked, or its items change. -/
  | vaultChanges (vault : Option OpenVault)
  | openPopup
  | closePopup
  /-- The fill button of an entry, with the active tab. -/
  | clickFill (itemId : String) (tabId : Option Nat)
  /-- The button of the banner. -/
  | clickFillAnyway (tabId : Option Nat)
  | clickCancel
  /-- The popup gets the answer of a handler. -/
  | popupReceives (flow : Nat)
  /-- A content script sends an AUTOFILL message. -/
  | documentSends (tabId frameId : Nat) (request : AutofillRequest)
  /-- What a handler waits for is there; the revisions are those that its store has by then. -/
  | resume (flow : Nat) (revisions : MemoryRevisionStore)
  /-- The credentials reach the frame. -/
  | deliver (flow : Nat)
  /-- What a handler waits for fails. -/
  | fail (flow : Nat)

section Steps

variable {P : Type} (c : ItemCrypto P) (login : P → LoginFields) (runtimeId : String)
  (urlOrigin : String → Option String) (parseUrl : String → Option Url) (psl : SuffixList)

namespace AutofillWorld

variable (w : AutofillWorld)

/-- A handler waits somewhere else. -/
def goOn (i : Nat) (flow : AutofillFlow) (phase : AutofillPhase) : AutofillWorld :=
  { w with flows := w.flows.set i { flow with phase := phase } }

/-- A handler answers. -/
def answer (i : Nat) (flow : AutofillFlow) (answer : AutofillAnswer) : AutofillWorld :=
  w.goOn i flow (.answered answer)

/-- Where a handler goes on once a persisted session has been restored. -/
def afterGate (sender : MessageSender) : AutofillPhase :=
  if (refusalReply runtimeId urlOrigin "AUTOFILL" sender).isSome then
    .answered (.error "unauthorized")
  else if w.vault.isNone then .answered (.error "locked")
  else .arming

/-- `handleMessage` with AUTOFILL, up to its first `await`. -/
def receive (sender : MessageSender) (request : AutofillRequest) : AutofillWorld :=
  let phase := if w.vault.isNone then .restoring sender else w.afterGate runtimeId urlOrigin sender
  { w with flows := w.flows ++ [{ request := request, phase := phase }] }

/-- The frame's origin is held against the login, and a mismatch against the confirmation. -/
def aim (i : Nat) (flow : AutofillFlow) (plain : LoginFields) (target : FillTarget) :
    AutofillWorld :=
  let confirmable := decide (target.frameId = 0) && isFillableOrigin parseUrl target.origin
  if urlMatches parseUrl psl plain.urls target.origin then w.goOn i flow (.sending plain target)
  else if !confirmable || decide (flow.request.confirmedOrigin ≠ some target.origin) then
    w.answer i flow (.originMismatch target.origin confirmable)
  else w.goOn i flow (.sending plain target)

/-- The login to fill is looked for. -/
def findItem (i : Nat) (flow : AutofillFlow) : AutofillWorld :=
  match w.vault with
  | none => w.answer i flow .threw
  | some vault =>
    match vault.items.find? fun item => item.id = flow.request.itemId with
    | none => w.answer i flow (.error "item not found")
    | some item => w.goOn i flow (.decrypting item vault.keys)

/-- The decryption settles. -/
def decrypt (i : Nat) (flow : AutofillFlow) (item : EncryptedVaultItem) (keys : VaultKeys)
    (revisions : MemoryRevisionStore) : AutofillWorld :=
  match decryptVaultItem c item.toEncryptedBlob (bindingForItem item) keys (some revisions) with
  | .error _ _ => w.answer i flow .threw
  | .ok current _ =>
    if c.typeOf current.plaintext ≠ some "login" then w.answer i flow (.error "not a login item")
    else w.goOn i flow (.recalling (login current.plaintext))

/-- The top frame stands in for a frame that was never recorded. -/
def lookUp (i : Nat) (flow : AutofillFlow) (plain : LoginFields) : AutofillWorld :=
  match (w.frames flow.request.tabId 0).bind fun document => urlOrigin document.url with
  | none => w.answer i flow (.error "no_login_form")
  | some origin =>
    w.aim parseUrl psl i flow plain { frameId := 0, documentId := none, origin := origin }

/-- The frame recorded for a tab is dropped. -/
def dropTarget (tabId : Nat) : AutofillWorld :=
  { w with fillTargets := fun id => if id = tabId then none else w.fillTargets id }

/-- What a handler waits for is there. -/
def resume (i : Nat) (flow : AutofillFlow) (revisions : MemoryRevisionStore) :
    Option AutofillWorld :=
  match flow.phase with
  | .restoring sender => some (w.goOn i flow (w.afterGate runtimeId urlOrigin sender))
  | .arming => some (w.findItem i flow)
  | .decrypting item keys => some (w.decrypt c login i flow item keys revisions)
  | .recalling plain =>
    match w.fillTargets flow.request.tabId with
    | some target => some (w.aim parseUrl psl i flow plain target)
    | none => some (w.goOn i flow (.lookingUp plain))
  | .lookingUp plain => some (w.lookUp urlOrigin parseUrl psl i flow plain)
  | .answering filled =>
    if filled then some (w.answer i flow .ok) else some (w.goOn i flow .clearing)
  | .clearing =>
    some ((w.dropTarget flow.request.tabId).answer i flow (.error "no_login_form"))
  | .sending _ _ | .answered _ => none

/-- What a handler waits for fails. -/
def fail (i : Nat) (flow : AutofillFlow) : Option AutofillWorld :=
  match flow.phase with
  | .restoring _ | .arming | .decrypting _ _ | .recalling _ | .clearing =>
    some (w.answer i flow .threw)
  | .lookingUp _ => some (w.answer i flow (.error "no_login_form"))
  | .sending _ _ | .answering _ => some (w.goOn i flow .clearing)
  | .answered _ => none

/-- The document that credentials for a frame reach. -/
def receiver (tabId : Nat) (target : FillTarget) : Option Document :=
  (w.frames tabId target.frameId).filter fun document => document.listens &&
    target.documentId.all fun id => decide (document.documentId = some id)

/-- The content script's FILL_CREDENTIALS: a document of another origin, or without a field,
stays silent. -/
def deliver (i : Nat) (flow : AutofillFlow) (plain : LoginFields) (target : FillTarget) :
    AutofillWorld :=
  match w.receiver flow.request.tabId target with
  | none => w.goOn i flow (.answering false)
  | some document =>
    if target.origin ≠ document.locationOrigin then w.goOn i flow (.answering false)
    else if !document.passwordField then w.goOn i flow (.answering false)
    else
      let fill : Fill :=
        { flow := i
          tabId := flow.request.tabId
          frameId := target.frameId
          document := document
          username := if document.usernameField then some plain.username else none
          password := plain.password }
      { w with fills := w.fills ++ [fill] }.goOn i flow (.answering true)

/-- `handleFill`: the active tab is asked for a fill. -/
def handleFill (popup : Popup) (click : Option Nat → Option FillClick) (tabId : Option Nat) :
    AutofillWorld :=
  match click (tabId.filter fun id => id ≠ 0) with
  | none => { w with popup := some { popup with pendingFill := none } }
  | some click =>
    let popup : Popup :=
      { pendingFill := none, waiting := popup.waiting ++ [(w.flows.length, click.itemId)] }
    { w with popup := some popup, clicks := w.clicks ++ [(w.flows.length, click)] }.receive
      runtimeId urlOrigin (popupSender runtimeId) click.request

/-- The popup gets an answer. -/
def popupReceives (popup : Popup) (i : Nat) (itemId : String) (answer : AutofillAnswer) :
    AutofillWorld :=
  let waiting := popup.waiting.filter fun p => p.1 ≠ i
  match answer with
  | .ok => { w with popup := none }
  | .originMismatch origin true =>
    if origin = "" then { w with popup := some { popup with waiting := waiting } }
    else { w with popup := some { pendingFill := some (itemId, origin), waiting := waiting } }
  | .originMismatch _ false | .error _ | .threw =>
    { w with popup := some { popup with waiting := waiting } }

/-- One event. -/
def step : AutofillEvent → Option AutofillWorld
  | .navigate tabId frameId document =>
    let frames := fun t f => if t = tabId ∧ f = frameId then document else w.frames t f
    some { w with frames := frames }
  | .focus tabId frameId =>
    (w.frames tabId frameId).bind fun document =>
      (senderFrame runtimeId urlOrigin (document.sender runtimeId tabId frameId)).map fun target =>
        { w with
          reports := w.reports ++ [(tabId, target)], reported := w.reported ++ [(tabId, target)] }
  | .record k =>
    w.reports[k]?.map fun report =>
      let fillTargets := fun tabId =>
        if tabId = report.1 then some report.2 else w.fillTargets tabId
      { w with reports := w.reports.eraseIdx k, fillTargets := fillTargets }
  | .vaultChanges vault => some { w with vault := vault, vaults := w.vaults ++ vault.toList }
  | .openPopup => some { w with popup := some { pendingFill := none, waiting := [] } }
  | .closePopup => some { w with popup := none }
  | .clickFill itemId tabId =>
    w.popup.map fun popup => w.handleFill runtimeId urlOrigin popup
      (fun tab => tab.map fun tabId => { itemId := itemId, tabId := tabId, shownOrigin := none })
      tabId
  | .clickFillAnyway tabId =>
    w.popup.bind fun popup => popup.pendingFill.map fun pending =>
      w.handleFill runtimeId urlOrigin popup
        (fun tab => tab.map fun tabId =>
          { itemId := pending.1, tabId := tabId, shownOrigin := some pending.2 })
        tabId
  | .clickCancel =>
    w.popup.map fun popup => { w with popup := some { popup with pendingFill := none } }
  | .popupReceives i =>
    w.popup.bind fun popup => (popup.waiting.find? fun p => p.1 = i).bind fun waited =>
      w.flows[i]?.bind fun flow =>
        match flow.phase with
        | .answered answer => some (w.popupReceives popup i waited.2 answer)
        | _ => none
  | .documentSends tabId frameId request =>
    (w.frames tabId frameId).map fun document =>
      w.receive runtimeId urlOrigin (document.sender runtimeId tabId frameId) request
  | .resume i revisions =>
    w.flows[i]?.bind fun flow => w.resume c login runtimeId urlOrigin parseUrl psl i flow revisions
  | .deliver i =>
    w.flows[i]?.bind fun flow =>
      match flow.phase with
      | .sending plain target => some (w.deliver i flow plain target)
      | _ => none
  | .fail i => w.flows[i]?.bind fun flow => w.fail i flow

/-- The browser has started. -/
def started (frames : Nat → Nat → Option Document) : AutofillWorld where
  vault := none
  frames := frames
  fillTargets := fun _ => none
  reports := []
  flows := []
  popup := none
  reported := []
  vaults := []
  clicks := []
  fills := []

end AutofillWorld

end Steps

/-! ## What fills promise -/

/-- A handler has answered. -/
def AutofillPhase.isAnswered : AutofillPhase → Bool
  | .answered _ => true
  | _ => false

/-- A handler's credentials are no longer with it. -/
def AutofillPhase.delivered : AutofillPhase → Bool
  | .answering _ | .clearing | .answered _ => true
  | _ => false

section Promise

variable {P : Type} (c : ItemCrypto P) (login : P → LoginFields) (runtimeId : String)
  (urlOrigin : String → Option String) (parseUrl : String → Option Url) (psl : SuffixList)

/-- The worker has refused a login's fill and offered to ask about an origin. -/
def Asked (w : AutofillWorld) (itemId origin : String) : Prop :=
  ∃ flow ∈ w.flows, flow.request.itemId = itemId ∧
    flow.phase = .answered (.originMismatch origin true)

/-- An open vault's item of this id decrypts to a login with these fields. -/
def Decrypts (w : AutofillWorld) (itemId : String) (plain : LoginFields) : Prop :=
  ∃ vault ∈ w.vaults, ∃ item ∈ vault.items, ∃ revisions current revisions', item.id = itemId ∧
    decryptVaultItem c item.toEncryptedBlob (bindingForItem item) vault.keys (some revisions) =
      .ok current revisions' ∧
    c.typeOf current.plaintext = some "login" ∧ login current.plaintext = plain

/-- A frame was reported in a tab. -/
def WasReported (w : AutofillWorld) (tabId : Nat) (target : FillTarget) : Prop :=
  (tabId, target) ∈ w.reported

/-- What a fill came from: a click for this login and tab, an item that holds the credentials,
and a frame. The document's own origin matches an address of the login, or it is in the top
frame of a secure page and the click was on a banner that named this very origin. A frame other
than the top one has reported that the user was in it, under this origin. -/
structure FillOf (w : AutofillWorld) (fill : Fill) (click : FillClick) (plain : LoginFields) :
    Prop where
  clicked : (fill.flow, click) ∈ w.clicks
  tab : fill.tabId = click.tabId
  login : Decrypts c login w click.itemId plain
  password : fill.password = plain.password
  username : ∀ name ∈ fill.username, name = plain.username
  site : urlMatches parseUrl psl plain.urls fill.document.locationOrigin = true ∨
    (fill.frameId = 0 ∧ isFillableOrigin parseUrl fill.document.locationOrigin = true ∧
      click.shownOrigin = some fill.document.locationOrigin ∧
      Asked w click.itemId fill.document.locationOrigin)
  frame : fill.frameId = 0 ∨ ∃ target, WasReported w fill.tabId target ∧
    target.frameId = fill.frameId ∧ target.origin = fill.document.locationOrigin ∧
    ∀ id ∈ target.documentId, fill.document.documentId = some id

/-- Every fill comes from a click, and no click leads to two. -/
structure FillsAllowed (w : AutofillWorld) : Prop where
  allowed : ∀ fill ∈ w.fills, ∃ click plain, FillOf c login parseUrl psl w fill click plain
  once : (w.fills.map (·.flow)).Nodup

/-! ## The invariant -/

/-- A handler was started by a click. -/
def Clicked (w : AutofillWorld) (i : Nat) (request : AutofillRequest) : Prop :=
  ∃ click, (i, click) ∈ w.clicks ∧ click.request = request

/-- A frame that credentials may go to. -/
structure Aimed (w : AutofillWorld) (request : AutofillRequest) (plain : LoginFields)
    (target : FillTarget) : Prop where
  site : urlMatches parseUrl psl plain.urls target.origin = true ∨
    (target.frameId = 0 ∧ isFillableOrigin parseUrl target.origin = true ∧
      request.confirmedOrigin = some target.origin)
  frame : target.frameId = 0 ∨ WasReported w request.tabId target

/-- What a waiting handler holds. -/
def HandlerHolds (w : AutofillWorld) (i : Nat) (flow : AutofillFlow) : Prop :=
  match flow.phase with
  | .restoring sender =>
    refusalReply runtimeId urlOrigin "AUTOFILL" sender = none → Clicked w i flow.request
  | .arming => Clicked w i flow.request
  | .decrypting item keys => Clicked w i flow.request ∧ item.id = flow.request.itemId ∧
    ∃ vault ∈ w.vaults, item ∈ vault.items ∧ vault.keys = keys
  | .recalling plain | .lookingUp plain =>
    Clicked w i flow.request ∧ Decrypts c login w flow.request.itemId plain
  | .sending plain target => Clicked w i flow.request ∧
    Decrypts c login w flow.request.itemId plain ∧ Aimed parseUrl psl w flow.request plain target
  | .answering _ | .clearing | .answered _ => True

/-- A popup asks about what the worker has asked about, and waits for handlers of its clicks. -/
structure PopupHolds (w : AutofillWorld) (popup : Popup) : Prop where
  banner : ∀ p ∈ popup.pendingFill, Asked w p.1 p.2
  waiting : ∀ p ∈ popup.waiting, ∃ flow, w.flows[p.1]? = some flow ∧ flow.request.itemId = p.2

/-- The invariant of a run. -/
structure AutofillInv (w : AutofillWorld) : Prop where
  handlers : ∀ i flow, w.flows[i]? = some flow →
    HandlerHolds c login runtimeId urlOrigin parseUrl psl w i flow
  allowed : ∀ fill ∈ w.fills, ∃ click plain, FillOf c login parseUrl psl w fill click plain
  once : (w.fills.map (·.flow)).Nodup
  delivered : ∀ fill ∈ w.fills, ∃ flow, w.flows[fill.flow]? = some flow ∧
    flow.phase.delivered = true
  targets : ∀ tabId, ∀ target ∈ w.fillTargets tabId, WasReported w tabId target
  reports : ∀ report ∈ w.reports, report ∈ w.reported
  vault : ∀ vault ∈ w.vault, vault ∈ w.vaults
  popup : ∀ popup ∈ w.popup, PopupHolds w popup
  asked : ∀ p ∈ w.clicks, ∀ origin ∈ p.2.shownOrigin, Asked w p.2.itemId origin

/-- What a later state still has of an earlier one. -/
structure AutofillWorld.Grows (w w' : AutofillWorld) : Prop where
  clicks : ∀ p ∈ w.clicks, p ∈ w'.clicks
  reported : ∀ p ∈ w.reported, p ∈ w'.reported
  vaults : ∀ v ∈ w.vaults, v ∈ w'.vaults
  flows : ∀ (i : Nat) (flow : AutofillFlow), w.flows[i]? = some flow →
    ∃ flow' : AutofillFlow, w'.flows[i]? = some flow' ∧
    flow'.request = flow.request ∧ (flow.phase.isAnswered = true → flow' = flow) ∧
    (flow.phase.delivered = true → flow'.phase.delivered = true)

variable {c login runtimeId urlOrigin parseUrl psl} {w w' : AutofillWorld}

/-- What the worker has asked stays asked. -/
theorem Asked.grow (hgrows : w.Grows w') {itemId origin : String} (h : Asked w itemId origin) :
    Asked w' itemId origin := by
  obtain ⟨flow, hflow, hitem, hphase⟩ := h
  obtain ⟨i, hi⟩ := List.mem_iff_getElem?.mp hflow
  obtain ⟨flow', hi', -, hsame, -⟩ := hgrows.flows i flow hi
  rw [hsame (by rw [hphase]; rfl)] at hi'
  exact ⟨flow, List.mem_of_getElem? hi', hitem, hphase⟩

theorem Decrypts.grow (hgrows : w.Grows w') {itemId : String} {plain : LoginFields}
    (h : Decrypts c login w itemId plain) : Decrypts c login w' itemId plain := by
  obtain ⟨vault, hvault, hrest⟩ := h
  exact ⟨vault, hgrows.vaults vault hvault, hrest⟩

theorem FillOf.grow (hgrows : w.Grows w') {fill : Fill} {click : FillClick} {plain : LoginFields}
    (h : FillOf c login parseUrl psl w fill click plain) :
    FillOf c login parseUrl psl w' fill click plain where
  clicked := hgrows.clicks _ h.clicked
  tab := h.tab
  login := h.login.grow hgrows
  password := h.password
  username := h.username
  site := h.site.imp_right fun hs => ⟨hs.1, hs.2.1, hs.2.2.1, hs.2.2.2.grow hgrows⟩
  frame := h.frame.imp_right fun hf => by
    obtain ⟨target, hreported, hrest⟩ := hf
    exact ⟨target, hgrows.reported _ hreported, hrest⟩

theorem Clicked.grow (hgrows : w.Grows w') {i : Nat} {request : AutofillRequest}
    (h : Clicked w i request) : Clicked w' i request := by
  obtain ⟨click, hclick, hrequest⟩ := h
  exact ⟨click, hgrows.clicks _ hclick, hrequest⟩

theorem Aimed.grow (hgrows : w.Grows w') {request : AutofillRequest} {plain : LoginFields}
    {target : FillTarget} (h : Aimed parseUrl psl w request plain target) :
    Aimed parseUrl psl w' request plain target :=
  ⟨h.site, h.frame.imp_right (hgrows.reported _)⟩

/-- What a handler holds it keeps while other things happen. -/
theorem HandlerHolds.grow (hgrows : w.Grows w') {i : Nat} {flow : AutofillFlow}
    (h : HandlerHolds c login runtimeId urlOrigin parseUrl psl w i flow) :
    HandlerHolds c login runtimeId urlOrigin parseUrl psl w' i flow := by
  unfold HandlerHolds at h ⊢
  cases hphase : flow.phase with
  | restoring sender =>
    rw [hphase] at h
    exact fun hpage => (h hpage).grow hgrows
  | arming =>
    rw [hphase] at h
    exact h.grow hgrows
  | decrypting item keys =>
    rw [hphase] at h
    obtain ⟨hclicked, hid, vault, hvault, hitem⟩ := h
    exact ⟨hclicked.grow hgrows, hid, vault, hgrows.vaults vault hvault, hitem⟩
  | recalling plain =>
    rw [hphase] at h
    exact ⟨h.1.grow hgrows, h.2.grow hgrows⟩
  | lookingUp plain =>
    rw [hphase] at h
    exact ⟨h.1.grow hgrows, h.2.grow hgrows⟩
  | sending plain target =>
    rw [hphase] at h
    exact ⟨h.1.grow hgrows, h.2.1.grow hgrows, h.2.2.grow hgrows⟩
  | answering filled => trivial
  | clearing => trivial
  | answered answer => trivial

theorem PopupHolds.grow (hgrows : w.Grows w') {popup : Popup} (h : PopupHolds w popup) :
    PopupHolds w' popup where
  banner := fun p hp => (h.banner p hp).grow hgrows
  waiting := fun p hp => by
    obtain ⟨flow, hflow, hitem⟩ := h.waiting p hp
    obtain ⟨flow', hflow', hrequest, -⟩ := hgrows.flows p.1 flow hflow
    exact ⟨flow', hflow', by rw [hrequest, hitem]⟩

/-- What a step that fills nothing does: each part of the state is as it was, or holds. -/
structure FillFollows (c : ItemCrypto P) (login : P → LoginFields) (runtimeId : String)
    (urlOrigin : String → Option String) (parseUrl : String → Option Url) (psl : SuffixList)
    (w w' : AutofillWorld) : Prop where
  grows : w.Grows w'
  fills : w'.fills = w.fills
  handlers : ∀ i flow, w'.flows[i]? = some flow → w.flows[i]? = some flow ∨
    HandlerHolds c login runtimeId urlOrigin parseUrl psl w' i flow
  targets : ∀ tabId, ∀ target ∈ w'.fillTargets tabId, target ∈ w.fillTargets tabId ∨
    WasReported w' tabId target
  reports : ∀ report ∈ w'.reports, report ∈ w.reports ∨ report ∈ w'.reported
  vault : ∀ vault ∈ w'.vault, vault ∈ w.vault ∨ vault ∈ w'.vaults
  popup : ∀ popup ∈ w'.popup, popup ∈ w.popup ∨ PopupHolds w' popup
  clicks : ∀ p ∈ w'.clicks, p ∈ w.clicks ∨ ∀ origin ∈ p.2.shownOrigin, Asked w' p.2.itemId origin

/-- Such a step keeps the invariant. -/
theorem AutofillInv.follow (h : AutofillInv c login runtimeId urlOrigin parseUrl psl w)
    (hf : FillFollows c login runtimeId urlOrigin parseUrl psl w w') :
    AutofillInv c login runtimeId urlOrigin parseUrl psl w' where
  handlers := by
    intro i flow hflow
    obtain hold | hnew := hf.handlers i flow hflow
    · exact (h.handlers i flow hold).grow hf.grows
    · exact hnew
  allowed := by
    rw [hf.fills]
    intro fill hfill
    obtain ⟨click, plain, hof⟩ := h.allowed fill hfill
    exact ⟨click, plain, hof.grow hf.grows⟩
  once := by
    rw [hf.fills]
    exact h.once
  delivered := by
    rw [hf.fills]
    intro fill hfill
    obtain ⟨flow, hflow, hdelivered⟩ := h.delivered fill hfill
    obtain ⟨flow', hflow', -, -, hkeeps⟩ := hf.grows.flows fill.flow flow hflow
    exact ⟨flow', hflow', hkeeps hdelivered⟩
  targets := fun tabId target ht =>
    (hf.targets tabId target ht).elim
      (fun hold => hf.grows.reported _ (h.targets tabId target hold)) id
  reports := fun report hr =>
    (hf.reports report hr).elim (fun hold => hf.grows.reported _ (h.reports report hold)) id
  vault := fun vault hv =>
    (hf.vault vault hv).elim (fun hold => hf.grows.vaults _ (h.vault vault hold)) id
  popup := fun popup hp =>
    (hf.popup popup hp).elim (fun hold => (h.popup popup hold).grow hf.grows) id
  asked := fun p hp =>
    (hf.clicks p hp).elim (fun hold origin ho => (h.asked p hold origin ho).grow hf.grows) id

/-! ## Steps -/

/-- A handler that goes on leaves the others where they are. -/
theorem grows_goOn {i : Nat} {flow : AutofillFlow} {phase : AutofillPhase}
    (hflow : w.flows[i]? = some flow) (hwaits : flow.phase.isAnswered = false)
    (hdelivered : flow.phase.delivered = true → phase.delivered = true) :
    w.Grows (w.goOn i flow phase) where
  clicks := fun _ hp => hp
  reported := fun _ hp => hp
  vaults := fun _ hv => hv
  flows := by
    intro j flow' hflow'
    have hi := (List.getElem?_eq_some_iff.mp hflow).1
    by_cases hji : j = i
    · subst hji
      rw [hflow, Option.some.injEq] at hflow'
      subst hflow'
      refine ⟨{ flow with phase := phase }, ?_, rfl, ?_, hdelivered⟩
      · rw [AutofillWorld.goOn, List.getElem?_set_self hi]
      · rw [hwaits]
        intro habsurd
        cases habsurd
    · refine ⟨flow', ?_, rfl, fun _ => rfl, id⟩
      rw [AutofillWorld.goOn, List.getElem?_set_ne (Ne.symm hji)]
      exact hflow'

/-- A handler goes on with what it must hold there. -/
theorem follows_goOn {i : Nat} {flow : AutofillFlow} {phase : AutofillPhase}
    (hflow : w.flows[i]? = some flow) (hwaits : flow.phase.isAnswered = false)
    (hdelivered : flow.phase.delivered = true → phase.delivered = true)
    (hholds : HandlerHolds c login runtimeId urlOrigin parseUrl psl w i
      { flow with phase := phase }) :
    FillFollows c login runtimeId urlOrigin parseUrl psl w (w.goOn i flow phase) where
  grows := grows_goOn hflow hwaits hdelivered
  fills := rfl
  handlers := by
    intro j flow' hflow'
    by_cases hji : j = i
    · subst hji
      rw [AutofillWorld.goOn, List.getElem?_set_self (List.getElem?_eq_some_iff.mp hflow).1,
        Option.some.injEq] at hflow'
      subst hflow'
      exact Or.inr (hholds.grow (grows_goOn hflow hwaits hdelivered))
    · rw [AutofillWorld.goOn, List.getElem?_set_ne (Ne.symm hji)] at hflow'
      exact Or.inl hflow'
  targets := fun _ _ ht => Or.inl ht
  reports := fun _ hr => Or.inl hr
  vault := fun _ hv => Or.inl hv
  popup := fun _ hp => Or.inl hp
  clicks := fun _ hp => Or.inl hp

/-- A handler answers. -/
theorem follows_answer {i : Nat} {flow : AutofillFlow} (hflow : w.flows[i]? = some flow)
    (hwaits : flow.phase.isAnswered = false) (answer : AutofillAnswer) :
    FillFollows c login runtimeId urlOrigin parseUrl psl w (w.answer i flow answer) :=
  follows_goOn hflow hwaits (fun _ => rfl) trivial

/-- Credentials are sent only where they may go. -/
theorem follows_aim {i : Nat} {flow : AutofillFlow} {plain : LoginFields} {target : FillTarget}
    (hflow : w.flows[i]? = some flow) (hwaits : flow.phase.isAnswered = false)
    (hundelivered : flow.phase.delivered = false) (hclicked : Clicked w i flow.request)
    (hplain : Decrypts c login w flow.request.itemId plain)
    (hframe : target.frameId = 0 ∨ WasReported w flow.request.tabId target) :
    FillFollows c login runtimeId urlOrigin parseUrl psl w
      (w.aim parseUrl psl i flow plain target) := by
  have hdelivered : flow.phase.delivered = true →
      (AutofillPhase.sending plain target).delivered = true := by
    rw [hundelivered]
    intro habsurd
    cases habsurd
  unfold AutofillWorld.aim
  dsimp only
  by_cases hsite : urlMatches parseUrl psl plain.urls target.origin = true
  · rw [if_pos hsite]
    exact follows_goOn hflow hwaits hdelivered ⟨hclicked, hplain, Or.inl hsite, hframe⟩
  · rw [if_neg hsite]
    split
    · exact follows_answer hflow hwaits _
    · rename_i hconfirmed
      rw [Bool.or_eq_true, not_or, Bool.not_eq_true', Bool.not_eq_false, Bool.and_eq_true,
        decide_eq_true_eq, decide_eq_true_eq, not_not] at hconfirmed
      obtain ⟨⟨htop, hfillable⟩, horigin⟩ := hconfirmed
      exact follows_goOn hflow hwaits hdelivered
        ⟨hclicked, hplain, Or.inr ⟨htop, hfillable, horigin⟩, hframe⟩

/-- What a handler holds after a restored session. -/
theorem holds_afterGate {i : Nat} {request : AutofillRequest} {sender : MessageSender}
    (hclicked : refusalReply runtimeId urlOrigin "AUTOFILL" sender = none → Clicked w i request) :
    HandlerHolds c login runtimeId urlOrigin parseUrl psl w i
      { request := request, phase := w.afterGate runtimeId urlOrigin sender } := by
  unfold AutofillWorld.afterGate
  by_cases hrefused : (refusalReply runtimeId urlOrigin "AUTOFILL" sender).isSome = true
  · rw [if_pos hrefused]
    trivial
  · rw [if_neg hrefused]
    split
    · trivial
    · exact hclicked (Option.not_isSome_iff_eq_none.mp hrefused)

/-- The login of a handler is looked for among the items of the open vault. -/
theorem follows_findItem (h : AutofillInv c login runtimeId urlOrigin parseUrl psl w) {i : Nat}
    {flow : AutofillFlow} (hflow : w.flows[i]? = some flow) (hphase : flow.phase = .arming) :
    FillFollows c login runtimeId urlOrigin parseUrl psl w (w.findItem i flow) := by
  have hwaits : flow.phase.isAnswered = false := by
    rw [hphase]
    rfl
  have hclicked : Clicked w i flow.request := by
    have hholds := h.handlers i flow hflow
    rw [HandlerHolds, hphase] at hholds
    exact hholds
  unfold AutofillWorld.findItem
  cases hvault : w.vault with
  | none => exact follows_answer hflow hwaits _
  | some vault =>
    dsimp only
    cases hitem : vault.items.find? fun item => item.id = flow.request.itemId with
    | none => exact follows_answer hflow hwaits _
    | some item =>
      have hid : item.id = flow.request.itemId := by
        have hfound := List.find?_some hitem
        exact of_decide_eq_true hfound
      refine follows_goOn hflow hwaits ?_
        ⟨hclicked, hid, vault, h.vault vault hvault, List.mem_of_find?_eq_some hitem, rfl⟩
      rw [hphase]
      intro habsurd
      cases habsurd

/-- What a handler decrypts is what an item of a vault holds. -/
theorem follows_decrypt (h : AutofillInv c login runtimeId urlOrigin parseUrl psl w) {i : Nat}
    {flow : AutofillFlow} {item : EncryptedVaultItem} {keys : VaultKeys}
    (hflow : w.flows[i]? = some flow) (hphase : flow.phase = .decrypting item keys)
    (revisions : MemoryRevisionStore) :
    FillFollows c login runtimeId urlOrigin parseUrl psl w
      (w.decrypt c login i flow item keys revisions) := by
  have hwaits : flow.phase.isAnswered = false := by
    rw [hphase]
    rfl
  have hholds := h.handlers i flow hflow
  rw [HandlerHolds, hphase] at hholds
  obtain ⟨hclicked, hid, vault, hvault, hitem, hkeys⟩ := hholds
  unfold AutofillWorld.decrypt
  split
  · exact follows_answer hflow hwaits _
  · rename_i current revisions' hdecrypted
    split
    · exact follows_answer hflow hwaits _
    · rename_i htype
      rw [not_not] at htype
      rw [← hkeys] at hdecrypted
      refine follows_goOn hflow hwaits ?_ ⟨hclicked, vault, hvault, item, hitem, revisions,
        current, revisions', hid, hdecrypted, htype, rfl⟩
      rw [hphase]
      intro habsurd
      cases habsurd

/-- A step that no handler takes part in. -/
theorem follows_around (hflows : w'.flows = w.flows) (hfills : w'.fills = w.fills)
    (hclicks : w'.clicks = w.clicks) (hreported : ∀ p ∈ w.reported, p ∈ w'.reported)
    (hvaults : ∀ v ∈ w.vaults, v ∈ w'.vaults)
    (targets : ∀ tabId, ∀ target ∈ w'.fillTargets tabId, target ∈ w.fillTargets tabId ∨
      WasReported w' tabId target)
    (reports : ∀ report ∈ w'.reports, report ∈ w.reports ∨ report ∈ w'.reported)
    (vault : ∀ vault ∈ w'.vault, vault ∈ w.vault ∨ vault ∈ w'.vaults)
    (popup : ∀ popup ∈ w'.popup, popup ∈ w.popup ∨ PopupHolds w' popup) :
    FillFollows c login runtimeId urlOrigin parseUrl psl w w' where
  grows := by
    refine ⟨by rw [hclicks]; exact fun _ hp => hp, hreported, hvaults, ?_⟩
    intro i flow hflow
    rw [hflows]
    exact ⟨flow, hflow, rfl, fun _ => rfl, id⟩
  fills := hfills
  handlers := by
    rw [hflows]
    exact fun _ _ hflow => Or.inl hflow
  targets := targets
  reports := reports
  vault := vault
  popup := popup
  clicks := by
    rw [hclicks]
    exact fun _ hp => Or.inl hp

/-- A handler goes on with what it waited for. -/
theorem AutofillInv.resume (h : AutofillInv c login runtimeId urlOrigin parseUrl psl w) {i : Nat}
    {flow : AutofillFlow} (hflow : w.flows[i]? = some flow) {revisions : MemoryRevisionStore}
    (hresume : w.resume c login runtimeId urlOrigin parseUrl psl i flow revisions = some w') :
    AutofillInv c login runtimeId urlOrigin parseUrl psl w' := by
  have hholds := h.handlers i flow hflow
  unfold AutofillWorld.resume at hresume
  cases hphase : flow.phase with
  | restoring sender =>
    rw [hphase] at hresume
    cases hresume
    rw [HandlerHolds, hphase] at hholds
    apply h.follow
    refine follows_goOn hflow (by rw [hphase]; rfl) ?_ (holds_afterGate hholds)
    rw [hphase]
    intro habsurd
    cases habsurd
  | arming =>
    rw [hphase] at hresume
    cases hresume
    exact h.follow (follows_findItem h hflow hphase)
  | decrypting item keys =>
    rw [hphase] at hresume
    cases hresume
    exact h.follow (follows_decrypt h hflow hphase revisions)
  | recalling plain =>
    rw [hphase] at hresume
    rw [HandlerHolds, hphase] at hholds
    have hwaits : flow.phase.isAnswered = false := by
      rw [hphase]
      rfl
    have hundelivered : flow.phase.delivered = false := by
      rw [hphase]
      rfl
    cases htarget : w.fillTargets flow.request.tabId with
    | some target =>
      rw [htarget] at hresume
      cases hresume
      exact h.follow (follows_aim hflow hwaits hundelivered hholds.1 hholds.2
        (Or.inr (h.targets _ target htarget)))
    | none =>
      rw [htarget] at hresume
      cases hresume
      apply h.follow
      refine follows_goOn hflow hwaits ?_ hholds
      rw [hundelivered]
      intro habsurd
      cases habsurd
  | lookingUp plain =>
    rw [hphase] at hresume
    cases hresume
    rw [HandlerHolds, hphase] at hholds
    have hwaits : flow.phase.isAnswered = false := by
      rw [hphase]
      rfl
    apply h.follow
    unfold AutofillWorld.lookUp
    split
    · exact follows_answer hflow hwaits _
    · exact follows_aim hflow hwaits (by rw [hphase]; rfl) hholds.1 hholds.2 (Or.inl rfl)
  | answering filled =>
    rw [hphase] at hresume
    have hwaits : flow.phase.isAnswered = false := by
      rw [hphase]
      rfl
    cases filled with
    | true =>
      cases hresume
      exact h.follow (follows_answer hflow hwaits _)
    | false =>
      cases hresume
      exact h.follow (follows_goOn hflow hwaits (fun _ => rfl) trivial)
  | clearing =>
    rw [hphase] at hresume
    cases hresume
    have hdropped : AutofillInv c login runtimeId urlOrigin parseUrl psl
        (w.dropTarget flow.request.tabId) := by
      apply h.follow
      refine follows_around rfl rfl rfl (fun _ hp => hp) (fun _ hv => hv) ?_
        (fun _ hr => Or.inl hr) (fun _ hv => Or.inl hv) (fun _ hp => Or.inl hp)
      intro tabId target ht
      change target ∈ (if tabId = flow.request.tabId then none else w.fillTargets tabId) at ht
      split at ht
      · cases ht
      · exact Or.inl ht
    have hflow' : (w.dropTarget flow.request.tabId).flows[i]? = some flow := hflow
    exact hdropped.follow (follows_answer hflow' (by rw [hphase]; rfl) _)
  | sending plain target =>
    rw [hphase] at hresume
    cases hresume
  | answered answer =>
    rw [hphase] at hresume
    cases hresume

/-- A handler whose step fails gives up, or drops the recorded frame. -/
theorem follows_fail {i : Nat} {flow : AutofillFlow} (hflow : w.flows[i]? = some flow)
    (hfail : w.fail i flow = some w') :
    FillFollows c login runtimeId urlOrigin parseUrl psl w w' := by
  have hwaits : flow.phase.isAnswered = false := by
    cases hphase : flow.phase with
    | answered answer =>
      rw [AutofillWorld.fail, hphase] at hfail
      cases hfail
    | _ => rfl
  unfold AutofillWorld.fail at hfail
  split at hfail
  all_goals first
    | (cases hfail; done)
    | (cases hfail; exact follows_goOn hflow hwaits (fun _ => rfl) trivial)

/-- What a document has been given, others keep. -/
theorem AutofillInv.fill (h : AutofillInv c login runtimeId urlOrigin parseUrl psl w) {fill : Fill}
    {flow : AutofillFlow} {click : FillClick} {plain : LoginFields}
    (hof : FillOf c login parseUrl psl w fill click plain)
    (hfirst : ∀ earlier ∈ w.fills, earlier.flow ≠ fill.flow)
    (hflow : w.flows[fill.flow]? = some flow) (hdelivered : flow.phase.delivered = true) :
    AutofillInv c login runtimeId urlOrigin parseUrl psl
      { w with fills := w.fills ++ [fill] } := by
  have hgrows : w.Grows { w with fills := w.fills ++ [fill] } :=
    ⟨fun _ hp => hp, fun _ hp => hp, fun _ hv => hv,
      fun _ flow hflow => ⟨flow, hflow, rfl, fun _ => rfl, id⟩⟩
  refine ⟨fun j flow' hflow' => (h.handlers j flow' hflow').grow hgrows, ?_, ?_, ?_, h.targets,
    h.reports, h.vault, fun popup hp => (h.popup popup hp).grow hgrows,
    fun p hp origin ho => (h.asked p hp origin ho).grow hgrows⟩
  · intro earlier hmem
    obtain hold | hnew := List.mem_append.mp hmem
    · obtain ⟨click', plain', hof'⟩ := h.allowed earlier hold
      exact ⟨click', plain', hof'.grow hgrows⟩
    · rw [List.mem_singleton.mp hnew]
      exact ⟨click, plain, hof.grow hgrows⟩
  · rw [List.map_append, List.nodup_append]
    refine ⟨h.once, List.nodup_singleton _, ?_⟩
    intro j hj k hk
    obtain ⟨earlier, hearlier, rfl⟩ := List.mem_map.mp hj
    rw [List.map_singleton, List.mem_singleton] at hk
    rw [hk]
    exact hfirst earlier hearlier
  · intro earlier hmem
    obtain hold | hnew := List.mem_append.mp hmem
    · exact h.delivered earlier hold
    · rw [List.mem_singleton.mp hnew]
      exact ⟨flow, hflow, hdelivered⟩

/-- Credentials that reach a document of the origin they are for are put into it. -/
theorem AutofillInv.deliver (h : AutofillInv c login runtimeId urlOrigin parseUrl psl w) {i : Nat}
    {flow : AutofillFlow} {plain : LoginFields} {target : FillTarget}
    (hflow : w.flows[i]? = some flow) (hphase : flow.phase = .sending plain target) :
    AutofillInv c login runtimeId urlOrigin parseUrl psl (w.deliver i flow plain target) := by
  have hwaits : flow.phase.isAnswered = false := by
    rw [hphase]
    rfl
  have hanswering : ∀ filled, AutofillInv c login runtimeId urlOrigin parseUrl psl
      (w.goOn i flow (.answering filled)) :=
    fun filled => h.follow (follows_goOn hflow hwaits (fun _ => rfl) trivial)
  have hholds := h.handlers i flow hflow
  rw [HandlerHolds, hphase] at hholds
  obtain ⟨⟨click, hclick, hrequest⟩, hplain, haimed⟩ := hholds
  rw [← hrequest] at hplain haimed
  unfold AutofillWorld.deliver
  cases hreceiver : w.receiver flow.request.tabId target with
  | none => exact hanswering false
  | some document =>
    obtain ⟨-, hreached⟩ := Option.filter_eq_some_iff.mp hreceiver
    rw [Bool.and_eq_true] at hreached
    dsimp only
    by_cases horigin : target.origin ≠ document.locationOrigin
    · rw [if_pos horigin]
      exact hanswering false
    · rw [if_neg horigin]
      rw [not_not] at horigin
      split
      · exact hanswering false
      · -- The handler has given the credentials away before, or this fill is its first.
        have hfirst : ∀ earlier ∈ w.fills, earlier.flow ≠ i := by
          intro earlier hearlier hsame
          obtain ⟨flow', hflow', hdelivered⟩ := h.delivered earlier hearlier
          rw [hsame, hflow, Option.some.injEq] at hflow'
          rw [← hflow', hphase] at hdelivered
          cases hdelivered
        have hflow' : (w.goOn i flow (.answering true)).flows[i]? =
            some { flow with phase := .answering true } :=
          List.getElem?_set_self (List.getElem?_eq_some_iff.mp hflow).1
        refine (hanswering true).fill (?_ : FillOf c login parseUrl psl _ _ click plain) hfirst
          hflow' rfl
        apply FillOf.grow (grows_goOn hflow hwaits fun _ => rfl)
        constructor
        · exact hclick
        · rw [← hrequest]
          rfl
        · exact hplain
        · rfl
        · intro name hname
          dsimp only at hname
          split at hname
          · exact (Option.some.inj hname).symm
          · cases hname
        · rw [← horigin]
          refine haimed.site.imp_right ?_
          rintro ⟨htop, hfillable, hconfirmed⟩
          have hshown : click.shownOrigin = some target.origin := eq_some_of_truthy hconfirmed
          exact ⟨htop, hfillable, hshown, h.asked _ hclick _ hshown⟩
        · refine haimed.frame.imp_right ?_
          intro hreported
          refine ⟨target, ?_, rfl, horigin, ?_⟩
          · rw [← hrequest]
            exact hreported
          · intro id hid
            have hall := hreached.2
            rw [hid, Option.all_some] at hall
            exact of_decide_eq_true hall

/-- A message starts a handler. -/
theorem AutofillInv.receive (h : AutofillInv c login runtimeId urlOrigin parseUrl psl w)
    {sender : MessageSender} {request : AutofillRequest}
    (hclicked : refusalReply runtimeId urlOrigin "AUTOFILL" sender = none →
      Clicked w w.flows.length request) :
    AutofillInv c login runtimeId urlOrigin parseUrl psl
      (w.receive runtimeId urlOrigin sender request) := by
  have hgrows : w.Grows (w.receive runtimeId urlOrigin sender request) := by
    refine ⟨fun _ hp => hp, fun _ hp => hp, fun _ hv => hv, ?_⟩
    intro j flow hflow
    refine ⟨flow, ?_, rfl, fun _ => rfl, id⟩
    rw [AutofillWorld.receive, List.getElem?_append_left (List.getElem?_eq_some_iff.mp hflow).1]
    exact hflow
  apply h.follow
  refine ⟨hgrows, rfl, ?_, fun _ _ ht => Or.inl ht, fun _ hr => Or.inl hr, fun _ hv => Or.inl hv,
    fun _ hp => Or.inl hp, fun _ hp => Or.inl hp⟩
  intro j flow hflow
  rw [AutofillWorld.receive] at hflow
  by_cases hj : j < w.flows.length
  · rw [List.getElem?_append_left hj] at hflow
    exact Or.inl hflow
  · have hlength := (List.getElem?_eq_some_iff.mp hflow).1
    rw [List.length_append, List.length_singleton] at hlength
    have hlast : j = w.flows.length := by omega
    rw [hlast, List.getElem?_concat_length, Option.some.injEq] at hflow
    right
    apply HandlerHolds.grow hgrows
    rw [← hflow, hlast]
    split
    · exact hclicked
    · exact holds_afterGate hclicked

/-- A document may not ask for a fill. -/
theorem refusal_document (document : Document) (tabId frameId : Nat) :
    refusalReply runtimeId urlOrigin "AUTOFILL" (document.sender runtimeId tabId frameId) =
      some .unauthorized := by
  simp only [refusalReply, isExtensionPage, Document.sender, Option.isNone_some, Bool.and_false]
  rfl

/-- A click in the popup starts a handler, and the popup waits for it. -/
theorem AutofillInv.handleFill (h : AutofillInv c login runtimeId urlOrigin parseUrl psl w)
    {popup : Popup} {click : Option Nat → Option FillClick} (hpopup : w.popup = some popup)
    (hshown : ∀ tabId, ∀ made ∈ click tabId, ∀ origin ∈ made.shownOrigin,
      Asked w made.itemId origin) (tabId : Option Nat) :
    AutofillInv c login runtimeId urlOrigin parseUrl psl
      (w.handleFill runtimeId urlOrigin popup click tabId) := by
  have hholds := h.popup popup hpopup
  unfold AutofillWorld.handleFill
  cases hmade : click (tabId.filter fun id => id ≠ 0) with
  | none =>
    apply h.follow
    refine follows_around rfl rfl rfl (fun _ hp => hp) (fun _ hv => hv) (fun _ _ ht => Or.inl ht)
      (fun _ hr => Or.inl hr) (fun _ hv => Or.inl hv) ?_
    intro popup' hpopup'
    cases hpopup'
    refine Or.inr ⟨?_, hholds.waiting⟩
    intro p hp
    cases hp
  | some made =>
    let clicked : AutofillWorld := { w with clicks := w.clicks ++ [(w.flows.length, made)] }
    have hgrows : w.Grows clicked :=
      ⟨fun _ hp => List.mem_append_left _ hp, fun _ hp => hp, fun _ hv => hv,
        fun _ flow hflow => ⟨flow, hflow, rfl, fun _ => rfl, id⟩⟩
    have hclicked : AutofillInv c login runtimeId urlOrigin parseUrl psl clicked := by
      apply h.follow
      refine ⟨hgrows, rfl, fun _ _ hflow => Or.inl hflow, fun _ _ ht => Or.inl ht,
        fun _ hr => Or.inl hr, fun _ hv => Or.inl hv, fun _ hp => Or.inl hp, ?_⟩
      intro p hp
      refine (List.mem_append.mp hp).imp_right ?_
      intro hnew origin horigin
      rw [List.mem_singleton.mp hnew] at horigin ⊢
      exact (hshown _ made hmade origin horigin).grow hgrows
    have hreceived : AutofillInv c login runtimeId urlOrigin parseUrl psl
        (clicked.receive runtimeId urlOrigin (popupSender runtimeId) made.request) :=
      hclicked.receive fun _ => ⟨made, List.mem_append_right _ (List.mem_singleton_self _), rfl⟩
    apply hreceived.follow
    refine follows_around rfl rfl rfl (fun _ hp => hp) (fun _ hv => hv) (fun _ _ ht => Or.inl ht)
      (fun _ hr => Or.inl hr) (fun _ hv => Or.inl hv) ?_
    intro popup' hpopup'
    cases hpopup'
    right
    constructor
    · intro p hp
      cases hp
    · intro p hp
      obtain hold | hnew := List.mem_append.mp hp
      · obtain ⟨flow, hflow, hitem⟩ := hholds.waiting p hold
        refine ⟨flow, ?_, hitem⟩
        change (w.flows ++ [_])[p.1]? = _
        rw [List.getElem?_append_left (List.getElem?_eq_some_iff.mp hflow).1]
        exact hflow
      · rw [List.mem_singleton.mp hnew]
        refine ⟨_, List.getElem?_concat_length, rfl⟩

/-- The popup asks about an origin that the worker has asked about. -/
theorem AutofillInv.popupReceives (h : AutofillInv c login runtimeId urlOrigin parseUrl psl w)
    {popup : Popup} {i : Nat} {itemId : String} {flow : AutofillFlow} {answer : AutofillAnswer}
    (hpopup : w.popup = some popup) (hwaited : (i, itemId) ∈ popup.waiting)
    (hflow : w.flows[i]? = some flow) (hphase : flow.phase = .answered answer) :
    AutofillInv c login runtimeId urlOrigin parseUrl psl
      (w.popupReceives popup i itemId answer) := by
  have hholds := h.popup popup hpopup
  have hasked : ∀ origin, answer = .originMismatch origin true → Asked w itemId origin := by
    rintro origin rfl
    obtain ⟨flow', hflow', hitem⟩ := hholds.waiting _ hwaited
    rw [hflow, Option.some.injEq] at hflow'
    subst hflow'
    exact ⟨flow, List.mem_of_getElem? hflow, hitem, hphase⟩
  have hset : ∀ popup', (∀ next ∈ popup', PopupHolds w next) →
      AutofillInv c login runtimeId urlOrigin parseUrl psl { w with popup := popup' } := by
    intro popup' hnext
    apply h.follow
    refine follows_around rfl rfl rfl (fun _ hp => hp) (fun _ hv => hv) (fun _ _ ht => Or.inl ht)
      (fun _ hr => Or.inl hr) (fun _ hv => Or.inl hv) ?_
    intro next hmem
    refine Or.inr (PopupHolds.grow ?_ (hnext next hmem))
    exact ⟨fun _ hp => hp, fun _ hp => hp, fun _ hv => hv,
      fun _ flow hflow => ⟨flow, hflow, rfl, fun _ => rfl, id⟩⟩
  have hfewer : PopupHolds w { popup with waiting := popup.waiting.filter fun p => p.1 ≠ i } :=
    ⟨hholds.banner, fun p hp => hholds.waiting p (List.mem_of_mem_filter hp)⟩
  have hfewerSet := hset (some { popup with waiting := popup.waiting.filter fun p => p.1 ≠ i }) (by
    rintro next ⟨⟩
    exact hfewer)
  unfold AutofillWorld.popupReceives
  cases answer with
  | ok =>
    apply hset
    intro next hnext
    cases hnext
  | error text => exact hfewerSet
  | threw => exact hfewerSet
  | originMismatch origin confirmable =>
    cases confirmable with
    | false => exact hfewerSet
    | true =>
      dsimp only
      split
      · exact hfewerSet
      · apply hset
        rintro next ⟨⟩
        refine ⟨?_, hfewer.waiting⟩
        rintro p ⟨⟩
        exact hasked origin rfl

/-- Every event keeps the invariant. -/
theorem AutofillInv.step (h : AutofillInv c login runtimeId urlOrigin parseUrl psl w)
    {e : AutofillEvent} (hstep : w.step c login runtimeId urlOrigin parseUrl psl e = some w') :
    AutofillInv c login runtimeId urlOrigin parseUrl psl w' := by
  cases e with
  | navigate tabId frameId document =>
    cases hstep
    exact h.follow (follows_around rfl rfl rfl (fun _ hp => hp) (fun _ hv => hv)
      (fun _ _ ht => Or.inl ht) (fun _ hr => Or.inl hr) (fun _ hv => Or.inl hv)
      fun _ hp => Or.inl hp)
  | focus tabId frameId =>
    obtain ⟨document, -, hstep⟩ := Option.bind_eq_some_iff.mp hstep
    obtain ⟨target, -, rfl⟩ := Option.map_eq_some_iff.mp hstep
    exact h.follow (follows_around rfl rfl rfl (fun _ hp => List.mem_append_left _ hp)
      (fun _ hv => hv) (fun _ _ ht => Or.inl ht)
      (fun _ hr => (List.mem_append.mp hr).imp_right (List.mem_append_right _))
      (fun _ hv => Or.inl hv) fun _ hp => Or.inl hp)
  | record k =>
    obtain ⟨report, hreport, rfl⟩ := Option.map_eq_some_iff.mp hstep
    have hmem := h.reports report (List.mem_of_getElem? hreport)
    apply h.follow
    refine follows_around rfl rfl rfl (fun _ hp => hp) (fun _ hv => hv) ?_
      (fun _ hr => Or.inl (List.mem_of_mem_eraseIdx hr)) (fun _ hv => Or.inl hv)
      fun _ hp => Or.inl hp
    intro tabId target ht
    dsimp only at ht
    split at ht
    · rename_i htab
      cases ht
      right
      rw [htab]
      exact hmem
    · exact Or.inl ht
  | vaultChanges vault =>
    cases hstep
    exact h.follow (follows_around rfl rfl rfl (fun _ hp => hp)
      (fun _ hv => List.mem_append_left _ hv) (fun _ _ ht => Or.inl ht) (fun _ hr => Or.inl hr)
      (fun _ hv => Or.inr (List.mem_append_right _ (Option.mem_toList.mpr hv)))
      fun _ hp => Or.inl hp)
  | openPopup =>
    cases hstep
    apply h.follow
    refine follows_around rfl rfl rfl (fun _ hp => hp) (fun _ hv => hv) (fun _ _ ht => Or.inl ht)
      (fun _ hr => Or.inl hr) (fun _ hv => Or.inl hv) ?_
    rintro popup ⟨⟩
    refine Or.inr ⟨?_, ?_⟩
    · intro p hp
      cases hp
    · intro p hp
      cases hp
  | closePopup =>
    cases hstep
    apply h.follow
    refine follows_around rfl rfl rfl (fun _ hp => hp) (fun _ hv => hv) (fun _ _ ht => Or.inl ht)
      (fun _ hr => Or.inl hr) (fun _ hv => Or.inl hv) ?_
    intro popup hp
    cases hp
  | clickFill itemId tabId =>
    obtain ⟨popup, hpopup, rfl⟩ := Option.map_eq_some_iff.mp hstep
    apply h.handleFill hpopup
    intro tab made hmade origin horigin
    obtain ⟨id, -, rfl⟩ := Option.map_eq_some_iff.mp hmade
    cases horigin
  | clickFillAnyway tabId =>
    obtain ⟨popup, hpopup, hstep⟩ := Option.bind_eq_some_iff.mp hstep
    obtain ⟨pending, hpending, rfl⟩ := Option.map_eq_some_iff.mp hstep
    apply h.handleFill hpopup
    intro tab made hmade origin horigin
    obtain ⟨id, -, rfl⟩ := Option.map_eq_some_iff.mp hmade
    cases horigin
    exact (h.popup popup hpopup).banner pending hpending
  | clickCancel =>
    obtain ⟨popup, hpopup, rfl⟩ := Option.map_eq_some_iff.mp hstep
    apply h.follow
    refine follows_around rfl rfl rfl (fun _ hp => hp) (fun _ hv => hv) (fun _ _ ht => Or.inl ht)
      (fun _ hr => Or.inl hr) (fun _ hv => Or.inl hv) ?_
    rintro popup' ⟨⟩
    refine Or.inr ⟨?_, (h.popup popup hpopup).waiting⟩
    intro p hp
    cases hp
  | popupReceives i =>
    obtain ⟨popup, hpopup, hstep⟩ := Option.bind_eq_some_iff.mp hstep
    obtain ⟨waited, hwaited, hstep⟩ := Option.bind_eq_some_iff.mp hstep
    obtain ⟨flow, hflow, hstep⟩ := Option.bind_eq_some_iff.mp hstep
    have hfound := List.find?_some hwaited
    have hi : waited.1 = i := of_decide_eq_true hfound
    cases hphase : flow.phase with
    | answered answer =>
      rw [hphase] at hstep
      cases hstep
      refine h.popupReceives hpopup ?_ hflow hphase
      rw [← hi]
      exact List.mem_of_find?_eq_some hwaited
    | _ =>
      rw [hphase] at hstep
      cases hstep
  | documentSends tabId frameId request =>
    obtain ⟨document, -, rfl⟩ := Option.map_eq_some_iff.mp hstep
    apply h.receive
    rw [refusal_document]
    intro habsurd
    cases habsurd
  | resume i revisions =>
    obtain ⟨flow, hflow, hstep⟩ := Option.bind_eq_some_iff.mp hstep
    exact h.resume hflow hstep
  | deliver i =>
    obtain ⟨flow, hflow, hstep⟩ := Option.bind_eq_some_iff.mp hstep
    cases hphase : flow.phase with
    | sending plain target =>
      rw [hphase] at hstep
      cases hstep
      exact h.deliver hflow hphase
    | _ =>
      rw [hphase] at hstep
      cases hstep
  | fail i =>
    obtain ⟨flow, hflow, hstep⟩ := Option.bind_eq_some_iff.mp hstep
    exact h.follow (follows_fail hflow hstep)

/-- It holds when the browser starts. -/
theorem autofillInv_started (frames : Nat → Nat → Option Document) :
    AutofillInv c login runtimeId urlOrigin parseUrl psl (AutofillWorld.started frames) where
  handlers := by
    intro i flow hflow
    cases hflow
  allowed := by
    intro fill hfill
    cases hfill
  once := List.nodup_nil
  delivered := by
    intro fill hfill
    cases hfill
  targets := by
    intro tabId target ht
    cases ht
  reports := by
    intro report hr
    cases hr
  vault := by
    intro vault hv
    cases hv
  popup := by
    intro popup hp
    cases hp
  asked := by
    intro p hp
    cases hp

/-- In every run credentials are put only into documents that they may go to. -/
theorem fillsAllowed_of_run {frames : Nat → Nat → Option Document} {events : List AutofillEvent}
    (h : runEvents (fun w e => AutofillWorld.step c login runtimeId urlOrigin parseUrl psl w e)
      events (AutofillWorld.started frames) = some w) :
    FillsAllowed c login parseUrl psl w := by
  have hinv : AutofillInv c login runtimeId urlOrigin parseUrl psl w :=
    invariant_of_run (fun _ _ _ hs he => hs.step he) (autofillInv_started frames) h
  exact ⟨hinv.allowed, hinv.once⟩

end Promise

/-- A crypto layer whose every blob holds one login. -/
private def bankCrypto : ItemCrypto LoginFields where
  aes := { encrypt := fun _ _ _ text => text, decrypt := fun _ _ _ _ => some [] }
  hmacSign _ _ := [0]
  typeOf _ := some "login"
  serialize _ := []
  parse _ := some { username := "alice", password := "secret", urls := ["https://bank.example"] }

private def bankVault : OpenVault where
  items := [{ blob := "AA==", blobIv := "AA==", blobMac := "AA==", id := "bank"
              vaultId := "vault", itemType := "login" }]
  keys := { vaultEncKey := .aesGcm [1], vaultMacKey := .hmac [2] }

/-- The bank's page in the top frame of the first tab. -/
private def bankFrames (tabId frameId : Nat) : Option Document :=
  if tabId = 1 ∧ frameId = 0 then
    some { documentId := none, url := "https://bank.example", origin := none
           locationOrigin := "https://bank.example", listens := true, passwordField := true
           usernameField := false }
  else none

private def parseBank (url : String) : Option Url :=
  if url = "https://bank.example" then some ⟨"https:", "bank.example", ""⟩ else none

private def noSuffixes : SuffixList where
  listed _ := false
  isIp _ := false

private def unseenRevisions : MemoryRevisionStore where
  revisions _ := none
  legacyClosed := false

/-- A click on the login's button, up to the fill. -/
private def bankFilled : Option AutofillWorld :=
  runEvents (fun w e => AutofillWorld.step bankCrypto id "nopwd" some parseBank noSuffixes w e)
    ([.vaultChanges (some bankVault), .openPopup, .clickFill "bank" (some 1)] ++
      List.replicate 4 (.resume 0 unseenRevisions) ++ [.deliver 0])
    (AutofillWorld.started bankFrames)

/-- A login is filled into the page that it is saved for. -/
theorem fillsAllowed_of_run_bank : ∃ w, bankFilled = some w ∧
    w.fills.map (·.password) = ["secret"] ∧
    FillsAllowed bankCrypto id parseBank noSuffixes w := by
  have hrun : bankFilled.map (·.fills.map (·.password)) = some ["secret"] := by
    decide
  obtain ⟨w, hw, hfills⟩ := Option.map_eq_some_iff.mp hrun
  exact ⟨w, hw, hfills, fillsAllowed_of_run hw⟩

end Nopass
