import Nopass.Core.OrderedMap
import Nopass.Core.Places
import Nopass.Core.Run
import Nopass.Extension.Messages

/-!
# Consent to passkeys

Before the worker creates or uses a passkey for a page, it opens a window of its own and asks.
The window fetches what it shows from the worker, and its answer names the request. A request
is settled once: by an answer, by the closing of its window, by a window that could not be
opened, or by its timer. Windows open and close, answers travel and the worker dies at any time.
-/

namespace Nopass

/-- What a page asks for. -/
inductive CeremonyKind where
  | create
  | get
  deriving DecidableEq, Repr

/-- `ConsentRequest`. -/
structure ConsentRequest where
  kind : CeremonyKind
  rpId : String
  origin : String
  deriving DecidableEq, Repr

/-- Where `requestConsent` waits; `windowId` has been assigned once the window is there. -/
inductive ConsentPhase where
  /-- `chrome.windows.create`. -/
  | opening
  /-- The decision. -/
  | deciding (windowId : Option Nat)
  | returned (approved : Bool)
  deriving DecidableEq, Repr

/-- A call of `requestConsent`. -/
structure ConsentFlow where
  requestId : String
  request : ConsentRequest
  phase : ConsentPhase
  /-- What its promise was resolved with. -/
  decision : Option Bool
  /-- Its timer is set. -/
  timer : Bool
  /-- It listens for windows that close. -/
  listening : Bool
  /-- The worker that called it has not died. -/
  alive : Bool
  deriving DecidableEq, Repr

/-- Nothing has settled a call. -/
def ConsentFlow.waits (flow : ConsentFlow) : Bool := flow.alive && flow.decision.isNone

/-- A call whose promise is resolved; its timer is cleared and its listener removed. -/
def ConsentFlow.resolved (flow : ConsentFlow) (approved : Bool) : ConsentFlow :=
  { flow with decision := some approved, timer := false, listening := false }

/-- An entry of `pendingConsents`; its `settle` belongs to a call. -/
structure PendingConsent where
  request : ConsentRequest
  flow : Nat
  deriving DecidableEq, Repr

/-- What the page in a consent window shows. -/
inductive ConsentPage where
  | loading
  /-- The answer to its CONSENT_DETAILS is on its way. -/
  | asked (answer : Option ConsentRequest)
  | shown (request : ConsentRequest)
  | expired
  deriving DecidableEq, Repr

/-- A consent window; its address ends with the id of a request. -/
structure ConsentWindow where
  windowId : Nat
  requestId : String
  isOpen : Bool
  page : ConsentPage
  /-- History: it was closed before the worker knew its id. -/
  closedEarly : Bool
  deriving DecidableEq, Repr

/-- A CONSENT_RESULT message on its way. -/
structure ConsentResult where
  sender : MessageSender
  requestId : String
  approved : Bool

/-- History: a click on one of the two buttons, with what the window showed. -/
structure ConsentClick where
  requestId : String
  shown : ConsentRequest
  approved : Bool
  deriving DecidableEq, Repr

/-- The worker, its consent windows and the messages between them. -/
structure ConsentWorld where
  pendingConsents : OrderedMap String PendingConsent
  flows : List ConsentFlow
  windows : List ConsentWindow
  results : List ConsentResult
  /-- History: the clicks. -/
  clicks : List ConsentClick
  /-- History: the calls that were settled, and how. -/
  settled : List (Nat × Bool)

/-- What happens in a run. -/
inductive ConsentEvent where
  /-- A page's request has passed the checks before `requestConsent`; its id is random. -/
  | request (request : ConsentRequest) (requestId : String)
  /-- The browser opens the window of a call. -/
  | windowOpens (flow windowId : Nat)
  /-- `chrome.windows.create` resolves, with the window's id when there is one. -/
  | created (flow : Nat) (known : Bool)
  | createFails (flow : Nat)
  /-- The page in a window asks what to show. -/
  | asks (window : Nat)
  | shows (window : Nat)
  | asksInVain (window : Nat)
  /-- The user clicks. -/
  | click (window : Nat) (approved : Bool)
  /-- A window closes. -/
  | close (window : Nat)
  /-- A document outside the extension sends a CONSENT_RESULT. -/
  | documentSends (result : ConsentResult)
  /-- The worker receives a CONSENT_RESULT. -/
  | receive (result : Nat)
  | timeout (flow : Nat)
  /-- A call gets its decision. -/
  | resume (flow : Nat)
  /-- The browser ends the worker; it comes back with nothing in memory. -/
  | workerDies

/-- A document outside the extension, decidably. -/
def outsideExtension (runtimeId : String) (sender : MessageSender) : Bool :=
  sender.tab.isSome && !sender.url.any (startsWith · (extensionRoot runtimeId))

namespace ConsentWorld

variable (runtimeId : String) (urlOrigin : String → Option String) (w : ConsentWorld)

/-- The sender of a consent window's messages. -/
def consentSender (window : ConsentWindow) : MessageSender where
  id := some runtimeId
  tab := some none
  frameId := some 0
  documentId := none
  url := some (consentPageUrl runtimeId ++ "?id=" ++ window.requestId)
  origin := none

/-- `settle`. -/
def settle (i : Nat) (flow : ConsentFlow) (approved : Bool) : ConsentWorld :=
  { w with
    flows := w.flows.set i (flow.resolved approved)
    pendingConsents := w.pendingConsents.delete flow.requestId
    settled := w.settled ++ [(i, approved)] }

/-- `onRemoved` of a call. -/
def onRemoved (closedId i : Nat) : ConsentWorld :=
  match w.flows[i]? with
  | none => w
  | some flow =>
    if flow.listening && decide (flow.phase = .deciding (some closedId)) then w.settle i flow false
    else w

/-- `chrome.windows.onRemoved`: every listener is called. -/
def removed (closedId : Nat) : ConsentWorld :=
  (List.range w.flows.length).foldl (fun w i => w.onRemoved closedId i) w

/-- A window that has been closed. -/
def shut (window : ConsentWindow) : ConsentWindow :=
  { window with
    isOpen := false
    closedEarly := w.flows.any fun flow =>
      decide (flow.requestId = window.requestId) && decide (flow.phase = .opening) }

/-- A window closes. -/
def closeWindow (k : Nat) (window : ConsentWindow) : ConsentWorld :=
  { w with windows := w.windows.set k (w.shut window) }.removed window.windowId

/-- `chrome.windows.remove`, whose failure is ignored. -/
def closeById (windowId : Nat) : ConsentWorld :=
  match w.windows.findIdx? fun window => decide (window.windowId = windowId) && window.isOpen with
  | none => w
  | some k =>
    match w.windows[k]? with
    | none => w
    | some window => w.closeWindow k window

/-- `requestConsent` up to its first `await`. -/
def requestConsent (request : ConsentRequest) (requestId : String) : ConsentWorld :=
  { w with
    flows := w.flows ++
      [{ requestId := requestId, request := request, phase := .opening, decision := none
         timer := true, listening := true, alive := true }]
    pendingConsents :=
      w.pendingConsents.set requestId { request := request, flow := w.flows.length } }

/-- `pendingConsents.get(requestId)?.settle(approved)`. -/
def settlePending (requestId : String) (approved : Bool) : ConsentWorld :=
  match w.pendingConsents.get requestId with
  | none => w
  | some pending =>
    match w.flows[pending.flow]? with
    | none => w
    | some flow => w.settle pending.flow flow approved

/-- What a window's page is answered when it asks. -/
def details (window : ConsentWindow) : Option ConsentRequest :=
  if (refusalReply runtimeId urlOrigin "CONSENT_DETAILS" (consentSender runtimeId window)).isSome then
    none
  else (w.pendingConsents.get window.requestId).map (·.request)

/-- `handleMessage` with CONSENT_RESULT. -/
def receive (result : ConsentResult) : ConsentWorld :=
  if (refusalReply runtimeId urlOrigin "CONSENT_RESULT" result.sender).isSome then w
  else w.settlePending result.requestId result.approved

/-- A call goes on. -/
def goOn (i : Nat) (flow : ConsentFlow) (phase : ConsentPhase) : ConsentWorld :=
  { w with flows := w.flows.set i { flow with phase := phase } }

/-- A page shows something else. -/
def show_ (k : Nat) (window : ConsentWindow) (page : ConsentPage) : ConsentWorld :=
  { w with windows := w.windows.set k { window with page := page } }

/-- The browser opens the window of a call. -/
def openWindow (windowId : Nat) (flow : ConsentFlow) : ConsentWorld :=
  { w with windows := w.windows ++
    [{ windowId := windowId, requestId := flow.requestId, isOpen := true, page := .loading
       closedEarly := false }] }

/-- A CONSENT_RESULT is sent, after clicks. -/
def send (result : ConsentResult) (clicks : List ConsentClick) : ConsentWorld :=
  { w with results := w.results ++ [result], clicks := w.clicks ++ clicks }

/-- The browser ends the worker. -/
def workerDies : ConsentWorld :=
  { w with
    pendingConsents := .empty
    flows := w.flows.map fun flow =>
      { flow with timer := false, listening := false, alive := false } }

/-- One event. -/
def step : ConsentEvent → Option ConsentWorld
  | .request request requestId =>
    if w.flows.all fun flow => decide (flow.requestId ≠ requestId) then
      some (w.requestConsent request requestId)
    else none
  | .windowOpens i windowId =>
    w.flows[i]?.bind fun flow =>
      if flow.alive && decide (flow.phase = .opening) && w.windows.all fun window =>
          decide (window.windowId ≠ windowId) && decide (window.requestId ≠ flow.requestId) then
        some (w.openWindow windowId flow)
      else none
  | .created i known =>
    w.flows[i]?.bind fun flow =>
      if flow.alive && decide (flow.phase = .opening) then
        (w.windows.find? fun window => window.requestId = flow.requestId).map fun window =>
          w.goOn i flow (.deciding (if known then some window.windowId else none))
      else none
  | .createFails i =>
    w.flows[i]?.bind fun flow =>
      if flow.alive && decide (flow.phase = .opening) then
        some ((w.goOn i flow (.deciding none)).settlePending flow.requestId false)
      else none
  | .asks k =>
    w.windows[k]?.bind fun window =>
      if window.isOpen && decide (window.page = .loading) then
        some (w.show_ k window (.asked (w.details runtimeId urlOrigin window)))
      else none
  | .shows k =>
    w.windows[k]?.bind fun window =>
      match window.page with
      | .asked (some request) => some (w.show_ k window (.shown request))
      | .asked none => some (w.show_ k window .expired)
      | _ => none
  | .asksInVain k =>
    w.windows[k]?.bind fun window =>
      match window.page with
      | .loading | .asked _ => some (w.show_ k window .expired)
      | _ => none
  | .click k approved =>
    w.windows[k]?.bind fun window =>
      match window.page with
      | .shown request =>
        if window.isOpen then
          some (w.send
            { sender := consentSender runtimeId window
              requestId := window.requestId, approved := approved }
            [{ requestId := window.requestId, shown := request, approved := approved }])
        else none
      | _ => none
  | .close k =>
    w.windows[k]?.bind fun window => if window.isOpen then some (w.closeWindow k window) else none
  | .documentSends result =>
    if outsideExtension runtimeId result.sender then some (w.send result []) else none
  | .receive k =>
    w.results[k]?.map fun result =>
      { w with results := w.results.eraseIdx k }.receive runtimeId urlOrigin result
  | .timeout i =>
    w.flows[i]?.bind fun flow => if flow.timer then some (w.settle i flow false) else none
  | .resume i =>
    w.flows[i]?.bind fun flow =>
      match flow.alive, flow.phase, flow.decision with
      | true, .deciding windowId, some approved =>
        let w := w.goOn i flow (.returned approved)
        some (match windowId with
          | some windowId => w.closeById windowId
          | none => w)
      | _, _, _ => none
  | .workerDies => some w.workerDies

/-- The worker has started. -/
def started : ConsentWorld where
  pendingConsents := .empty
  flows := []
  windows := []
  results := []
  clicks := []
  settled := []

end ConsentWorld

/-! ## What consents promise -/

/-- The user has clicked "Continue" under this request, in the window of this id. -/
def Approves (w : ConsentWorld) (requestId : String) (request : ConsentRequest) : Prop :=
  ∃ click ∈ w.clicks, click.requestId = requestId ∧ click.shown = request ∧ click.approved = true

/-- Of the calls of `requestConsent`, whatever happens: only a click under the very request
approves one; each is settled at most once; `pendingConsents` holds those that wait, and no
others; one that waits has its timer; and one whose window is known and closed waits only when
the window closed before it was known. -/
structure ConsentsHold (w : ConsentWorld) : Prop where
  approved : ∀ flow ∈ w.flows, flow.phase = .returned true →
    Approves w flow.requestId flow.request
  once : (w.settled.map (·.1)).Nodup
  settled : ∀ (i : Nat) (flow : ConsentFlow), w.flows[i]? = some flow → ∀ approved,
    flow.decision = some approved ↔ (i, approved) ∈ w.settled
  pending : ∀ requestId p, w.pendingConsents.get requestId = some p ↔
    ∃ flow, w.flows[p.flow]? = some flow ∧ flow.requestId = requestId ∧
      flow.request = p.request ∧ flow.waits = true
  timer : ∀ flow ∈ w.flows, flow.timer = flow.waits
  closed : ∀ flow ∈ w.flows, flow.waits = true → ∀ windowId,
    flow.phase = .deciding (some windowId) → ∃ window ∈ w.windows, window.windowId = windowId ∧
      window.requestId = flow.requestId ∧ (window.isOpen = true ∨ window.closedEarly = true)

/-! ## The invariant -/

/-- What a call holds; the closing of a window may be under way. -/
structure ConsentFlowHolds (closing : Option Nat) (w : ConsentWorld) (i : Nat)
    (flow : ConsentFlow) : Prop where
  pending : flow.waits = true → w.pendingConsents.get flow.requestId =
    some { request := flow.request, flow := i }
  timer : flow.timer = flow.waits
  listening : flow.listening = flow.waits
  approved : flow.decision = some true → Approves w flow.requestId flow.request
  settled : ∀ approved, flow.decision = some approved ↔ (i, approved) ∈ w.settled
  returned : ∀ approved, flow.phase = .returned approved → flow.decision = some approved
  opening : flow.phase = .opening → ∀ window ∈ w.windows, window.requestId = flow.requestId →
    window.isOpen = true ∨ window.closedEarly = true
  known : ∀ windowId, flow.phase = .deciding (some windowId) → ∃ window ∈ w.windows,
    window.windowId = windowId ∧ window.requestId = flow.requestId ∧
      (flow.waits = true → windowId ∉ closing → window.isOpen = true ∨ window.closedEarly = true)

/-- What a page has been answered is the request of its window's call. -/
def ConsentPage.shows (page : ConsentPage) (request : ConsentRequest) : Prop :=
  page = .asked (some request) ∨ page = .shown request

/-- The call that a window was opened for. -/
def OpenedFor (w : ConsentWorld) (window : ConsentWindow) : Prop :=
  ∃ flow ∈ w.flows, flow.requestId = window.requestId ∧
    ∀ request, window.page.shows request → flow.request = request

/-- The answer of a consent window is a click's. -/
def AnswersClick (w : ConsentWorld) (result : ConsentResult) : Prop :=
  ∃ flow ∈ w.flows, flow.requestId = result.requestId ∧
    (result.approved = true → Approves w result.requestId flow.request)

/-- The invariant of a run. -/
structure ConsentInv (runtimeId : String) (closing : Option Nat) (w : ConsentWorld) : Prop where
  ids : (w.flows.map (·.requestId)).Nodup
  windowIds : (w.windows.map (·.windowId)).Nodup
  flows : ∀ i flow, w.flows[i]? = some flow → ConsentFlowHolds closing w i flow
  pending : ∀ requestId p, w.pendingConsents.get requestId = some p →
    ∃ flow, w.flows[p.flow]? = some flow ∧ flow.requestId = requestId ∧
      flow.request = p.request ∧ flow.waits = true
  windows : ∀ window ∈ w.windows, OpenedFor w window
  results : ∀ result ∈ w.results, isConsentPage runtimeId result.sender = true → AnswersClick w result
  places : ∀ p ∈ w.settled, p.1 < w.flows.length
  once : (w.settled.map (·.1)).Nodup

section Steps

variable {runtimeId : String} {urlOrigin : String → Option String} {closing : Option Nat}
  {w w' : ConsentWorld} {i : Nat} {flow : ConsentFlow}

/-- Calls have ids of their own. -/
theorem ConsentInv.eq_of_requestId (h : ConsentInv runtimeId closing w) {j : Nat}
    {flow' : ConsentFlow} (hflow : w.flows[i]? = some flow) (hflow' : w.flows[j]? = some flow')
    (hid : flow.requestId = flow'.requestId) : i = j := by
  exact Places.eq_of_nodup h.ids hflow hflow' hid

/-- A settled call does not wait. -/
@[simp] theorem ConsentFlow.waits_resolved (flow : ConsentFlow) (approved : Bool) :
    (flow.resolved approved).waits = false := Bool.and_false _

/-- What a window was opened for is still there after its calls have gone on. -/
theorem OpenedFor.grow (hflows : ∀ flow ∈ w.flows, ∃ flow' ∈ w'.flows,
    flow'.requestId = flow.requestId ∧ flow'.request = flow.request) {window : ConsentWindow}
    (h : OpenedFor w window) : OpenedFor w' window := by
  obtain ⟨flow, hflow, hid, hrequest⟩ := h
  obtain ⟨flow', hflow', hid', hrequest'⟩ := hflows flow hflow
  exact ⟨flow', hflow', hid'.trans hid, fun request hshows =>
    hrequest'.trans (hrequest request hshows)⟩

theorem Approves.grow (hclicks : ∀ click ∈ w.clicks, click ∈ w'.clicks) {requestId : String}
    {request : ConsentRequest} (h : Approves w requestId request) :
    Approves w' requestId request := by
  obtain ⟨click, hclick, hrest⟩ := h
  exact ⟨click, hclicks click hclick, hrest⟩

theorem AnswersClick.grow (hflows : ∀ flow ∈ w.flows, ∃ flow' ∈ w'.flows,
    flow'.requestId = flow.requestId ∧ flow'.request = flow.request)
    (hclicks : ∀ click ∈ w.clicks, click ∈ w'.clicks) {result : ConsentResult}
    (h : AnswersClick w result) : AnswersClick w' result := by
  obtain ⟨flow, hflow, hid, happroves⟩ := h
  obtain ⟨flow', hflow', hid', hrequest'⟩ := hflows flow hflow
  refine ⟨flow', hflow', hid'.trans hid, fun happroved => ?_⟩
  rw [hrequest']
  exact (happroves happroved).grow hclicks

/-- A call that goes on is the call it was. -/
theorem flows_set {flow' : ConsentFlow} (hflow : w.flows[i]? = some flow)
    (hid : flow'.requestId = flow.requestId) (hrequest : flow'.request = flow.request) :
    ∀ f ∈ w.flows, ∃ f' ∈ w.flows.set i flow', f'.requestId = f.requestId ∧
      f'.request = f.request := by
  intro f hf
  rcases Places.mem_set hflow flow' hf with ⟨rfl, hnew⟩ | hold
  · exact ⟨flow', hnew, hid, hrequest⟩
  · exact ⟨f, hold, rfl, rfl⟩

/-- A call that waits is settled. -/
theorem ConsentInv.settle (h : ConsentInv runtimeId closing w) (hflow : w.flows[i]? = some flow)
    (hwaits : flow.waits = true) {approved : Bool}
    (happroved : approved = true → Approves w flow.requestId flow.request) :
    ConsentInv runtimeId closing (w.settle i flow approved) := by
  have hi := (List.getElem?_eq_some_iff.mp hflow).1
  have hholds := h.flows i flow hflow
  have hundecided : flow.decision = none := by
    rw [ConsentFlow.waits, Bool.and_eq_true, Option.isNone_iff_eq_none] at hwaits
    exact hwaits.2
  have hgrow : ∀ f ∈ w.flows, ∃ f' ∈ (w.settle i flow approved).flows,
      f'.requestId = f.requestId ∧ f'.request = f.request := flows_set hflow rfl rfl
  have hfresh : ∀ p ∈ w.settled, p.1 ≠ i := by
    rintro ⟨j, b⟩ hp rfl
    rw [← hholds.settled, hundecided] at hp
    cases hp
  constructor
  · have hids : (w.flows.set i (flow.resolved approved)).map (·.requestId) =
        w.flows.map (·.requestId) := Places.map_set hflow rfl
    exact hids ▸ h.ids
  · exact h.windowIds
  · intro j f hf
    rcases Places.set_cases hf with ⟨rfl, rfl⟩ | ⟨hji, hf⟩
    · constructor
      · simp
      · exact (flow.waits_resolved approved).symm
      · exact (flow.waits_resolved approved).symm
      · intro hdecision
        exact happroved (Option.some.inj hdecision)
      · intro b
        change some approved = some b ↔ (j, b) ∈ w.settled ++ [(j, approved)]
        rw [List.mem_append, List.mem_singleton, Prod.mk.injEq, Option.some.injEq]
        constructor
        · rintro rfl
          exact Or.inr ⟨rfl, rfl⟩
        · rintro (hp | ⟨-, rfl⟩)
          · exact absurd rfl (hfresh _ hp)
          · rfl
      · intro b hphase
        rw [hholds.returned b hphase] at hundecided
        cases hundecided
      · exact hholds.opening
      · intro windowId hphase
        obtain ⟨window, hwindow, hid, hrequest, -⟩ := hholds.known windowId hphase
        exact ⟨window, hwindow, hid, hrequest, by simp⟩
    · obtain ⟨hpending, htimer, hlistening, happroves, hsettled, hreturned, hopening, hknown⟩ :=
        h.flows j f hf
      refine ⟨?_, htimer, hlistening, happroves, ?_, hreturned, hopening, hknown⟩
      · intro hw
        rw [ConsentWorld.settle, OrderedMap.get_delete, if_neg]
        · exact hpending hw
        · intro hid
          exact hji (h.eq_of_requestId hf hflow hid)
      · intro b
        change _ ↔ (j, b) ∈ w.settled ++ [(i, approved)]
        rw [hsettled, List.mem_append, List.mem_singleton, Prod.mk.injEq]
        constructor
        · exact Or.inl
        · rintro (hp | ⟨rfl, -⟩)
          · exact hp
          · exact absurd rfl hji
  · intro requestId p hp
    rw [ConsentWorld.settle, OrderedMap.get_delete] at hp
    split at hp
    · cases hp
    · rename_i hne
      obtain ⟨f, hf, hid, hrequest, hw⟩ := h.pending requestId p hp
      refine ⟨f, ?_, hid, hrequest, hw⟩
      rw [ConsentWorld.settle, List.getElem?_set_ne]
      · exact hf
      · rintro rfl
        rw [hflow, Option.some.injEq] at hf
        subst hf
        exact hne hid.symm
  · intro window hwindow
    exact (h.windows window hwindow).grow hgrow
  · intro result hresult hpage
    exact AnswersClick.grow hgrow (fun _ hc => hc) (h.results result hresult hpage)
  · intro p hp
    rw [ConsentWorld.settle, List.length_set]
    obtain hold | hnew := List.mem_append.mp hp
    · exact h.places p hold
    · rw [List.mem_singleton.mp hnew]
      exact hi
  · change ((w.settled ++ [(i, approved)]).map _).Nodup
    rw [List.map_append, List.nodup_append]
    refine ⟨h.once, List.nodup_singleton _, ?_⟩
    intro j hj k hk
    obtain ⟨p, hp, rfl⟩ := List.mem_map.mp hj
    rw [List.map_singleton, List.mem_singleton] at hk
    rw [hk]
    exact hfresh p hp

/-- A call that waits is not settled by a message for another, or for none. -/
theorem ConsentInv.settlePending (h : ConsentInv runtimeId closing w) {requestId : String}
    {approved : Bool} (hanswers : approved = true → ∃ flow ∈ w.flows,
      flow.requestId = requestId ∧ Approves w requestId flow.request) :
    ConsentInv runtimeId closing (w.settlePending requestId approved) := by
  unfold ConsentWorld.settlePending
  cases hpending : w.pendingConsents.get requestId with
  | none => exact h
  | some p =>
    obtain ⟨flow, hflow, hid, -, hwaits⟩ := h.pending requestId p hpending
    simp only [hflow]
    refine h.settle hflow hwaits fun happroved => ?_
    obtain ⟨answered, hanswered, hid', happroves⟩ := hanswers happroved
    obtain ⟨j, hj⟩ := List.mem_iff_getElem?.mp hanswered
    have hji : p.flow = j := h.eq_of_requestId hflow hj (hid.trans hid'.symm)
    rw [hji, hj, Option.some.injEq] at hflow
    rw [hid, ← hflow]
    exact happroves

/-- A call goes on. -/
theorem ConsentInv.goOn (h : ConsentInv runtimeId closing w) (hflow : w.flows[i]? = some flow)
    {phase : ConsentPhase}
    (hreturned : ∀ approved, phase = .returned approved → flow.decision = some approved)
    (hopening : phase ≠ .opening)
    (hknown : ∀ windowId, phase = .deciding (some windowId) → ∃ window ∈ w.windows,
      window.windowId = windowId ∧ window.requestId = flow.requestId ∧
        (window.isOpen = true ∨ window.closedEarly = true)) :
    ConsentInv runtimeId closing (w.goOn i flow phase) := by
  have hgrow : ∀ f ∈ w.flows, ∃ f' ∈ (w.goOn i flow phase).flows,
      f'.requestId = f.requestId ∧ f'.request = f.request := flows_set hflow rfl rfl
  constructor
  · have hids : (w.flows.set i { flow with phase := phase }).map (·.requestId) =
        w.flows.map (·.requestId) := Places.map_set hflow rfl
    exact hids ▸ h.ids
  · exact h.windowIds
  · intro j f hf
    rcases Places.set_cases hf with ⟨rfl, rfl⟩ | ⟨-, hf⟩
    · obtain ⟨hpending, htimer, hlistening, happroves, hsettled, -, -, -⟩ := h.flows j flow hflow
      refine ⟨hpending, htimer, hlistening, happroves, hsettled, hreturned, ?_, ?_⟩
      · intro habsurd
        exact absurd habsurd hopening
      · intro windowId hphase
        obtain ⟨window, hwindow, hwindowId, hid, hopen⟩ := hknown windowId hphase
        exact ⟨window, hwindow, hwindowId, hid, fun _ _ => hopen⟩
    · obtain ⟨hpending, htimer, hlistening, happroves, hsettled, hreturned', hopening', hknown'⟩ :=
        h.flows j f hf
      exact ⟨hpending, htimer, hlistening, happroves, hsettled, hreturned', hopening', hknown'⟩
  · intro requestId p hp
    obtain ⟨f, hf, hid, hrequest, hwaits⟩ := h.pending requestId p hp
    by_cases hji : p.flow = i
    · rw [hji, hflow, Option.some.injEq] at hf
      subst hf
      rw [hji]
      exact ⟨{ flow with phase := phase }, Places.set_self hflow _, hid, hrequest, hwaits⟩
    · refine ⟨f, ?_, hid, hrequest, hwaits⟩
      rw [ConsentWorld.goOn, List.getElem?_set_ne (Ne.symm hji)]
      exact hf
  · intro window hwindow
    exact (h.windows window hwindow).grow hgrow
  · intro result hresult hpage
    exact AnswersClick.grow hgrow (fun _ hc => hc) (h.results result hresult hpage)
  · intro p hp
    rw [ConsentWorld.goOn, List.length_set]
    exact h.places p hp
  · exact h.once

/-- Windows open and close, and their pages show other things. -/
theorem ConsentInv.setWindows (h : ConsentInv runtimeId closing w) {windows : List ConsentWindow}
    {closing' : Option Nat} (hwindowIds : (windows.map (·.windowId)).Nodup)
    (hopened : ∀ window ∈ windows, OpenedFor w window)
    (hopening : ∀ flow ∈ w.flows, flow.phase = .opening → ∀ window ∈ windows,
      window.requestId = flow.requestId → window.isOpen = true ∨ window.closedEarly = true)
    (hknown : ∀ window ∈ w.windows, ∃ window' ∈ windows, window'.windowId = window.windowId ∧
      window'.requestId = window.requestId ∧
        (window.windowId ∉ closing' → window.windowId ∉ closing ∧
          (window.isOpen = true ∨ window.closedEarly = true →
            window'.isOpen = true ∨ window'.closedEarly = true))) :
    ConsentInv runtimeId closing' { w with windows := windows } := by
  refine ⟨h.ids, hwindowIds, ?_, h.pending, hopened, h.results, h.places, h.once⟩
  intro j f hf
  obtain ⟨hpending, htimer, hlistening, happroves, hsettled, hreturned, -, hknown'⟩ :=
    h.flows j f hf
  refine ⟨hpending, htimer, hlistening, happroves, hsettled, hreturned,
    hopening f (List.mem_of_getElem? hf), ?_⟩
  intro windowId hphase
  obtain ⟨window, hwindow, rfl, hid, hopen⟩ := hknown' windowId hphase
  obtain ⟨window', hwindow', hwindowId', hid', hopen'⟩ := hknown window hwindow
  refine ⟨window', hwindow', hwindowId', hid'.trans hid, ?_⟩
  intro hwaits hclosing
  obtain ⟨hclosing', hstays⟩ := hopen' hclosing
  exact hstays (hopen hwaits hclosing')

/-- A page shows something else that its call asks for. -/
theorem ConsentInv.show_ (h : ConsentInv runtimeId closing w) {k : Nat} {window : ConsentWindow}
    {page : ConsentPage} (hwindow : w.windows[k]? = some window)
    (hopened : OpenedFor w { window with page := page }) :
    ConsentInv runtimeId closing (w.show_ k window page) := by
  have hmem := List.mem_of_getElem? hwindow
  refine h.setWindows ?_ ?_ ?_ ?_
  · have hids : (w.windows.set k { window with page := page }).map (·.windowId) =
        w.windows.map (·.windowId) := Places.map_set hwindow rfl
    exact hids ▸ h.windowIds
  · intro other hother
    obtain hother | rfl := List.mem_or_eq_of_mem_set hother
    · exact h.windows other hother
    · exact hopened
  · intro f hf hphase other hother hid
    obtain ⟨j, hj⟩ := List.mem_iff_getElem?.mp hf
    obtain hother | rfl := List.mem_or_eq_of_mem_set hother
    · exact (h.flows j f hj).opening hphase other hother hid
    · exact (h.flows j f hj).opening hphase window hmem hid
  · intro other hother
    obtain ⟨rfl, hnew⟩ | hold := Places.mem_set hwindow { window with page := page } hother
    · exact ⟨_, hnew, rfl, rfl, fun hclosing => ⟨hclosing, id⟩⟩
    · exact ⟨other, hold, rfl, rfl, fun hclosing => ⟨hclosing, id⟩⟩

/-! ## Windows that close -/

/-- A call does not wait with this window known. -/
def LeftWindow (closedId : Nat) (w : ConsentWorld) (i : Nat) : Prop :=
  ∀ flow, w.flows[i]? = some flow → flow.waits = true → flow.phase ≠ .deciding (some closedId)

/-- A listener settles its call when the window is its own. -/
theorem ConsentInv.onRemoved (h : ConsentInv runtimeId closing w) (closedId i : Nat) :
    ConsentInv runtimeId closing (w.onRemoved closedId i) := by
  unfold ConsentWorld.onRemoved
  cases hflow : w.flows[i]? with
  | none => exact h
  | some flow =>
    simp only
    split
    · rename_i hcond
      rw [Bool.and_eq_true, (h.flows i flow hflow).listening] at hcond
      exact h.settle hflow hcond.1 fun habsurd => Bool.noConfusion habsurd
    · exact h

theorem ConsentInv.left_onRemoved (h : ConsentInv runtimeId closing w) (closedId i : Nat) :
    LeftWindow closedId (w.onRemoved closedId i) i := by
  intro flow' hflow' hwaits hphase
  unfold ConsentWorld.onRemoved at hflow'
  cases hflow : w.flows[i]? with
  | none =>
    rw [hflow] at hflow'
    rw [hflow] at hflow'
    cases hflow'
  | some flow =>
    rw [hflow] at hflow'
    simp only at hflow'
    split at hflow'
    · rw [ConsentWorld.settle, Places.set_self hflow, Option.some.injEq] at hflow'
      subst hflow'
      simp at hwaits
    · rename_i hcond
      rw [hflow, Option.some.injEq] at hflow'
      subst hflow'
      apply hcond
      rw [(h.flows i flow hflow).listening, hwaits, hphase]
      simp

/-- The other calls stay as they are. -/
theorem LeftWindow.onRemoved {closedId j : Nat} (h : LeftWindow closedId w j) (i : Nat) :
    LeftWindow closedId (w.onRemoved closedId i) j := by
  unfold ConsentWorld.onRemoved
  cases hflow : w.flows[i]? with
  | none => exact h
  | some flow =>
    simp only
    split
    · intro flow' hflow' hwaits
      rcases Places.set_cases hflow' with ⟨-, rfl⟩ | ⟨-, hold⟩
      · simp at hwaits
      · exact h flow' hold hwaits
    · exact h

/-- Listeners are called one after another. -/
theorem ConsentInv.foldl_onRemoved (h : ConsentInv runtimeId closing w) (closedId : Nat)
    (calls : List Nat) :
    let after := calls.foldl (fun w i => w.onRemoved closedId i) w
    ConsentInv runtimeId closing after ∧
      ∀ j, j ∈ calls ∨ LeftWindow closedId w j → LeftWindow closedId after j := by
  induction calls generalizing w with
  | nil => exact ⟨h, fun _ hj => hj.resolve_left List.not_mem_nil⟩
  | cons i calls ih =>
    obtain ⟨hinv, hleft⟩ := ih (h.onRemoved closedId i)
    refine ⟨hinv, fun j hj => hleft j ?_⟩
    obtain hmem | hold := hj
    · obtain rfl | hrest := List.mem_cons.mp hmem
      · exact Or.inr (h.left_onRemoved closedId j)
      · exact Or.inl hrest
    · exact Or.inr (hold.onRemoved i)

theorem length_onRemoved (w : ConsentWorld) (closedId i : Nat) :
    (w.onRemoved closedId i).flows.length = w.flows.length := by
  unfold ConsentWorld.onRemoved
  cases w.flows[i]? with
  | none => rfl
  | some flow =>
    simp only
    split
    · exact List.length_set
    · rfl

theorem length_foldl_onRemoved (w : ConsentWorld) (closedId : Nat) (calls : List Nat) :
    (calls.foldl (fun w i => w.onRemoved closedId i) w).flows.length = w.flows.length := by
  induction calls generalizing w with
  | nil => rfl
  | cons i calls ih => exact (ih _).trans (length_onRemoved w closedId i)

/-- After the listeners of a closed window nothing waits for it. -/
theorem ConsentInv.removed {closedId : Nat} (h : ConsentInv runtimeId (some closedId) w) :
    ConsentInv runtimeId none (w.removed closedId) := by
  obtain ⟨hinv, hleft⟩ := h.foldl_onRemoved closedId (List.range w.flows.length)
  refine ⟨hinv.ids, hinv.windowIds, ?_, hinv.pending, hinv.windows, hinv.results, hinv.places,
    hinv.once⟩
  intro j f hf
  obtain ⟨hpending, htimer, hlistening, happroves, hsettled, hreturned, hopening, hknown⟩ :=
    hinv.flows j f hf
  refine ⟨hpending, htimer, hlistening, happroves, hsettled, hreturned, hopening, ?_⟩
  intro windowId hphase
  obtain ⟨window, hwindow, hwindowId, hid, hopen⟩ := hknown windowId hphase
  refine ⟨window, hwindow, hwindowId, hid, fun hwaits _ => hopen hwaits ?_⟩
  rw [Option.mem_some_iff]
  rintro rfl
  have hj : j < w.flows.length := by
    rw [← length_foldl_onRemoved w closedId (List.range w.flows.length)]
    exact (List.getElem?_eq_some_iff.mp hf).1
  exact hleft j (Or.inl (List.mem_range.mpr hj)) f hf hwaits hphase

/-- A window closes. -/
theorem ConsentInv.closeWindow (h : ConsentInv runtimeId none w) {k : Nat}
    {window : ConsentWindow} (hwindow : w.windows[k]? = some window) :
    ConsentInv runtimeId none (w.closeWindow k window) := by
  have hmem := List.mem_of_getElem? hwindow
  unfold ConsentWorld.closeWindow
  apply ConsentInv.removed
  refine h.setWindows ?_ ?_ ?_ ?_
  · have hids : (w.windows.set k (w.shut window)).map (·.windowId) =
        w.windows.map (·.windowId) := Places.map_set hwindow rfl
    exact hids ▸ h.windowIds
  · intro other hother
    obtain hother | rfl := List.mem_or_eq_of_mem_set hother
    · exact h.windows other hother
    · exact h.windows window hmem
  · intro f hf hphase other hother hid
    obtain ⟨j, hj⟩ := List.mem_iff_getElem?.mp hf
    obtain hother | rfl := List.mem_or_eq_of_mem_set hother
    · exact (h.flows j f hj).opening hphase other hother hid
    · right
      rw [ConsentWorld.shut, List.any_eq_true]
      refine ⟨f, hf, ?_⟩
      rw [Bool.and_eq_true, decide_eq_true_iff, decide_eq_true_iff]
      exact ⟨hid.symm, hphase⟩
  · intro other hother
    obtain ⟨rfl, hnew⟩ | hold := Places.mem_set hwindow (w.shut window) hother
    · exact ⟨_, hnew, rfl, rfl, fun habsurd => absurd rfl habsurd⟩
    · exact ⟨other, hold, rfl, rfl, fun _ => ⟨Option.not_mem_none _, id⟩⟩

theorem ConsentInv.closeById (h : ConsentInv runtimeId none w) (windowId : Nat) :
    ConsentInv runtimeId none (w.closeById windowId) := by
  unfold ConsentWorld.closeById
  split
  · exact h
  · split
    · exact h
    · rename_i hwindow
      exact h.closeWindow hwindow

/-! ## Each event -/

/-- A new call has an id of its own. -/
theorem ConsentInv.requestConsent (h : ConsentInv runtimeId closing w) (request : ConsentRequest)
    {requestId : String} (hfresh : ∀ flow ∈ w.flows, flow.requestId ≠ requestId) :
    ConsentInv runtimeId closing (w.requestConsent request requestId) := by
  have hgrow : ∀ f ∈ w.flows, ∃ f' ∈ (w.requestConsent request requestId).flows,
      f'.requestId = f.requestId ∧ f'.request = f.request := fun f hf =>
    ⟨f, List.mem_append_left _ hf, rfl, rfl⟩
  constructor
  · rw [ConsentWorld.requestConsent, List.map_append, List.map_singleton, List.nodup_append]
    refine ⟨h.ids, List.nodup_singleton _, ?_⟩
    intro id hid id' hid'
    obtain ⟨f, hf, rfl⟩ := List.mem_map.mp hid
    rw [List.mem_singleton.mp hid']
    exact hfresh f hf
  · exact h.windowIds
  · intro j f hf
    rcases Places.concat_cases hf with hf | ⟨rfl, rfl⟩
    · obtain ⟨hpending, htimer, hlistening, happroves, hsettled, hreturned, hopening, hknown⟩ :=
        h.flows j f hf
      refine ⟨?_, htimer, hlistening, happroves, hsettled, hreturned, hopening, hknown⟩
      intro hwaits
      rw [ConsentWorld.requestConsent, OrderedMap.get_set,
        if_neg (hfresh f (List.mem_of_getElem? hf))]
      exact hpending hwaits
    · constructor
      · intro _
        exact (OrderedMap.get_set w.pendingConsents requestId requestId _).trans (if_pos rfl)
      · rfl
      · rfl
      · intro habsurd
        cases habsurd
      · intro approved
        constructor
        · intro habsurd
          cases habsurd
        · intro hp
          exact absurd (h.places _ hp) (Nat.lt_irrefl _)
      · intro approved habsurd
        cases habsurd
      · intro _ window hwindow hid
        obtain ⟨f, hf, hid', -⟩ := h.windows window hwindow
        exact absurd (hid'.trans hid) (hfresh f hf)
      · intro windowId habsurd
        cases habsurd
  · intro id p hp
    rw [ConsentWorld.requestConsent, OrderedMap.get_set] at hp
    split at hp
    · rename_i hid
      cases hp
      refine ⟨_, List.getElem?_concat_length, hid.symm, rfl, rfl⟩
    · obtain ⟨f, hf, hrest⟩ := h.pending id p hp
      exact ⟨f, Places.concat_of_getElem? hf _, hrest⟩
  · intro window hwindow
    exact (h.windows window hwindow).grow hgrow
  · intro result hresult hpage
    exact AnswersClick.grow hgrow (fun _ hc => hc) (h.results result hresult hpage)
  · intro p hp
    rw [ConsentWorld.requestConsent, List.length_append]
    exact Nat.lt_add_right _ (h.places p hp)
  · exact h.once

/-- The window of a call opens. -/
theorem ConsentInv.windowOpens (h : ConsentInv runtimeId closing w)
    (hflow : w.flows[i]? = some flow) {windowId : Nat}
    (hfresh : ∀ window ∈ w.windows, window.windowId ≠ windowId) :
    ConsentInv runtimeId closing (w.openWindow windowId flow) := by
  refine h.setWindows ?_ ?_ ?_ ?_
  · rw [List.map_append, List.map_singleton, List.nodup_append]
    refine ⟨h.windowIds, List.nodup_singleton _, ?_⟩
    intro id hid id' hid'
    obtain ⟨window, hwindow, rfl⟩ := List.mem_map.mp hid
    rw [List.mem_singleton.mp hid']
    exact hfresh window hwindow
  · intro window hwindow
    obtain hold | hnew := List.mem_append.mp hwindow
    · exact h.windows window hold
    · rw [List.mem_singleton.mp hnew]
      refine ⟨flow, List.mem_of_getElem? hflow, rfl, ?_⟩
      rintro request (habsurd | habsurd)
      · cases habsurd
      · cases habsurd
  · intro f hf hphase window hwindow hid
    obtain ⟨j, hj⟩ := List.mem_iff_getElem?.mp hf
    obtain hold | hnew := List.mem_append.mp hwindow
    · exact (h.flows j f hj).opening hphase window hold hid
    · rw [List.mem_singleton.mp hnew]
      exact Or.inl rfl
  · intro window hwindow
    exact ⟨window, List.mem_append_left _ hwindow, rfl, rfl, fun hclosing => ⟨hclosing, id⟩⟩

/-- An answer is sent. -/
theorem ConsentInv.send (h : ConsentInv runtimeId closing w) {result : ConsentResult}
    {clicks : List ConsentClick} (hresult : isConsentPage runtimeId result.sender = true →
      AnswersClick (w.send result clicks) result) :
    ConsentInv runtimeId closing (w.send result clicks) := by
  have hclicks : ∀ click ∈ w.clicks, click ∈ (w.send result clicks).clicks := fun click hclick =>
    List.mem_append_left _ hclick
  have hgrow : ∀ f ∈ w.flows, ∃ f' ∈ (w.send result clicks).flows,
      f'.requestId = f.requestId ∧ f'.request = f.request := fun f hf => ⟨f, hf, rfl, rfl⟩
  refine ⟨h.ids, h.windowIds, ?_, h.pending, h.windows, ?_, h.places, h.once⟩
  · intro j f hf
    obtain ⟨hpending, htimer, hlistening, happroves, hsettled, hreturned, hopening, hknown⟩ :=
      h.flows j f hf
    refine ⟨hpending, htimer, hlistening, ?_, hsettled, hreturned, hopening, hknown⟩
    intro hdecision
    exact (happroves hdecision).grow hclicks
  · intro r hr hpage
    obtain hold | hnew := List.mem_append.mp hr
    · exact (h.results r hold hpage).grow hgrow hclicks
    · rw [List.mem_singleton.mp hnew] at hpage ⊢
      exact hresult hpage

/-- The worker receives an answer. -/
theorem ConsentInv.receive (h : ConsentInv runtimeId closing w) {k : Nat}
    {result : ConsentResult} (hresult : w.results[k]? = some result) :
    ConsentInv runtimeId closing
      ({ w with results := w.results.eraseIdx k }.receive runtimeId urlOrigin result) := by
  have hrest : ConsentInv runtimeId closing { w with results := w.results.eraseIdx k } := by
    refine ⟨h.ids, h.windowIds, ?_, h.pending, h.windows, ?_, h.places, h.once⟩
    · intro j f hf
      obtain ⟨hpending, htimer, hlistening, happroves, hsettled, hreturned, hopening, hknown⟩ :=
        h.flows j f hf
      exact ⟨hpending, htimer, hlistening, happroves, hsettled, hreturned, hopening, hknown⟩
    · intro r hr hpage
      exact h.results r (List.mem_of_mem_eraseIdx hr) hpage
  unfold ConsentWorld.receive
  split
  · exact hrest
  · rename_i hheard
    have hpage : isConsentPage runtimeId result.sender = true := by
      by_contra hpage
      apply hheard
      simp [refusalReply, hpage]
    refine hrest.settlePending fun happroved => ?_
    obtain ⟨f, hf, hid, happroves⟩ := h.results result (List.mem_of_getElem? hresult) hpage
    exact ⟨f, hf, hid, happroves happroved⟩

/-- The worker dies, and its calls with it. -/
theorem ConsentInv.workerDies (h : ConsentInv runtimeId closing w) :
    ConsentInv runtimeId closing w.workerDies := by
  have hgrow : ∀ f ∈ w.flows, ∃ f' ∈ w.workerDies.flows,
      f'.requestId = f.requestId ∧ f'.request = f.request := fun f hf =>
    ⟨_, List.mem_map_of_mem hf, rfl, rfl⟩
  constructor
  · rw [ConsentWorld.workerDies, List.map_map]
    exact h.ids
  · exact h.windowIds
  · intro j f' hf'
    rw [ConsentWorld.workerDies, List.getElem?_map] at hf'
    obtain ⟨f, hf, rfl⟩ := Option.map_eq_some_iff.mp hf'
    obtain ⟨-, -, -, happroves, hsettled, hreturned, hopening, hknown⟩ := h.flows j f hf
    refine ⟨?_, rfl, rfl, happroves, hsettled, hreturned, hopening, ?_⟩
    · intro habsurd
      cases habsurd
    · intro windowId hphase
      obtain ⟨window, hwindow, hwindowId, hid, -⟩ := hknown windowId hphase
      refine ⟨window, hwindow, hwindowId, hid, fun habsurd => ?_⟩
      cases habsurd
  · intro requestId p habsurd
    cases habsurd
  · intro window hwindow
    exact (h.windows window hwindow).grow hgrow
  · intro result hresult hpage
    exact AnswersClick.grow hgrow (fun _ hc => hc) (h.results result hresult hpage)
  · intro p hp
    rw [ConsentWorld.workerDies, List.length_map]
    exact h.places p hp
  · exact h.once

/-- What a window is answered is its call's request. -/
theorem ConsentInv.openedFor_details (h : ConsentInv runtimeId closing w) {k : Nat}
    {window : ConsentWindow} (hwindow : w.windows[k]? = some window) :
    OpenedFor w { window with page := .asked (w.details runtimeId urlOrigin window) } := by
  cases hdetails : w.details runtimeId urlOrigin window with
  | none =>
    obtain ⟨f, hf, hid, -⟩ := h.windows window (List.mem_of_getElem? hwindow)
    refine ⟨f, hf, hid, ?_⟩
    rintro request (habsurd | habsurd)
    · cases habsurd
    · cases habsurd
  | some request =>
    rw [ConsentWorld.details] at hdetails
    split at hdetails
    · cases hdetails
    · obtain ⟨p, hp, rfl⟩ := Option.map_eq_some_iff.mp hdetails
      obtain ⟨f, hf, hid, hrequest, -⟩ := h.pending window.requestId p hp
      refine ⟨f, List.mem_of_getElem? hf, hid, ?_⟩
      rintro request (hasked | habsurd)
      · cases hasked
        exact hrequest
      · cases habsurd

theorem ConsentInv.openedFor_expired (h : ConsentInv runtimeId closing w) {k : Nat}
    {window : ConsentWindow} (hwindow : w.windows[k]? = some window) :
    OpenedFor w { window with page := .expired } := by
  obtain ⟨f, hf, hid, -⟩ := h.windows window (List.mem_of_getElem? hwindow)
  refine ⟨f, hf, hid, ?_⟩
  rintro request (habsurd | habsurd)
  · cases habsurd
  · cases habsurd

theorem isContentScript_of_outside {sender : MessageSender}
    (h : outsideExtension runtimeId sender = true) : IsContentScript runtimeId sender := by
  rw [outsideExtension, Bool.and_eq_true, Bool.not_eq_true', Option.isSome_iff_ne_none] at h
  exact ⟨h.1, h.2⟩

/-- Every event keeps the invariant. -/
theorem ConsentInv.step (h : ConsentInv runtimeId none w) {e : ConsentEvent}
    (hstep : w.step runtimeId urlOrigin e = some w') : ConsentInv runtimeId none w' := by
  cases e with
  | request request requestId =>
    simp only [ConsentWorld.step] at hstep
    split at hstep
    · rename_i hfresh
      cases hstep
      rw [List.all_eq_true] at hfresh
      exact h.requestConsent request fun f hf => of_decide_eq_true (hfresh f hf)
    · cases hstep
  | windowOpens i windowId =>
    obtain ⟨flow, hflow, hstep⟩ := Option.bind_eq_some_iff.mp hstep
    split at hstep
    · rename_i hcond
      cases hstep
      rw [Bool.and_eq_true, List.all_eq_true] at hcond
      refine h.windowOpens hflow fun window hwindow => ?_
      have hfresh := hcond.2 window hwindow
      rw [Bool.and_eq_true] at hfresh
      exact of_decide_eq_true hfresh.1
    · cases hstep
  | created i known =>
    obtain ⟨flow, hflow, hstep⟩ := Option.bind_eq_some_iff.mp hstep
    split at hstep
    · rename_i hcond
      rw [Bool.and_eq_true] at hcond
      obtain ⟨window, hwindow, rfl⟩ := Option.map_eq_some_iff.mp hstep
      have hmem := List.mem_of_find?_eq_some hwindow
      have hid : window.requestId = flow.requestId := by
        simpa using List.find?_some hwindow
      refine h.goOn hflow (fun _ habsurd => by cases habsurd) (fun habsurd => by cases habsurd) ?_
      intro windowId hphase
      cases known with
      | false => cases hphase
      | true =>
        cases hphase
        exact ⟨window, hmem, rfl, hid,
          (h.flows i flow hflow).opening (of_decide_eq_true hcond.2) window hmem hid⟩
    · cases hstep
  | createFails i =>
    obtain ⟨flow, hflow, hstep⟩ := Option.bind_eq_some_iff.mp hstep
    split at hstep
    · cases hstep
      have hgone : ConsentInv runtimeId none (w.goOn i flow (.deciding none)) :=
        h.goOn hflow (fun _ habsurd => by cases habsurd) (fun habsurd => by cases habsurd)
          (fun _ habsurd => by cases habsurd)
      exact hgone.settlePending fun habsurd => by cases habsurd
    · cases hstep
  | asks k =>
    obtain ⟨window, hwindow, hstep⟩ := Option.bind_eq_some_iff.mp hstep
    split at hstep
    · cases hstep
      exact h.show_ hwindow (h.openedFor_details hwindow)
    · cases hstep
  | shows k =>
    obtain ⟨window, hwindow, hstep⟩ := Option.bind_eq_some_iff.mp hstep
    obtain ⟨f, hf, hid, hshows⟩ := h.windows window (List.mem_of_getElem? hwindow)
    split at hstep
    · rename_i request hpage
      cases hstep
      refine h.show_ hwindow ⟨f, hf, hid, ?_⟩
      rintro other (habsurd | hother)
      · cases habsurd
      · cases hother
        exact hshows request (Or.inl hpage)
    · cases hstep
      exact h.show_ hwindow (h.openedFor_expired hwindow)
    · cases hstep
  | asksInVain k =>
    obtain ⟨window, hwindow, hstep⟩ := Option.bind_eq_some_iff.mp hstep
    split at hstep
    · cases hstep
      exact h.show_ hwindow (h.openedFor_expired hwindow)
    · cases hstep
      exact h.show_ hwindow (h.openedFor_expired hwindow)
    · cases hstep
  | click k approved =>
    obtain ⟨window, hwindow, hstep⟩ := Option.bind_eq_some_iff.mp hstep
    split at hstep
    · rename_i request hpage
      split at hstep
      · cases hstep
        refine h.send fun _ => ?_
        obtain ⟨f, hf, hid, hshows⟩ := h.windows window (List.mem_of_getElem? hwindow)
        refine ⟨f, hf, hid, fun happroved => ?_⟩
        exact ⟨_, List.mem_append_right _ (List.mem_singleton.mpr rfl), rfl,
          (hshows request (Or.inr hpage)).symm, happroved⟩
      · cases hstep
    · cases hstep
  | close k =>
    obtain ⟨window, hwindow, hstep⟩ := Option.bind_eq_some_iff.mp hstep
    split at hstep
    · cases hstep
      exact h.closeWindow hwindow
    · cases hstep
  | documentSends result =>
    simp only [ConsentWorld.step] at hstep
    split at hstep
    · rename_i houtside
      cases hstep
      refine h.send fun hpage => ?_
      rw [(not_page_of_isContentScript (isContentScript_of_outside houtside)).2.2] at hpage
      cases hpage
    · cases hstep
  | receive k =>
    obtain ⟨result, hresult, rfl⟩ := Option.map_eq_some_iff.mp hstep
    exact h.receive hresult
  | timeout i =>
    obtain ⟨flow, hflow, hstep⟩ := Option.bind_eq_some_iff.mp hstep
    split at hstep
    · rename_i htimer
      cases hstep
      rw [(h.flows i flow hflow).timer] at htimer
      exact h.settle hflow htimer fun habsurd => by cases habsurd
    · cases hstep
  | resume i =>
    obtain ⟨flow, hflow, hstep⟩ := Option.bind_eq_some_iff.mp hstep
    split at hstep
    · rename_i windowId approved halive hphase hdecision
      cases hstep
      have hgone : ConsentInv runtimeId none (w.goOn i flow (.returned approved)) := by
        refine h.goOn hflow ?_ (fun habsurd => by cases habsurd) (fun _ habsurd => by cases habsurd)
        rintro _ ⟨⟩
        exact hdecision
      split
      · exact hgone.closeById _
      · exact hgone
    · cases hstep
  | workerDies =>
    cases hstep
    exact h.workerDies

theorem consentInv_started (runtimeId : String) : ConsentInv runtimeId none .started where
  ids := List.nodup_nil
  windowIds := List.nodup_nil
  flows _ _ h := by cases h
  pending _ _ h := by cases h
  windows _ h := by cases h
  results _ h := by cases h
  places _ h := by cases h
  once := List.nodup_nil

/-- The invariant gives what is promised. -/
theorem ConsentInv.holds (h : ConsentInv runtimeId none w) : ConsentsHold w where
  approved flow hflow hphase := by
    obtain ⟨i, hi⟩ := List.mem_iff_getElem?.mp hflow
    exact (h.flows i flow hi).approved ((h.flows i flow hi).returned true hphase)
  once := h.once
  settled i flow hflow := (h.flows i flow hflow).settled
  pending requestId p := by
    constructor
    · exact h.pending requestId p
    · rintro ⟨flow, hflow, rfl, hrequest, hwaits⟩
      rw [(h.flows p.flow flow hflow).pending hwaits, hrequest]
  timer flow hflow := by
    obtain ⟨i, hi⟩ := List.mem_iff_getElem?.mp hflow
    exact (h.flows i flow hi).timer
  closed flow hflow hwaits windowId hphase := by
    obtain ⟨i, hi⟩ := List.mem_iff_getElem?.mp hflow
    obtain ⟨window, hwindow, hwindowId, hid, hopen⟩ := (h.flows i flow hi).known windowId hphase
    exact ⟨window, hwindow, hwindowId, hid, hopen hwaits (Option.not_mem_none _)⟩

/-- In every state of a run: only a click in the window that shows the very request approves
it, and a request is settled once. -/
theorem consentsHold_of_run {events : List ConsentEvent}
    (h : runEvents (fun w e => ConsentWorld.step runtimeId urlOrigin w e) events .started =
      some w) : ConsentsHold w :=
  (invariant_of_run (fun _ _ _ hs he => ConsentInv.step hs he)
    (consentInv_started runtimeId) h).holds

end Steps

/-- A page asks for a passkey, the user clicks "Continue", and the page's own answer comes after
it. -/
private def bankConsent : Option ConsentWorld :=
  runEvents (fun w e => ConsentWorld.step "nopwd" some w e)
    [.request ⟨.get, "bank.example", "https://bank.example"⟩ "a", .windowOpens 0 7,
      .created 0 true, .asks 0, .shows 0, .click 0 true,
      .documentSends
        { sender := { id := some "nopwd", tab := some (some 1), frameId := some 0
                      documentId := none, url := some "https://bank.example", origin := none }
          requestId := "a", approved := false },
      .receive 1, .receive 0, .resume 0]
    .started

/-- What the user has approved is approved. -/
theorem consentsHold_of_run_bank : ∃ w, bankConsent = some w ∧
    w.settled = [(0, true)] ∧ ConsentsHold w := by
  have hrun : bankConsent.map (·.settled) = some [(0, true)] := by
    decide
  obtain ⟨w, hw, hsettled⟩ := Option.map_eq_some_iff.mp hrun
  exact ⟨w, hw, hsettled, consentsHold_of_run hw⟩

end Nopass
