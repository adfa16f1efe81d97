import Nopass.Extension.Consent

/-!
# The passkey relay of a page

A script in the page's own world wraps `navigator.credentials`; it asks a content script in the
isolated world by a message to the window, and that one asks the worker. The page's scripts read
and post the same messages. The content script has one request with the worker at a time and
answers every request once. Messages arrive in any order, and the worker answers what it likes.
-/

namespace Nopass

-- A JSON value, and a string as one.
variable {J : Type} (str : String → J)

/-- A message to the window. -/
inductive FrameMessage (J : Type) where
  | request (kind reqId : String) (payload : Option (OrderedMap String J))
  | response (reqId : String) (ok : Bool) (data : Option J)

/-- The id that a message names. -/
def FrameMessage.reqId : FrameMessage J → String
  | .request _ reqId _ => reqId
  | .response reqId _ _ => reqId

/-- How a call of `navigator.credentials` ends. -/
inductive CredentialOutcome (J : Type) where
  /-- The browser's own implementation takes over. -/
  | native
  | credential (data : J)
  /-- AbortError. -/
  | aborted
  deriving DecidableEq

/-- A call of `navigator.credentials`, in `relay`. -/
structure CredentialCall (J : Type) where
  kind : CeremonyKind
  reqId : String
  payload : OrderedMap String J
  /-- What its promise was settled with. -/
  outcome : Option (CredentialOutcome J)

/-- Where the relay waits with a request. -/
inductive RelayPhase where
  /-- For whether the vault can serve it. -/
  | checking
  /-- For the passkey. -/
  | performing
  | done
  deriving DecidableEq, Repr

/-- A request in the relay. -/
structure RelayHandler (J : Type) where
  kind : String
  reqId : String
  payload : Option (OrderedMap String J)
  phase : RelayPhase

/-- It is with the worker. -/
def RelayHandler.running (handler : RelayHandler J) : Bool := decide (handler.phase ≠ .done)

/-- The top frame of a page. -/
structure RelayFrame (J : Type) where
  calls : List (CredentialCall J)
  nextReqId : Nat
  /-- Messages that were posted and not yet dispatched. -/
  messages : List (FrameMessage J)
  requestInFlight : Bool
  handlers : List (RelayHandler J)
  /-- History: what the page's own scripts have posted. -/
  forged : List (FrameMessage J)
  /-- History: what the relay has sent to the worker for which request. -/
  sent : List (Nat × OrderedMap String J)
  /-- History: the requests that the worker could serve. -/
  usable : List Nat
  /-- History: the data that the worker has answered. -/
  answers : List (Nat × J)
  /-- History: what the relay has answered. -/
  responses : List (Nat × Option J)

/-- What happens in a run. -/
inductive RelayEvent (J : Type) where
  /-- `navigator.credentials` is called, at a time. -/
  | call (kind : CeremonyKind) (payload : OrderedMap String J) (now : Nat)
  /-- Another script of the page posts a message. -/
  | pagePosts (message : FrameMessage J)
  /-- A message is dispatched. -/
  | deliver (message : Nat)
  /-- The worker's answer to the first message of a request; none when sending failed. -/
  | checked (handler : Nat) (usable : Option Bool)
  /-- The worker's answer to the second one, with its data unless it is an error. -/
  | performed (handler : Nat) (result : Option (Option J))
  | timeout (call : Nat)
  | abort (call : Nat)

/-- `reqId` of a call. -/
def relayReqId (now n : Nat) : String := "nopwd-" ++ toString now ++ "-" ++ toString n

/-- A property of a message, unless it is undefined. -/
def withProperty (key : String) (value : Option J) (message : OrderedMap String J) :
    OrderedMap String J :=
  match value with
  | none => message
  | some value => message.set key value

/-- The first message to the worker. -/
def checkMessage (kind : String) (payload : OrderedMap String J) : OrderedMap String J :=
  if kind = "get" then
    withProperty "allowCredentialIdsB64u" (payload.get "allowCredentialIdsB64u")
      (withProperty "rpId" (payload.get "rpId")
        (OrderedMap.empty.set "type" (str "WEBAUTHN_HAS_CREDENTIAL")))
  else
    withProperty "rpId" (payload.get "rpId")
      (OrderedMap.empty.set "type" (str "WEBAUTHN_AVAILABLE"))

/-- The second one; what the payload calls `type` takes the place of the relay's own. -/
def performMessage (kind : String) (payload : OrderedMap String J) : OrderedMap String J :=
  payload.entries.foldl (fun message e => message.set e.1 e.2)
    (OrderedMap.empty.set "type"
      (str (if kind = "create" then "WEBAUTHN_CREATE" else "WEBAUTHN_GET")))

/-- `kind` as it is posted. -/
def CeremonyKind.text : CeremonyKind → String
  | .create => "create"
  | .get => "get"

namespace RelayFrame

variable (f : RelayFrame J)

/-- `respond`. -/
def respond (i : Nat) (reqId : String) (data : Option J) : RelayFrame J :=
  { f with
    messages := f.messages ++ [.response reqId data.isSome data]
    responses := f.responses ++ [(i, data)] }

/-- A request reaches the relay. -/
def receiveRequest (kind reqId : String) (payload : Option (OrderedMap String J)) : RelayFrame J :=
  let i := f.handlers.length
  let handler (phase : RelayPhase) : RelayHandler J := ⟨kind, reqId, payload, phase⟩
  if f.requestInFlight then
    { f with handlers := f.handlers ++ [handler .done] }.respond i reqId none
  else
    match payload with
    -- reading a property of it throws
    | none => { f with handlers := f.handlers ++ [handler .done] }.respond i reqId none
    | some payload =>
      { f with
        requestInFlight := true
        handlers := f.handlers ++ [handler .checking]
        sent := f.sent ++ [(i, checkMessage str kind payload)] }

/-- The end of a request. -/
def finish (i : Nat) (handler : RelayHandler J) (data : Option J) : RelayFrame J :=
  { f with
    requestInFlight := false
    handlers := f.handlers.set i { handler with phase := .done } }.respond i handler.reqId data

/-- A response reaches the calls. -/
def receiveResponse (reqId : String) (ok : Bool) (data : Option J) : RelayFrame J :=
  let outcome : CredentialOutcome J :=
    match ok, data with
    | true, some data => .credential data
    | _, _ => .native
  { f with calls := f.calls.map fun call =>
      if call.outcome.isNone && decide (call.reqId = reqId) then
        { call with outcome := some outcome }
      else call }

/-- One event. -/
def step : RelayEvent J → Option (RelayFrame J)
  | .call kind payload now =>
    let reqId := relayReqId now f.nextReqId
    some { f with
      nextReqId := f.nextReqId + 1
      calls := f.calls ++ [⟨kind, reqId, payload, none⟩]
      messages := f.messages ++ [.request kind.text reqId (some payload)] }
  | .pagePosts message =>
    some { f with messages := f.messages ++ [message], forged := f.forged ++ [message] }
  | .deliver k =>
    f.messages[k]?.map fun message =>
      let f := { f with messages := f.messages.eraseIdx k }
      match message with
      | .request kind reqId payload => f.receiveRequest str kind reqId payload
      | .response reqId ok data => f.receiveResponse reqId ok data
  | .checked i usable =>
    f.handlers[i]?.bind fun handler =>
      match handler.phase, handler.payload with
      | .checking, some payload =>
        if usable = some true then
          some { f with
            handlers := f.handlers.set i { handler with phase := .performing }
            sent := f.sent ++ [(i, performMessage str handler.kind payload)]
            usable := f.usable ++ [i] }
        else some (f.finish i handler none)
      | _, _ => none
  | .performed i result =>
    f.handlers[i]?.bind fun handler =>
      match handler.phase with
      | .performing =>
        let answered := result.join.map fun data => (i, data)
        some ({ f with answers := f.answers ++ answered.toList }.finish i handler result.join)
      | _ => none
  | .timeout i =>
    f.calls[i]?.bind fun call =>
      if call.outcome.isNone then
        some { f with calls := f.calls.set i { call with outcome := some .native } }
      else none
  | .abort i =>
    f.calls[i]?.bind fun call =>
      if call.outcome.isNone then
        some { f with calls := f.calls.set i { call with outcome := some .aborted } }
      else none

/-- The page has loaded. -/
def loaded : RelayFrame J where
  calls := []
  nextReqId := 0
  messages := []
  requestInFlight := false
  handlers := []
  forged := []
  sent := []
  usable := []
  answers := []
  responses := []

end RelayFrame

/-! ## What the relay promises -/

/-- How often the relay has answered a request. -/
def RelayFrame.timesAnswered (f : RelayFrame J) (i : Nat) : Nat :=
  (f.responses.filter fun r => decide (r.1 = i)).length

/-- A script of the page has posted a message with this id. -/
def Forged (f : RelayFrame J) (reqId : String) : Prop := ∃ message ∈ f.forged, message.reqId = reqId

/-- The relay has one request with the worker at a time; it answers every request once, and with
data only when the worker could serve the request and has answered that data to it; it sends
nothing else. A call gets the data that the worker has answered to a request of its own kind and
payload, unless a script of the page has posted messages under its id. -/
structure RelayHolds (f : RelayFrame J) : Prop where
  exclusive : ∀ (i j : Nat) (handler handler' : RelayHandler J), f.handlers[i]? = some handler →
    f.handlers[j]? = some handler' → handler.running = true → handler'.running = true → i = j
  inFlight : f.requestInFlight = true ↔ ∃ handler ∈ f.handlers, handler.running = true
  answered : ∀ (i : Nat) (handler : RelayHandler J), f.handlers[i]? = some handler →
    f.timesAnswered i = if handler.running then 0 else 1
  served : ∀ i data, (i, some data) ∈ f.responses → i ∈ f.usable ∧ (i, data) ∈ f.answers
  sends : ∀ i message, (i, message) ∈ f.sent → ∃ handler payload, f.handlers[i]? = some handler ∧
    handler.payload = some payload ∧ (message = checkMessage str handler.kind payload ∨
      i ∈ f.usable ∧ message = performMessage str handler.kind payload)
  credential : ∀ call ∈ f.calls, ∀ data, call.outcome = some (.credential data) →
    Forged f call.reqId ∨ ∃ i handler, f.handlers[i]? = some handler ∧
      handler.kind = call.kind.text ∧ handler.reqId = call.reqId ∧
        handler.payload = some call.payload ∧ (i, data) ∈ f.answers

/-! ## The worker's side of the relay -/

/-- What the relay knows of its requests. -/
structure RelayOrder (f : RelayFrame J) : Prop where
  runs : ∀ (i : Nat) (handler : RelayHandler J), f.handlers[i]? = some handler →
    handler.running = true → f.requestInFlight = true ∧
      ∀ (j : Nat) (handler' : RelayHandler J), f.handlers[j]? = some handler' →
        handler'.running = true → j = i
  inFlight : f.requestInFlight = true → ∃ handler ∈ f.handlers, handler.running = true
  performing : ∀ (i : Nat) (handler : RelayHandler J), f.handlers[i]? = some handler →
    handler.phase = .performing → i ∈ f.usable
  answered : ∀ (i : Nat) (handler : RelayHandler J), f.handlers[i]? = some handler →
    f.timesAnswered i = if handler.running then 0 else 1
  places : ∀ r ∈ f.responses, r.1 < f.handlers.length
  served : ∀ i data, (i, some data) ∈ f.responses → i ∈ f.usable ∧ (i, data) ∈ f.answers
  sends : ∀ i message, (i, message) ∈ f.sent → ∃ handler payload, f.handlers[i]? = some handler ∧
    handler.payload = some payload ∧ (message = checkMessage str handler.kind payload ∨
      i ∈ f.usable ∧ message = performMessage str handler.kind payload)

section Order

variable {str : String → J} {f : RelayFrame J} {i : Nat} {handler : RelayHandler J}

/-- One more answer. -/
@[simp] theorem timesAnswered_respond (f : RelayFrame J) (i j : Nat) (reqId : String)
    (data : Option J) : (f.respond i reqId data).timesAnswered j =
      f.timesAnswered j + if i = j then 1 else 0 := by
  rw [RelayFrame.timesAnswered, RelayFrame.respond, List.filter_append, List.length_append]
  by_cases hij : i = j
  · simp [hij, RelayFrame.timesAnswered]
  · simp [hij, RelayFrame.timesAnswered]

/-- Nobody has answered a request that has just come in. -/
theorem RelayOrder.unanswered (h : RelayOrder str f) : f.timesAnswered f.handlers.length = 0 := by
  rw [RelayFrame.timesAnswered, List.length_eq_zero_iff, List.filter_eq_nil_iff]
  intro r hr hplace
  have hlt := h.places r hr
  rw [of_decide_eq_true hplace] at hlt
  exact Nat.lt_irrefl _ hlt

/-- A request that the relay does not take up. -/
theorem RelayOrder.refuse (h : RelayOrder str f) (kind reqId : String)
    (payload : Option (OrderedMap String J)) :
    RelayOrder str ({ f with
      handlers := f.handlers ++ [(⟨kind, reqId, payload, .done⟩ : RelayHandler J)] }.respond
        f.handlers.length reqId none) := by
  constructor
  · intro j handler hj hrunning
    rcases Places.concat_cases hj with hj | ⟨-, rfl⟩
    · refine ⟨(h.runs j handler hj hrunning).1, fun k handler' hk hrunning' => ?_⟩
      rcases Places.concat_cases hk with hk | ⟨-, rfl⟩
      · exact (h.runs j handler hj hrunning).2 k handler' hk hrunning'
      · cases hrunning'
    · cases hrunning
  · intro hflight
    obtain ⟨handler, hmem, hrunning⟩ := h.inFlight hflight
    exact ⟨handler, List.mem_append_left _ hmem, hrunning⟩
  · intro j handler hj hphase
    rcases Places.concat_cases hj with hj | ⟨-, rfl⟩
    · exact h.performing j handler hj hphase
    · cases hphase
  · intro j handler hj
    rw [timesAnswered_respond]
    rcases Places.concat_cases hj with hj | ⟨rfl, rfl⟩
    · have hne : f.handlers.length ≠ j := by
        have hlt := (List.getElem?_eq_some_iff.mp hj).1
        omega
      rw [if_neg hne]
      exact h.answered j handler hj
    · rw [if_pos rfl]
      exact congrArg (· + 1) h.unanswered
  · intro r hr
    rw [RelayFrame.respond, List.length_append]
    rcases List.mem_append.mp hr with hold | hnew
    · exact Nat.lt_add_right _ (h.places r hold)
    · rw [List.mem_singleton.mp hnew]
      exact Nat.lt_succ_self _
  · intro j data hmem
    rcases List.mem_append.mp hmem with hold | hnew
    · exact h.served j data hold
    · cases List.mem_singleton.mp hnew
  · intro j message hmem
    obtain ⟨handler, payload, hj, hrest⟩ := h.sends j message hmem
    exact ⟨handler, payload, Places.concat_of_getElem? hj _, hrest⟩

/-- A request that the relay takes up. -/
theorem RelayOrder.take (h : RelayOrder str f) (hfree : f.requestInFlight = false)
    (kind reqId : String) (payload : OrderedMap String J) :
    RelayOrder str { f with
      requestInFlight := true
      handlers := f.handlers ++ [⟨kind, reqId, some payload, .checking⟩]
      sent := f.sent ++ [(f.handlers.length, checkMessage str kind payload)] } := by
  have hidle : ∀ (j : Nat) (handler : RelayHandler J), f.handlers[j]? = some handler →
      handler.running ≠ true := by
    intro j handler hj hrunning
    rw [(h.runs j handler hj hrunning).1] at hfree
    cases hfree
  constructor
  · intro j handler hj hrunning
    rcases Places.concat_cases hj with hj | ⟨rfl, rfl⟩
    · exact absurd hrunning (hidle j handler hj)
    · refine ⟨rfl, fun k handler' hk hrunning' => ?_⟩
      rcases Places.concat_cases hk with hk | ⟨rfl, -⟩
      · exact absurd hrunning' (hidle k handler' hk)
      · rfl
  · intro _
    exact ⟨_, List.mem_append_right _ List.mem_cons_self, rfl⟩
  · intro j handler hj hphase
    rcases Places.concat_cases hj with hj | ⟨-, rfl⟩
    · exact h.performing j handler hj hphase
    · cases hphase
  · intro j handler hj
    rcases Places.concat_cases hj with hj | ⟨rfl, rfl⟩
    · exact h.answered j handler hj
    · exact h.unanswered
  · intro r hr
    rw [List.length_append]
    exact Nat.lt_add_right _ (h.places r hr)
  · exact h.served
  · intro j message hmem
    rcases List.mem_append.mp hmem with hold | hnew
    · obtain ⟨handler, payload, hj, hrest⟩ := h.sends j message hold
      exact ⟨handler, payload, Places.concat_of_getElem? hj _, hrest⟩
    · cases List.mem_singleton.mp hnew
      exact ⟨_, payload, List.getElem?_concat_length, rfl, Or.inl rfl⟩

/-- A request comes in. -/
theorem RelayOrder.receiveRequest (h : RelayOrder str f) (kind reqId : String)
    (payload : Option (OrderedMap String J)) :
    RelayOrder str (f.receiveRequest str kind reqId payload) := by
  unfold RelayFrame.receiveRequest
  dsimp only
  split
  · exact h.refuse kind reqId payload
  · rename_i hfree
    cases payload with
    | none => exact h.refuse kind reqId none
    | some payload => exact h.take (Bool.not_eq_true _ ▸ hfree) kind reqId payload

/-- The worker can serve a request. -/
theorem RelayOrder.perform (h : RelayOrder str f) (hi : f.handlers[i]? = some handler)
    (hphase : handler.phase = .checking) {payload : OrderedMap String J}
    (hpayload : handler.payload = some payload) :
    RelayOrder str { f with
      handlers := f.handlers.set i { handler with phase := .performing }
      sent := f.sent ++ [(i, performMessage str handler.kind payload)]
      usable := f.usable ++ [i] } := by
  have hrunning : handler.running = true := by
    rw [RelayHandler.running, hphase]
    rfl
  obtain ⟨hflight, hother⟩ := h.runs i handler hi hrunning
  constructor
  · intro j handler' hj hrunning'
    have hji : j = i := by
      rcases Places.set_cases hj with ⟨hji, -⟩ | ⟨-, hj⟩
      · exact hji
      · exact hother j handler' hj hrunning'
    refine ⟨hflight, fun k handler'' hk hrunning'' => ?_⟩
    rcases Places.set_cases hk with ⟨hki, -⟩ | ⟨-, hk⟩
    · rw [hki, hji]
    · rw [hother k handler'' hk hrunning'', hji]
  · intro _
    exact ⟨_, List.mem_of_getElem? (Places.set_self hi _), rfl⟩
  · intro j handler' hj hphase'
    rcases Places.set_cases hj with ⟨rfl, -⟩ | ⟨-, hj⟩
    · exact List.mem_append_right _ List.mem_cons_self
    · exact List.mem_append_left _ (h.performing j handler' hj hphase')
  · intro j handler' hj
    rcases Places.set_cases hj with ⟨rfl, rfl⟩ | ⟨-, hj⟩
    · exact (h.answered j handler hi).trans (by rw [hrunning]; rfl)
    · exact h.answered j handler' hj
  · intro r hr
    rw [List.length_set]
    exact h.places r hr
  · intro j data hmem
    exact ⟨List.mem_append_left _ (h.served j data hmem).1, (h.served j data hmem).2⟩
  · intro j message hmem
    rcases List.mem_append.mp hmem with hold | hnew
    · obtain ⟨handler', payload', hj, hpayload', hmessage⟩ := h.sends j message hold
      rcases eq_or_ne j i with rfl | hji
      · rw [hi, Option.some.injEq] at hj
        subst hj
        refine ⟨_, payload', Places.set_self hi _, hpayload', hmessage.imp_right fun hsent => ?_⟩
        exact ⟨List.mem_append_left _ hsent.1, hsent.2⟩
      · refine ⟨handler', payload', ?_, hpayload', hmessage.imp_right fun hsent => ?_⟩
        · rw [List.getElem?_set_ne (Ne.symm hji)]
          exact hj
        · exact ⟨List.mem_append_left _ hsent.1, hsent.2⟩
    · cases List.mem_singleton.mp hnew
      exact ⟨_, payload, Places.set_self hi _, hpayload,
        Or.inr ⟨List.mem_append_right _ List.mem_cons_self, rfl⟩⟩

/-- A request ends. -/
theorem RelayOrder.finish (h : RelayOrder str f) (hi : f.handlers[i]? = some handler)
    (hrunning : handler.running = true) {data : Option J}
    (hserved : ∀ d, data = some d → i ∈ f.usable ∧ (i, d) ∈ f.answers) :
    RelayOrder str (f.finish i handler data) := by
  obtain ⟨-, hother⟩ := h.runs i handler hi hrunning
  constructor
  · intro j handler' hj hrunning'
    rcases Places.set_cases hj with ⟨-, rfl⟩ | ⟨hji, hj⟩
    · cases hrunning'
    · exact absurd (hother j handler' hj hrunning') hji
  · intro habsurd
    cases habsurd
  · intro j handler' hj hphase
    rcases Places.set_cases hj with ⟨-, rfl⟩ | ⟨-, hj⟩
    · cases hphase
    · exact h.performing j handler' hj hphase
  · intro j handler' hj
    rw [RelayFrame.finish, timesAnswered_respond]
    rcases Places.set_cases hj with ⟨rfl, rfl⟩ | ⟨hji, hj⟩
    · have hbefore := h.answered j handler hi
      rw [hrunning] at hbefore
      rw [if_pos rfl]
      exact congrArg (· + 1) hbefore
    · rw [if_neg (Ne.symm hji)]
      exact h.answered j handler' hj
  · intro r hr
    rw [RelayFrame.finish, RelayFrame.respond, List.length_set]
    rcases List.mem_append.mp hr with hold | hnew
    · exact h.places r hold
    · rw [List.mem_singleton.mp hnew]
      exact (List.getElem?_eq_some_iff.mp hi).1
  · intro j d hmem
    rcases List.mem_append.mp hmem with hold | hnew
    · exact h.served j d hold
    · cases List.mem_singleton.mp hnew
      exact hserved d rfl
  · intro j message hmem
    obtain ⟨handler', payload, hj, hrest⟩ := h.sends j message hmem
    rcases eq_or_ne j i with rfl | hji
    · rw [hi, Option.some.injEq] at hj
      subst hj
      exact ⟨_, payload, Places.set_self hi _, hrest⟩
    · refine ⟨handler', payload, ?_, hrest⟩
      rw [RelayFrame.finish, RelayFrame.respond, List.getElem?_set_ne (Ne.symm hji)]
      exact hj

end Order

/-! ## Where messages come from -/

/-- A call has posted this request. -/
def CallAsked (f : RelayFrame J) (kind reqId : String) (payload : Option (OrderedMap String J)) :
    Prop :=
  ∃ call ∈ f.calls, call.kind.text = kind ∧ call.reqId = reqId ∧ some call.payload = payload

/-- The worker has answered this data to a request with this id. -/
def Served (f : RelayFrame J) (reqId : String) (data : J) : Prop :=
  ∃ (i : Nat) (handler : RelayHandler J), f.handlers[i]? = some handler ∧
    handler.reqId = reqId ∧ (i, data) ∈ f.answers

/-- A message that a call or the relay has posted. -/
def Honest (f : RelayFrame J) : FrameMessage J → Prop
  | .request kind reqId payload => CallAsked f kind reqId payload
  | .response reqId ok data => ok = true → ∀ d ∈ data, Served f reqId d

/-- Every message, request and credential can be traced. -/
structure RelayTraced (f : RelayFrame J) : Prop where
  count : f.nextReqId = (f.calls.map (·.reqId)).length
  ids : ∀ (i : Nat) (reqId : String), (f.calls.map (·.reqId))[i]? = some reqId →
    ∃ now, reqId = relayReqId now i
  messages : ∀ message ∈ f.messages, Honest f message ∨ Forged f message.reqId
  handlers : ∀ handler ∈ f.handlers,
    CallAsked f handler.kind handler.reqId handler.payload ∨ Forged f handler.reqId
  outcomes : ∀ call ∈ f.calls, ∀ data, call.outcome = some (.credential data) →
    Forged f call.reqId ∨ Served f call.reqId data

/-- What holds in every state. -/
structure RelayInv (f : RelayFrame J) : Prop where
  order : RelayOrder str f
  traced : RelayTraced f

/-- Calls, requests and answers are there ever after. -/
structure RelayGrows (f f' : RelayFrame J) : Prop where
  calls : ∀ call ∈ f.calls, ∃ call' ∈ f'.calls, call'.kind = call.kind ∧
    call'.reqId = call.reqId ∧ call'.payload = call.payload
  handlers : ∀ (i : Nat) (handler : RelayHandler J), f.handlers[i]? = some handler →
    ∃ handler', f'.handlers[i]? = some handler' ∧ handler'.reqId = handler.reqId
  forged : f.forged ⊆ f'.forged
  answers : f.answers ⊆ f'.answers

section Traces

variable {str : String → J} {f f' : RelayFrame J} {i : Nat} {handler : RelayHandler J}

theorem Forged.grow (hg : RelayGrows f f') {reqId : String} (h : Forged f reqId) :
    Forged f' reqId := by
  obtain ⟨message, hmem, hid⟩ := h
  exact ⟨message, hg.forged hmem, hid⟩

theorem CallAsked.grow (hg : RelayGrows f f') {kind reqId : String}
    {payload : Option (OrderedMap String J)} (h : CallAsked f kind reqId payload) :
    CallAsked f' kind reqId payload := by
  obtain ⟨call, hcall, hkind, hid, hpayload⟩ := h
  obtain ⟨call', hcall', hkind', hid', hpayload'⟩ := hg.calls call hcall
  exact ⟨call', hcall', by rw [hkind', hkind], hid'.trans hid, by rw [hpayload', hpayload]⟩

theorem Served.grow (hg : RelayGrows f f') {reqId : String} {data : J} (h : Served f reqId data) :
    Served f' reqId data := by
  obtain ⟨i, handler, hi, hid, hanswer⟩ := h
  obtain ⟨handler', hi', hid'⟩ := hg.handlers i handler hi
  exact ⟨i, handler', hi', hid'.trans hid, hg.answers hanswer⟩

theorem Honest.grow (hg : RelayGrows f f') {message : FrameMessage J} (h : Honest f message) :
    Honest f' message := by
  cases message with
  | request kind reqId payload => exact CallAsked.grow hg h
  | response reqId ok data => exact fun hok d hd => (h hok d hd).grow hg

/-- What is new can be traced, and the calls are the same. -/
theorem RelayTraced.move (h : RelayTraced f) (hg : RelayGrows f f')
    (hcount : f'.nextReqId = f.nextReqId)
    (hids : f'.calls.map (·.reqId) = f.calls.map (·.reqId))
    (hmessages : ∀ message ∈ f'.messages,
      message ∈ f.messages ∨ Honest f' message ∨ Forged f' message.reqId)
    (hhandlers : ∀ handler' ∈ f'.handlers, (∃ handler ∈ f.handlers, handler.kind = handler'.kind ∧
        handler.reqId = handler'.reqId ∧ handler.payload = handler'.payload) ∨
      CallAsked f' handler'.kind handler'.reqId handler'.payload ∨ Forged f' handler'.reqId)
    (houtcomes : ∀ call' ∈ f'.calls, ∀ data, call'.outcome = some (.credential data) →
      (∃ call ∈ f.calls, call.reqId = call'.reqId ∧ call.outcome = call'.outcome) ∨
        Forged f' call'.reqId ∨ Served f' call'.reqId data) : RelayTraced f' := by
  constructor
  · rw [hcount, hids]
    exact h.count
  · rw [hids]
    exact h.ids
  · intro message hmem
    rcases hmessages message hmem with hold | hnew
    · exact (h.messages message hold).imp (Honest.grow hg) (Forged.grow hg)
    · exact hnew
  · intro handler' hmem
    rcases hhandlers handler' hmem with ⟨handler, hold, hkind, hid, hpayload⟩ | hnew
    · rw [← hkind, ← hid, ← hpayload]
      exact (h.handlers handler hold).imp (CallAsked.grow hg) (Forged.grow hg)
    · exact hnew
  · intro call' hmem data houtcome
    rcases houtcomes call' hmem data houtcome with ⟨call, hold, hid, hsame⟩ | hnew
    · rw [← hid]
      exact (h.outcomes call hold data (hsame.trans houtcome)).imp (Forged.grow hg) (Served.grow hg)
    · exact hnew

/-- A call posts its request. -/
theorem RelayTraced.call (h : RelayTraced f) (kind : CeremonyKind) (payload : OrderedMap String J)
    (now : Nat) : RelayTraced { f with
      nextReqId := f.nextReqId + 1
      calls := f.calls ++ [⟨kind, relayReqId now f.nextReqId, payload, none⟩]
      messages := f.messages ++
        [.request kind.text (relayReqId now f.nextReqId) (some payload)] } := by
  have hg : RelayGrows f { f with
      nextReqId := f.nextReqId + 1
      calls := f.calls ++ [⟨kind, relayReqId now f.nextReqId, payload, none⟩]
      messages := f.messages ++
        [.request kind.text (relayReqId now f.nextReqId) (some payload)] } :=
    ⟨fun call hcall => ⟨call, List.mem_append_left _ hcall, rfl, rfl, rfl⟩,
      fun i handler hi => ⟨handler, hi, rfl⟩, List.Subset.refl _, List.Subset.refl _⟩
  constructor
  · rw [List.map_append, List.length_append, h.count]
    rfl
  · intro i reqId hi
    rw [List.map_append] at hi
    rcases Places.concat_cases hi with hold | ⟨rfl, rfl⟩
    · exact h.ids i reqId hold
    · rw [h.count]
      exact ⟨now, rfl⟩
  · intro message hmem
    rcases List.mem_append.mp hmem with hold | hnew
    · exact (h.messages message hold).imp (Honest.grow hg) (Forged.grow hg)
    · rw [List.mem_singleton.mp hnew]
      exact Or.inl ⟨_, List.mem_append_right _ List.mem_cons_self, rfl, rfl, rfl⟩
  · intro handler hmem
    exact (h.handlers handler hmem).imp (CallAsked.grow hg) (Forged.grow hg)
  · intro call hmem data houtcome
    rcases List.mem_append.mp hmem with hold | hnew
    · exact (h.outcomes call hold data houtcome).imp (Forged.grow hg) (Served.grow hg)
    · rw [List.mem_singleton.mp hnew] at houtcome
      cases houtcome

/-- A request comes in. -/
theorem RelayTraced.receiveRequest (h : RelayTraced f) {kind reqId : String}
    {payload : Option (OrderedMap String J)}
    (hfrom : CallAsked f kind reqId payload ∨ Forged f reqId) :
    RelayTraced (f.receiveRequest str kind reqId payload) := by
  have hconcat (phase : RelayPhase) (f' : RelayFrame J) (hcalls : f'.calls = f.calls)
      (hcount : f'.nextReqId = f.nextReqId) (hforged : f'.forged = f.forged)
      (hanswers : f'.answers = f.answers)
      (hhandlers : f'.handlers = f.handlers ++ [⟨kind, reqId, payload, phase⟩])
      (hmessages : ∀ message ∈ f'.messages,
        message ∈ f.messages ∨ message = .response reqId false none) : RelayTraced f' := by
    have hg : RelayGrows f f' := by
      refine ⟨?_, ?_, fun m hm => by rwa [hforged], fun a ha => by rwa [hanswers]⟩
      · rw [hcalls]
        exact fun call hcall => ⟨call, hcall, rfl, rfl, rfl⟩
      · rw [hhandlers]
        exact fun i handler hi => ⟨handler, Places.concat_of_getElem? hi _, rfl⟩
    refine h.move hg hcount (congrArg _ hcalls) ?_ ?_ ?_
    · intro message hmem
      rcases hmessages message hmem with hold | rfl
      · exact Or.inl hold
      · exact Or.inr (Or.inl fun habsurd => by cases habsurd)
    · intro handler' hmem
      rw [hhandlers] at hmem
      rcases List.mem_append.mp hmem with hold | hnew
      · exact Or.inl ⟨handler', hold, rfl, rfl, rfl⟩
      · rw [List.mem_singleton.mp hnew]
        exact Or.inr (hfrom.imp (CallAsked.grow hg) (Forged.grow hg))
    · intro call' hmem data houtcome
      rw [hcalls] at hmem
      exact Or.inl ⟨call', hmem, rfl, rfl⟩
  have hresponse : ∀ message ∈ f.messages ++ [FrameMessage.response reqId false none],
      message ∈ f.messages ∨ message = .response reqId false none := fun message hmem =>
    (List.mem_append.mp hmem).imp id List.mem_singleton.mp
  unfold RelayFrame.receiveRequest
  dsimp only
  split
  · exact hconcat .done _ rfl rfl rfl rfl rfl hresponse
  · cases payload with
    | none => exact hconcat .done _ rfl rfl rfl rfl rfl hresponse
    | some payload => exact hconcat .checking _ rfl rfl rfl rfl rfl fun message hmem => Or.inl hmem

/-- The relay goes on with a request, which may end with data that the worker has answered. -/
theorem RelayTraced.goOn (h : RelayTraced f) (hi : f.handlers[i]? = some handler)
    (hcalls : f'.calls = f.calls) (hcount : f'.nextReqId = f.nextReqId)
    (hforged : f'.forged = f.forged) (hanswers : f.answers ⊆ f'.answers) {phase : RelayPhase}
    (hhandlers : f'.handlers = f.handlers.set i { handler with phase := phase })
    (hmessages : ∀ message ∈ f'.messages, message ∈ f.messages ∨
      ∃ data, message = .response handler.reqId data.isSome data ∧
        ∀ d, data = some d → (i, d) ∈ f'.answers) : RelayTraced f' := by
  have hg : RelayGrows f f' := by
    refine ⟨?_, ?_, fun m hm => by rwa [hforged], hanswers⟩
    · rw [hcalls]
      exact fun call hcall => ⟨call, hcall, rfl, rfl, rfl⟩
    · rw [hhandlers]
      intro j handler' hj
      rcases eq_or_ne j i with rfl | hji
      · rw [hi, Option.some.injEq] at hj
        subst hj
        exact ⟨_, Places.set_self hi _, rfl⟩
      · refine ⟨handler', ?_, rfl⟩
        rw [List.getElem?_set_ne (Ne.symm hji)]
        exact hj
  refine h.move hg hcount (congrArg _ hcalls) ?_ ?_ ?_
  · intro message hmem
    rcases hmessages message hmem with hold | ⟨data, rfl, hdata⟩
    · exact Or.inl hold
    · refine Or.inr (Or.inl fun _ d hd => ⟨i, { handler with phase := phase }, ?_, rfl, hdata d hd⟩)
      rw [hhandlers]
      exact Places.set_self hi _
  · intro handler' hmem
    rw [hhandlers] at hmem
    rcases List.mem_or_eq_of_mem_set hmem with hold | rfl
    · exact Or.inl ⟨handler', hold, rfl, rfl, rfl⟩
    · exact Or.inl ⟨handler, List.mem_of_getElem? hi, rfl, rfl, rfl⟩
  · intro call' hmem data houtcome
    rw [hcalls] at hmem
    exact Or.inl ⟨call', hmem, rfl, rfl⟩

/-- Calls are settled, with data only from a response that can be traced. -/
theorem RelayTraced.settle (h : RelayTraced f) {calls : List (CredentialCall J)}
    (hgrow : ∀ call ∈ f.calls, ∃ call' ∈ calls, call'.kind = call.kind ∧
      call'.reqId = call.reqId ∧ call'.payload = call.payload)
    (hids : calls.map (·.reqId) = f.calls.map (·.reqId))
    (houtcomes : ∀ call' ∈ calls, ∀ data, call'.outcome = some (.credential data) →
      (∃ call ∈ f.calls, call.reqId = call'.reqId ∧ call.outcome = call'.outcome) ∨
        Forged f call'.reqId ∨ Served f call'.reqId data) :
    RelayTraced { f with calls := calls } := by
  have hg : RelayGrows f { f with calls := calls } :=
    ⟨hgrow, fun i handler hi => ⟨handler, hi, rfl⟩, List.Subset.refl _, List.Subset.refl _⟩
  refine h.move hg rfl hids (fun message hmem => Or.inl hmem) ?_ ?_
  · exact fun handler' hmem => Or.inl ⟨handler', hmem, rfl, rfl, rfl⟩
  · intro call' hmem data houtcome
    exact (houtcomes call' hmem data houtcome).imp_right fun hnew =>
      hnew.imp (Forged.grow hg) (Served.grow hg)

end Traces

/-! ## Runs -/

/-- A digit is no hyphen. -/
theorem not_mem_toDigits (n : Nat) : '-' ∉ Nat.toDigits 10 n := by
  intro hmem
  have hdigit := Nat.isDigit_of_mem_toDigits (by decide) (by decide) hmem
  revert hdigit
  decide

/-- Calls have ids of their own. -/
theorem relayReqId_inj {now now' n n' : Nat} (h : relayReqId now n = relayReqId now' n') :
    n = n' := by
  have hlist : Nat.toDigits 10 now ++ '-' :: Nat.toDigits 10 n =
      Nat.toDigits 10 now' ++ '-' :: Nat.toDigits 10 n' := by
    have htext := congrArg String.toList h
    simp only [relayReqId, String.toList_append, Nat.toString_eq_repr, Nat.toList_repr,
      List.append_assoc, List.append_cancel_left_eq] at htext
    exact htext
  rw [List.append_cons_inj_of_notMem (not_mem_toDigits now) (not_mem_toDigits n)] at hlist
  have hvalue := congrArg (Nat.ofDigitChars 10 · 0) hlist.2.2
  rwa [Nat.ofDigitChars_ten_toDigits, Nat.ofDigitChars_ten_toDigits] at hvalue

section Runs

variable {str : String → J} {f f' : RelayFrame J}

/-- A response settles the calls under its id, with its own data at most. -/
theorem RelayTraced.receiveResponse (h : RelayTraced f) {reqId : String} {ok : Bool}
    {data : Option J} (hfrom : Honest f (.response reqId ok data) ∨ Forged f reqId) :
    RelayTraced (f.receiveResponse reqId ok data) := by
  refine h.settle ?_ ?_ ?_
  · intro call hcall
    refine ⟨_, List.mem_map_of_mem hcall, ?_⟩
    split
    · exact ⟨rfl, rfl, rfl⟩
    · exact ⟨rfl, rfl, rfl⟩
  · rw [List.map_map]
    apply List.map_congr_left
    intro call _
    rw [Function.comp_apply]
    split
    · rfl
    · rfl
  · intro call' hmem d houtcome
    obtain ⟨call, hcall, rfl⟩ := List.mem_map.mp hmem
    split at houtcome
    · rename_i hcond
      rw [if_pos hcond]
      rw [Bool.and_eq_true, decide_eq_true_eq] at hcond
      rw [hcond.2]
      refine Or.inr (hfrom.symm.imp_right fun hhonest => ?_)
      cases ok with
      | false => cases houtcome
      | true =>
        cases data with
        | none => cases houtcome
        | some value =>
          cases houtcome
          exact hhonest rfl d rfl
    · rename_i hcond
      rw [if_neg hcond]
      exact Or.inl ⟨call, hcall, rfl, rfl⟩

/-- A call ends without a credential. -/
theorem RelayTraced.settleOne (h : RelayTraced f) {i : Nat} {call : CredentialCall J}
    (hi : f.calls[i]? = some call) {outcome : CredentialOutcome J}
    (hnone : ∀ data, outcome ≠ .credential data) :
    RelayTraced { f with calls := f.calls.set i { call with outcome := some outcome } } := by
  refine h.settle ?_ (Places.map_set hi rfl) ?_
  · intro other hother
    rcases Places.mem_set hi { call with outcome := some outcome } hother with ⟨rfl, hnew⟩ | hold
    · exact ⟨_, hnew, rfl, rfl, rfl⟩
    · exact ⟨other, hold, rfl, rfl, rfl⟩
  · intro call' hmem data houtcome
    rcases List.mem_or_eq_of_mem_set hmem with hold | rfl
    · exact Or.inl ⟨call', hold, rfl, rfl⟩
    · exact absurd (Option.some.inj houtcome) (hnone data)

/-- A script of the page posts a message. -/
theorem RelayTraced.pagePosts (h : RelayTraced f) (message : FrameMessage J) :
    RelayTraced { f with
      messages := f.messages ++ [message], forged := f.forged ++ [message] } := by
  have hg : RelayGrows f { f with
      messages := f.messages ++ [message], forged := f.forged ++ [message] } :=
    ⟨fun call hcall => ⟨call, hcall, rfl, rfl, rfl⟩, fun i handler hi => ⟨handler, hi, rfl⟩,
      List.subset_append_left _ _, List.Subset.refl _⟩
  refine h.move hg rfl rfl ?_ ?_ ?_
  · intro m hmem
    rcases List.mem_append.mp hmem with hold | hnew
    · exact Or.inl hold
    · rw [List.mem_singleton.mp hnew]
      exact Or.inr (Or.inr ⟨message, List.mem_append_right _ List.mem_cons_self, rfl⟩)
  · exact fun handler' hmem => Or.inl ⟨handler', hmem, rfl, rfl, rfl⟩
  · exact fun call' hmem _ _ => Or.inl ⟨call', hmem, rfl, rfl⟩

/-- Every event keeps the order of the relay and the traces. -/
theorem RelayInv.step {e : RelayEvent J} (h : RelayInv str f) (hstep : f.step str e = some f') :
    RelayInv str f' := by
  obtain ⟨horder, htraced⟩ := h
  have hsame {f' : RelayFrame J} (hflight : f'.requestInFlight = f.requestInFlight)
      (hhandlers : f'.handlers = f.handlers) (husable : f'.usable = f.usable)
      (hanswers : f'.answers = f.answers) (hresponses : f'.responses = f.responses)
      (hsent : f'.sent = f.sent) : RelayOrder str f' := by
    obtain ⟨hruns, hin, hperforming, hanswered, hplaces, hserved, hsends⟩ := horder
    constructor
    all_goals simp only [RelayFrame.timesAnswered, hflight, hhandlers, husable, hanswers,
      hresponses, hsent]
    all_goals assumption
  cases e with
  | call kind payload now =>
    cases hstep
    exact ⟨hsame rfl rfl rfl rfl rfl rfl, htraced.call kind payload now⟩
  | pagePosts message =>
    cases hstep
    exact ⟨hsame rfl rfl rfl rfl rfl rfl, htraced.pagePosts message⟩
  | deliver k =>
    obtain ⟨message, hmessage, rfl⟩ := Option.map_eq_some_iff.mp hstep
    have hfrom := htraced.messages message (List.mem_of_getElem? hmessage)
    have hrest : RelayTraced { f with messages := f.messages.eraseIdx k } :=
      htraced.move ⟨fun call hcall => ⟨call, hcall, rfl, rfl, rfl⟩,
        fun i handler hi => ⟨handler, hi, rfl⟩, List.Subset.refl _, List.Subset.refl _⟩ rfl rfl
        (fun m hm => Or.inl (List.mem_of_mem_eraseIdx hm))
        (fun handler' hmem => Or.inl ⟨handler', hmem, rfl, rfl, rfl⟩)
        (fun call' hmem _ _ => Or.inl ⟨call', hmem, rfl, rfl⟩)
    have horder' : RelayOrder str { f with messages := f.messages.eraseIdx k } :=
      hsame rfl rfl rfl rfl rfl rfl
    cases message with
    | request kind reqId payload =>
      exact ⟨horder'.receiveRequest kind reqId payload, hrest.receiveRequest hfrom⟩
    | response reqId ok data =>
      exact ⟨hsame rfl rfl rfl rfl rfl rfl, hrest.receiveResponse hfrom⟩
  | checked i usable =>
    obtain ⟨handler, hi, hstep⟩ := Option.bind_eq_some_iff.mp hstep
    split at hstep
    · rename_i payload hphase hpayload
      split at hstep
      · cases hstep
        refine ⟨horder.perform hi hphase hpayload, ?_⟩
        exact htraced.goOn hi rfl rfl rfl (List.Subset.refl _) rfl fun m hm => Or.inl hm
      · cases hstep
        have hrunning : handler.running = true := by
          rw [RelayHandler.running, hphase]
          rfl
        have hnothing : ∀ d, (none : Option J) = some d →
            i ∈ f.usable ∧ (i, d) ∈ f.answers := by
          intro d habsurd
          cases habsurd
        refine ⟨horder.finish hi hrunning hnothing, ?_⟩
        refine htraced.goOn hi rfl rfl rfl (List.Subset.refl _) rfl fun m hm => ?_
        exact (List.mem_append.mp hm).imp id fun hnew =>
          ⟨none, List.mem_singleton.mp hnew, fun d hd => (hnothing d hd).2⟩
    · cases hstep
  | performed i result =>
    obtain ⟨handler, hi, hstep⟩ := Option.bind_eq_some_iff.mp hstep
    split at hstep
    · rename_i hphase
      cases hstep
      have hrunning : handler.running = true := by
        rw [RelayHandler.running, hphase]
        rfl
      have hanswer : ∀ d, result.join = some d →
          (i, d) ∈ f.answers ++ (result.join.map fun data => (i, data)).toList := by
        intro d hd
        rw [hd]
        exact List.mem_append_right _ List.mem_cons_self
      constructor
      · have hmore : RelayOrder str { f with
            answers := f.answers ++ (result.join.map fun data => (i, data)).toList } := by
          refine ⟨horder.runs, horder.inFlight, horder.performing, horder.answered, horder.places,
            ?_, horder.sends⟩
          intro j d hmem
          exact ⟨(horder.served j d hmem).1, List.mem_append_left _ (horder.served j d hmem).2⟩
        exact hmore.finish hi hrunning fun d hd =>
          ⟨horder.performing i handler hi hphase, hanswer d hd⟩
      · refine htraced.goOn hi rfl rfl rfl (List.subset_append_left _ _) rfl fun m hm => ?_
        exact (List.mem_append.mp hm).imp id fun hnew =>
          ⟨result.join, List.mem_singleton.mp hnew, hanswer⟩
    · cases hstep
  | timeout i =>
    obtain ⟨call, hi, hstep⟩ := Option.bind_eq_some_iff.mp hstep
    split at hstep
    · cases hstep
      exact ⟨hsame rfl rfl rfl rfl rfl rfl,
        htraced.settleOne hi fun data habsurd => by cases habsurd⟩
    · cases hstep
  | abort i =>
    obtain ⟨call, hi, hstep⟩ := Option.bind_eq_some_iff.mp hstep
    split at hstep
    · cases hstep
      exact ⟨hsame rfl rfl rfl rfl rfl rfl,
        htraced.settleOne hi fun data habsurd => by cases habsurd⟩
    · cases hstep

/-- Nothing has happened at the start. -/
theorem RelayInv.loaded : RelayInv str (RelayFrame.loaded (J := J)) := by
  constructor
  · constructor
    all_goals simp [RelayFrame.loaded]
  · constructor
    all_goals simp [RelayFrame.loaded]

/-- In every state of a run, whatever the page posts and the worker answers. -/
theorem relayHolds_of_run {events : List (RelayEvent J)}
    (h : runEvents (fun f e => RelayFrame.step str f e) events RelayFrame.loaded = some f) :
    RelayHolds str f := by
  have hinv : RelayInv str f := invariant_of_run (fun _ _ _ hs he => hs.step he) RelayInv.loaded h
  obtain ⟨horder, htraced⟩ := hinv
  refine ⟨?_, ⟨horder.inFlight, ?_⟩, horder.answered, horder.served, horder.sends, ?_⟩
  · intro i j handler handler' hi hj hrunning hrunning'
    exact ((horder.runs i handler hi hrunning).2 j handler' hj hrunning').symm
  · rintro ⟨handler, hmem, hrunning⟩
    obtain ⟨i, hi⟩ := List.mem_iff_getElem?.mp hmem
    exact (horder.runs i handler hi hrunning).1
  · intro call hcall data houtcome
    rcases htraced.outcomes call hcall data houtcome with hforged | ⟨i, handler, hi, hid, hanswer⟩
    · exact Or.inl hforged
    · rcases htraced.handlers handler (List.mem_of_getElem? hi) with
        ⟨call', hcall', hkind, hid', hpayload⟩ | hforged
      · -- the call that has asked is the one that is settled
        have hsame : call' = call := by
          obtain ⟨n, hn⟩ := List.mem_iff_getElem?.mp hcall
          obtain ⟨n', hn'⟩ := List.mem_iff_getElem?.mp hcall'
          obtain ⟨now, hnow⟩ := htraced.ids n call.reqId (by rw [List.getElem?_map, hn]; rfl)
          obtain ⟨now', hnow'⟩ := htraced.ids n' call'.reqId (by rw [List.getElem?_map, hn']; rfl)
          have hplace : n' = n := relayReqId_inj (by rw [← hnow, ← hnow', hid', hid])
          rw [hplace, hn, Option.some.injEq] at hn'
          exact hn'.symm
        subst hsame
        exact Or.inr ⟨i, handler, hi, hkind.symm, hid, hpayload.symm, hanswer⟩
      · rw [hid] at hforged
        exact Or.inl hforged

end Runs

/-- A login with a passkey, and a second call while it is with the worker. -/
private def relayedLogin : Option (RelayFrame String) :=
  let payload : OrderedMap String String := OrderedMap.empty.set "rpId" "bank.example"
  runEvents (fun f e => RelayFrame.step id f e)
    [.call .get payload 1, .deliver 0, .call .create payload 2, .deliver 0, .checked 0 (some true),
      .performed 0 (some (some "signed")), .deliver 1, .deliver 0]
    RelayFrame.loaded

/-- The login gets what the worker has signed. -/
theorem relayHolds_of_run_login : ∃ f, relayedLogin = some f ∧
    f.calls.map (·.outcome) = [some (.credential "signed"), some .native] ∧ RelayHolds id f := by
  have hrun : relayedLogin.map (fun f => f.calls.map (·.outcome)) =
      some [some (.credential "signed"), some .native] := by
    decide
  obtain ⟨f, hf, houtcomes⟩ := Option.map_eq_some_iff.mp hrun
  exact ⟨f, hf, houtcomes, relayHolds_of_run hf⟩

end Nopass
