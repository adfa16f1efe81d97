import Nopass.Server.Orgs

/-!
# Subscriptions

Stripe sends an event whenever a subscription is created, updated or deleted. The handler
finds the account by the event's customer and writes what the event says over the row of
the account; events carry no order. Access to a plan is read from that row.
-/

namespace Nopass

open ReadCommitted

/-- The prices in the server's configuration. -/
structure PriceConfig where
  stripeProMonthlyPriceId : Option String
  stripeProAnnualPriceId : Option String
  stripeTeamsPriceId : Option String

/-- `StripeSubscription`, with the prices of its items. -/
structure StripeSubscription where
  id : String
  customer : String
  status : String
  prices : List String
  currentPeriodEnd : Option Int
  deriving DecidableEq

/-- `StripeEvent`: its type, and `as_subscription` of its object. -/
structure StripeEvent where
  eventType : String
  subscription : Option StripeSubscription
  deriving DecidableEq

/-- `price_id`. -/
def StripeSubscription.priceId (s : StripeSubscription) : Option String := s.prices.head?

/-- `period_end_dt`: times that `chrono` does not know are dropped. -/
def StripeSubscription.periodEnd (s : StripeSubscription) : Option Int :=
  s.currentPeriodEnd.filter fun t => decide (-8334601228800 ≤ t) && decide (t ≤ 8210266876799)

/-- A time that the column takes. -/
def isTimestamptz (t : Int) : Bool := decide (-210866803200 ≤ t) && decide (t < 9224318016000)

/-- `is_access_granted`. -/
def SubscriptionStatus.isAccessGranted : SubscriptionStatus → Bool
  | .active | .trialing => true
  | .pastDue | .canceled => false

/-- `stripe_status_to_model`. -/
def stripeStatusToModel (status : String) : SubscriptionStatus :=
  if status = "active" then .active
  else if status = "past_due" then .pastDue
  else if status = "canceled" ∨ status = "cancelled" then .canceled
  else if status = "trialing" then .trialing
  else .active

/-- `price_id_to_plan`. -/
def priceIdToPlan (config : PriceConfig) (priceId : String) : SubscriptionPlan :=
  if config.stripeProMonthlyPriceId = some priceId ∨ config.stripeProAnnualPriceId = some priceId then
    .pro
  else if config.stripeTeamsPriceId = some priceId then .teams
  else .free

namespace DbSubs

/-- `get_subscription_by_stripe_customer`. -/
def getSubscriptionByStripeCustomer (customer : String) : Request (Option Subscription) := do
  let rows ← Tables.subscriptions.select fun _ s => decide (s.stripeCustomerId = some customer)
  pure rows.head?

/-- What a conflicting row becomes: new values win over old ones. -/
def overwrite (row r : Subscription) : Subscription :=
  { r with
    plan := row.plan
    status := row.status
    stripeCustomerId := row.stripeCustomerId.or r.stripeCustomerId
    stripeSubscriptionId := row.stripeSubscriptionId.or r.stripeSubscriptionId
    currentPeriodEnd := row.currentPeriodEnd.or r.currentPeriodEnd }

/-- The keys of the account's row. -/
def keysOf (userId : Uuid) (d : Db) : List RowId :=
  (d.subscriptions.filter fun r => decide (r.userId = userId)).map Tables.subscriptions.key

/-- `upsert_subscription`: insert a row, or write over the one that the account has. -/
def upsertSubscription (row : Subscription) : Request Unit :=
  autocommit (.stmt
    (fun _ n =>
      if (keysOf row.userId n).isEmpty then
        [(Tables.subscriptions.key row, .update), ((userRef row.userId).row, .keyShare)]
      else (keysOf row.userId n).map fun key => (key, .noKeyUpdate))
    (fun _ n =>
      if (keysOf row.userId n).isEmpty then Tables.subscriptions.push row
      else Tables.subscriptions.edit (keysOf row.userId n) (overwrite row))
    fun _ n =>
      if row.currentPeriodEnd.all isTimestamptz &&
          (!(keysOf row.userId n).isEmpty || (userRef row.userId).live n) then .ret ()
      else .rollback (.error none)) fun _ => .plain

end DbSubs

namespace Billing

/-- The row for a subscription as an event shows it. -/
def rowFor (newId userId : Uuid) (stripeSub : StripeSubscription) (plan : SubscriptionPlan)
    (status : SubscriptionStatus) : Subscription where
  id := newId
  userId := userId
  plan := plan
  status := status
  stripeCustomerId := some stripeSub.customer
  stripeSubscriptionId := some stripeSub.id
  currentPeriodEnd := stripeSub.periodEnd

/-- `handle_subscription_update`, with the id that a new row would get. -/
def handleSubscriptionUpdate (config : PriceConfig) (newId : Uuid) (stripeSub : StripeSubscription) :
    Request Unit := do
  match ← DbSubs.getSubscriptionByStripeCustomer stripeSub.customer with
  | none => pure ()
  | some userSub =>
    let plan := (stripeSub.priceId.map (priceIdToPlan config)).getD .free
    let status := stripeStatusToModel stripeSub.status
    DbSubs.upsertSubscription (rowFor newId userSub.userId stripeSub plan status)

/-- `handle_subscription_deleted`. -/
def handleSubscriptionDeleted (newId : Uuid) (stripeSub : StripeSubscription) : Request Unit := do
  match ← DbSubs.getSubscriptionByStripeCustomer stripeSub.customer with
  | none => pure ()
  | some userSub =>
    DbSubs.upsertSubscription (rowFor newId userSub.userId stripeSub .free .canceled)

/-- `handle_webhook` for an event whose signature was verified. -/
def handleWebhook (config : PriceConfig) (newId : Uuid) (event : StripeEvent) : Request Unit :=
  match event.subscription with
  | none => pure ()
  | some stripeSub =>
    if event.eventType = "customer.subscription.created" ∨
        event.eventType = "customer.subscription.updated" then
      handleSubscriptionUpdate config newId stripeSub
    else if event.eventType = "customer.subscription.deleted" then
      handleSubscriptionDeleted newId stripeSub
    else pure ()

/-- The database after events were handled one after the other, none when one of them failed. -/
def handleAll (config : PriceConfig) : List (Uuid × StripeEvent) → Db → Option Db
  | [], d => some d
  | (newId, event) :: rest, d =>
    match (handleWebhook config newId event).alone id d with
    | (.ok (), d') => handleAll config rest d'
    | (.error _, _) => none

/-- The plan and the status that an event is taken to say. -/
def stateOf (config : PriceConfig) (event : StripeEvent) (stripeSub : StripeSubscription) :
    SubscriptionPlan × SubscriptionStatus :=
  if event.eventType = "customer.subscription.deleted" then (.free, .canceled)
  else ((stripeSub.priceId.map (priceIdToPlan config)).getD .free,
    stripeStatusToModel stripeSub.status)

end Billing

/-- An event about a subscription of a customer. -/
structure IsWebhookOf (customer : String) (event : StripeEvent) (stripeSub : StripeSubscription) :
    Prop where
  subscription : event.subscription = some stripeSub
  customer : stripeSub.customer = customer
  eventType : event.eventType = "customer.subscription.created" ∨
    event.eventType = "customer.subscription.updated" ∨
    event.eventType = "customer.subscription.deleted"

/-- The plan that a subscription pays for in its true state: it was not deleted, is active or
trialing, and has a configured price. -/
def PaysFor (config : PriceConfig) (event : StripeEvent) (plan : SubscriptionPlan) : Prop :=
  event.eventType ≠ "customer.subscription.deleted" ∧ ∃ stripeSub price,
    event.subscription = some stripeSub ∧
      (stripeSub.status = "active" ∨ stripeSub.status = "trialing") ∧
      stripeSub.priceId = some price ∧ priceIdToPlan config price = plan

/-- The event that was created last for its subscription. -/
def LastCreated (created : List StripeEvent) (event : StripeEvent) : Prop :=
  ∃ before after, created = before ++ event :: after ∧
    ∀ later ∈ after, later.subscription.map (·.id) ≠ event.subscription.map (·.id)

/-- A paid plan is that of a subscription in its true state. -/
def PaidFollows (config : PriceConfig) (created : List StripeEvent) (plan : SubscriptionPlan) :
    Prop :=
  plan ≠ .free → ∃ event, LastCreated created event ∧ PaysFor config event plan

/-- An event that the handler gives a paid plan for: no deletion, any status but three, and a
configured price. -/
def TakenAsPaid (config : PriceConfig) (event : StripeEvent) (plan : SubscriptionPlan) : Prop :=
  event.eventType ≠ "customer.subscription.deleted" ∧ plan ≠ .free ∧ ∃ stripeSub price,
    event.subscription = some stripeSub ∧
      stripeSub.status ∉ ["past_due", "canceled", "cancelled"] ∧
      stripeSub.priceId = some price ∧ priceIdToPlan config price = plan

/-- If the event that is delivered last is taken as paid, a subscription pays for its plan. -/
def DeliveredInTime (config : PriceConfig) (created delivered : List StripeEvent) : Prop :=
  ∀ event ∈ delivered.getLast?, ∀ plan, TakenAsPaid config event plan →
    ∃ last, LastCreated created last ∧ PaysFor config last plan

/-- The account of a customer: one row has the customer, and it is the account's only row. -/
structure AccountOf (d : Db) (customer : String) (userId : Uuid) (row : Subscription) : Prop where
  mem : row ∈ d.subscriptions
  ofUser : row.userId = userId
  hasCustomer : row.stripeCustomerId = some customer
  sole : ∀ r ∈ d.subscriptions, r.stripeCustomerId = some customer ∨ r.userId = userId → r = row
  /-- The primary key. -/
  keys : (d.subscriptions.map (·.id)).Nodup

section Webhooks

variable {config : PriceConfig} {customer : String} {userId : Uuid} {row : Subscription} {d d' : Db}

theorem AccountOf.effectivePlan (h : AccountOf d customer userId row) :
    (effectivePlan userId).alone id d =
      (.ok (if row.status = .active ∨ row.status = .trialing then row.plan else .free), d) := by
  have hfind : d.subscriptions.find? (fun s => decide (s.userId = userId)) = some row := by
    cases hfound : d.subscriptions.find? (fun s => decide (s.userId = userId)) with
    | none =>
      have hnone := List.find?_eq_none.mp hfound row h.mem
      simp [h.ofUser] at hnone
    | some r =>
      have hr := List.find?_some hfound
      rw [h.sole r (List.mem_of_find?_eq_some hfound) (.inr (of_decide_eq_true hr))]
  simp only [Nopass.effectivePlan, Prog.alone, id_eq, hfind]

/-- Writing over the account's row leaves it the account of the customer. -/
theorem AccountOf.upsert (h : AccountOf d customer userId row) {new : Subscription}
    (huser : new.userId = userId) (hcustomer : new.stripeCustomerId = some customer)
    (hrun : (DbSubs.upsertSubscription new).alone id d = (.ok (), d')) :
    AccountOf d' customer userId (DbSubs.overwrite new row) := by
  have hmem : row ∈ d.subscriptions.filter fun r => decide (r.userId = userId) :=
    List.mem_filter.mpr ⟨h.mem, decide_eq_true h.ofUser⟩
  have hkeys : (DbSubs.keysOf userId d).isEmpty = false := by
    rw [List.isEmpty_eq_false_iff]
    exact List.ne_nil_of_mem (List.mem_map_of_mem hmem)
  have hrows : d'.subscriptions = d.subscriptions.map fun r =>
      if decide (r.userId = userId) then DbSubs.overwrite new r else r := by
    have hnodup : ((Tables.subscriptions.get d).map Tables.subscriptions.key).Nodup := by
      have hmap := h.keys.map fun (a b : Uuid) (hab : RowId.subscription a = .subscription b) =>
        RowId.subscription.inj hab
      rwa [List.map_map] at hmap
    simp only [DbSubs.upsertSubscription, autocommit, Prog.stmt_bind, Prog.alone, id, huser, hkeys,
      Bool.false_eq_true, if_false] at hrun
    split at hrun
    · cases hrun
      exact Tables.subscriptions.get_edit_filter (DbSubs.overwrite new) hnodup
    · cases hrun
  constructor
  · rw [hrows]
    exact List.mem_map.mpr ⟨row, h.mem, if_pos (decide_eq_true h.ofUser)⟩
  · exact h.ofUser
  · rw [DbSubs.overwrite, hcustomer]
    rfl
  · intro r hr hsole
    rw [hrows] at hr
    obtain ⟨old, hold, rfl⟩ := List.mem_map.mp hr
    by_cases huser' : old.userId = userId
    · rw [if_pos (decide_eq_true huser'), h.sole old hold (.inr huser')]
    · rw [if_neg (by simpa using huser')] at hsole ⊢
      have heq := h.sole old hold hsole
      exact (huser' (heq ▸ h.ofUser)).elim
  · have hids : d'.subscriptions.map (·.id) = d.subscriptions.map (·.id) := by
      rw [hrows, List.map_map]
      apply List.map_congr_left
      intro r _
      rw [Function.comp_apply]
      split
      · rfl
      · rfl
    rw [hids]
    exact h.keys

/-- A handled event writes what it is taken to say over the account's row. -/
theorem AccountOf.handled (h : AccountOf d customer userId row) {newId : Uuid} {event : StripeEvent}
    {stripeSub : StripeSubscription} (hevent : IsWebhookOf customer event stripeSub)
    (hrun : (Billing.handleWebhook config newId event).alone id d = (.ok (), d')) :
    ∃ row', AccountOf d' customer userId row' ∧
      (row'.plan, row'.status) = Billing.stateOf config event stripeSub := by
  have hfound : (d.subscriptions.filter fun s =>
      decide (s.stripeCustomerId = some stripeSub.customer)).head? = some row := by
    rw [hevent.customer, head?_filter_iff]
    · exact ⟨h.mem, decide_eq_true h.hasCustomer⟩
    · intro a ha b hb hac hbc
      rw [h.sole a ha (.inl (of_decide_eq_true hac)), h.sole b hb (.inl (of_decide_eq_true hbc))]
  have hcustomer : some stripeSub.customer = some customer := congrArg some hevent.customer
  rw [Billing.handleWebhook, hevent.subscription] at hrun
  dsimp only at hrun
  rw [Billing.stateOf]
  split at hrun
  · rename_i hupdate
    have hnot : event.eventType ≠ "customer.subscription.deleted" := by
      rintro hdeleted
      rw [hdeleted] at hupdate
      revert hupdate
      decide
    rw [if_neg hnot]
    change Prog.alone (match (d.subscriptions.filter fun s =>
      decide (s.stripeCustomerId = some stripeSub.customer)).head? with
      | none => pure ()
      | some userSub => DbSubs.upsertSubscription _) id d = _ at hrun
    rw [hfound] at hrun
    have hafter := h.upsert (by exact h.ofUser) (by exact hcustomer) hrun
    exact ⟨_, hafter, rfl⟩
  · rename_i hupdate
    have hdeleted : event.eventType = "customer.subscription.deleted" := by
      rcases hevent.eventType with hcreated | hupdated | hdeleted
      · exact (hupdate (.inl hcreated)).elim
      · exact (hupdate (.inr hupdated)).elim
      · exact hdeleted
    rw [if_pos hdeleted]
    rw [if_pos hdeleted] at hrun
    change Prog.alone (match (d.subscriptions.filter fun s =>
      decide (s.stripeCustomerId = some stripeSub.customer)).head? with
      | none => pure ()
      | some userSub => DbSubs.upsertSubscription _) id d = _ at hrun
    rw [hfound] at hrun
    have hafter := h.upsert (by exact h.ofUser) (by exact hcustomer) hrun
    exact ⟨_, hafter, rfl⟩

/-- After the last of several events the row says what that event is taken to say. -/
theorem AccountOf.handledAll {delivered : List (Uuid × StripeEvent)}
    (hdelivered : ∀ e ∈ delivered, ∃ stripeSub, IsWebhookOf customer e.2 stripeSub)
    (h : AccountOf d customer userId row) (hrun : Billing.handleAll config delivered d = some d') :
    ∃ row', AccountOf d' customer userId row' ∧
      (delivered = [] → row' = row) ∧ ∀ e ∈ delivered.getLast?, ∀ stripeSub,
        e.2.subscription = some stripeSub →
          (row'.plan, row'.status) = Billing.stateOf config e.2 stripeSub := by
  induction delivered generalizing d row with
  | nil =>
    cases hrun
    exact ⟨row, h, fun _ => rfl, by simp⟩
  | cons e rest ih =>
    obtain ⟨newId, event⟩ := e
    rw [List.forall_mem_cons] at hdelivered
    obtain ⟨⟨stripeSub, hevent⟩, hrest⟩ := hdelivered
    rw [Billing.handleAll] at hrun
    split at hrun
    · rename_i d₁ hone
      obtain ⟨row₁, h₁, hstate⟩ := h.handled hevent hone
      obtain ⟨row', h', hsame, hlast⟩ := ih hrest h₁ hrun
      refine ⟨row', h', nofun, ?_⟩
      cases rest with
      | nil =>
        intro e he other hother
        rw [List.getLast?_singleton] at he
        cases he
        rw [hevent.subscription] at hother
        cases hother
        rw [hsame rfl]
        exact hstate
      | cons next rest =>
        rw [List.getLast?_cons_cons]
        exact hlast
    · cases hrun

/-- The statuses that are taken to grant access. -/
theorem stripeStatusToModel_granted (status : String) :
    (stripeStatusToModel status = .active ∨ stripeStatusToModel status = .trialing) ↔
      status ∉ ["past_due", "canceled", "cancelled"] := by
  rw [stripeStatusToModel]
  by_cases hactive : status = "active"
  · simp [hactive]
  · by_cases hpast : status = "past_due"
    · simp [hpast]
    · by_cases hcanceled : status = "canceled" ∨ status = "cancelled"
      · rw [if_neg hactive, if_neg hpast, if_pos hcanceled]
        rcases hcanceled with rfl | rfl
        · simp
        · simp
      · rw [if_neg hactive, if_neg hpast, if_neg hcanceled]
        rw [not_or] at hcanceled
        by_cases htrial : status = "trialing"
        · simp [htrial]
        · simp [htrial, hpast, hcanceled]

/-- The plan of a row that says what an event is taken to say. -/
theorem takenAsPaid_iff {event : StripeEvent} {stripeSub : StripeSubscription}
    (hevent : event.subscription = some stripeSub)
    (hstate : (row.plan, row.status) = Billing.stateOf config event stripeSub)
    (plan : SubscriptionPlan) : TakenAsPaid config event plan ↔
      plan ≠ .free ∧ (row.status = .active ∨ row.status = .trialing) ∧ row.plan = plan := by
  rw [Billing.stateOf] at hstate
  by_cases hdeleted : event.eventType = "customer.subscription.deleted"
  · rw [if_pos hdeleted] at hstate
    obtain ⟨hplan, hstatus⟩ := Prod.mk.inj hstate
    constructor
    · exact fun h => (h.1 hdeleted).elim
    · rintro ⟨hpaid, -, hsame⟩
      exact (hpaid (hsame.symm.trans hplan)).elim
  · rw [if_neg hdeleted] at hstate
    obtain ⟨hplan, hstatus⟩ := Prod.mk.inj hstate
    rw [hstatus, stripeStatusToModel_granted]
    constructor
    · rintro ⟨-, hpaid, other, price, hother, hgranted, hprice, hsame⟩
      rw [hevent] at hother
      cases hother
      rw [hprice] at hplan
      exact ⟨hpaid, hgranted, hplan.trans hsame⟩
    · rintro ⟨hpaid, hgranted, hsame⟩
      refine ⟨hdeleted, hpaid, stripeSub, ?_⟩
      cases hprice : stripeSub.priceId with
      | none =>
        rw [hprice] at hplan
        exact (hpaid (hsame.symm.trans hplan)).elim
      | some price =>
        rw [hprice] at hplan
        exact ⟨price, hevent, hgranted, rfl, hplan.symm.trans hsame⟩

end Webhooks

/-- After all events of a customer were handled, a paid plan is that of a subscription in its true
state exactly when the event that was delivered last is not taken as paid for another plan than one
that some subscription pays for. -/
theorem paidFollows_iff (config : PriceConfig) (customer : String) (userId : Uuid)
    (row : Subscription) (d d' : Db) (created : List StripeEvent)
    (delivered : List (Uuid × StripeEvent)) (plan : SubscriptionPlan)
    (haccount : AccountOf d customer userId row)
    (hfree : (effectivePlan userId).alone id d = (.ok .free, d))
    (hcreated : ∀ event ∈ created, ∃ stripeSub, IsWebhookOf customer event stripeSub)
    (hdelivered : ∀ event, event ∈ delivered.map (·.2) ↔ event ∈ created)
    (hrun : Billing.handleAll config delivered d = some d')
    (hplan : (effectivePlan userId).alone id d' = (.ok plan, d')) :
    PaidFollows config created plan ↔
      DeliveredInTime config created (delivered.map (·.2)) := by
  have hall : ∀ e ∈ delivered, ∃ stripeSub, IsWebhookOf customer e.2 stripeSub :=
    fun e he => hcreated e.2 ((hdelivered e.2).mp (List.mem_map_of_mem he))
  obtain ⟨row', haccount', hsame, hlast⟩ := haccount.handledAll hall hrun
  rw [haccount'.effectivePlan] at hplan
  obtain ⟨hplan, -⟩ := Prod.mk.inj hplan
  replace hplan := Except.ok.inj hplan
  cases hend : delivered.getLast? with
  | none =>
    have hnil : delivered = [] := List.getLast?_eq_none_iff.mp hend
    have hunpaid : plan = .free := by
      rw [haccount.effectivePlan] at hfree
      rw [← hplan, hsame hnil]
      exact Except.ok.inj (Prod.mk.inj hfree).1
    constructor
    · intro _ event hevent
      rw [hnil] at hevent
      cases hevent
    · exact fun _ hpaid => (hpaid hunpaid).elim
  | some e =>
    obtain ⟨stripeSub, hevent⟩ := hall e (List.mem_of_getLast? hend)
    have hstate := hlast e hend stripeSub hevent.subscription
    have htaken := takenAsPaid_iff hevent.subscription hstate
    have hgetLast : (delivered.map (·.2)).getLast? = some e.2 := by
      rw [List.getLast?_map, hend]
      rfl
    constructor
    · intro hfollows event hget paid hpaid
      rw [hgetLast] at hget
      cases hget
      obtain ⟨hne, hgranted, hpaidPlan⟩ := (htaken paid).mp hpaid
      rw [if_pos hgranted, hpaidPlan] at hplan
      subst hplan
      exact hfollows hne
    · intro htime hpaid
      by_cases hgranted : row'.status = .active ∨ row'.status = .trialing
      · rw [if_pos hgranted] at hplan
        exact htime e.2 hgetLast plan ((htaken plan).mpr ⟨hpaid, hgranted, hplan⟩)
      · rw [if_neg hgranted] at hplan
        exact (hpaid hplan.symm).elim

/-- One price for the plan for one person. -/
private def onePrice : PriceConfig where
  stripeProMonthlyPriceId := some "price_pro"
  stripeProAnnualPriceId := none
  stripeTeamsPriceId := none

private def subscriptionOf (status : String) : StripeSubscription where
  id := "sub_1"
  customer := "cus_1"
  status := status
  prices := ["price_pro"]
  currentPeriodEnd := none

/-- An event that a subscription changed its status. -/
private def updatedTo (status : String) : StripeEvent where
  eventType := "customer.subscription.updated"
  subscription := some (subscriptionOf status)

/-- The row that `ensure_stripe_customer` makes. -/
private def customerRow : Subscription where
  id := 1
  userId := 2
  plan := .free
  status := .active
  stripeCustomerId := some "cus_1"

private def oneCustomer : Db where
  users := [{ id := 2 }]
  subscriptions := [customerRow]

private theorem accountOf_oneCustomer : AccountOf oneCustomer "cus_1" 2 customerRow := by
  constructor
  · exact List.mem_singleton_self _
  · rfl
  · rfl
  · exact fun r hr _ => List.mem_singleton.mp hr
  · decide

private theorem isWebhookOf_updatedTo (status : String) :
    IsWebhookOf "cus_1" (updatedTo status) (subscriptionOf status) :=
  ⟨rfl, rfl, .inr (.inl rfl)⟩

/-- The row after such an event. -/
private def rowAfter (status : String) : Subscription :=
  { customerRow with
    plan := .pro, status := stripeStatusToModel status, stripeSubscriptionId := some "sub_1" }

/-- An active subscription pays for its plan. -/
theorem paidFollows_active : Billing.handleAll onePrice [(3, updatedTo "active")] oneCustomer =
      some { oneCustomer with subscriptions := [rowAfter "active"] } ∧
    PaidFollows onePrice [updatedTo "active"] .pro := by
  have hrun : Billing.handleAll onePrice [(3, updatedTo "active")] oneCustomer =
      some { oneCustomer with subscriptions := [rowAfter "active"] } := by decide
  refine ⟨hrun, (paidFollows_iff onePrice "cus_1" 2 customerRow oneCustomer _
    [updatedTo "active"] [(3, updatedTo "active")] .pro accountOf_oneCustomer rfl ?_ ?_ hrun
    rfl).mpr ?_⟩
  · intro event hevent
    rw [List.mem_singleton.mp hevent]
    exact ⟨_, isWebhookOf_updatedTo "active"⟩
  · exact fun event => Iff.rfl
  · rintro event hevent plan ⟨hnot, -, stripeSub, price, hsub, -, hprice, hplan⟩
    rw [List.map_singleton, List.getLast?_singleton] at hevent
    cases hevent
    cases hsub
    exact ⟨updatedTo "active", ⟨[], [], rfl, nofun⟩, hnot, _, price, rfl, .inl rfl, hprice, hplan⟩

/-- A subscription that is unpaid gives access to its plan. -/
theorem not_paidFollows_unpaid : ¬ ∀ (config : PriceConfig) (customer : String) (userId : Uuid)
    (row : Subscription) (d d' : Db) (created : List StripeEvent)
    (delivered : List (Uuid × StripeEvent)) (plan : SubscriptionPlan),
    AccountOf d customer userId row → (effectivePlan userId).alone id d = (.ok .free, d) →
      (∀ event ∈ created, ∃ stripeSub, IsWebhookOf customer event stripeSub) →
      (∀ event, event ∈ delivered.map (·.2) ↔ event ∈ created) →
      Billing.handleAll config delivered d = some d' →
      (effectivePlan userId).alone id d' = (.ok plan, d') → PaidFollows config created plan := by
  intro h
  have hrun : Billing.handleAll onePrice [(3, updatedTo "unpaid")] oneCustomer =
      some { oneCustomer with subscriptions := [rowAfter "unpaid"] } := by decide
  obtain ⟨event, ⟨before, after, hcreated, -⟩, -, stripeSub, price, hsub, hstatus, -⟩ :=
    h onePrice "cus_1" 2 customerRow oneCustomer _ [updatedTo "unpaid"] [(3, updatedTo "unpaid")]
      .pro accountOf_oneCustomer rfl
      (fun event hevent => ⟨_, List.mem_singleton.mp hevent ▸ isWebhookOf_updatedTo "unpaid"⟩)
      (fun event => Iff.rfl) hrun rfl (by decide)
  have hevent : event = updatedTo "unpaid" := by
    have hmem : event ∈ [updatedTo "unpaid"] := by
      rw [hcreated]
      exact List.mem_append_right _ List.mem_cons_self
    exact List.mem_singleton.mp hmem
  subst hevent
  cases hsub
  revert hstatus
  decide

end Nopass
