import WebAudit.Billing.Subscription

/-!
# Payments: events, and what applies them

A checkout leaves a row of `PendingPayment`. What becomes of it is told by the payment
provider in events, each delivered any number of times by the webhook and by the signed
browser return; both call `applyVerifiedPaymentEvent`
(`services/billing/apply-payment-event.ts`). `sweepExpiredPendingPayments`
(`payment-expiry-sweep.ts`) gives up on payments nothing was heard of.

## The model

* `Tables` are the tables of one user, as in `WebAudit.Billing.Subscription`; a payment's
  `id` is its position in `payments`.
* A call is a small machine, `PaymentPc` and `SweepPc`: one step for each read, write or
  transaction. A call that the database fails, or whose process dies, stops where it is.
* `number text` is `Number(text)`, where that is a whole number.
-/

namespace WebAudit.Billing

open WebAudit.Lib WebAudit.Credits

/-- `PaymentEventType`. -/
inductive PaymentEventType where
  | paymentSucceeded
  | paymentFailed
  | subscriptionCancelled
  | refundSucceeded
  deriving DecidableEq

/-- A record of strings, in the order its entries were written; a later entry replaces an earlier one. -/
abbrev Metadata := List (String × String)

def Metadata.get (m : Metadata) (key : String) : Option String := m.reverse.lookup key

/-- What a payment provider reports. -/
structure PaymentEvent where
  id : String
  type : PaymentEventType
  providerReference : String
  userId : String
  amountMicros : ℤ
  metadata : Metadata
  deriving DecidableEq

/-- `PendingPaymentStatus`. -/
inductive PendingPaymentStatus where
  | PENDING
  | SUCCEEDED
  | FAILED
  | CANCELLED
  | EXPIRED
  deriving DecidableEq

/-- A row of `PendingPayment`; of its `metadata`, the entries that are strings. -/
structure PendingPayment where
  userId : String
  kind : String
  providerReference : String
  amountMicros : ℤ
  status : PendingPaymentStatus
  metadata : Metadata
  createdAt : ℤ
  deriving DecidableEq

/-- A row of `Receipt`. -/
structure Receipt where
  userId : String
  billingEventId : String
  providerReference : String
  kind : String
  amountMicros : ℤ
  deriving DecidableEq

/-- The tables that payments are about. -/
structure Tables where
  store : Store
  payments : List PendingPayment
  receipts : List Receipt
  deriving DecidableEq

/-- What applying an event throws. -/
inductive PaymentError where
  | error (message : String)
  | invalidPurchaseAmount (message : String)
  | entitlement (currentTier : String) (requiredTier : Option String) (message : String)
  | billing (e : BillingError)
  deriving DecidableEq

/-! ### The rows -/

/-- Where the row of this reference is. -/
def Tables.locate (s : Tables) (providerReference : String) : Option ℕ :=
  s.payments.findIdx? (·.providerReference = providerReference)

/-- `findPendingPayment`: the row of this reference, with its id. -/
def Tables.findPendingPayment (s : Tables) (providerReference : String) : Option (ℕ × PendingPayment) :=
  (s.locate providerReference).bind fun id => (s.payments[id]?).map fun pending => (id, pending)

/-- `eventMatchesPending`. -/
def eventMatchesPending (event : PaymentEvent) (pending : PendingPayment) : Bool :=
  let kind := event.metadata.get "kind"
  event.userId = pending.userId && event.amountMicros = pending.amountMicros && kind = some pending.kind &&
    pending.metadata.get "kind" = kind &&
    (if kind = some "subscription" then
      (event.metadata.get "planId").isSome && event.metadata.get "planId" = pending.metadata.get "planId"
    else if kind = some "credits" then
      (event.metadata.get "credits").isSome && event.metadata.get "credits" = pending.metadata.get "credits"
    else false)

/-- The status an event closes its payment with, if it closes it. -/
def PaymentEventType.terminalStatus : PaymentEventType → Option PendingPaymentStatus
  | .paymentSucceeded => some .SUCCEEDED
  | .paymentFailed => some .FAILED
  | .subscriptionCancelled => some .CANCELLED
  | .refundSucceeded => none

/-- `transitionPendingPayment`: only a pending row moves. -/
def Tables.transitionPendingPayment (s : Tables) (id : ℕ) (status : PendingPaymentStatus) : Bool × Tables :=
  match s.payments[id]? with
  | none => (false, s)
  | some pending =>
    if pending.status = .PENDING then (true, { s with payments := s.payments.set id { pending with status := status } })
    else (false, s)

@[simp] theorem transition_store (s : Tables) (id : ℕ) (status : PendingPaymentStatus) :
    (s.transitionPendingPayment id status).2.store = s.store := by
  unfold Tables.transitionPendingPayment
  split
  · rfl
  · split <;> rfl

/-- `createReceiptForPaymentEvent`: one receipt for each event. -/
def Tables.createReceiptForPaymentEvent (s : Tables) (event : PaymentEvent) : Tables :=
  if s.receipts.any (·.billingEventId = event.id) then s
  else
    { s with
      receipts := s.receipts ++
        [{ userId := event.userId, billingEventId := event.id, providerReference := event.providerReference
           kind := (event.metadata.get "kind").getD "payment.succeeded", amountMicros := event.amountMicros }] }

/-! ### `purchaseCredits` -/

/-- The columns of `PLAN_TIERS` that decide who may buy credits. -/
structure PlanTier where
  id : String
  monthlyCredits : ℤ
  allowCreditPurchase : Bool
  deriving DecidableEq

/-- `PLAN_TIERS`. -/
def planTiers : List PlanTier :=
  [⟨"free", 50, false⟩, ⟨"starter", 300, true⟩, ⟨"pro", 1200, true⟩, ⟨"business", 4000, true⟩]

/-- `permittingTierFor('CREDIT_PURCHASE')`: the cheapest tier. -/
def permittingTier : Option String :=
  ((planTiers.insertionSort fun a b => a.monthlyCredits ≤ b.monthlyCredits).find? (·.allowCreditPurchase)).map (·.id)

/-- `subscriptionOwnsPeriod`. -/
def subscriptionOwnsPeriod (status : SubscriptionStatus) (periodEnd now : ℤ) : Bool :=
  status = .ACTIVE || (status = .CANCELLED && now < periodEnd)

/-- The refusal of `assertEntitled(…, 'CREDIT_PURCHASE')` under a plan. -/
def notEntitled (planId : String) : PaymentError :=
  .entitlement planId permittingTier
    (match permittingTier with
    | none => "Purchasing additional credits is not available on any plan."
    | some tier =>
      "Purchasing additional credits requires the " ++ tier ++ " plan or higher; you are on " ++ planId ++ ".")

/-- The transaction of `purchaseCredits`. -/
def purchaseTransaction (credits : ℤ) (billingEventId : String) (clock : ℤ) : BillingM Unit := Db.transaction do
  let _ ← onLedger (grantLot clock
    { amount := credits, kind := .PURCHASED, source := .PURCHASE, expiresAt := none
      billingEventId := some billingEventId, reason := none })
  pure ()

/-! ### `applyVerifiedPaymentEvent` -/

/-- Where a call of `applyVerifiedPaymentEvent` stands: the call it makes next. -/
inductive PaymentPc where
  /-- Before the event's row is inserted. -/
  | insert
  /-- The row was there; it is read next. -/
  | lookup
  /-- The pending payment is read next. -/
  | read (status : PendingPaymentStatus)
  /-- `subscribe` reads the plan. -/
  | loadPlan (pendingPaymentId : ℕ)
  /-- `subscribe` writes the row and grants. -/
  | subscribe (pendingPaymentId : ℕ) (plan : Plan) (now : ℤ)
  /-- The event's grant was there already; `subscribe` reads the row. -/
  | reload (pendingPaymentId : ℕ)
  /-- `purchaseCredits` reads the subscription. -/
  | entitle (pendingPaymentId : ℕ) (credits : ℤ)
  /-- No subscription owns the period: `purchaseCredits` reads the free plan. -/
  | freePlan (pendingPaymentId : ℕ) (credits : ℤ)
  /-- `purchaseCredits` grants. -/
  | purchase (pendingPaymentId : ℕ) (credits : ℤ)
  /-- The receipt is written next. -/
  | receipt (pendingPaymentId : ℕ)
  /-- The pending payment is closed next. -/
  | transition (pendingPaymentId : ℕ) (status : PendingPaymentStatus)
  /-- The event is marked applied next. -/
  | finalize
  | returned (applied : Bool)
  | threw (e : PaymentError)
  deriving DecidableEq

/-- What follows a transaction that grants for an event: to have been granted already is no error. -/
def Tables.afterGrant {α : Type} (s : Tables) (granted already : PaymentPc) :
    Except BillingError α × Store → PaymentPc × Tables
  | (.ok _, store) => (granted, { s with store })
  | (.error (.credits (.duplicateBillingEventGrant _)), store) => (already, { s with store })
  | (.error e, store) => (.threw (.billing e), { s with store })

section Calls

variable (plans : String → Option Plan) (number : String → Option ℤ)

/-- Where `applyProviderPaymentEvent` begins: an event that closes nothing has no effect. -/
def PaymentEvent.effect (event : PaymentEvent) : PaymentPc :=
  match event.type.terminalStatus with
  | none => .finalize
  | some status => .read status

/-- What follows when the event matches its pending payment. -/
def PaymentEvent.matched (event : PaymentEvent) (pendingPaymentId : ℕ) (status : PendingPaymentStatus) : PaymentPc :=
  if event.type = .paymentSucceeded then
    if event.metadata.get "kind" = some "subscription" then .loadPlan pendingPaymentId
    else if event.metadata.get "kind" = some "credits" then
      match (event.metadata.get "credits").bind number with
      | none => .threw (.invalidPurchaseAmount "A credit purchase must be a positive whole number of credits.")
      | some credits =>
        if credits ≤ 0 then
          .threw (.invalidPurchaseAmount "A credit purchase must be a positive whole number of credits.")
        else .entitle pendingPaymentId credits
    else .receipt pendingPaymentId
  else .transition pendingPaymentId status

/-- The next database call of `applyVerifiedPaymentEvent`. -/
def PaymentPc.step (event : PaymentEvent) (clock : ℤ) (pc : PaymentPc) (s : Tables) : PaymentPc × Tables :=
  match pc with
  | .insert =>
    match s.store.eventRow event.id with
    | some _ => (.lookup, s)
    | none => (event.effect, { s with store := s.store.receive event.id })
  | .lookup => if s.store.applied event.id then (.returned false, s) else (event.effect, s)
  | .read status =>
    match s.findPendingPayment event.providerReference with
    | none =>
      (.threw (.error ("No pending payment for provider reference " ++ event.providerReference ++ ".")), s)
    | some (id, pending) =>
      if pending.status ≠ .PENDING then (.finalize, s)
      else if eventMatchesPending event pending then (event.matched number id status, s)
      else (.threw (.error ("Payment event " ++ event.id ++ " does not match its pending payment.")), s)
  | .loadPlan id =>
    match loadSubscribablePlan plans ((event.metadata.get "planId").getD "") with
    | .error e => (.threw (.billing e), s)
    | .ok plan => (.subscribe id plan clock, s)
  | .subscribe id plan now =>
    s.afterGrant (.receipt id) (.reload id)
      ((subscribeTransaction ⟨(event.metadata.get "planId").getD "", none, none, some event.id, now⟩ plan clock).run s.store)
  | .reload id =>
    match s.store.subscription with
    | none => (.threw (.billing .recordNotFound), s)
    | some _ => (.receipt id, s)
  | .entitle id credits =>
    match s.store.subscription with
    | none => (.freePlan id credits, s)
    | some sub =>
      if subscriptionOwnsPeriod sub.status sub.periodEnd clock then
        match plans sub.planId with
        | none => (.threw (.billing .recordNotFound), s)
        | some plan =>
          if plan.allowCreditPurchase then (.purchase id credits, s) else (.threw (notEntitled sub.planId), s)
      else (.freePlan id credits, s)
  | .freePlan id credits =>
    match plans "free" with
    | none => (.threw (.billing .recordNotFound), s)
    | some plan => if plan.allowCreditPurchase then (.purchase id credits, s) else (.threw (notEntitled "free"), s)
  | .purchase id credits =>
    s.afterGrant (.receipt id) (.receipt id) ((purchaseTransaction credits event.id clock).run s.store)
  | .receipt id => (.transition id .SUCCEEDED, s.createReceiptForPaymentEvent event)
  | .transition id status => (.finalize, (s.transitionPendingPayment id status).2)
  | .finalize =>
    match s.store.eventRow event.id with
    | none => (.returned false, s)
    | some row =>
      if row.appliedAt = none then (.returned true, { s with store := s.store.markApplied event.id clock })
      else (.returned false, s)
  | .returned applied => (.returned applied, s)
  | .threw e => (.threw e, s)

/-! ### `sweepExpiredPendingPayments` -/

/-- A call of `sweepExpiredPendingPayments`: `now` less the abandonment window, and the batch. -/
structure SweepInput where
  cutoff : ℤ
  batchSize : ℕ
  deriving DecidableEq

/-- Where a sweep stands. -/
inductive SweepPc where
  /-- The candidates are read next. -/
  | read
  /-- These are left to close, and so many were closed. -/
  | expire (candidates : List ℕ) (expired : ℕ)
  | returned (expired : ℕ)
  deriving DecidableEq

/-- The pending payments that are old enough, the oldest first. -/
def Tables.candidates (s : Tables) (input : SweepInput) : List ℕ :=
  (((s.payments.zipIdx.filter fun p => p.1.status = .PENDING && p.1.createdAt ≤ input.cutoff).insertionSort
    fun p q => p.1.createdAt ≤ q.1.createdAt).take input.batchSize).map (·.2)

/-- The next database call of `sweepExpiredPendingPayments`. -/
def SweepPc.step (input : SweepInput) (pc : SweepPc) (s : Tables) : SweepPc × Tables :=
  match pc with
  | .read => (.expire (s.candidates input) 0, s)
  | .expire [] expired => (.returned expired, s)
  | .expire (id :: rest) expired =>
    let (moved, s') := s.transitionPendingPayment id .EXPIRED
    (.expire rest (if moved then expired + 1 else expired), s')
  | .returned expired => (.returned expired, s)

end Calls

end WebAudit.Billing
