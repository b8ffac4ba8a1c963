import WebAudit.Credits.Ledger

/-!
# Subscriptions: the row, and what writes it

One user's `Subscription` row and credit ledger, and the functions of
`services/billing/subscription.service.ts` and `services/admin/plan-assignment.service.ts`
that write them: `subscribe`, `renewSubscription`, `changePlan`, `cancelSubscription` and
`assignPlan`.

## The model

* A function is the sequence of its database calls. Each call, and each `$transaction`, is
  one step on the store; between two of them anything else may run, and the process may
  die. Where a function makes more than one call it is a small machine: its state `…Pc`
  says which call comes next and holds what was read before, and `….step` makes that call.
* A row that is updated keeps its other columns as they are in the store, whatever was read
  earlier.
* The plan table is fixed: `plans id` is the plan of that id, if there is one.
* A step that reads the clock is handed the reading; `now` is the one made when the
  function was called.
* Columns that only display code reads (`createdAt`, `updatedAt`, the audit entry of
  `assignPlan`) are left out.
-/

namespace WebAudit.Billing

open WebAudit.Lib WebAudit.Credits

/-- `SubscriptionStatus`. -/
inductive SubscriptionStatus where
  | ACTIVE
  | PAST_DUE
  | CANCELLED
  | EXPIRED
  deriving DecidableEq

/-- The columns of `Plan` that billing reads. -/
structure Plan where
  monthlyCredits : ℤ
  isActive : Bool
  allowCreditPurchase : Bool
  deriving DecidableEq

/-- The row of `Subscription`. A user has at most one. -/
structure Subscription where
  planId : String
  status : SubscriptionStatus
  periodStart : ℤ
  periodEnd : ℤ
  cancelAtPeriodEnd : Bool
  externalCustomerId : Option String
  externalSubscriptionId : Option String
  /-- An operator assigned the plan; nothing was paid for it. -/
  adminAssigned : Bool
  renewalWarningSentAt : Option ℤ
  deriving DecidableEq

/-- What a function returns about the row. -/
structure SubscriptionSummary where
  planId : String
  status : SubscriptionStatus
  periodStart : ℤ
  periodEnd : ℤ
  cancelAtPeriodEnd : Bool
  deriving DecidableEq

def Subscription.summary (sub : Subscription) : SubscriptionSummary :=
  ⟨sub.planId, sub.status, sub.periodStart, sub.periodEnd, sub.cancelAtPeriodEnd⟩

/-- A row of `BillingEvent`: received, and applied once `appliedAt` is set. -/
structure BillingEvent where
  id : String
  appliedAt : Option ℤ
  deriving DecidableEq

/-- The tables of one user. -/
structure Store where
  ledger : Ledger
  subscription : Option Subscription
  billingEvents : List BillingEvent
  deriving DecidableEq

/-- The event's row, if there is one. -/
def Store.eventRow (s : Store) (event : String) : Option BillingEvent := s.billingEvents.find? (·.id = event)

/-- The event was received, and its effect applied. -/
def Store.applied (s : Store) (event : String) : Bool := ((s.eventRow event).bind (·.appliedAt)).isSome

/-- Insert the event's row, not applied. -/
def Store.receive (s : Store) (event : String) : Store :=
  { s with billingEvents := s.billingEvents ++ [⟨event, none⟩] }

/-- Set the event's `appliedAt`. -/
def Store.markApplied (s : Store) (event : String) (clock : ℤ) : Store :=
  { s with
    billingEvents := s.billingEvents.map fun row =>
      if row.id = event then { row with appliedAt := some clock } else row }

/-- What the functions throw. -/
inductive BillingError where
  | planNotSubscribable (message : String)
  | noSubscription (message : String)
  | planNotAssignable (message : String)
  | invalidPlanAssignment (message : String)
  /-- The database found no row to update or to return. -/
  | recordNotFound
  | credits (e : CreditsError)
  deriving DecidableEq

/-- A program over the user's tables. -/
abbrev BillingM := Db Store BillingError

/-- Run a program of the ledger. -/
def onLedger {α : Type} (m : LedgerM α) : BillingM α :=
  m.within (·.ledger) (fun l s => { s with ledger := l }) .credits

/-- `update`: change the row, which must be there, and return it. -/
def updateSubscription (f : Subscription → Subscription) : BillingM Subscription := do
  let s ← Db.get
  match s.subscription with
  | none => Db.throw .recordNotFound
  | some sub => do
    Db.modify fun s => { s with subscription := some (f sub) }
    pure (f sub)

/-- `PERIOD_MS`. -/
def periodMs : ℤ := 30 * dayMs

/-- `NoSubscriptionError`. -/
def noSubscription : BillingError := .noSubscription "This account has no active subscription."

/-- `PlanNotSubscribableError`. -/
def planNotSubscribable (planId : String) : BillingError :=
  .planNotSubscribable
    (if planId = "free" then "The free tier is the default; there is nothing to subscribe to."
    else "No such active plan: " ++ planId ++ ".")

section Functions

variable (plans : String → Option Plan)

/-- `loadSubscribablePlan`. -/
def loadSubscribablePlan (planId : String) : Except BillingError Plan :=
  if planId = "free" then .error (planNotSubscribable "free")
  else
    match plans planId with
    | none => .error (planNotSubscribable planId)
    | some plan => if plan.isActive then .ok plan else .error (planNotSubscribable planId)

/-! ### `renewSubscription` -/

/-- A call of `renewSubscription`. -/
structure RenewInput where
  now : ℤ
  billingEventId : Option String
  deriving DecidableEq

/-- Where a call of `renewSubscription` stands. -/
inductive RenewPc where
  /-- Before the row is read. -/
  | read
  /-- The row and its plan were read; the lots that die at its boundary are swept next. -/
  | sweep (sub : Subscription) (plan : Plan)
  /-- Swept; the subscription lapses next. -/
  | lapse
  /-- Swept; the next period is written next. -/
  | write (sub : Subscription) (plan : Plan)
  /-- The event's grant was there already; the row is read again. -/
  | reread
  | returned (summary : SubscriptionSummary)
  | threw (e : BillingError)
  deriving DecidableEq

/-- A cancelled subscription lapses instead of renewing. -/
def Subscription.lapses (sub : Subscription) : Bool := sub.cancelAtPeriodEnd || sub.status = .CANCELLED

/-- The start of the next period. -/
def nextStart (sub : Subscription) (now : ℤ) : ℤ := if now < sub.periodEnd then sub.periodEnd else now

/-- The end of the next period. -/
def nextEnd (sub : Subscription) (now : ℤ) : ℤ := nextStart sub now + periodMs

/-- The row after a lapse. -/
def Subscription.lapsed (row : Subscription) : Subscription :=
  { row with status := .EXPIRED, renewalWarningSentAt := none }

/-- The row after the next period was written, from what had been read as `sub`. -/
def Subscription.renewed (row sub : Subscription) (now : ℤ) : Subscription :=
  { row with
    status := .ACTIVE, periodStart := nextStart sub now, periodEnd := nextEnd sub now
    renewalWarningSentAt := none }

/-- The grant of a renewal. -/
def renewalGrant (input : RenewInput) (sub : Subscription) (plan : Plan) : GrantInput :=
  { amount := plan.monthlyCredits, kind := .PLAN, source := .PLAN_RENEWAL
    expiresAt := some (nextEnd sub input.now), billingEventId := input.billingEventId, reason := none }

/-- The transaction that moves the boundary, from what was read, and grants the period's credits. -/
def writePeriod (input : RenewInput) (sub : Subscription) (plan : Plan) (clock : ℤ) :
    BillingM SubscriptionSummary := Db.transaction do
  let updated ← updateSubscription fun row => row.renewed sub input.now
  if plan.isActive then do
    let _ ← onLedger (grantLot clock (renewalGrant input sub plan))
    pure updated.summary
  else pure updated.summary

/-- The next database call of `renewSubscription`. -/
def RenewPc.step (input : RenewInput) (clock : ℤ) (pc : RenewPc) (s : Store) : RenewPc × Store :=
  match pc with
  | .read =>
    match s.subscription with
    | none => (.threw noSubscription, s)
    | some sub =>
      match plans sub.planId with
      | none => (.threw .recordNotFound, s)
      | some plan => (.sweep sub plan, s)
  | .sweep sub plan =>
    match (onLedger (expireRenewedLots sub.periodEnd clock)).run s with
    | (.ok _, s') => (if sub.lapses then .lapse else .write sub plan, s')
    | (.error e, s') => (.threw e, s')
  | .lapse =>
    match (updateSubscription Subscription.lapsed).run s with
    | (.ok sub, s') => (.returned sub.summary, s')
    | (.error e, s') => (.threw e, s')
  | .write sub plan =>
    match (writePeriod input sub plan clock).run s with
    | (.ok summary, s') => (.returned summary, s')
    | (.error (.credits (.duplicateBillingEventGrant _)), s') => (.reread, s')
    | (.error e, s') => (.threw e, s')
  | .reread =>
    match s.subscription with
    | none => (.threw .recordNotFound, s)
    | some sub => (.returned sub.summary, s)
  | .returned summary => (.returned summary, s)
  | .threw e => (.threw e, s)

/-! ### `subscribe` -/

structure SubscribeInput where
  planId : String
  customerId : Option String
  subscriptionId : Option String
  billingEventId : Option String
  now : ℤ
  deriving DecidableEq

/-- The row `subscribe` writes. -/
def SubscribeInput.row (input : SubscribeInput) : Subscription :=
  { planId := input.planId, status := .ACTIVE
    periodStart := input.now, periodEnd := input.now + periodMs, cancelAtPeriodEnd := false
    externalCustomerId := input.customerId, externalSubscriptionId := input.subscriptionId
    adminAssigned := false, renewalWarningSentAt := none }

/-- The transaction of `subscribe`: write the row, and grant the first period's credits. -/
def subscribeTransaction (input : SubscribeInput) (plan : Plan) (clock : ℤ) : BillingM SubscriptionSummary :=
  Db.transaction do
    Db.modify fun s => { s with subscription := some input.row }
    let _ ← onLedger (grantLot clock
      { amount := plan.monthlyCredits, kind := .PLAN, source := .PLAN_RENEWAL
        expiresAt := some (input.now + periodMs), billingEventId := input.billingEventId, reason := none })
    pure input.row.summary

/-! ### `changePlan`, `cancelSubscription`, `assignPlan` -/

/-- The update of `changePlan`. Credits follow at the next renewal. -/
def changePlanUpdate (planId : String) : BillingM Subscription :=
  updateSubscription fun row => { row with planId := planId, status := .ACTIVE, cancelAtPeriodEnd := false }

/-- The update of `cancelSubscription`. -/
def cancelUpdate : BillingM Subscription :=
  updateSubscription fun row => { row with cancelAtPeriodEnd := true }

/-- `INDEFINITE_PERIOD_MS`. -/
def indefinitePeriodMs : ℤ := 100 * 365 * dayMs

structure AssignInput where
  planId : String
  periodEnd : Option ℤ
  reason : String
  deriving DecidableEq

/-- The characters that `trim` removes. -/
def isSpace (c : Char) : Bool :=
  c.toNat ∈ [0x09, 0x0A, 0x0B, 0x0C, 0x0D, 0x20, 0xA0, 0x1680, 0x2028, 0x2029, 0x202F, 0x205F, 0x3000, 0xFEFF]
    || (0x2000 ≤ c.toNat && c.toNat ≤ 0x200A)

/-- `validate`, with the clock it reads. -/
def AssignInput.validate (input : AssignInput) (clock : ℤ) : Except BillingError Unit :=
  if input.reason.toList.all isSpace then .error (.invalidPlanAssignment "reason is required")
  else
    match input.periodEnd with
    | none => .ok ()
    | some t =>
      if t ≤ clock then .error (.invalidPlanAssignment "periodEnd, if given, must be in the future") else .ok ()

/-- The transaction of `assignPlan`: expire the row, or write one that nothing was paid for. -/
def assignTransaction (input : AssignInput) (now : ℤ) : BillingM Unit := Db.transaction do
  if input.planId = "free" then
    Db.modify fun s =>
      { s with
        subscription := s.subscription.map fun row =>
          { row with status := .EXPIRED, cancelAtPeriodEnd := false, renewalWarningSentAt := none } }
  else
    match plans input.planId with
    | none => Db.throw (.planNotAssignable ("No such active plan: " ++ input.planId ++ "."))
    | some plan =>
      if plan.isActive then
        Db.modify fun s =>
          { s with
            subscription := some
              { planId := input.planId, status := .ACTIVE, periodStart := now
                periodEnd := input.periodEnd.getD (now + indefinitePeriodMs)
                cancelAtPeriodEnd := false, externalCustomerId := none, externalSubscriptionId := none
                adminAssigned := true, renewalWarningSentAt := none } }
      else Db.throw (.planNotAssignable ("No such active plan: " ++ input.planId ++ "."))

end Functions

end WebAudit.Billing
