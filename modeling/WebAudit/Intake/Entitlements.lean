import WebAudit.Billing.Payment

/-!
# Entitlements: which plan a user's work runs under

`services/billing/entitlements.ts`. The effective plan is the subscription's while it owns the period, and the
free one otherwise (`resolveEffectivePlan`). The plan that `createScan` and `createReadinessScan` read is another
one: that of the subscription's row, whatever its status (`Account.subscribedPlan`).

The plan table is the database's; the tiers (`planTiers`) are the constant that it was filled from.
-/

namespace WebAudit.Intake

open WebAudit.Billing (SubscriptionStatus subscriptionOwnsPeriod)

inductive InputType where
  | URL
  | REPOSITORY
  | ARCHIVE
  deriving DecidableEq

/-- What an entitlement reads of a plan. -/
structure EffectivePlan where
  id : String
  allowedInputTypes : List InputType
  allowLoadGeneration : Bool
  allowReadinessPass : Bool
  allowCreditPurchase : Bool
  allowCustomCapability : Bool
  concurrentScanLimit : ℤ
  queuePriority : ℤ
  deriving DecidableEq

structure PlanTier extends EffectivePlan where
  monthlyCredits : ℤ
  deriving DecidableEq

/-- A row of `Plan`. -/
structure PlanRow extends PlanTier where
  isActive : Bool
  deriving DecidableEq

/-- `PLAN_TIERS`. -/
def planTiers : List PlanTier := [
  ⟨⟨"free", [.URL], false, false, false, false, 1, 40⟩, 50⟩,
  ⟨⟨"starter", [.URL, .ARCHIVE], false, true, true, false, 1, 30⟩, 300⟩,
  ⟨⟨"pro", [.URL, .ARCHIVE, .REPOSITORY], true, true, true, false, 3, 20⟩, 1200⟩,
  ⟨⟨"business", [.URL, .ARCHIVE, .REPOSITORY], true, true, true, true, 6, 10⟩, 4000⟩]

/-- A row of `Subscription`, and that of its plan. -/
structure Subscription where
  plan : PlanRow
  status : SubscriptionStatus
  periodEnd : ℤ
  deriving DecidableEq

/-- What is read of a user, and the plan table. -/
structure Account where
  subscription : Option Subscription
  plans : List PlanRow
  deriving DecidableEq

namespace Account

variable (account : Account)

/-- `findUniqueOrThrow({ where: { id: 'free' } })`. -/
def free : Option EffectivePlan := (account.plans.find? (·.id = "free")).map (·.toEffectivePlan)

/-- The plan a user's next chargeable operation runs under; without a free plan it throws. -/
def resolveEffectivePlan (now : ℤ) : Option EffectivePlan :=
  match account.subscription with
  | none => account.free
  | some subscription =>
    if subscriptionOwnsPeriod subscription.status subscription.periodEnd now then some subscription.plan.toEffectivePlan
    else account.free

/-- `user.subscription?.plan ?? free`. -/
def subscribedPlan : Option EffectivePlan :=
  match account.subscription with
  | none => account.free
  | some subscription => some subscription.plan.toEffectivePlan

/-- The cheapest active plan that `permits`. -/
def cheapestActiveTierId (permits : PlanRow → Bool) : Option String :=
  ((account.plans.filter fun plan => permits plan && plan.isActive).insertionSort fun a b => a.monthlyCredits ≤ b.monthlyCredits).head?.map
    (·.id)

end Account

/-! ### Features -/

inductive EntitlementFeature where
  | ARCHIVE_INPUT
  | REPOSITORY_INPUT
  | LOAD_GENERATION
  | READINESS_PASS
  | CREDIT_PURCHASE
  | CUSTOM_CAPABILITY
  deriving DecidableEq

def planAllows (plan : EffectivePlan) : EntitlementFeature → Bool
  | .ARCHIVE_INPUT => plan.allowedInputTypes.contains .ARCHIVE
  | .REPOSITORY_INPUT => plan.allowedInputTypes.contains .REPOSITORY
  | .LOAD_GENERATION => plan.allowLoadGeneration
  | .READINESS_PASS => plan.allowReadinessPass
  | .CREDIT_PURCHASE => plan.allowCreditPurchase
  | .CUSTOM_CAPABILITY => plan.allowCustomCapability

def describe : EntitlementFeature → String
  | .ARCHIVE_INPUT => "Auditing an uploaded archive"
  | .REPOSITORY_INPUT => "Auditing a connected repository"
  | .LOAD_GENERATION => "Load-generation checks"
  | .READINESS_PASS => "The production-readiness pass"
  | .CREDIT_PURCHASE => "Purchasing additional credits"
  | .CUSTOM_CAPABILITY => "Operator-installed custom capabilities"

def tiersByCredits : List PlanTier := planTiers.insertionSort fun a b => a.monthlyCredits ≤ b.monthlyCredits

/-- The cheapest tier that permits the feature. -/
def permittingTierFor (feature : EntitlementFeature) : Option String :=
  (tiersByCredits.find? fun tier => planAllows tier.toEffectivePlan feature).map (·.id)

/-- What is thrown: `none` for a concurrency refusal's feature. -/
inductive EntitlementFailure where
  | entitlement (feature : Option EntitlementFeature) (currentTier : String) (requiredTier : Option String) (message : String)
  /-- There is no free plan. -/
  | recordNotFound
  deriving DecidableEq

def assertEntitled (account : Account) (now : ℤ) (feature : EntitlementFeature) : Except EntitlementFailure EffectivePlan :=
  match account.resolveEffectivePlan now with
  | none => .error .recordNotFound
  | some plan =>
    if planAllows plan feature then .ok plan
    else
      .error (.entitlement (some feature) plan.id (permittingTierFor feature)
        (match permittingTierFor feature with
        | none => describe feature ++ " is not available on any plan."
        | some tier => describe feature ++ " requires the " ++ tier ++ " plan or higher; you are on " ++ plan.id ++ "."))

/-- `running` scans of the user are not terminal. -/
def assertConcurrencyHeadroom (account : Account) (now : ℤ) (running : ℕ) : Except EntitlementFailure EffectivePlan :=
  match account.resolveEffectivePlan now with
  | none => .error .recordNotFound
  | some plan =>
    if plan.concurrentScanLimit ≤ running then
      .error (.entitlement none plan.id
        ((tiersByCredits.find? fun tier => plan.concurrentScanLimit < tier.concurrentScanLimit).map (·.id))
        ("Your plan allows " ++ toString plan.concurrentScanLimit ++ " concurrent audit" ++
          (if plan.concurrentScanLimit = 1 then "" else "s") ++ "; " ++ toString running ++ " " ++
          (if running = 1 then "is" else "are") ++ " already running."))
    else .ok plan

section Plans

variable {account : Account} {now : ℤ} {running : ℕ} {plan : EffectivePlan} {feature : EntitlementFeature}

theorem assertEntitled_ok : assertEntitled account now feature = .ok plan ↔
    account.resolveEffectivePlan now = some plan ∧ planAllows plan feature = true := by
  unfold assertEntitled
  cases account.resolveEffectivePlan now with
  | none => exact ⟨nofun, fun h => nomatch h.1⟩
  | some plan' =>
    dsimp only
    split
    · rename_i hallows
      constructor
      · intro h
        cases h
        exact ⟨rfl, hallows⟩
      · rintro ⟨h, -⟩
        cases h
        rfl
    · rename_i hrefused
      constructor
      · exact nofun
      · rintro ⟨h, hallows⟩
        cases h
        exact absurd hallows hrefused

theorem assertConcurrencyHeadroom_ok : assertConcurrencyHeadroom account now running = .ok plan ↔
    account.resolveEffectivePlan now = some plan ∧ (running : ℤ) < plan.concurrentScanLimit := by
  unfold assertConcurrencyHeadroom
  cases account.resolveEffectivePlan now with
  | none => exact ⟨nofun, fun h => nomatch h.1⟩
  | some plan' =>
    dsimp only
    split
    · rename_i hfull
      constructor
      · exact nofun
      · rintro ⟨h, hroom⟩
        cases h
        omega
    · rename_i hroom
      constructor
      · intro h
        cases h
        exact ⟨rfl, by omega⟩
      · rintro ⟨h, -⟩
        cases h
        rfl

end Plans

end WebAudit.Intake
