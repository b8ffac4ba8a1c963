import Mathlib.Data.Int.Notation
import Mathlib.Data.List.Basic

/-!
# The tables behind safety admission

What the `f07_…` functions of the migrations read and write: grants with their counters, leases
and consumption rows, and the stops of the kill switch.

## The model

* The id of a user, a target, a scan or a grant is a position; execution ids and idempotency keys
  are the caller's strings. `gen_random_uuid()` never repeats, so lease ids and tokens are numbers
  from one supply.
* What belongs to one grant stands together in its `Books`: a transaction changes it only while it
  has the grant's counter row locked.
* The time until which a lease runs is kept apart from the books (`State.expiry`): renewal writes
  it without that lock.
-/

namespace WebAudit.Safety

/-! ### Rows -/

inductive TargetEnvironmentClassification where
  | PRODUCTION
  | STAGING
  | DEVELOPMENT
  deriving DecidableEq

/-- A target, with its row of `TargetEnvironment` if it has one. -/
structure Target where
  userId : ℕ
  classification : Option TargetEnvironmentClassification
  deriving DecidableEq

structure Scan where
  userId : ℕ
  targetId : ℕ
  deriving DecidableEq

structure TargetAuthorization where
  targetId : ℕ
  userId : ℕ
  environmentRestriction : List TargetEnvironmentClassification
  requestBudget : ℤ
  concurrencyBudget : ℤ
  expiresAt : ℤ
  revokedAt : Option ℤ
  deriving DecidableEq

structure BudgetCounter where
  consumedRequests : ℤ
  activeConcurrency : ℤ
  deriving DecidableEq

structure AdmissionLease where
  id : ℕ
  userId : ℕ
  targetId : ℕ
  scanId : Option ℕ
  executionId : String
  idempotencyKey : String
  holderToken : ℕ
  releasedAt : Option ℤ
  reclaimedAt : Option ℤ
  deriving DecidableEq

/-- Neither released nor reclaimed. -/
def AdmissionLease.isOpen (l : AdmissionLease) : Bool := l.releasedAt.isNone && l.reclaimedAt.isNone

structure BudgetConsumption where
  userId : ℕ
  executionId : String
  idempotencyKey : String
  deriving DecidableEq

/-- The rows of one grant. -/
structure Books where
  counter : Option BudgetCounter
  leases : List AdmissionLease
  consumptions : List BudgetConsumption
  deriving DecidableEq

structure Account where
  grant : TargetAuthorization
  books : Books
  deriving DecidableEq

/-! ### Books -/

namespace Books

def empty : Books := ⟨none, [], []⟩

def activeConcurrency (b : Books) : ℤ := (b.counter.map (·.activeConcurrency)).getD 0

def consumedRequests (b : Books) : ℤ := (b.counter.map (·.consumedRequests)).getD 0

/-- `count(*)` of the leases that are neither released nor reclaimed. -/
def openCount (b : Books) : ℕ := b.leases.countP (·.isOpen)

/-- `UPDATE "BudgetCounter" SET "activeConcurrency" = …`. -/
def setActive (b : Books) (f : ℤ → ℤ) : Books :=
  { b with counter := b.counter.map fun c => { c with activeConcurrency := f c.activeConcurrency } }

/-- The counter row, made if it is not there. -/
def withCounter (b : Books) : Books := { b with counter := some (b.counter.getD ⟨0, 0⟩) }

/-- `UPDATE "AdmissionLease"` of open leases: those that satisfy `p`. -/
def close (b : Books) (p : AdmissionLease → Bool) (stamp : AdmissionLease → AdmissionLease) : Books :=
  { b with leases := b.leases.map fun l => if l.isOpen && p l then stamp l else l }

/-- The rows that the update returns. -/
def closing (b : Books) (p : AdmissionLease → Bool) : List AdmissionLease := b.leases.filter fun l => l.isOpen && p l

end Books

/-- `SET "releasedAt" = v_now`. -/
def AdmissionLease.release (now : ℤ) (l : AdmissionLease) : AdmissionLease := { l with releasedAt := some now }

/-- `SET "reclaimedAt" = v_now`. -/
def AdmissionLease.reclaim (now : ℤ) (l : AdmissionLease) : AdmissionLease := { l with reclaimedAt := some now }

/-! ### Stops -/

inductive StopLifecycleState where
  | REQUESTED
  | ACKNOWLEDGED
  | STOPPED
  deriving DecidableEq

/-- A `SafetyScope` and the id of which it is. -/
inductive StopKey where
  | EXECUTION (id : String)
  | SCAN (id : ℕ)
  | GRANT (id : ℕ)
  | TARGET (id : ℕ)
  | TENANT (id : ℕ)
  | PLATFORM
  deriving DecidableEq

inductive KillSwitchReason where
  | USER_CANCELLATION
  | AUTHORIZATION_REVOKED
  | ENVIRONMENT_RECLASSIFIED
  | OPERATOR_EMERGENCY_STOP
  | SYSTEM_SAFETY_POLICY
  deriving DecidableEq

structure KillSwitchState where
  key : StopKey
  state : StopLifecycleState
  requestedAt : ℤ
  deriving DecidableEq

/-- `f07_kill_switch_guard`: the updates that the database lets through. -/
def killSwitchGuard (old new : StopLifecycleState) : Bool :=
  match old, new with
  | .REQUESTED, .ACKNOWLEDGED | .ACKNOWLEDGED, .STOPPED | .STOPPED, .REQUESTED => true
  | _, _ => old = new

/-- The scopes that cover an execution, in the order of their rank. -/
def coveringKeys (executionId : String) (scanId : Option ℕ) (grantId targetId userId : ℕ) : List StopKey :=
  .EXECUTION executionId :: (scanId.map StopKey.SCAN).toList ++ [.GRANT grantId, .TARGET targetId, .TENANT userId, .PLATFORM]

/-- The stop is pending, or it is the execution's own and stopped. -/
def KillSwitchState.isPending (k : KillSwitchState) : Bool :=
  match k.state, k.key with
  | .REQUESTED, _ | .ACKNOWLEDGED, _ | .STOPPED, .EXECUTION _ => true
  | .STOPPED, _ => false

/-- The lease is in the scope. -/
def StopKey.covers (key : StopKey) (grantId : ℕ) (l : AdmissionLease) : Bool :=
  match key with
  | .EXECUTION id => l.executionId = id
  | .SCAN id => l.scanId = some id
  | .GRANT id => grantId = id
  | .TARGET id => l.targetId = id
  | .TENANT id => l.userId = id
  | .PLATFORM => true

end WebAudit.Safety
