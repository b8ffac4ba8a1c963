import WebAudit.Planning.Deadline
import WebAudit.Safety.Tables
import WebAudit.Scans.States

/-!
# Execution units

The rows that dispatch, the host and the finalizer work on: units with the edges between them,
host claims, leases, plans, scans, stops. `fahes_unit_guard` is the trigger that every update of a
unit has to pass; `classifyPreRunCause` of `services/execution-runtime/cause.ts` says why a unit
may not run.

## The model

* The id of a unit, a plan or a scan is a position, a unit's own `id` is what stops name it by.
* A lease is a lease of its unit, the id of the unit being the `executionId` that F07 is asked for.
  What else F07 keeps of it is in `Safety`.
* Frozen columns do not change, so a copy of a unit that was read earlier has them right.
* `idempotencyKey` is frozen and read with the unit: a finalizer never has a stale one.
-/

namespace WebAudit.Execution

open WebAudit.Planning WebAudit.Scans
open WebAudit.Safety (StopKey KillSwitchState StopLifecycleState)

/-! ### Statuses -/

inductive ExecutionUnitStatus where
  | PLANNED
  | ADMITTED
  | DISPATCHED
  | RUNNING
  | SKIPPED
  | BLOCKED
  | REFUSED
  | COMPLETED
  | FAILED
  | CANCELLED
  | KILLED
  deriving DecidableEq

open ExecutionUnitStatus

/-- `isTerminalUnitStatus`. -/
def ExecutionUnitStatus.isTerminal : ExecutionUnitStatus → Bool
  | PLANNED | ADMITTED | DISPATCHED | RUNNING => false
  | _ => true

/-- The transition table of the trigger. -/
def unitTransition : ExecutionUnitStatus → ExecutionUnitStatus → Bool
  | PLANNED, ADMITTED | PLANNED, BLOCKED | PLANNED, REFUSED | PLANNED, COMPLETED => true
  | ADMITTED, DISPATCHED | ADMITTED, REFUSED => true
  | DISPATCHED, RUNNING | DISPATCHED, REFUSED => true
  | RUNNING, COMPLETED | RUNNING, FAILED | RUNNING, CANCELLED | RUNNING, KILLED => true
  | _, _ => false

/-- `fahes_unit_guard`, `passive` being the flag `fahes.passive_completion`. -/
def fahes_unit_guard (unitClass : ExecutionUnitClass) (passive : Bool) (old new : ExecutionUnitStatus) : Bool :=
  !old.isTerminal && (new = old || unitTransition old new) &&
    (old ≠ PLANNED || new ≠ COMPLETED || unitClass = .TELEMETRY ||
      (unitClass = .PASSIVE_HTTP || unitClass = .SOURCE_STATIC) && passive)

theorem guard_not_terminal {unitClass : ExecutionUnitClass} {passive : Bool} {old new : ExecutionUnitStatus}
    (h : fahes_unit_guard unitClass passive old new = true) : old.isTerminal = false := by
  simp only [fahes_unit_guard, Bool.and_eq_true, Bool.not_eq_true'] at h
  exact h.1.1

theorem guard_transition {unitClass : ExecutionUnitClass} {passive : Bool} {old new : ExecutionUnitStatus}
    (h : fahes_unit_guard unitClass passive old new = true) : new = old ∨ unitTransition old new = true := by
  simp only [fahes_unit_guard, Bool.and_eq_true, Bool.or_eq_true, decide_eq_true_eq] at h
  exact h.1.2

/-! ### Rows -/

structure ExecutionUnit where
  id : String
  userId : ℕ
  scanPlanId : ℕ
  targetId : ℕ
  targetAuthorizationId : Option ℕ
  executionUnitClass : ExecutionUnitClass
  timeoutPolicyMs : ℤ
  attempt : ℕ
  /-- `configuration->>'domain'`. -/
  domain : Option String
  status : ExecutionUnitStatus
  deriving DecidableEq

/-- The row of a claim; whose token it is, is whose hash it has. -/
structure ExecutionUnitHostClaim where
  executionUnitId : ℕ
  attempt : ℕ
  hostInstanceId : String
  claimTokenHash : ℕ
  deriving DecidableEq

structure UnitLease where
  executionUnitId : ℕ
  /-- Neither released nor reclaimed. -/
  isOpen : Bool
  expiresAt : ℤ
  deriving DecidableEq

structure ScanPlan extends DeadlinePlan where
  scanId : Option ℕ
  deriving DecidableEq

structure Scan where
  state : ScanState
  startedAt : Option ℤ
  deriving DecidableEq

inductive ModuleState where
  | PENDING
  | RUNNING
  | COMPLETE
  | DEGRADED
  | FAILED
  | NOT_APPLICABLE
  deriving DecidableEq

structure ModuleResult where
  scanId : ℕ
  module : String
  state : ModuleState
  deriving DecidableEq

structure Tables where
  units : List ExecutionUnit
  /-- A unit and one that it depends on. -/
  dependencies : List (ℕ × ℕ)
  claims : List ExecutionUnitHostClaim
  leases : List UnitLease
  plans : List ScanPlan
  scans : List Scan
  moduleResults : List ModuleResult
  stops : List KillSwitchState
  /-- The time of the database, in milliseconds. -/
  clock : ℤ
  deriving DecidableEq

namespace Tables

variable (db : Tables)

def statusOf (i : ℕ) : Option ExecutionUnitStatus := (db.units[i]?).map (·.status)

/-- There is a lease of the unit that is neither released nor reclaimed. -/
def hasOpenLease (i : ℕ) : Bool := db.leases.any fun l => decide (l.executionUnitId = i) && l.isOpen

/-- The plan of a unit. -/
def planOf (u : ExecutionUnit) : Option ScanPlan := db.plans[u.scanPlanId]?

/-- The scan of a unit's plan. -/
def scanOf (u : ExecutionUnit) : Option Scan := ((db.planOf u).bind (·.scanId)).bind fun id => db.scans[id]?

/-- The scopes that cover a unit. -/
def coveringKeys (u : ExecutionUnit) : List StopKey :=
  .EXECUTION u.id :: (((db.planOf u).bind (·.scanId)).map StopKey.SCAN).toList ++
    (u.targetAuthorizationId.map StopKey.GRANT).toList ++ [.TARGET u.targetId, .TENANT u.userId, .PLATFORM]

/-- `findPendingStop`. -/
def findPendingStop (u : ExecutionUnit) : Option StopKey :=
  (db.coveringKeys u).find? fun key => (db.stops.find? (·.key = key)).any (·.isPending)

end Tables

/-- `UPDATE "ExecutionUnit" SET "status" = …`, as far as the trigger lets it through. -/
def setStatus (units : List ExecutionUnit) (i : ℕ) (passive : Bool) (new : ExecutionUnitStatus) : Option (List ExecutionUnit) :=
  match units[i]? with
  | none => some units
  | some u =>
    if fahes_unit_guard u.executionUnitClass passive u.status new then some (units.set i { u with status := new }) else none

/-! ### Why a unit may not run -/

inductive PreRunCause where
  | NONE
  | TERMINAL (status : ExecutionUnitStatus)
  | KILL_SWITCH_PENDING (key : StopKey)
  | REFUSE (reason : DispatchRefusal)
  | SCAN_NOT_STARTED
  deriving DecidableEq

inductive CausePhase where
  | PRE_RUN
  | RUNNING
  deriving DecidableEq

structure CauseOptions where
  phase : CausePhase
  hardStopMarginMs : ℤ
  deriving DecidableEq

/-- A procedure that reads the tables several times: the next read, or what it comes to. Others may write in between. -/
inductive Reading where
  | clock
  | scan (now : ℤ)
  | stop (now : ℤ) (scan : Option Scan)
  deriving DecidableEq

def Scan.terminalState (scan : Scan) : Option ScanTerminalState :=
  match scan.state with
  | .CANCELLED => some .CANCELLED
  | .FAILED => some .FAILED
  | .TIMED_OUT => some .TIMED_OUT
  | _ => none

/-- The unit as the decision at dispatch reads it. -/
def ExecutionUnit.toDeadlineUnit (u : ExecutionUnit) (options : CauseOptions) : DeadlineUnit where
  id := u.id
  executionUnitClass := u.executionUnitClass
  timeoutPolicyMs := match options.phase with
    | .PRE_RUN => u.timeoutPolicyMs
    | .RUNNING => 0
  hardStopMarginMs := match options.phase with
    | .PRE_RUN => options.hardStopMarginMs
    | .RUNNING => 0
  maxAttempts := 1

/-- `effectiveDeadlineAt` of a unit, `null` without a plan. -/
def deadlineOf (plan : Option ScanPlan) (scan : Option Scan) : Except PlanningError (Option (Option ℤ)) :=
  match plan with
  | none => pure none
  | some plan =>
    effectiveDeadlineAt ⟨scan.bind (·.startedAt)⟩ (some plan.toDeadlinePlan) DEFAULT_PLAN_DEADLINE_CONSTANTS.legacyMaxDurationMs

/-- What a decision at dispatch says of a unit. One that is running has passed the start gate. -/
def causeOf (phase : CausePhase) : DispatchDeadlineDecision → PreRunCause
  | .REFUSE reason => .REFUSE reason
  | .DEFER =>
    match phase with
    | .PRE_RUN => .SCAN_NOT_STARTED
    | .RUNNING => .NONE
  | .PROCEED => .NONE

/-- What is decided when no stop is pending. -/
def deadlineCause (plan : Option ScanPlan) (scan : Option Scan) (u : ExecutionUnit) (options : CauseOptions) (now : ℤ) :
    Except PlanningError PreRunCause := do
  let deadline ← deadlineOf plan scan
  pure (causeOf options.phase (dispatchDeadlineDecision now deadline (scan.bind (·.terminalState)) (u.toDeadlineUnit options)))

/-- `classifyPreRunCause` of a unit that was read with this status, one read of the tables. -/
def readCause (db : Tables) (u : ExecutionUnit) (status : ExecutionUnitStatus) (options : CauseOptions) :
    Reading → Reading ⊕ Except PlanningError PreRunCause
  | .clock => if status.isTerminal then .inr (.ok (.TERMINAL status)) else .inl (.scan db.clock)
  | .scan now => .inl (.stop now (db.scanOf u))
  | .stop now scan =>
    match db.findPendingStop u with
    | some key => .inr (.ok (.KILL_SWITCH_PENDING key))
    | none => .inr (deadlineCause (db.planOf u) scan u options now)

/-- All reads at once. -/
def classifyPreRunCause (db : Tables) (u : ExecutionUnit) (status : ExecutionUnitStatus) (options : CauseOptions) :
    Except PlanningError PreRunCause :=
  if status.isTerminal then .ok (.TERMINAL status)
  else
    match db.findPendingStop u with
    | some key => .ok (.KILL_SWITCH_PENDING key)
    | none => deadlineCause (db.planOf u) (db.scanOf u) u options db.clock

end WebAudit.Execution
