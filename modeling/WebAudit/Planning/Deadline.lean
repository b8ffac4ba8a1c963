import Mathlib.Tactic.Linarith
import WebAudit.Lib.Refusals
import WebAudit.Planning.Order

/-!
# The deadline of a scan plan

`services/planning/plan-deadline.ts`: the budget of a unit, the critical path, the deadline
computed from it, the instant it falls on, and the decision at dispatch. What the sum over the
critical path has to say to a schedule is `criticalPathMs_ok`: every unit's entry is at least its
own budget and the entry of any unit before it, and the critical path is at least every entry.

## The model

* Numbers are integers: one with a fraction fails `assertPositiveInteger` where it is read, and a
  sum or product past `2 ^ 53` fails `isSafeInteger` whether or not it has been rounded.
* A `Date` is its `getTime()`, `none` when it is invalid: `NaN`, of which every comparison is false.
-/

namespace WebAudit.Planning

open WebAudit.Lib

/-! ### Numbers and dates -/

/-- `Number.isSafeInteger`. -/
def isSafeInteger (value : ℤ) : Bool := decide (-(2 ^ 53) < value) && decide (value < 2 ^ 53)

/-- `new Date(ms)`. -/
def newDate (ms : ℤ) : Option ℤ := if -8640000000000000 ≤ ms ∧ ms ≤ 8640000000000000 then some ms else none

/-! ### Units, constants and errors -/

structure PlanDeadlineConstants where
  legacyMaxDurationMs : ℤ
  queueWaitAllowanceMs : ℤ
  planFinalizationMarginMs : ℤ
  planMaxDeadlineMs : ℤ
  deriving DecidableEq

def DEFAULT_PLAN_DEADLINE_CONSTANTS : PlanDeadlineConstants where
  legacyMaxDurationMs := 900000
  queueWaitAllowanceMs := 60000
  planFinalizationMarginMs := 300000
  planMaxDeadlineMs := 21600000

structure DeadlineUnit extends GraphUnit where
  timeoutPolicyMs : ℤ
  hardStopMarginMs : ℤ
  maxAttempts : ℤ
  deriving DecidableEq

structure GrantRef where
  id : String
  expiresAt : Option ℤ
  deriving DecidableEq

structure DeadlineBreakdown where
  passiveWindowMs : ℤ
  criticalPathMs : ℤ
  finalizationMarginMs : ℤ
  ceilingMs : ℤ
  grantCapMs : Option ℤ
  deriving DecidableEq

inductive DeadlineRefusal where
  | PLAN_DEADLINE_EXCEEDS_CEILING
  | GRANT_EXPIRES_BEFORE_DEADLINE
  deriving DecidableEq

inductive PlanDeadlineResult where
  | deadline (deadlineMs : ℤ) (breakdown : DeadlineBreakdown)
  | refused (reason : DeadlineRefusal)
  deriving DecidableEq

/-- What is thrown. -/
inductive PlanningError where
  | graph (e : PlanGraphError)
  /-- `PlanDeadlineError`. -/
  | deadline (message : String)
  /-- A field of `undefined` is read. -/
  | undefined
  deriving DecidableEq

def assertPositiveInteger (value : ℤ) (label : String) : Except PlanningError Unit :=
  if !isSafeInteger value || decide (value ≤ 0) then
    .error (.deadline (label ++ " must be a positive safe integer, got " ++ toString value))
  else .ok ()

def assertConstants (c : PlanDeadlineConstants) : Except PlanningError Unit := do
  assertPositiveInteger c.legacyMaxDurationMs "legacyMaxDurationMs"
  assertPositiveInteger c.queueWaitAllowanceMs "queueWaitAllowanceMs"
  assertPositiveInteger c.planFinalizationMarginMs "planFinalizationMarginMs"
  assertPositiveInteger c.planMaxDeadlineMs "planMaxDeadlineMs"

/-! ### The critical path -/

/-- Every attempt can wait in the queue and run to its hard stop. -/
def unitBudgetMs (unit : DeadlineUnit) (constants : PlanDeadlineConstants) : Except PlanningError ℤ := do
  assertPositiveInteger unit.timeoutPolicyMs ("unit " ++ unit.id ++ " timeoutPolicyMs")
  assertPositiveInteger unit.hardStopMarginMs ("unit " ++ unit.id ++ " hardStopMarginMs")
  assertPositiveInteger unit.maxAttempts ("unit " ++ unit.id ++ " maxAttempts")
  let budget := unit.maxAttempts * (unit.timeoutPolicyMs + unit.hardStopMarginMs + constants.queueWaitAllowanceMs)
  if !isSafeInteger budget then .error (.deadline ("unit " ++ unit.id ++ " budget overflows"))
  else .ok budget

/-- What has to remain at dispatch: the wait in the queue is over by then. -/
def dispatchThresholdMs (unit : DeadlineUnit) : ℤ := unit.timeoutPolicyMs + unit.hardStopMarginMs

/-- The variables of the loop. -/
structure CriticalPath where
  longest : String → Option ℤ
  best : ℤ

/-- The longest of the paths that end in one of the predecessors. Passive units have no entry. -/
def incomingMs (longest : String → Option ℤ) (predecessors : List String) : ℤ :=
  predecessors.foldl (fun incoming p =>
    match longest p with
    | some through => if through > incoming then through else incoming
    | none => incoming) 0

/-- One round of the loop. -/
def CriticalPath.visit (units : List DeadlineUnit) (edges : List GraphEdge) (constants : PlanDeadlineConstants)
    (path : CriticalPath) (id : String) : Except PlanningError CriticalPath :=
  match units.reverse.find? (·.id = id) with
  | none => .error .undefined
  | some unit =>
    if isPassiveClass unit.executionUnitClass then .ok path
    else do
      let budget ← unitBudgetMs unit constants
      let total := incomingMs path.longest (predecessorsOf edges id) + budget
      if !isSafeInteger total then .error (.deadline "critical path overflows")
      else .ok { longest := Function.update path.longest id (some total), best := if total > path.best then total else path.best }

/-- The order, or the error it throws. -/
def orderOf (units : List DeadlineUnit) (edges : List GraphEdge) : Except PlanningError (List String) :=
  (topologicalOrder (units.map (·.toGraphUnit)) edges).mapError .graph

/-- The most that the units of one path may take. -/
def criticalPathMs (units : List DeadlineUnit) (edges : List GraphEdge) (constants : PlanDeadlineConstants) :
    Except PlanningError ℤ := do
  let order ← orderOf units edges
  let path ← order.foldlM (CriticalPath.visit units edges constants) ⟨fun _ => none, 0⟩
  pure path.best

/-! ### The deadline of a plan -/

/-- The loop over the grants: the least that remains of any, or the reason to refuse. -/
def capGrants (deadlineMs now : ℤ) : Option ℤ → List GrantRef → Except PlanningError (Option DeadlineRefusal × Option ℤ)
  | grantCapMs, [] => .ok (none, grantCapMs)
  | grantCapMs, grant :: grants =>
    match grant.expiresAt with
    | none => .error (.deadline ("grant " ++ grant.id ++ " has an invalid expiresAt"))
    | some expiresAt =>
      let remaining := expiresAt - now
      if remaining < deadlineMs then .ok (some .GRANT_EXPIRES_BEFORE_DEADLINE, grantCapMs)
      else capGrants deadlineMs now (if grantCapMs.all (remaining < ·) then some remaining else grantCapMs) grants

/-- The deadline of a plan and what it is made of. -/
def planWindow (units : List DeadlineUnit) (edges : List GraphEdge) (constants : PlanDeadlineConstants) :
    Except PlanningError (ℤ × DeadlineBreakdown) := do
  let hasNonPassive := units.any fun u => !isPassiveClass u.executionUnitClass
  let hasPassive := units.any fun u => isPassiveClass u.executionUnitClass
  if !hasNonPassive then
    pure (constants.legacyMaxDurationMs,
      ⟨constants.legacyMaxDurationMs, 0, 0, constants.planMaxDeadlineMs, none⟩)
  else
    let passiveWindowMs := if hasPassive then constants.legacyMaxDurationMs else 0
    let critical ← criticalPathMs units edges constants
    let deadlineMs := passiveWindowMs + critical + constants.planFinalizationMarginMs
    if !isSafeInteger deadlineMs then .error (.deadline "deadline overflows")
    else pure (deadlineMs, ⟨passiveWindowMs, critical, constants.planFinalizationMarginMs, constants.planMaxDeadlineMs, none⟩)

/-- The deadline that `resolvePlan` stores. -/
def computePlanDeadline (units : List DeadlineUnit) (edges : List GraphEdge) (grants : List GrantRef) (now : Option ℤ)
    (constants : PlanDeadlineConstants) : Except PlanningError PlanDeadlineResult := do
  assertConstants constants
  match now with
  | none => .error (.deadline "now is not a valid date")
  | some now =>
    let _ ← orderOf units edges
    let (deadlineMs, breakdown) ← planWindow units edges constants
    if deadlineMs > constants.planMaxDeadlineMs then pure (.refused .PLAN_DEADLINE_EXCEEDS_CEILING)
    else
      match ← capGrants deadlineMs now none grants with
      | (some reason, _) => pure (.refused reason)
      | (none, grantCapMs) => pure (.deadline deadlineMs { breakdown with grantCapMs })

/-! ### The instant of the deadline, and the decision at dispatch -/

structure DeadlineScan where
  startedAt : Option ℤ
  deriving DecidableEq

inductive PlanKind where
  | INITIAL
  | REVERIFY
  deriving DecidableEq

inductive PlanState where
  | RESOLVED
  | REFUSED
  deriving DecidableEq

structure DeadlinePlan where
  kind : PlanKind
  state : PlanState
  deadlineMs : Option ℤ
  resolvedAt : ℤ
  deriving DecidableEq

/-- When the scan is over, `null` as long as it is not known when it begins. Derived at read time, never stored. -/
def effectiveDeadlineAt (scan : DeadlineScan) (plan : Option DeadlinePlan) (legacyMaxDurationMs : ℤ) :
    Except PlanningError (Option (Option ℤ)) := do
  assertPositiveInteger legacyMaxDurationMs "legacyMaxDurationMs"
  match plan.filter (·.state = .RESOLVED) with
  | none => pure (scan.startedAt.map fun startedAt => newDate (startedAt + legacyMaxDurationMs))
  | some plan =>
    match plan.deadlineMs with
    | none => .error (.deadline "a RESOLVED plan must carry deadlineMs (data-model invariant)")
    | some deadlineMs =>
      assertPositiveInteger deadlineMs "plan.deadlineMs"
      match plan.kind with
      | .REVERIFY => pure (some (newDate (plan.resolvedAt + deadlineMs)))
      | .INITIAL => pure (scan.startedAt.map fun startedAt => newDate (startedAt + deadlineMs))

inductive ScanTerminalState where
  | TIMED_OUT
  | CANCELLED
  | FAILED
  deriving DecidableEq

inductive DispatchRefusal where
  | SCAN_DEADLINE_EXPIRED
  | SCAN_CANCELLED
  | SCAN_FAILED
  | SCAN_DEADLINE_INSUFFICIENT
  deriving DecidableEq

inductive DispatchDeadlineDecision where
  | PROCEED
  /-- `SCAN_NOT_STARTED`. -/
  | DEFER
  | REFUSE (reason : DispatchRefusal)
  deriving DecidableEq

/-- The first step of a dispatch, `now` being the time of the database. -/
def dispatchDeadlineDecision (now : ℤ) (deadline : Option (Option ℤ)) (scanTerminalState : Option ScanTerminalState)
    (unit : DeadlineUnit) : DispatchDeadlineDecision :=
  match scanTerminalState with
  | some .CANCELLED => .REFUSE .SCAN_CANCELLED
  | some .FAILED => .REFUSE .SCAN_FAILED
  | some .TIMED_OUT => .REFUSE .SCAN_DEADLINE_EXPIRED
  | none =>
    match deadline with
    | none => .DEFER
    | some deadline =>
      let remainingMs := deadline.map (· - now)
      if remainingMs.any (· ≤ 0) then .REFUSE .SCAN_DEADLINE_EXPIRED
      else if remainingMs.any (· < dispatchThresholdMs unit) then .REFUSE .SCAN_DEADLINE_INSUFFICIENT
      else .PROCEED

end WebAudit.Planning
