import WebAudit.Execution.Dispatch

/-!
# The host of a unit

`runUnit` and `finalizeFor` of `execution-runtime/host.ts` with the decision of its loop,
`hostLoopDecision`: from a dispatch that has won `RUNNING` to the finalizer. Hosts run beside
dispatches and all that `Dispatch` lets happen.

## The model

* A step of a host is one statement on the database, or the reaction to one thing that happens:
  the child answers, fails or exits, a timer fires, a checkpoint stops the child, the termination
  is confirmed or not. In what order these come is up to the run.
* The loop's decision of a tick is made beside the host's own statements, and may still be under
  way when the loop has been stopped.
* What F07 says to a renewal of stops and grants is part of the action, and so is the reason of a
  stop. The renewal reads the time before it updates the lease.
* The abort signal goes to `terminate()` at once. That the child is gone is `exited`: the exit event
  may come whenever it likes, and a kill that is not accepted leaves the child as it is.
* Progress, telemetry, evidence and effects are left out, and what follows the finalizer.
-/

namespace WebAudit.Execution

open WebAudit.Lib WebAudit.Planning
open ExecutionUnitStatus

/-! ### What a child comes to -/

inductive UnitObservation where
  | ENGINE_RESULT
  | ENGINE_EXCEPTION
  | HARD_STOP_DEADLINE
  | F07_STOP
  | INFRASTRUCTURE_ERROR
  | TARGET_UNREACHABLE
  | INVALID_CONFIGURATION
  | CUSTOMER_CODE_EXIT (exitCode : ℤ)
  | EXTERNAL_DEPENDENCY_ERROR
  deriving DecidableEq

inductive FailureClass where
  | CUSTOMER_CODE_FAILURE
  | ENGINE_DEFECT
  | TIMEOUT
  | SAFETY_REFUSED
  | TRANSIENT_INFRASTRUCTURE
  | TARGET_UNAVAILABLE
  | INVALID_CONFIGURATION
  | EXTERNAL_DEPENDENCY_FAILURE
  deriving DecidableEq

inductive Classification where
  | COMPLETED
  | FAILED (failureClass : FailureClass)
  deriving DecidableEq

def classifyFailure : UnitObservation → Classification
  | .ENGINE_RESULT => .COMPLETED
  | .CUSTOMER_CODE_EXIT exitCode => if exitCode = 0 then .COMPLETED else .FAILED .CUSTOMER_CODE_FAILURE
  | .ENGINE_EXCEPTION => .FAILED .ENGINE_DEFECT
  | .HARD_STOP_DEADLINE => .FAILED .TIMEOUT
  | .F07_STOP => .FAILED .SAFETY_REFUSED
  | .INFRASTRUCTURE_ERROR => .FAILED .TRANSIENT_INFRASTRUCTURE
  | .TARGET_UNREACHABLE => .FAILED .TARGET_UNAVAILABLE
  | .INVALID_CONFIGURATION => .FAILED .INVALID_CONFIGURATION
  | .EXTERNAL_DEPENDENCY_ERROR => .FAILED .EXTERNAL_DEPENDENCY_FAILURE

/-! ### `hostLoopDecision` -/

/-- `STOP_AND_FINALIZE` for this. -/
inductive StopCause where
  | KILL_SWITCH_PENDING
  | GRANT_REVOKED
  | GRANT_EXPIRED
  | F07_STATE_UNCERTAIN
  deriving DecidableEq

inductive HostLoopAction where
  | CONTINUE
  | STOP_TERMINAL
  | ABORT_LEASE_LOST (acknowledgeStop : Bool)
  | STOP_AND_FINALIZE (cause : StopCause)
  | EXPIRE_AND_FINALIZE (cause : DispatchRefusal)
  deriving DecidableEq

inductive LeaseRenewal where
  | RENEWED
  | STOP_PENDING
  | FENCED
  | GRANT_INVALID_REVOKED
  | GRANT_INVALID_EXPIRED
  | UNCERTAIN
  deriving DecidableEq

/-- The next statement of a decision. `u` is the unit as its first one read it. -/
inductive DecidePc where
  | row
  | cause (u : ExecutionUnit) (r : Reading)
  /-- `fahes_lock_live_lease`. -/
  | lease (cause : PreRunCause)
  -- `f07_renew_lease`
  | renewRead (n : ℕ) (cause : PreRunCause)
  | renewCheck (n : ℕ) (cause : PreRunCause) (now : ℤ)
  | renewUpdate (n : ℕ) (cause : PreRunCause) (now : ℤ)
  deriving DecidableEq

/-- What a statement of a decision comes to. -/
inductive DecideAnswer where
  | database
  /-- F07 refuses the renewal, or lets it go on. -/
  | check (refusal : Option LeaseRenewal)
  /-- The renewal fails. -/
  | uncertain
  deriving DecidableEq

/-- What is decided of a unit that is not over. -/
def decideBy (cause : PreRunCause) (renewal : LeaseRenewal) : HostLoopAction :=
  match renewal, cause with
  | .FENCED, .KILL_SWITCH_PENDING _ => .ABORT_LEASE_LOST true
  | .FENCED, _ => .ABORT_LEASE_LOST false
  | _, .KILL_SWITCH_PENDING _ | .STOP_PENDING, _ => .STOP_AND_FINALIZE .KILL_SWITCH_PENDING
  | .GRANT_INVALID_REVOKED, _ => .STOP_AND_FINALIZE .GRANT_REVOKED
  | .GRANT_INVALID_EXPIRED, _ => .STOP_AND_FINALIZE .GRANT_EXPIRED
  | .UNCERTAIN, _ => .STOP_AND_FINALIZE .F07_STATE_UNCERTAIN
  | .RENEWED, .REFUSE reason => .EXPIRE_AND_FINALIZE reason
  | .RENEWED, _ => .CONTINUE

/-- A renewal that F07 does not refuse. -/
def renewsAt (l : UnitLease) (now : ℤ) : Bool := l.isOpen && decide (now < l.expiresAt)

structure Host where
  /-- The dispatch whose unit it runs. -/
  dispatch : ℕ
  host : HostIdentity
  leaseClass : LeaseClass
  /-- The lease of its own admission. -/
  lease : Option ℕ
  exited : Bool
  hardStopFired : Bool
  /-- `controller.signal.aborted`. -/
  aborted : Bool
  checkpointStopped : Bool
  runFinished : Bool
  observation : Option UnitObservation
  /-- The decision of a tick that is under way. -/
  ticking : Option DecidePc
  decided : Option HostLoopAction
  deriving DecidableEq

section Decide

variable (db : Tables) (x : Host)

/-- After the cause: a unit that needs no lease is not asked for one. -/
def afterCause : PreRunCause → DecidePc ⊕ HostLoopAction
  | .TERMINAL _ => .inr .STOP_TERMINAL
  | cause =>
    match x.leaseClass with
    | .L => .inl (.lease cause)
    | .N => .inr (decideBy cause .RENEWED)

/-- `hostLoopDecision`, one statement, `none` when it throws. -/
def decideStep : DecidePc → DecideAnswer → Option (Tables × (DecidePc ⊕ HostLoopAction))
  | .row, .database =>
    match loadUnit db x.host with
    | none => some (db, .inr .STOP_TERMINAL)
    | some u => some (db, .inl (.cause u .clock))
  | .cause u r, .database =>
    match readCause db u u.status ⟨.RUNNING, 0⟩ r with
    | .inl r => some (db, .inl (.cause u r))
    | .inr (.error _) => none
    | .inr (.ok cause) => some (db, afterCause x cause)
  | .lease cause, .database =>
    if !db.hasOpenLease x.host.executionUnitId then some (db, .inr (decideBy cause .FENCED))
    else
      match x.lease with
      | none => some (db, .inr (decideBy cause .RENEWED))
      | some n => some (db, .inl (.renewRead n cause))
  | .renewRead n cause, .database => some (db, .inl (.renewCheck n cause db.clock))
  | .renewCheck n cause now, .check none => some (db, .inl (.renewUpdate n cause now))
  | .renewCheck _ cause _, .check (some refusal) =>
    if refusal = .RENEWED then none else some (db, .inr (decideBy cause refusal))
  | .renewUpdate n cause now, .database =>
    if (db.leases[n]?).any fun l => renewsAt l now then
      some ({ db with leases := db.leases.modify n fun l => { l with expiresAt := now + leaseMs } }, .inr (decideBy cause .RENEWED))
    else some (db, .inr (decideBy cause .FENCED))
  | .renewRead _ cause, .uncertain | .renewCheck _ cause _, .uncertain | .renewUpdate _ cause _, .uncertain =>
    some (db, .inr (decideBy cause .UNCERTAIN))
  | _, _ => none

end Decide

/-! ### `runUnit` -/

inductive HostResult where
  | FINALIZED (status : ExecutionUnitStatus) (replayed : Bool)
  | LEASE_LOST
  | TERMINAL_ELSEWHERE
  | CHILD_TERMINATION_UNCONFIRMED
  deriving DecidableEq

inductive HostPc where
  /-- `loadAdapterUnit`, and the plan. -/
  | load
  /-- `Promise.race`. -/
  | race
  /-- `await terminateChild()`. -/
  | terminating
  /-- The decision right before finalizing. -/
  | deciding (d : DecidePc)
  /-- `findPendingStopReason`. -/
  | reason
  | acknowledge
  | finalizing (kind : FinalizeKind)
  | returned (result : HostResult)
  | thrown
  deriving DecidableEq

/-- What happens to a host. -/
inductive HostInput where
  | database
  | hardStop
  | tick
  | ticks (answer : DecideAnswer)
  /-- The decision of a tick throws. -/
  | tickFails
  /-- `safetyCheckpoint` has answered `STOP`. -/
  | checkpoint
  /-- The answer has been sent, and the host is asked to stop. -/
  | requestHostStop
  | run (observation : UnitObservation)
  | reject
  | stop
  | exits
  | terminate (confirmed : Bool)
  | decides (answer : DecideAnswer)
  | reason (userCancellation : Bool)
  | acknowledge (acknowledged : Bool)
  | throws
  deriving DecidableEq

section Run

variable (db : Tables) (x : Host)

/-- `finalizeFor`, up to its first statement. -/
def finalizeFor : HostLoopAction → HostPc
  | .STOP_TERMINAL => .returned .TERMINAL_ELSEWHERE
  | .ABORT_LEASE_LOST acknowledgeStop => if acknowledgeStop then .acknowledge else .returned .LEASE_LOST
  | .STOP_AND_FINALIZE .KILL_SWITCH_PENDING => .reason
  | .STOP_AND_FINALIZE _ => .finalizing .KILLED
  | .EXPIRE_AND_FINALIZE .SCAN_CANCELLED => .finalizing .CANCELLED
  | .EXPIRE_AND_FINALIZE _ => .finalizing .FAILED
  | .CONTINUE =>
    if x.hardStopFired then .finalizing .FAILED
    else
      match classifyFailure (x.observation.getD .ENGINE_EXCEPTION) with
      | .COMPLETED => .finalizing .COMPLETED
      | .FAILED _ => .finalizing .FAILED

/-- What a child that fails is observed as. -/
def Host.failure : UnitObservation := if x.checkpointStopped then .F07_STOP else .ENGINE_EXCEPTION

/-- What has been observed when the child is gone. -/
def Host.observe : Host :=
  if !x.runFinished && !x.hardStopFired && x.decided = none && x.observation = none then { x with observation := some x.failure }
  else x

/-- When the child is gone, the decision that there is counts, or there is one more. -/
def afterTermination : HostPc :=
  match x.decided with
  | some action => finalizeFor x action
  | none => .deciding .row

/-- A tick has decided. -/
def Host.decides (action : HostLoopAction) : Host :=
  if action = .CONTINUE then { x with ticking := none }
  else { x with ticking := none, decided := some action, aborted := true }

/-- After a statement of a tick's decision. -/
def Host.ticks : DecidePc ⊕ HostLoopAction → Host
  | .inl d => { x with ticking := some d }
  | .inr action => x.decides action

/-- After a statement of the last decision. -/
def afterDecision : DecidePc ⊕ HostLoopAction → HostPc
  | .inl d => .deciding d
  | .inr action => finalizeFor x action

/-- `runUnit`. -/
def hostStep (pc : HostPc) : HostInput → Option (Tables × Host × HostPc)
  | .hardStop => if pc = .load ∨ pc = .race then some (db, { x with hardStopFired := true, aborted := true }, pc) else none
  | .tick => if pc = .race ∧ x.ticking = none ∧ x.decided = none then some (db, { x with ticking := some .row }, pc) else none
  | .ticks answer => do
    let d ← x.ticking
    let (db, r) ← decideStep db x d answer
    some (db, x.ticks r, pc)
  | .tickFails => if x.ticking = none then none else some (db, x.decides (.STOP_AND_FINALIZE .F07_STATE_UNCERTAIN), pc)
  | .checkpoint => if pc = .load then none else some (db, { x with checkpointStopped := true }, pc)
  | .requestHostStop => if x.checkpointStopped then some (db, { x with aborted := true }, pc) else none
  | .exits => some (db, { x with exited := true }, pc)
  | .run observation => if pc = .race then some (db, { x with observation := some observation, runFinished := true }, .terminating) else none
  | .reject => if pc = .race then some (db, { x with observation := some x.failure }, .terminating) else none
  | .stop => if pc = .race ∧ x.aborted then some (db, x, .terminating) else none
  | .terminate confirmed =>
    if pc ≠ .terminating then none
    else if !confirmed then some (db, x, .returned .CHILD_TERMINATION_UNCONFIRMED)
    else if x.exited then some (db, x.observe, afterTermination x.observe) else none
  | .decides answer =>
    match pc with
    | .deciding d => do
      let (db, r) ← decideStep db x d answer
      some (db, x, afterDecision x r)
    | _ => none
  | .reason userCancellation =>
    if pc = .reason then some (db, x, .finalizing (if userCancellation then .CANCELLED else .KILLED)) else none
  | .acknowledge acknowledged =>
    if pc ≠ .acknowledge then none
    else
      let stops := match db.units[x.host.executionUnitId]? with
        | some u => if acknowledged then ackStop db.stops u.id else db.stops
        | none => db.stops
      some ({ db with stops }, x, .returned .LEASE_LOST)
  | .database =>
    match pc with
    | .load => some (db, x, .race)
    | .finalizing kind => do
      let (db, r) ← fahes_finalize_unit db x.host.executionUnitId kind
      some (db, x, .returned (.FINALIZED r.status r.replayed))
    | _ => none
  | .throws =>
    match pc with
    | .race | .terminating | .acknowledge | .returned _ | .thrown => none
    | .load | .deciding _ | .reason | .finalizing _ => some (db, x, .thrown)

end Run

/-! ### The machine -/

structure HostRun extends Host where
  pc : HostPc
  deriving DecidableEq

/-- Dispatches, and the hosts of the units that they have brought to `RUNNING`. -/
structure Platform extends State where
  hosts : List HostRun
  deriving DecidableEq

/-- The dispatch has returned `RUNNING`. -/
def DispatchPc.isRunning : DispatchPc → Bool
  | .returned (.RUNNING _ _) => true
  | _ => false

namespace Platform

inductive Action where
  | platform (a : Execution.Action)
  /-- `runUnit` is called, with the lease of the dispatch's admission. -/
  | start (k : ℕ) (lease : Option ℕ)
  | host (j : ℕ) (input : HostInput)
  deriving DecidableEq

variable (s : Platform)

/-- The unit of the dispatch is run once, the lease is one of the unit. -/
def canStart (k : ℕ) (d : Dispatch) (lease : Option ℕ) : Bool :=
  d.pc.isRunning && s.hosts.all (·.dispatch ≠ k) &&
    lease.all fun n => (s.db.leases[n]?).any (·.executionUnitId = d.host.executionUnitId)

def next : Action → Option Platform
  | .platform a => (Execution.next s.toState a).map fun t => { s with toState := t }
  | .start k lease => do
    let d ← s.dispatches[k]?
    if s.canStart k d lease then
      some { s with
        hosts := s.hosts ++ [⟨⟨k, d.host, d.leaseClass, lease, false, false, false, false, false, none, none, none⟩, .load⟩] }
    else none
  | .host j input => do
    let x ← s.hosts[j]?
    let (db, y, pc) ← hostStep s.db x.toHost x.pc input
    some { s with db, hosts := s.hosts.set j ⟨y, pc⟩ }

def step (s : Platform) (a : Action) (s' : Platform) : Prop := s.next a = some s'

def init : Platform := ⟨State.init, []⟩

end Platform

end WebAudit.Execution
