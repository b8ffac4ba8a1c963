import WebAudit.Intake.Entitlements
import WebAudit.Scans.States
import WebAudit.Lib.Runs

/-!
# Scans of one user as they are created

Calls of `createScan` and of `createReadinessScan` for one user, in any number and any order. A call reads, passes
the plan's gate, counts what is running, and later, after everything else was asked, inserts its row; then it is
charged and its first job is queued. Between two steps of a call anything else may happen.

The plan gates and the counts are as the source has them. What else may end a call (the profile, the queue's
capacity, the repository's connection, the control gate, the quote, the balance, the blocking issues of a baseline,
the debit, the plan's persistence, the queue) is an answer, and only whether it lets the call go on is known.
The subscription, the plan table and the targets do not change.
-/

namespace WebAudit.Intake

open WebAudit.Scans WebAudit.Lib

inductive ScanKind where
  | INITIAL
  | READINESS
  deriving DecidableEq

/-- A row of `Scan`. -/
structure ScanRow where
  targetId : ℕ
  kind : ScanKind
  requestedModules : List ModuleType
  state : ScanState
  /-- The row was deleted again. -/
  deleted : Bool
  deriving DecidableEq

/-- The row is there, and not terminal. -/
def ScanRow.isLive (row : ScanRow) : Bool := !row.deleted && !row.state.isTerminal

/-- What `enqueueFirstPhase` was given. -/
structure FirstPhaseJob where
  scanId : ℕ
  modules : List ModuleType
  planQueuePriority : ℤ
  deriving DecidableEq

inductive Request where
  | scan (targetId : ℕ) (modules : List ModuleType)
  | readiness (baselineScanId : ℕ)
  deriving DecidableEq

inductive BaselineRefusal where
  | notFound
  | notInitial
  | notCompleted
  deriving DecidableEq

/-- What a call throws. -/
inductive CreateError where
  | targetNotAvailable (targetId : ℕ)
  | duplicateScan (runningScanId : ℕ)
  | planUpgradeRequired (inputType : InputType) (requiredTier : Option String)
  | baselineNotEligible (reason : BaselineRefusal)
  | readinessNotOnPlan (requiredTier : Option String)
  | entitlement (failure : EntitlementFailure)
  /-- What was asked for besides, or the database or the queue, refused. -/
  | other
  deriving DecidableEq

/-- What a call inserts, and the priority of its job. -/
structure Draft where
  targetId : ℕ
  kind : ScanKind
  modules : List ModuleType
  planQueuePriority : ℤ
  deriving DecidableEq

/-- Where a call stands: what it does next. -/
inductive CallPc where
  /-- The target or the baseline, a running scan and the plan are read, and the gate is passed. -/
  | read
  /-- `assertConcurrencyHeadroom`. -/
  | headroom (draft : Draft)
  /-- Whatever else is asked. `seen` rows had been inserted when the running scans were counted: nothing reads it. -/
  | check (draft : Draft) (seen : ℕ)
  | insert (draft : Draft) (seen : ℕ)
  | debit (scanId : ℕ) (draft : Draft)
  /-- The debit failed; the row is deleted. -/
  | remove (scanId : ℕ)
  | enqueue (scanId : ℕ) (draft : Draft)
  /-- There is no job; the charge is given back, and the row is marked. -/
  | markFailed (scanId : ℕ)
  | returned (scanId : ℕ)
  | threw (error : CreateError)
  deriving DecidableEq

structure Call where
  request : Request
  pc : CallPc
  deriving DecidableEq

structure Desk where
  scans : List ScanRow
  jobs : List FirstPhaseJob
  calls : List Call
  deriving DecidableEq

namespace Desk

/-- How many of the user's scans are not terminal. -/
def running (s : Desk) : ℕ := s.scans.countP ScanRow.isLive

/-- A live scan of the target. -/
def runningOf (s : Desk) (targetId : ℕ) : Option ℕ := s.scans.findIdx? fun row => row.targetId = targetId && row.isLive

def setState (s : Desk) (scanId : ℕ) (state : ScanState) : Desk :=
  { s with scans := s.scans.modify scanId fun row => { row with state } }

end Desk

section Calls

variable (account : Account) (now : ℤ) (targets : ℕ → Option InputType)

/-- The first reads of `createScan`, and FR-016's gate. -/
def readScan (s : Desk) (targetId : ℕ) (modules : List ModuleType) : CallPc :=
  match targets targetId with
  | none => .threw (.targetNotAvailable targetId)
  | some inputType =>
    match s.runningOf targetId with
    | some scanId => .threw (.duplicateScan scanId)
    | none =>
      match account.subscribedPlan with
      | none => .threw (.entitlement .recordNotFound)
      | some plan =>
        if plan.allowedInputTypes.contains inputType then .headroom ⟨targetId, .INITIAL, modules, plan.queuePriority⟩
        else .threw (.planUpgradeRequired inputType (account.cheapestActiveTierId fun plan => plan.allowedInputTypes.contains inputType))

/-- The first reads of `createReadinessScan`, and its gate. -/
def readBaseline (s : Desk) (baselineScanId : ℕ) : CallPc :=
  match s.scans[baselineScanId]? with
  | none => .threw (.baselineNotEligible .notFound)
  | some baseline =>
    if baseline.deleted then .threw (.baselineNotEligible .notFound)
    else if baseline.kind ≠ .INITIAL then .threw (.baselineNotEligible .notInitial)
    else if baseline.state ≠ .COMPLETED then .threw (.baselineNotEligible .notCompleted)
    else
      match account.subscribedPlan with
      | none => .threw (.entitlement .recordNotFound)
      | some plan =>
        if plan.allowReadinessPass then .headroom ⟨baseline.targetId, .READINESS, allAreas, plan.queuePriority⟩
        else .threw (.readinessNotOnPlan (account.cheapestActiveTierId fun plan => plan.allowReadinessPass))

/-- The next step of a call; `ok` is the answer of what is asked besides. -/
def CallPc.step (request : Request) (ok : Bool) (pc : CallPc) (s : Desk) : CallPc × Desk :=
  match pc with
  | .read =>
    match request with
    | .scan targetId modules => (readScan account targets s targetId modules, s)
    | .readiness baselineScanId => (readBaseline account s baselineScanId, s)
  | .headroom draft =>
    if ok then
      match assertConcurrencyHeadroom account now s.running with
      | .error failure => (.threw (.entitlement failure), s)
      | .ok _ => (.check draft s.scans.length, s)
    else (.threw .other, s)
  | .check draft seen =>
    if ok then
      match draft.kind, s.runningOf draft.targetId with
      | .READINESS, some scanId => (.threw (.duplicateScan scanId), s)
      | _, _ => (.insert draft seen, s)
    else (.threw .other, s)
  | .insert draft _ =>
    if ok then
      -- `Scan_one_active_per_target`
      match s.runningOf draft.targetId with
      | some scanId => (.threw (.duplicateScan scanId), s)
      | none =>
        (.debit s.scans.length draft, { s with scans := s.scans ++ [⟨draft.targetId, draft.kind, draft.modules, .QUEUED, false⟩] })
    else (.threw .other, s)
  | .debit scanId draft => (if ok then .enqueue scanId draft else .remove scanId, s)
  | .remove scanId => (.threw .other, { s with scans := s.scans.modify scanId fun row => { row with deleted := true } })
  | .enqueue scanId draft =>
    if ok then
      (.returned scanId, { s with jobs := s.jobs ++ [⟨scanId, modulesForPhase .RUNNING_PHASE_1 draft.modules, draft.planQueuePriority⟩] })
    else (.markFailed scanId, s)
  | .markFailed scanId =>
    (.threw .other, if ok && (s.scans[scanId]?).any (·.state = .QUEUED) then s.setState scanId .FAILED else s)
  | .returned scanId => (.returned scanId, s)
  | .threw error => (.threw error, s)

inductive DeskAction where
  | call (request : Request)
  /-- A call takes its next step. -/
  | step (i : ℕ) (ok : Bool)
  /-- A scan goes on, or ends. -/
  | move (scanId : ℕ) (state : ScanState)
  deriving DecidableEq

def Desk.next (s : Desk) : DeskAction → Option Desk
  | .call request => some { s with calls := s.calls ++ [⟨request, .read⟩] }
  | .step i ok =>
    (s.calls[i]?).map fun call =>
      let (pc, s') := call.pc.step account now targets call.request ok s
      { s' with calls := s'.calls.set i { call with pc } }
  | .move scanId state =>
    match s.scans[scanId]? with
    | none => none
    | some row => if canTransition row.state state then some (s.setState scanId state) else none

abbrev Desk.Steps (s : Desk) (a : DeskAction) (s' : Desk) : Prop := s.next account now targets a = some s'

end Calls

/-- No call is under way. -/
structure Desk.Idle (s : Desk) : Prop where
  calls : s.calls = []
  jobs : s.jobs = []

/-- No target has two live scans. -/
def Desk.OnePerTarget (s : Desk) : Prop :=
  ∀ (i j : ℕ) (a b : ScanRow), s.scans[i]? = some a → s.scans[j]? = some b → a.isLive = true → b.isLive = true →
    a.targetId = b.targetId → i = j

/-! ### What a step can do -/

/-- The step of one call: it only goes on, or it writes. -/
inductive CallPc.Moves (account : Account) (now : ℤ) (targets : ℕ → Option InputType) (request : Request) (s : Desk) :
    CallPc → CallPc → Desk → Prop where
  | readScan {targetId modules} (h : request = .scan targetId modules) :
    Moves account now targets request s .read (Intake.readScan account targets s targetId modules) s
  | readBaseline {baselineScanId} (h : request = .readiness baselineScanId) :
    Moves account now targets request s .read (Intake.readBaseline account s baselineScanId) s
  | counted {draft plan} (h : assertConcurrencyHeadroom account now s.running = .ok plan) :
    Moves account now targets request s (.headroom draft) (.check draft s.scans.length) s
  | checked {draft seen} : Moves account now targets request s (.check draft seen) (.insert draft seen) s
  | inserted {draft seen} (h : s.runningOf draft.targetId = none) :
    Moves account now targets request s (.insert draft seen) (.debit s.scans.length draft)
      { s with scans := s.scans ++ [⟨draft.targetId, draft.kind, draft.modules, .QUEUED, false⟩] }
  | debited {scanId draft} : Moves account now targets request s (.debit scanId draft) (.enqueue scanId draft) s
  | unpaid {scanId draft} : Moves account now targets request s (.debit scanId draft) (.remove scanId) s
  | removed {scanId} : Moves account now targets request s (.remove scanId) (.threw .other)
      { s with scans := s.scans.modify scanId fun row => { row with deleted := true } }
  | enqueued {scanId draft} : Moves account now targets request s (.enqueue scanId draft) (.returned scanId)
      { s with jobs := s.jobs ++ [⟨scanId, modulesForPhase .RUNNING_PHASE_1 draft.modules, draft.planQueuePriority⟩] }
  | unqueued {scanId draft} : Moves account now targets request s (.enqueue scanId draft) (.markFailed scanId) s
  | failed {scanId} : Moves account now targets request s (.markFailed scanId) (.threw .other) (s.setState scanId .FAILED)
  | threw {pc error} : Moves account now targets request s pc (.threw error) s
  | stays {pc} : Moves account now targets request s pc pc s

theorem CallPc.step_moves {account : Account} {now : ℤ} {targets : ℕ → Option InputType} {request : Request} (ok : Bool)
    (pc : CallPc) (s : Desk) :
    CallPc.Moves account now targets request s pc (pc.step account now targets request ok s).1 (pc.step account now targets request ok s).2 := by
  cases pc with
  | read =>
    cases request with
    | scan targetId modules => exact .readScan rfl
    | readiness baselineScanId => exact .readBaseline rfl
  | headroom draft =>
    unfold CallPc.step
    dsimp only
    split
    · split
      · exact .threw
      · rename_i plan h
        exact .counted h
    · exact .threw
  | check draft seen =>
    unfold CallPc.step
    dsimp only
    split
    · split
      · exact .threw
      · exact .checked
    · exact .threw
  | insert draft seen =>
    unfold CallPc.step
    dsimp only
    split
    · split
      · exact .threw
      · rename_i h
        exact .inserted h
    · exact .threw
  | debit scanId draft =>
    unfold CallPc.step
    dsimp only
    split
    · exact .debited
    · exact .unpaid
  | remove scanId => exact .removed
  | enqueue scanId draft =>
    unfold CallPc.step
    dsimp only
    split
    · exact .enqueued
    · exact .unqueued
  | markFailed scanId =>
    unfold CallPc.step
    dsimp only
    split
    · exact .failed
    · exact .threw
  | returned scanId => exact .stays
  | threw error => exact .stays

end WebAudit.Intake
