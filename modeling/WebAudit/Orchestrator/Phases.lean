import Mathlib.Data.Int.Notation
import WebAudit.Lib.Runs
import WebAudit.Scans.States

/-!
# The orchestrator

Everything that moves one scan: the phase jobs (`orchestrator.ts`, `phases.ts`), the two ways out of
the questionnaire, the gate of its plan, the timeout sweep and the cancellation, each with the
guarded updates of `state-machine.ts`.

## The model

* A step is one statement on the database or the queue, or a piece of work between two of them. Any
  number of runs go on at once, and one that goes no further has crashed.
* Reads see what is committed. An update waits for the row: a transaction of the sweep holds it from
  its own update until it commits or is rolled back.
* What throws has done nothing, but for an `add` to a queue, which may have added the job. A rollback
  may come at any time, as it does when an interactive transaction has taken too long.
* A job that has been added may be delivered at any time, and again. That one is added once for its
  id is left out: a second one is only one more delivery.
* `emit` swallows what the publisher throws, and is left out; so are results, refunds in the ledger
  and the columns of a scan that nothing here reads.
* Which scans a sweep considers, and whether a plan's units and results are through, is up to the run.
-/

namespace WebAudit.Orchestrator

open WebAudit.Lib WebAudit.Scans

/-! ### The row -/

structure Scan where
  state : ScanState
  requestedModules : List ModuleType
  startedAt : Option ℤ
  completedAt : Option ℤ
  deriving DecidableEq

/-- What `transition` writes. -/
def Scan.moved (r : Scan) (before after : ScanState) (now : ℤ) : Scan where
  state := after
  requestedModules := r.requestedModules
  startedAt := if after = .RUNNING_PHASE_1 ∧ before = .QUEUED then some now else r.startedAt
  completedAt := if after.isTerminal then some now else r.completedAt

/-- What the cancel route writes. -/
def Scan.cancelled (r : Scan) (now : ℤ) : Scan := { r with state := .CANCELLED, completedAt := some now }

/-! ### Runs -/

structure PhaseJobData where
  phase : ScanState
  modules : List ModuleType
  alreadyTransitioned : Bool
  deriving DecidableEq

inductive Work where
  | phase (data : PhaseJobData)
  /-- The questionnaire is answered or skipped, or its deadline has come. -/
  | resume
  /-- `finalizeUnitAndContinue`, after the finalizer. -/
  | unit
  /-- `terminate` of a scan that the sweep has read in this state. -/
  | timeout (seen : ScanState)
  | cancel
  deriving DecidableEq

/-- How a run is over. -/
inductive Ending where
  | returned
  /-- It has thrown, and `failScan` has run. -/
  | handled
  | thrown
  deriving DecidableEq

/-- What comes after the terminal observers. -/
inductive Rest where
  | finished (e : Ending)
  /-- The transaction is still open. -/
  | commit
  deriving DecidableEq

/-- The next statement of a run. -/
inductive Pc where
  -- `handlePhase`
  | read
  | entry (before : ScanState)
  | modules
  | walk
  -- `awaitQuestionnaire`
  | pause
  | schedule
  -- `continueScanIfPlanTerminal`
  | gate
  | ready (deadlineMs : Option ℤ)
  | claim (deadlineMs : ℤ)
  | enqueue (job : PhaseJobData)
  /-- `runMasterSynthesis`. -/
  | synthesis
  /-- What a `RUNNING_DOCS` job does before it completes the scan. -/
  | docs
  | complete
  /-- `failScan`. -/
  | fail
  -- `notifyTerminal`
  | refund (rest : Rest)
  | teardown (rest : Rest)
  /-- The teardown clears the path of the workspace, on a connection of its own. -/
  | clear (rest : Rest)
  -- `resumeAfterQuestionnaire`
  | resume
  | intent
  -- `terminate`
  | fresh
  | expire
  | commit
  -- the cancel route
  | cancel
  | enqueueTeardown
  /-- The refund that is not an observer's. -/
  | share
  | finished (e : Ending)
  deriving DecidableEq

inductive TerminalAction where
  | refund
  | teardown
  deriving DecidableEq

structure Run where
  work : Work
  pc : Pc
  /-- Where it has brought the scan, or has found it for its work. -/
  current : Option ScanState
  /-- The edges whose update has matched the row, the last first. -/
  won : List (ScanState × ScanState)
  triggered : List TerminalAction
  deriving DecidableEq

structure State where
  scan : Scan
  /-- The `deadlineMs` of its resolved plan, if it has one. -/
  plan : Option (Option ℤ)
  /-- The row as an open transaction has updated it, and whose. -/
  pending : Option (ℕ × Scan)
  /-- The phase jobs that have been added. -/
  jobs : List PhaseJobData
  deadlineScheduled : Bool
  runs : List Run
  clock : ℤ
  deriving DecidableEq

/-- What a statement comes to. -/
inductive Input where
  | go
  | throws
  /-- The job has been added all the same. -/
  | throwsAdded
  | ready (ready : Bool)
  | teardown (destroyed : Bool)
  | rollback
  deriving DecidableEq

/-- `MODULE_RUNNING_PHASES`. -/
def moduleRunning (phase : ScanState) : Bool :=
  [ScanState.RUNNING_PHASE_1, .RUNNING_PHASE_2, .RUNNING_PHASE_3].contains phase

/-- What a job does once the scan is in its phase. -/
def body (phase : ScanState) : Pc :=
  if moduleRunning phase then .modules
  else if phase = .RUNNING_MASTER then .synthesis
  else if phase = .RUNNING_DOCS then .docs
  else .finished .returned

def Rest.pc : Rest → Pc
  | .finished e => .finished e
  | .commit => .commit

/-- Where a run goes on that has won a transition: the observers come first. -/
def afterMove (after : ScanState) (pc : Pc) (rest : Rest) : Pc := if after.isTerminal then .refund rest else pc

/-- Where a run goes on that throws, `none` where it does not. -/
def thrownTo (work : Work) : Pc → Option Pc
  | .read => some (.finished .thrown)
  | .fail => some (.finished .thrown)
  | .refund _ | .teardown _ | .clear _ | .commit | .enqueueTeardown | .finished _ => none
  | .share =>
    match work with
    -- the route catches it
    | .cancel => some (.finished .returned)
    | _ => some (.finished .thrown)
  | _ =>
    match work with
    | .phase _ => some .fail
    | _ => some (.finished .thrown)

section Step

variable (s : State) (k : ℕ) (d : Run)

/-- The run goes on, nothing else changes. -/
def State.goes (pc : Pc) : State := { s with runs := s.runs.set k { d with pc } }

/-- The scan is moved, and the run goes on. -/
def State.moves (before after : ScanState) (pc : Pc) : State where
  scan := s.scan.moved before after s.clock
  plan := s.plan
  pending := s.pending
  jobs := s.jobs
  deadlineScheduled := s.deadlineScheduled
  runs := s.runs.set k { d with pc, current := some after, won := (before, after) :: d.won }
  clock := s.clock

/-- `transition`, and what follows it when it is won and when it is not. It waits for the row. -/
def State.transition (before after : ScanState) (won : Pc) (rest : Rest) (lost : Pc) : Option State :=
  if !canTransition before after then some (s.goes k d lost)
  else if s.pending.isSome then none
  else if s.scan.state = before then some (s.moves k d before after (afterMove after won rest))
  else some (s.goes k d lost)

/-- The job that the winner of the gate adds. -/
def masterJob (alreadyTransitioned : Bool) : PhaseJobData := ⟨.RUNNING_MASTER, s.scan.requestedModules, alreadyTransitioned⟩

/-- The loop that walks on through phases that have nothing to run, and what comes after it. -/
def State.walk (current : ScanState) : Option State :=
  match nextPhase current with
  | none => some (s.goes k d (.finished .returned))
  | some next =>
    let modules := modulesForPhase next s.scan.requestedModules
    if moduleRunning next && modules.isEmpty then s.transition k d current next .walk (.finished .returned) (.finished .returned)
    else if moduleRunning next then
      some (s.goes k d (if modules.contains .UI then .pause else .enqueue ⟨next, modules, false⟩))
    else some (s.goes k d .gate)

/-- The reads of the gate, `ready` when units and results are through. -/
def State.gateReady (deadlineMs : Option ℤ) (ready : Bool) : Pc :=
  match deadlineMs with
  | some ms => if s.scan.state = .RUNNING_PHASE_3 ∧ s.scan.startedAt.isSome ∧ ready then .claim ms else .finished .returned
  | none => .finished .returned

/-- `transitionBeforeDeadline` to `RUNNING_MASTER`. -/
def State.claim (deadlineMs : ℤ) : Option State :=
  if s.pending.isSome then none
  else if s.scan.state = .RUNNING_PHASE_3 ∧ (s.scan.startedAt.any fun t => s.clock < t + deadlineMs) then
    some (s.moves k d .RUNNING_PHASE_3 .RUNNING_MASTER (.enqueue (masterJob s true)))
  else some (s.goes k d (.finished .returned))

def State.throws : Option State := (thrownTo d.work d.pc).map fun pc => s.goes k d pc

/-- The next statement of a run. -/
def runStep : Pc → Input → Option State
  | .read, .go =>
    match d.work with
    | .phase data =>
      if !data.alreadyTransitioned then some (s.goes k d (.entry s.scan.state))
      else if s.scan.state = data.phase then
        some { s with runs := s.runs.set k { d with pc := body data.phase, current := some data.phase } }
      else some (s.goes k d (.finished .returned))
    | _ => none
  | .entry before, .go =>
    match d.work with
    | .phase data => s.transition k d before data.phase (body data.phase) (.finished .returned) (.finished .returned)
    | _ => none
  | .modules, .go => some (s.goes k d .walk)
  | .walk, .go => d.current.bind fun current => s.walk k d current
  | .pause, .go => s.transition k d .RUNNING_PHASE_1 .AWAITING_QUESTIONNAIRE .schedule (.finished .returned) (.finished .returned)
  | .schedule, .go => some { s.goes k d (.finished .returned) with deadlineScheduled := true }
  | .schedule, .throwsAdded => (s.throws k d).map fun s' => { s' with deadlineScheduled := true }
  | .gate, .go =>
    match s.plan, d.work with
    | none, .phase _ => some (s.goes k d (.enqueue (masterJob s false)))
    | none, _ => some (s.goes k d (.finished .returned))
    | some deadlineMs, _ => some (s.goes k d (.ready deadlineMs))
  | .ready deadlineMs, .ready ready => some (s.goes k d (s.gateReady deadlineMs ready))
  | .claim deadlineMs, .go => s.claim k d deadlineMs
  | .enqueue job, .go => some { s.goes k d (.finished .returned) with jobs := s.jobs ++ [job] }
  | .enqueue job, .throwsAdded => (s.throws k d).map fun s' => { s' with jobs := s.jobs ++ [job] }
  | .synthesis, .go => some (s.goes k d (.enqueue ⟨.RUNNING_DOCS, s.scan.requestedModules, false⟩))
  | .docs, .go => some (s.goes k d .complete)
  | .complete, .go => s.transition k d .RUNNING_DOCS .COMPLETED (.finished .returned) (.finished .returned) (.finished .returned)
  | .fail, .go =>
    match d.work with
    | .phase data => s.transition k d data.phase .FAILED (.finished .handled) (.finished .handled) (.finished .handled)
    | _ => none
  | .refund rest, .go =>
    -- `TIMED_OUT` is left to the sweep
    match rest with
    | .commit => some (s.goes k d (.teardown .commit))
    | .finished e => some { s with runs := s.runs.set k { d with pc := .teardown (.finished e), triggered := .refund :: d.triggered } }
  | .teardown rest, .teardown destroyed =>
    some { s with runs := s.runs.set k { d with
      pc := if destroyed then .clear rest else rest.pc
      triggered := .teardown :: d.triggered } }
  | .clear rest, .go => if s.pending.isSome then none else some (s.goes k d rest.pc)
  | .resume, .go => s.transition k d .AWAITING_QUESTIONNAIRE .RUNNING_PHASE_2 .intent (.finished .returned) (.finished .returned)
  | .intent, .go =>
    some (s.goes k d (.enqueue ⟨.RUNNING_PHASE_2, modulesForPhase .RUNNING_PHASE_2 s.scan.requestedModules, true⟩))
  | .fresh, .go => some (s.goes k d .expire)
  | .expire, .go =>
    match d.work with
    | .timeout seen =>
      if !canTransition seen .TIMED_OUT then some (s.goes k d (.finished .returned))
      else if s.pending.isSome then none
      else if s.scan.state = seen then
        some { s with
          pending := some (k, s.scan.moved seen .TIMED_OUT s.clock)
          runs := s.runs.set k { d with pc := .refund .commit, won := (seen, .TIMED_OUT) :: d.won } }
      else some (s.goes k d (.finished .returned))
    | _ => none
  | .commit, .go =>
    match s.pending with
    | some (holder, row) => if holder = k then some { s.goes k d .share with scan := row, pending := none } else none
    | none => none
  | .cancel, .go =>
    if s.pending.isSome then none
    else if s.scan.state.isTerminal then some (s.goes k d (.finished .returned))
    else some { s with
      scan := s.scan.cancelled s.clock
      runs := s.runs.set k { d with pc := .enqueueTeardown, current := some .CANCELLED, won := (s.scan.state, .CANCELLED) :: d.won } }
  | .enqueueTeardown, .go =>
    some { s with runs := s.runs.set k { d with pc := .share, triggered := .teardown :: d.triggered } }
  | .share, .go =>
    some { s with runs := s.runs.set k { d with pc := .finished .returned, triggered := .refund :: d.triggered } }
  | .share, .throws =>
    (thrownTo d.work .share).map fun pc => { s with runs := s.runs.set k { d with pc, triggered := .refund :: d.triggered } }
  | _, .throws => s.throws k d
  | _, .rollback =>
    match s.pending with
    | some (holder, _) => if holder = k then some { s.goes k d (.finished .thrown) with pending := none } else none
    | none => none
  | _, _ => none

end Step

/-! ### The machine -/

inductive Action where
  | tick (ms : ℕ)
  /-- A phase job is delivered. -/
  | deliver (i : ℕ)
  /-- The delayed job of the questionnaire is. -/
  | deadline
  | answer
  | unitFinalized
  | sweep
  | cancel
  | run (k : ℕ) (input : Input)
  deriving DecidableEq

def State.start (s : State) (work : Work) (pc : Pc) : State := { s with runs := s.runs ++ [⟨work, pc, none, [], []⟩] }

def next (s : State) : Action → Option State
  | .tick ms => some { s with clock := s.clock + ms }
  | .deliver i => (s.jobs[i]?).map fun data => s.start (.phase data) .read
  | .deadline => if s.deadlineScheduled then some (s.start .resume .resume) else none
  | .answer => some (s.start .resume .resume)
  | .unitFinalized => some (s.start .unit .gate)
  | .sweep =>
    if !s.scan.state.isTerminal && s.scan.startedAt.isSome then some (s.start (.timeout s.scan.state) .fresh) else none
  | .cancel => some (s.start .cancel .cancel)
  | .run k input => (s.runs[k]?).bind fun d => runStep s k d d.pc input

def step (s : State) (a : Action) (s' : State) : Prop := next s a = some s'

/-- The scan has been created, and its first job added. -/
def State.init (requestedModules : List ModuleType) (plan : Option (Option ℤ)) : State where
  scan := ⟨.QUEUED, requestedModules, none, none⟩
  plan := plan
  pending := none
  jobs := [⟨.RUNNING_PHASE_1, modulesForPhase .RUNNING_PHASE_1 requestedModules, false⟩]
  deadlineScheduled := false
  runs := []
  clock := 0

/-! ### What a statement comes to -/

section Statements

variable {s s' : State} {k : ℕ} {d : Run}

/-- A transition is won, or nothing is written. -/
theorem transition_does {before after : ScanState} {won lost : Pc} {rest : Rest}
    (h : s.transition k d before after won rest lost = some s') :
    s' = s.goes k d lost ∧ (canTransition before after = false ∨ s.scan.state ≠ before) ∨
      canTransition before after = true ∧ s.pending = none ∧ s.scan.state = before ∧
        s' = s.moves k d before after (afterMove after won rest) := by
  unfold State.transition at h
  split at h
  · rename_i hillegal
    cases h
    exact .inl ⟨rfl, .inl (by simpa using hillegal)⟩
  rename_i hedge
  split at h
  · cases h
  rename_i hfree
  split at h <;> cases h <;> rename_i hstate
  · exact .inr ⟨by simpa using hedge, by simpa using hfree, hstate, rfl⟩
  · exact .inl ⟨rfl, .inr hstate⟩

/-- To throw is to be over, or to have the failure handled. -/
theorem thrownTo_goes {work : Work} {pc pc' : Pc} (h : thrownTo work pc = some pc') : pc' = .fail ∨ ∃ e, pc' = .finished e := by
  rcases work <;> rcases pc <;> simp only [thrownTo, Option.some.injEq, reduceCtorEq] at h <;> subst h <;>
    first | exact .inl rfl | exact .inr ⟨_, rfl⟩

/-- A rollback leaves the row as it was. -/
theorem rollback_does {pc : Pc} (h : runStep s k d pc .rollback = some s') :
    (∃ row, s.pending = some (k, row)) ∧ s' = { s.goes k d (.finished .thrown) with pending := none } := by
  have h : (match s.pending with
      | some (holder, _) => if holder = k then some { s.goes k d (.finished .thrown) with pending := none } else none
      | none => none) = some s' := by
    cases pc <;> exact h
  split at h
  · rename_i holder row hpending
    split at h <;> cases h
    rename_i he
    exact ⟨⟨row, he ▸ hpending⟩, rfl⟩
  · cases h

end Statements

end WebAudit.Orchestrator
