import WebAudit.Credits.Ledger

/-!
# Re-checks: asserting a fix, and verifying it

A user asserts that an issue is fixed (`POST /issues/:id/assert-fixed` in
`routes/issues.routes.ts`): three credits are charged, the issue moves to
`ASSERTED_FIXED`, and a job is enqueued. A worker takes the job
(`reverify/runner.ts`), runs the one check the issue came from, and records the outcome
(`services/issues/attempts.ts`), which moves the issue on and gives the charge back where
nothing was verified. `services/issues/state-machine.ts` says which moves there are.

## The model

* The tables are those of one user, as in `WebAudit.Credits.Ledger`; an issue's id, an
  attempt's and a job's are their positions. What a user may not see is not there.
* The handler and the runner are small machines, `AssertPc` and `ReverifyPc`: one step for
  each read, write or transaction. `recordVerificationAttempt` reads and writes the issue in
  one transaction; as another may commit in between, these are two steps, and the second
  writes all or nothing.
* What the check finds is handed to the runner from outside.
-/

namespace WebAudit.Issues

open WebAudit.Lib WebAudit.Credits

/-! ### The states of an issue -/

inductive IssueState where
  | OPEN
  | ASSERTED_FIXED
  | RESOLVED
  | UNVERIFIABLE
  | REOPENED
  deriving DecidableEq

inductive VerificationOutcome where
  | PASSED
  | FAILED
  | UNVERIFIABLE
  | ERRORED
  deriving DecidableEq

/-- The name of an outcome, as it stands in an error. -/
def VerificationOutcome.name : VerificationOutcome → String
  | .PASSED => "PASSED"
  | .FAILED => "FAILED"
  | .UNVERIFIABLE => "UNVERIFIABLE"
  | .ERRORED => "ERRORED"

/-- `input.outcome.toLowerCase()`. -/
def VerificationOutcome.lower : VerificationOutcome → String
  | .PASSED => "passed"
  | .FAILED => "failed"
  | .UNVERIFIABLE => "unverifiable"
  | .ERRORED => "errored"

/-- `ASSERTABLE_FROM`. -/
def assertableFrom : List IssueState := [.OPEN, .UNVERIFIABLE, .REOPENED]

def canAssertFixed (state : IssueState) : Bool := assertableFrom.contains state

def outcomeToState : VerificationOutcome → IssueState
  | .PASSED => .RESOLVED
  | .FAILED => .OPEN
  | .UNVERIFIABLE => .UNVERIFIABLE
  | .ERRORED => .OPEN

/-- `assertResolvedOnlyOnPass`: the error it throws, if it throws. -/
def assertResolvedOnlyOnPass (outcome : VerificationOutcome) (next : IssueState) : Except String Unit :=
  if next = .RESOLVED ∧ outcome ≠ .PASSED then
    .error ("Refusing to resolve an issue on a " ++ outcome.name ++
      " outcome. RESOLVED has exactly one inbound edge and its only trigger is a passing check (SC-007).")
  else .ok ()

def outcomeIsRefundable (outcome : VerificationOutcome) : Bool := outcome = .ERRORED || outcome = .UNVERIFIABLE

/-- The columns `timestampFieldFor` names. -/
inductive TimestampField where
  | resolvedAt
  | reopenedAt
  deriving DecidableEq

def timestampFieldFor : IssueState → Option TimestampField
  | .RESOLVED => some .resolvedAt
  | .REOPENED => some .reopenedAt
  | _ => none

/-- No outcome leaves the issue asserted. -/
theorem outcomeToState_ne_asserted (outcome : VerificationOutcome) : outcomeToState outcome ≠ .ASSERTED_FIXED := by
  cases outcome <;> decide

/-! ### The tables -/

/-- A record of evidence; nothing here reads it. -/
abbrev Evidence := List (String × String)

/-- A row of `Issue`. -/
structure Issue where
  scanId : ℕ
  checkId : String
  state : IssueState
  assertedFixedAt : Option ℤ
  resolvedAt : Option ℤ
  reopenedAt : Option ℤ
  previouslyResolved : Bool
  deriving DecidableEq

/-- A row of `VerificationAttempt`. -/
structure VerificationAttempt where
  issueId : ℕ
  outcome : VerificationOutcome
  evidence : Option Evidence
  creditsCharged : ℤ
  durationMs : ℤ
  deriving DecidableEq

/-- What a re-verification job carries. -/
structure ReverifyJobData where
  issueId : ℕ
  debitTransactionId : Option ℕ
  creditsCharged : ℤ
  deriving DecidableEq

/-- A job, and what the queue knows of it. -/
structure Job where
  data : ReverifyJobData
  /-- The attempts that ended in an error. -/
  attemptsMade : ℕ
  completed : Bool
  deriving DecidableEq

/-- The tables, and the queue. -/
structure Store where
  ledger : Ledger
  issues : List Issue
  attempts : List VerificationAttempt
  jobs : List Job
  deriving DecidableEq

/-- `REVERIFY_COST`. -/
def reverifyCost : ℤ := 3

/-- The issue is there, and it is `ASSERTED_FIXED`. -/
def Store.isAsserted (s : Store) (issueId : ℕ) : Bool := s.issues[issueId]?.any (·.state = .ASSERTED_FIXED)

/-- The guarded `updateMany` of the handler; `none` when it moves no row. -/
def Store.assertFixed (s : Store) (issueId : ℕ) (now : ℤ) : Option Store :=
  match s.issues[issueId]? with
  | none => none
  | some issue =>
    if assertableFrom.contains issue.state then
      some { s with issues := s.issues.set issueId { issue with state := .ASSERTED_FIXED, assertedFixedAt := some now } }
    else none

/-- The columns the guarded `updateMany` of `recordVerificationAttempt` writes. -/
def Issue.verified (issue : Issue) (next : IssueState) (now : ℤ) : Issue :=
  let stamped := match timestampFieldFor next with
    | none => { issue with state := next }
    | some .resolvedAt => { issue with state := next, resolvedAt := some now }
    | some .reopenedAt => { issue with state := next, reopenedAt := some now }
  if next = .RESOLVED then { stamped with previouslyResolved := true } else stamped

/-- The writes of `recordVerificationAttempt`: the guarded `updateMany` and, when it moved the row, the
attempt. `none` when it moved none. -/
def Store.record (s : Store) (attempt : VerificationAttempt) (now : ℤ) : Option Store :=
  match s.issues[attempt.issueId]? with
  | none => none
  | some issue =>
    if issue.state = .ASSERTED_FIXED then
      some { s with
        issues := s.issues.set attempt.issueId (issue.verified (outcomeToState attempt.outcome) now)
        attempts := s.attempts ++ [attempt] }
    else none

/-! ### `POST /issues/:id/assert-fixed` -/

/-- What the handler answers. -/
inductive Response where
  | notFound
  | notAssertable (state : IssueState)
  | insufficientCredits (required available : ℤ)
  | alreadyAsserted
  | accepted (issueId scanId : ℕ) (jobId : String) (creditsCharged : ℤ)
  deriving DecidableEq

/-- Where the handler stands: the call it makes next. -/
inductive AssertPc where
  /-- The issue is read next. -/
  | read
  /-- The charge is made next. -/
  | debit (scanId : ℕ)
  /-- The issue is moved next. -/
  | assert (scanId debitId : ℕ)
  /-- The issue was not moved: the charge is refunded next. -/
  | undo (debitId : ℕ)
  /-- The job is enqueued next. -/
  | enqueue (scanId debitId : ℕ)
  | responded (response : Response)
  /-- A call failed, and nothing came after it: the answer is a 500, if there is one. -/
  | failed
  deriving DecidableEq

/-- The job the handler enqueues. -/
def recheckJob (issueId debitId : ℕ) : Job := ⟨⟨issueId, some debitId, reverifyCost⟩, 0, false⟩

/-- The next call of the handler. `periodEnd` is that of the user's subscription. -/
def AssertPc.step (issueId : ℕ) (periodEnd : Option ℤ) (now : ℤ) (pc : AssertPc) (s : Store) : AssertPc × Store :=
  match pc with
  | .read =>
    match s.issues[issueId]? with
    | none => (.responded .notFound, s)
    | some issue =>
      if canAssertFixed issue.state then (.debit issue.scanId, s)
      else (.responded (.notAssertable issue.state), s)
  | .debit scanId =>
    match (Credits.debit now ⟨reverifyCost, "reverify:issue", none, some issueId⟩).run s.ledger with
    | (.ok debitId, ledger) => (.assert scanId debitId, { s with ledger })
    | (.error (.insufficientCredits required available), ledger) =>
      (.responded (.insufficientCredits required available), { s with ledger })
    | (.error _, ledger) => (.failed, { s with ledger })
  | .assert scanId debitId =>
    match s.assertFixed issueId now with
    | some s' => (.enqueue scanId debitId, s')
    | none => (.undo debitId, s)
  | .undo debitId =>
    -- a refund that throws is logged, and the answer is the same
    let ledger := ((refund periodEnd now debitId ("reverify:lost-assert-race:" ++ toString issueId)).run s.ledger).2
    (.responded .alreadyAsserted, { s with ledger })
  | .enqueue scanId debitId =>
    (.responded (.accepted issueId scanId ("reverify:" ++ toString issueId ++ ":" ++ toString now) reverifyCost),
      { s with jobs := s.jobs ++ [recheckJob issueId debitId] })
  | .responded response => (.responded response, s)
  | .failed => (.failed, s)

/-! ### `runReverification` -/

/-- What the check says when it ends by itself (`ReverifyResult`). -/
inductive ReverifyResult where
  | passed
  | failed (evidence : Evidence)
  | unverifiable (reason : String)
  deriving DecidableEq

/-- `outcomeOf`. -/
def ReverifyResult.outcomeOf : ReverifyResult → VerificationOutcome × Option Evidence
  | .passed => (.PASSED, none)
  | .failed evidence => (.FAILED, some evidence)
  | .unverifiable reason => (.UNVERIFIABLE, some [("reason", reason)])

/-- What comes of finding the check and running it. -/
inductive CheckRun where
  /-- No capability can re-verify the check. -/
  | noEntryPoint
  | resolved (result : ReverifyResult) (durationMs : ℤ)
  | timeout (timeoutMs : ℕ) (durationMs : ℤ)
  /-- It threw; `error` is the error described. -/
  | threw (error : String) (durationMs : ℤ)
  deriving DecidableEq

/-- What is to be recorded: outcome, evidence and duration. -/
structure Finding where
  outcome : VerificationOutcome
  evidence : Option Evidence
  durationMs : ℤ
  deriving DecidableEq

/-- What the runner makes of it, for an issue of the check `checkId`. -/
def CheckRun.finding (checkId : String) : CheckRun → Finding
  | .noEntryPoint =>
    ⟨.UNVERIFIABLE, some [("reason", "No re-verification entry point is registered for " ++ checkId ++ ".")], 0⟩
  | .resolved result durationMs => ⟨result.outcomeOf.1, result.outcomeOf.2, durationMs⟩
  | .timeout timeoutMs durationMs =>
    ⟨.ERRORED, some [("error", "The re-verification check did not finish within " ++ toString timeoutMs ++ "ms.")],
      durationMs⟩
  | .threw error durationMs => ⟨.ERRORED, some [("error", error)], durationMs⟩

/-- What `recordVerificationAttempt` checks before it writes: a `FAILED` has evidence, and only a `PASSED`
resolves. -/
def Finding.precondition (f : Finding) : Except String Unit :=
  if f.outcome = .FAILED ∧ f.evidence = none then
    .error "A FAILED re-verification must carry current failing evidence (FR-061)."
  else assertResolvedOnlyOnPass f.outcome (outcomeToState f.outcome)

/-- `ReverifyRunResult`. -/
structure ReverifyRunResult where
  applied : Bool
  outcome : Option VerificationOutcome
  issueState : Option IssueState
  creditsRefunded : ℤ
  deriving DecidableEq

/-- Where a run stands: the call it makes next. -/
inductive ReverifyPc where
  /-- The issue is read next. -/
  | read
  /-- The check of this issue is run next. -/
  | check (issue : Issue)
  /-- The transaction reads the issue next. -/
  | find (f : Finding)
  /-- The transaction writes next. -/
  | write (f : Finding)
  /-- The verdict is recorded: the charge is refunded next. -/
  | refund (outcome : VerificationOutcome)
  | returned (result : ReverifyRunResult)
  /-- The run threw, or its process died. -/
  | failed
  deriving DecidableEq

/-- `data.creditsCharged || REVERIFY_COST`. -/
def ReverifyJobData.charged (data : ReverifyJobData) : ℤ :=
  if data.creditsCharged = 0 then reverifyCost else data.creditsCharged

/-- The row to record. -/
def Finding.attempt (f : Finding) (data : ReverifyJobData) : VerificationAttempt :=
  ⟨data.issueId, f.outcome, f.evidence, data.charged, f.durationMs⟩

/-- What follows the recorded verdict: the debit to refund, if the charge is to be given back. -/
def ReverifyJobData.refundable (data : ReverifyJobData) (outcome : VerificationOutcome) : Option ℕ :=
  if 0 < data.charged ∧ outcomeIsRefundable outcome = true then data.debitTransactionId else none

/-- The next call of a run. `periodEnd` is that of the user's subscription; `check` is what the check finds,
if it is run next. -/
def ReverifyPc.step (data : ReverifyJobData) (periodEnd : Option ℤ) (now : ℤ) (check : CheckRun) (pc : ReverifyPc)
    (s : Store) : ReverifyPc × Store :=
  match pc with
  | .read =>
    match s.issues[data.issueId]? with
    | none => (.returned ⟨false, none, none, 0⟩, s)
    | some issue => if issue.state ≠ .ASSERTED_FIXED then (.returned ⟨false, none, none, 0⟩, s) else (.check issue, s)
  | .check issue =>
    match (check.finding issue.checkId).precondition with
    | .error _ => (.failed, s)
    | .ok () => (.find (check.finding issue.checkId), s)
  | .find f =>
    match s.issues[data.issueId]? with
    | none => (.returned ⟨false, some f.outcome, none, 0⟩, s)
    | some issue =>
      if issue.state ≠ .ASSERTED_FIXED then (.returned ⟨false, some f.outcome, some issue.state, 0⟩, s) else (.write f, s)
  | .write f =>
    match s.record (f.attempt data) now with
    | none => (.returned ⟨false, some f.outcome, none, 0⟩, s)
    | some s' =>
      match data.refundable f.outcome with
      | none => (.returned ⟨true, some f.outcome, some (outcomeToState f.outcome), 0⟩, s')
      | some _ => (.refund f.outcome, s')
  | .refund outcome =>
    match data.refundable outcome with
    | none => (.returned ⟨true, some outcome, some (outcomeToState outcome), 0⟩, s)
    | some debitId =>
      match (refundPartial periodEnd now
          ⟨debitId, data.charged, "reverify-" ++ outcome.lower ++ ":" ++ toString data.issueId⟩).run s.ledger with
      | (.ok _, ledger) => (.returned ⟨true, some outcome, some (outcomeToState outcome), data.charged⟩, { s with ledger })
      -- logged and swallowed
      | (.error _, ledger) => (.returned ⟨true, some outcome, some (outcomeToState outcome), 0⟩, { s with ledger })
  | .returned result => (.returned result, s)
  | .failed => (.failed, s)

end WebAudit.Issues
