import WebAudit.Credits.Reversals
import WebAudit.Issues.Reverify
import WebAudit.Lib.Runs

/-!
# Everything that happens to the re-checks of a user

Any number of requests, jobs and runs at work at once: `Desk` is the state of it all, and
`Desk.next` what an action leads to. A request may fail at any call, a run may die at any
call, a job may be delivered at any time and any number of times, also long after it ended;
the database may fail a refund; and other services use the ledger.
-/

namespace WebAudit.Issues

open WebAudit.Lib WebAudit.Credits

/-- A request in progress, or ended. -/
structure Request where
  issueId : ℕ
  pc : AssertPc
  /-- The debit it made, if it came to that. -/
  debitId : Option ℕ
  /-- It moved the issue. -/
  moved : Bool
  deriving DecidableEq

/-- A run of a job, in progress or ended. -/
structure Run where
  job : ℕ
  data : ReverifyJobData
  pc : ReverifyPc
  deriving DecidableEq

/-- The tables, everyone at work on them, and what is to be said about them: for each issue, the debit that
paid for the assertion in force; the attempts, each with the debit that paid for the assertion it is about;
and the debits whose refund the database failed. -/
structure Desk where
  store : Store
  requests : List Request
  runs : List Run
  assertions : List (Option ℕ)
  verdicts : List (Option ℕ × VerificationAttempt)
  outages : List ℕ
  deriving DecidableEq

inductive DeskAction where
  | post (issueId : ℕ)
  /-- The next call of a request. -/
  | advance (request : ℕ) (periodEnd : Option ℤ) (now : ℤ)
  /-- The next call of a request fails. -/
  | fail (request : ℕ)
  /-- The database fails the refund of a request. -/
  | refundFails (request : ℕ)
  /-- A worker takes a job, possibly not for the first time. -/
  | deliver (job : ℕ)
  /-- The next call of a run. -/
  | work (run : ℕ) (periodEnd : Option ℤ) (now : ℤ) (check : CheckRun)
  /-- A run throws, or dies. -/
  | crash (run : ℕ)
  /-- The database fails the refund of a run. -/
  | repayFails (run : ℕ)
  /-- Something else happens to the ledger. -/
  | elsewhere (ledger : Ledger)
  deriving DecidableEq

/-! ### The ledger's side -/

/-- The row is the charge of a re-check. -/
def isRecheckRow (t : CreditTransaction) : Bool := t.type = .DEBIT && t.reason = "reverify:issue"

/-- The transaction is the charge of a re-check. -/
def isRecheck (s : Ledger) (d : ℕ) : Bool := s.transactions[d]?.any isRecheckRow

/-- What others may do: append rows that are no charges of re-checks and reverse none. -/
def leavesRechecks (s s' : Ledger) : Bool :=
  s'.transactions.take s.transactions.length = s.transactions &&
    (s'.transactions.drop s.transactions.length).all fun t =>
      !isRecheckRow t && t.reversesId.all fun d => d < s'.transactions.length && !isRecheck s d

/-! ### The machine -/

/-- The request has ended. -/
def AssertPc.isOver : AssertPc → Bool
  | .responded _ | .failed => true
  | _ => false

/-- The run has ended. -/
def ReverifyPc.isOver : ReverifyPc → Bool
  | .returned _ | .failed => true
  | _ => false

/-- The request as it goes on, with the debit it made and whether it moved the issue. -/
def Request.goTo (r : Request) (pc : AssertPc) : Request :=
  { r with
    pc := pc
    debitId := match pc with
      | .assert _ d => some d
      | _ => r.debitId
    moved := match pc with
      | .enqueue _ _ => true
      | _ => r.moved }

/-- The attempt a run is about to record, if the issue lets it. -/
def Run.recording (r : Run) (s : Store) : Option VerificationAttempt :=
  match r.pc with
  | .write f => if s.isAsserted r.data.issueId then some (f.attempt r.data) else none
  | _ => none

/-- What the queue notes when a run goes on. -/
def Store.close (s : Store) (job : ℕ) : ReverifyPc → Store
  | .returned _ => { s with jobs := s.jobs.modify job fun j => { j with completed := true } }
  | .failed => { s with jobs := s.jobs.modify job fun j => { j with attemptsMade := j.attemptsMade + 1 } }
  | _ => s

theorem close_issues (u : Store) (job : ℕ) (pc : ReverifyPc) : (u.close job pc).issues = u.issues := by
  cases pc <;> rfl

theorem close_attempts (u : Store) (job : ℕ) (pc : ReverifyPc) : (u.close job pc).attempts = u.attempts := by
  cases pc <;> rfl

/-- The debit that paid for the assertion of an issue in force. -/
def Desk.holder (s : Desk) (issueId : ℕ) : Option ℕ := s.assertions[issueId]?.join

/-- A request goes on. -/
def Desk.advance (s : Desk) (request : ℕ) (periodEnd : Option ℤ) (now : ℤ) (r : Request) : Desk :=
  let (pc, store) := r.pc.step r.issueId periodEnd now s.store
  { s with
    store := store
    requests := s.requests.set request (r.goTo pc)
    assertions := match pc with
      | .enqueue _ d => s.assertions.set r.issueId (some d)
      | _ => s.assertions }

/-- A run goes on. -/
def Desk.work (s : Desk) (run : ℕ) (periodEnd : Option ℤ) (now : ℤ) (check : CheckRun) (r : Run) : Desk :=
  let (pc, store) := r.pc.step r.data periodEnd now check s.store
  { s with
    store := store.close r.job pc
    runs := s.runs.set run { r with pc := pc }
    assertions := match r.recording s.store with
      | some _ => s.assertions.set r.data.issueId none
      | none => s.assertions
    verdicts := match r.recording s.store with
      | some attempt => s.verdicts ++ [(s.holder r.data.issueId, attempt)]
      | none => s.verdicts }

/-- What an action leads to, where it is possible. -/
def Desk.next (s : Desk) : DeskAction → Option Desk
  | .post issueId => some { s with requests := s.requests ++ [⟨issueId, .read, none, false⟩] }
  | .advance k periodEnd now =>
    (s.requests[k]?).bind fun r => if r.pc.isOver then none else some (s.advance k periodEnd now r)
  | .fail k =>
    (s.requests[k]?).bind fun r =>
      if r.pc.isOver then none else some { s with requests := s.requests.set k { r with pc := .failed } }
  | .refundFails k =>
    (s.requests[k]?).bind fun r =>
      match r.pc with
      | .undo d =>
        some { s with
          requests := s.requests.set k { r with pc := .responded .alreadyAsserted }
          outages := s.outages ++ [d] }
      | _ => none
  | .deliver j => (s.store.jobs[j]?).map fun job => { s with runs := s.runs ++ [⟨j, job.data, .read⟩] }
  | .work n periodEnd now check =>
    (s.runs[n]?).bind fun r => if r.pc.isOver then none else some (s.work n periodEnd now check r)
  | .crash n =>
    (s.runs[n]?).bind fun r =>
      if r.pc.isOver then none
      else some { s with
        store := s.store.close r.job .failed
        runs := s.runs.set n { r with pc := .failed } }
  | .repayFails n =>
    (s.runs[n]?).bind fun r =>
      match r.pc with
      | .refund outcome =>
        (r.data.refundable outcome).map fun d =>
          let pc := .returned ⟨true, some outcome, some (outcomeToState outcome), 0⟩
          { s with
            store := s.store.close r.job pc
            runs := s.runs.set n { r with pc := pc }
            outages := s.outages ++ [d] }
      | _ => none
  | .elsewhere ledger =>
    if leavesRechecks s.store.ledger ledger then some { s with store := { s.store with ledger } } else none

end WebAudit.Issues
