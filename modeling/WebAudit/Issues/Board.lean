import WebAudit.Issues.Desk
import Mathlib.Data.List.Dedup

/-!
# The board: issues over the audits of a target

Modules write what they find as issues (`persistModuleResult`), once for each fingerprint of a scan. Users
and the re-check move them (`Desk`), and when a scan is about to end, the issues of it that were verified in
an earlier scan are reopened (`services/issues/recurrence.ts`): three reads, and a write of the rows that the
last of them found.

`history` says how the states have changed. It is read off the tables, before and after each action
(`changes`), and no action reads it.
-/

namespace WebAudit.Issues

open WebAudit.Lib WebAudit.Credits

/-- `ISSUE_STATE_TRANSITIONS`. -/
def issueStateTransitions : IssueState → List IssueState
  | .OPEN => [.ASSERTED_FIXED]
  | .ASSERTED_FIXED => [.RESOLVED, .OPEN, .UNVERIFIABLE]
  | .RESOLVED => [.REOPENED]
  | .UNVERIFIABLE => [.ASSERTED_FIXED]
  | .REOPENED => [.ASSERTED_FIXED]

/-! ### The board -/

/-- What is read of a scan. -/
structure ScanRow where
  targetId : ℕ
  createdAt : ℤ
  completed : Bool
  deriving DecidableEq

/-- Where `markRecurrences` stands: the query it makes next. -/
inductive RecurrencePc where
  | readScan
  | readPrior (scan : ScanRow)
  | readRecurring (fingerprints : List String)
  /-- The rows that were found are written next. -/
  | write (recurring : List (ℕ × String))
  | returned (reopened : ℕ) (fingerprints : List String)
  /-- It threw, or its process died. -/
  | failed
  deriving DecidableEq

/-- It has ended. -/
def RecurrencePc.isOver : RecurrencePc → Bool
  | .returned _ _ | .failed => true
  | _ => false

structure Recurrence where
  scanId : ℕ
  pc : RecurrencePc
  deriving DecidableEq

/-- A call of `recordVerificationAttempt` that no job makes. -/
structure Call where
  data : ReverifyJobData
  pc : ReverifyPc
  deriving DecidableEq

/-- Who has changed a state; an attempt is a row. -/
inductive Author where
  | request
  | attempt (id : ℕ)
  | recurrence
  deriving DecidableEq

structure Change where
  issueId : ℕ
  origin : IssueState
  target : IssueState
  author : Author
  /-- The scan of the issue was over. -/
  completed : Bool
  deriving DecidableEq

structure Board where
  desk : Desk
  /-- The fingerprint of each issue. -/
  fingerprints : List String
  scans : List ScanRow
  calls : List Call
  recurrences : List Recurrence
  history : List Change
  deriving DecidableEq

inductive BoardAction where
  | openScan (targetId : ℕ) (createdAt : ℤ)
  | complete (scanId : ℕ)
  /-- A module's findings are written, possibly not for the first time: a fingerprint and a check each. -/
  | persist (scanId : ℕ) (findings : List (String × String))
  /-- A request, a job or a run goes on. -/
  | desk (a : DeskAction)
  | record (data : ReverifyJobData) (f : Finding)
  /-- The next step of a call. -/
  | call (n : ℕ) (periodEnd : Option ℤ) (now : ℤ)
  | callFails (n : ℕ)
  | markRecurrences (scanId : ℕ)
  /-- The next query of a `markRecurrences`. -/
  | recur (n : ℕ) (now : ℤ)
  | recurFails (n : ℕ)
  deriving DecidableEq

namespace Board

def issues (s : Board) : List Issue := s.desk.store.issues

def attempts (s : Board) : List VerificationAttempt := s.desk.store.attempts

/-- The issues with their fingerprints. -/
def rows (s : Board) : List (Issue × String) := s.issues.zip s.fingerprints

def withIssues (s : Board) (issues : List Issue) : Board := { s with desk := { s.desk with store := { s.desk.store with issues } } }

/-- `createMany` with `skipDuplicates`, for one row. -/
def insert (scanId : ℕ) (s : Board) (finding : String × String) : Board :=
  if s.rows.any fun row => row.1.scanId = scanId && row.2 = finding.1 then s
  else
    let issue := ⟨scanId, finding.2, .OPEN, none, none, none, false⟩
    { s with
      desk := { s.desk with
        store := { s.desk.store with issues := s.issues ++ [issue] }
        assertions := s.desk.assertions ++ [none] }
      fingerprints := s.fingerprints ++ [finding.1] }

/-! ### `markRecurrences` -/

/-- The fingerprints that were verified in an earlier scan of the target. -/
def priorlyVerified (s : Board) (scanId : ℕ) (scan : ScanRow) : List String :=
  ((s.rows.filter fun row =>
    row.1.scanId ≠ scanId &&
      (s.scans[row.1.scanId]?).any (fun earlier => earlier.targetId = scan.targetId && earlier.createdAt < scan.createdAt) &&
      (row.1.state = .RESOLVED || row.1.previouslyResolved)).map Prod.snd).dedup

def recurring (s : Board) (scanId : ℕ) (fingerprints : List String) : List (ℕ × String) :=
  (s.rows.zipIdx.filter fun row =>
    row.1.1.scanId = scanId && row.1.1.state = .OPEN && fingerprints.contains row.1.2).map fun row => (row.2, row.1.2)

/-- The `updateMany`, by ids alone. -/
def reopen (ids : List ℕ) (now : ℤ) (issues : List Issue) : List Issue :=
  issues.mapIdx fun id issue =>
    if ids.contains id then { issue with state := .REOPENED, reopenedAt := some now, previouslyResolved := true } else issue

/-- The next query. -/
def recur (s : Board) (now : ℤ) (r : Recurrence) : RecurrencePc × Board :=
  match r.pc with
  | .readScan =>
    match s.scans[r.scanId]? with
    | none => (.returned 0 [], s)
    | some scan => (.readPrior scan, s)
  | .readPrior scan =>
    let fingerprints := s.priorlyVerified r.scanId scan
    if fingerprints = [] then (.returned 0 [], s) else (.readRecurring fingerprints, s)
  | .readRecurring fingerprints =>
    let recurring := s.recurring r.scanId fingerprints
    if recurring = [] then (.returned 0 [], s) else (.write recurring, s)
  | .write recurring =>
    (.returned recurring.length (recurring.map Prod.snd), s.withIssues (reopen (recurring.map Prod.fst) now s.issues))
  | .returned reopened fingerprints => (.returned reopened fingerprints, s)
  | .failed => (.failed, s)

/-! ### Actions -/

/-- Who acts. -/
def author (s : Board) : BoardAction → Author
  | .desk (.work _ _ _ _) | .call _ _ _ => .attempt s.attempts.length
  | .recur _ _ => .recurrence
  | _ => .request

/-- The change of one issue. -/
def change (scans : List ScanRow) (author : Author) (id : ℕ) : Option Issue → Option Issue → Option Change
  | some old, some new =>
    if old.state = new.state then none
    else some ⟨id, old.state, new.state, author, (scans[old.scanId]?).any (·.completed)⟩
  | _, _ => none

/-- How the states of the issues have changed. -/
def changes (scans : List ScanRow) (author : Author) (before after : List Issue) : List Change :=
  (List.range before.length).filterMap fun id => change scans author id before[id]? after[id]?

/-- What an action does to the tables and to who is at work on them. -/
def move (s : Board) : BoardAction → Option Board
  | .openScan targetId createdAt => some { s with scans := s.scans ++ [⟨targetId, createdAt, false⟩] }
  | .complete scanId =>
    (s.scans[scanId]?).map fun scan => { s with scans := s.scans.set scanId { scan with completed := true } }
  | .persist scanId findings => some (findings.foldl (insert scanId) s)
  | .desk a => (s.desk.next a).map fun desk => { s with desk }
  | .record data f =>
    match f.precondition with
    | .error _ => some s
    | .ok () => some { s with calls := s.calls ++ [⟨data, .find f⟩] }
  | .call n periodEnd now =>
    (s.calls[n]?).bind fun c =>
      if c.pc.isOver then none
      else
        let (pc, store) := c.pc.step c.data periodEnd now .noEntryPoint s.desk.store
        some { s with
          desk := { s.desk with store }
          calls := s.calls.set n { c with pc := pc } }
  | .callFails n =>
    (s.calls[n]?).bind fun c => if c.pc.isOver then none else some { s with calls := s.calls.set n { c with pc := .failed } }
  | .markRecurrences scanId => some { s with recurrences := s.recurrences ++ [⟨scanId, .readScan⟩] }
  | .recur n now =>
    (s.recurrences[n]?).bind fun r =>
      if r.pc.isOver then none
      else
        let (pc, s') := s.recur now r
        some { s' with recurrences := s.recurrences.set n { r with pc := pc } }
  | .recurFails n =>
    (s.recurrences[n]?).bind fun r =>
      if r.pc.isOver then none else some { s with recurrences := s.recurrences.set n { r with pc := .failed } }

/-- What an action leads to, where it is possible. -/
def next (s : Board) (a : BoardAction) : Option Board :=
  (s.move a).map fun s' => { s' with history := s.history ++ changes s.scans (s.author a) s.issues s'.issues }

def step (s : Board) (a : BoardAction) (s' : Board) : Prop := s.next a = some s'

/-- Nothing has been found yet. -/
def opening (ledger : Ledger) : Board :=
  { desk := { store := ⟨ledger, [], [], []⟩, requests := [], runs := [], assertions := [], verdicts := [], outages := [] }
    fingerprints := [], scans := [], calls := [], recurrences := [], history := [] }

/-- What has happened to an issue. -/
def historyOf (s : Board) (id : ℕ) : List Change := s.history.filter (·.issueId = id)

/-- A `markRecurrences` does not write, or of the scans that are over it writes only issues that are resolved, or
reopened already. -/
def inTime (s : Board) : BoardAction → Bool
  | .recur n _ =>
    match (s.recurrences[n]?).map Recurrence.pc with
    | some (.write recurring) => recurring.all fun row =>
      (s.issues[row.1]?).all fun issue =>
        !(s.scans[issue.scanId]?).any (·.completed) || issue.state = .RESOLVED || issue.state = .REOPENED
    | _ => true
  | _ => true

end Board

/-! ### Changes -/

namespace Board

variable {scans : List ScanRow} {author : Author} {issues issues' : List Issue} {id : ℕ} {c : Change}

theorem filterMap_range_single {β : Type} {f : ℕ → Option β} {k n : ℕ} (h : ∀ j, j ≠ k → f j = none) :
    (List.range n).filterMap f = if k < n then (f k).toList else [] := by
  induction n with
  | zero => rfl
  | succ n ih =>
    rw [List.range_succ, List.filterMap_append, ih]
    by_cases hk : n = k
    · subst hk
      cases hf : f n <;> simp [hf]
    · have hlt : k < n + 1 ↔ k < n := by omega
      simp [h n hk, hlt]

theorem change_some (old new : Issue) : change scans author id (some old) (some new) =
    if old.state = new.state then none
    else some ⟨id, old.state, new.state, author, (scans[old.scanId]?).any (·.completed)⟩ := rfl

theorem change_id {old new : Option Issue} (h : change scans author id old new = some c) : c.issueId = id := by
  unfold change at h
  split at h
  · split at h
    · cases h
    · cases h
      rfl
  · cases h

/-- What a step has to do with an issue. -/
theorem changes_filter (id : ℕ) :
    (changes scans author issues issues').filter (·.issueId = id) = (change scans author id issues[id]? issues'[id]?).toList := by
  unfold changes
  rw [List.filter_filterMap, @filterMap_range_single _ _ id]
  · split
    · cases hc : change scans author id issues[id]? issues'[id]? with
      | none => simp
      | some c => simp [Option.filter, change_id hc]
    · rename_i hlt
      rw [List.getElem?_eq_none (by omega)]
      rfl
  · intro j hj
    cases hc : change scans author j issues[j]? issues'[j]? with
    | none => rfl
    | some c => simp [Option.filter, change_id hc, hj]

theorem mem_changes : c ∈ changes scans author issues issues' ↔
    ∃ old new, issues[c.issueId]? = some old ∧ issues'[c.issueId]? = some new ∧ old.state ≠ new.state ∧
      c = ⟨c.issueId, old.state, new.state, author, (scans[old.scanId]?).any (·.completed)⟩ := by
  have hmem : c ∈ changes scans author issues issues' ↔ c ∈ (change scans author c.issueId issues[c.issueId]? issues'[c.issueId]?).toList := by
    rw [← changes_filter, List.mem_filter]
    simp
  rw [hmem, Option.mem_toList]
  constructor
  · intro h
    unfold change at h
    split at h
    · rename_i old new hold hnew
      split at h
      · cases h
      · rename_i hne
        exact ⟨old, new, hold, hnew, hne, (Option.some.inj h).symm⟩
    · cases h
  · rintro ⟨old, new, hold, hnew, hne, hc⟩
    rw [hold, hnew, change_some, if_neg hne]
    exact congrArg some hc.symm

/-- Rows that are added are no changes. -/
theorem changes_append (rows : List Issue) : changes scans author issues (issues ++ rows) = [] := by
  refine List.eq_nil_iff_forall_not_mem.mpr fun c hc => ?_
  obtain ⟨old, new, hold, hnew, hne, -⟩ := mem_changes.mp hc
  rw [List.getElem?_append_left (List.getElem?_eq_some_iff.mp hold).1, hold] at hnew
  cases hnew
  exact hne rfl

/-- One row is written. -/
theorem changes_set {old new : Issue} (hold : issues[id]? = some old) (hne : old.state ≠ new.state) :
    changes scans author issues (issues.set id new) =
      [⟨id, old.state, new.state, author, (scans[old.scanId]?).any (·.completed)⟩] := by
  have hlt := (List.getElem?_eq_some_iff.mp hold).1
  unfold changes
  rw [@filterMap_range_single _ _ id, if_pos hlt, hold, List.getElem?_set_self hlt]
  · rw [change_some, if_neg hne]
    rfl
  · intro j hj
    rw [List.getElem?_set_ne (Ne.symm hj)]
    cases issues[j]? with
    | none => rfl
    | some issue => exact if_pos rfl

end Board

end WebAudit.Issues
