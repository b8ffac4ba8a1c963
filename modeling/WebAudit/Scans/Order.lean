import WebAudit.Credits.Reversals
import WebAudit.Lib.Runs
import WebAudit.Scans.Pricing

/-!
# A scan from its order to its end

One request of `createScan`, the row it makes, and all that can end the scan: any number of
requests to cancel it, transitions of the worker into `COMPLETED` and `FAILED` with the refund
that its terminal observer makes, and timeout sweeps. They take their calls in any order, each
call may fail, results of areas arrive at any time once the first job is queued, and other
services use the ledger.

`Order.Moves` says once what an action can do.

The request is followed from its control gate on: the refusals before that touch no table.
The row's other columns are left out.
-/

namespace WebAudit.Scans

open WebAudit.Lib WebAudit.Credits

/-! ### The row -/

/-- The row of `Scan`, with its results. -/
structure ScanRow where
  state : ScanState
  startedAt : Option ℤ
  requestedModules : List ModuleType
  quotedCredits : ℤ
  chargedCredits : ℤ
  moduleResults : ModuleResults
  deriving DecidableEq

namespace ScanRow

/-- The guarded update of `transition`: the row it leaves, if the edge is legal and the row still where the caller
believes. -/
def transition (r : ScanRow) (before after : ScanState) (now : ℤ) : Option ScanRow :=
  if canTransition before after && r.state = before then
    some { r with
      state := after
      startedAt := if after = .RUNNING_PHASE_1 ∧ before = .QUEUED then some now else r.startedAt }
  else none

/-- The guarded update of the cancel route. -/
def cancel (r : ScanRow) : Option ScanRow := if r.state.isTerminal then none else some { r with state := .CANCELLED }

/-- What the refund paths compute from the row. -/
def creditsRefunded (r : ScanRow) : ℤ :=
  refundForUndelivered r.chargedCredits r.requestedModules.length r.moduleResults.delivered.length

end ScanRow

/-- `findFirst` of the debit that a scan was charged with. -/
def findDebit (l : Ledger) (scanId : ℕ) : Option ℕ :=
  l.transactions.findIdx? fun t => t.type = .DEBIT && t.scanId = some scanId

/-! ### `createScan` -/

inductive CreatePc where
  | price
  | preflight (chargeCredits : ℤ)
  | insert (chargeCredits : ℤ)
  | debit (chargeCredits : ℤ)
  /-- The debit failed. -/
  | delete
  | plan (debited : Option ℕ)
  | enqueue (debited : Option ℕ)
  /-- No plan, or no job. -/
  | undo (debited : Option ℕ) (reason : String)
  | markFailed
  | returned
  | threw (e : CreateScanError)
  deriving DecidableEq

/-- Where a failing call leads. -/
def CreatePc.failed (e : CreateScanError) : CreatePc → CreatePc
  | .debit _ => .delete
  | .plan d => .undo d "scan:plan-refused"
  | .enqueue d => .undo d "scan:enqueue-failed"
  | .returned => .returned
  | .threw e' => .threw e'
  | _ => .threw e

/-! ### The ends of a scan -/

inductive EndPc where
  /-- The sweep reads the row before it writes. -/
  | read
  | update (refund : Option (ℤ × String))
  /-- The others read it after. -/
  | assess
  | find (credits : ℤ) (reason : String)
  | repay (debitId : ℕ) (credits : ℤ) (reason : String)
  | finished
  deriving DecidableEq

/-- Someone about to end the scan. -/
structure Ending where
  /-- The state it believes the scan to be in. -/
  before : ScanState
  /-- The state it takes the scan to. -/
  after : ScanState
  pc : EndPc
  /-- It was the one. -/
  won : Bool
  /-- The areas it found delivered. -/
  delivered : List ModuleType
  deriving DecidableEq

/-- The reason that stands in the ledger. -/
def ScanRow.refundReason (r : ScanRow) (scanId : ℕ) : ScanState → String
  | .CANCELLED => "cancelled:" ++ toString r.moduleResults.rows.length ++ "-of-" ++
      toString r.requestedModules.length ++ "-modules-ran"
  | .TIMED_OUT => "timeout:" ++
      toString (r.requestedModules.filter fun m => !r.moduleResults.delivered.contains m).length ++ "-areas-undelivered"
  | .FAILED => "platform-failure:" ++ toString scanId
  | _ => "undelivered-module:" ++ toString scanId

/-- What comes after a refund of this size was computed. -/
def EndPc.refunding (credits : ℤ) (reason : String) : EndPc := if 0 < credits then .find credits reason else .finished

/-! ### The machine -/

/-- What is ordered, under which id, and what the control gate answers. -/
structure Commission where
  scanId : ℕ
  input : CreateScanInput
  gate : ControlGate

/-- What the areas cost whose gate is met. -/
def Commission.charge (q : Commission) : ℤ := quoteFor (q.gate.chargeable q.input.modules)

/-- The tables, everyone at work on them, and what is to be said about the charge. -/
structure Order where
  ledger : Ledger
  row : Option ScanRow
  pc : CreatePc
  /-- The first job is queued. -/
  enqueued : Bool
  endings : List Ending
  /-- The debit that the request made. -/
  debitId : Option ℕ
  /-- The request refunded it. -/
  undone : Bool
  deriving DecidableEq

inductive OrderAction where
  /-- The next call of `createScan`. -/
  | create (periodEnd : Option ℤ) (now : ℤ)
  /-- It fails. -/
  | createFails (e : CreateScanError)
  /-- Someone sets out to end the scan. -/
  | begin (before after : ScanState)
  /-- The next call of an ending. -/
  | advance (ending : ℕ) (periodEnd : Option ℤ) (now : ℤ)
  /-- It fails. -/
  | fail (ending : ℕ)
  /-- A transition that does not end the scan. -/
  | move (before after : ScanState) (now : ℤ)
  /-- An area's result is stored. -/
  | persist (module : ModuleType) (state : ModuleState)
  /-- Something else happens to the ledger. -/
  | elsewhere (ledger : Ledger)
  deriving DecidableEq

/-- The row that the charge of a scan is. -/
def scanCharge (scanId : ℕ) (amount : ℤ) : CreditTransaction :=
  { type := .DEBIT, amount := amount, reason := "scan:create", scanId := some scanId, issueId := none
    reversesId := none, billingEventId := none }

/-- What others may do: append rows that are not about this scan and reverse no debit of it. -/
def leavesScan (scanId : ℕ) (l l' : Ledger) : Bool :=
  l'.transactions.take l.transactions.length = l.transactions &&
    (l'.transactions.drop l.transactions.length).all fun t =>
      t.scanId ≠ some scanId &&
        t.reversesId.all fun d => d < l'.transactions.length && (l'.transactions[d]?).all fun t' => t'.scanId ≠ some scanId

namespace Order

/-- Before the first call. -/
def start (ledger : Ledger) : Order := ⟨ledger, none, .price, false, [], none, false⟩

/-- The row `createScan` inserts. -/
def newRow (q : Commission) (charge : ℤ) : ScanRow :=
  ⟨.QUEUED, none, q.input.modules, q.input.acceptedQuote, charge, .empty⟩

/-- A request goes on. -/
def create (q : Commission) (s : Order) (periodEnd : Option ℤ) (now : ℤ) : Order :=
  match s.pc with
  | .price =>
    match chargeCredits q.gate q.input with
    | .error e => { s with pc := .threw e }
    | .ok charge => { s with pc := .preflight charge }
  | .preflight charge =>
    let available := (balanceOf s.ledger now).plan + (balanceOf s.ledger now).purchased
    if available < charge then { s with pc := .threw (.insufficientCredits charge available) }
    else { s with pc := .insert charge }
  | .insert charge => { s with row := some (newRow q charge), pc := .debit charge }
  | .debit charge =>
    if 0 < charge then
      match (debit now ⟨charge, "scan:create", some q.scanId, none⟩).run s.ledger with
      | (.ok d, ledger) => { s with ledger := ledger, pc := .plan (some d), debitId := some d }
      | (.error _, ledger) => { s with ledger := ledger, pc := .delete }
    else { s with pc := .plan none }
  | .delete => { s with row := none, pc := .threw .error }
  | .plan d => { s with pc := .enqueue d }
  | .enqueue _ => { s with pc := .returned, enqueued := true }
  | .undo none _ => { s with pc := .markFailed }
  | .undo (some d) reason =>
    match (refund periodEnd now d reason).run s.ledger with
    | (.ok _, ledger) => { s with ledger := ledger, pc := .markFailed, undone := true }
    | (.error _, ledger) => { s with ledger := ledger, pc := .threw .error }
  | .markFailed =>
    { s with
      row := s.row.map fun r => if r.state = .QUEUED then { r with state := .FAILED } else r
      pc := .threw .error }
  | .returned | .threw _ => s

/-- The guarded update of an ending. -/
def update (s : Order) (e : Ending) (now : ℤ) : Option ScanRow :=
  s.row.bind fun r => if e.after = .CANCELLED then r.cancel else r.transition e.before e.after now

/-- An ending goes on. -/
def advance (q : Commission) (s : Order) (k : ℕ) (periodEnd : Option ℤ) (now : ℤ) (e : Ending) : Order :=
  match e.pc with
  | .read =>
    match s.row with
    | none => { s with endings := s.endings.set k { e with pc := .finished } }
    | some r =>
      let pc := .update (some (r.creditsRefunded, r.refundReason q.scanId e.after))
      { s with endings := s.endings.set k { e with pc := pc, delivered := r.moduleResults.delivered } }
  | .update none =>
    match s.update e now with
    | none => { s with endings := s.endings.set k { e with pc := .finished } }
    | some r => { s with row := some r, endings := s.endings.set k { e with pc := .assess, won := true } }
  | .update (some (credits, reason)) =>
    match s.update e now with
    | none => { s with endings := s.endings.set k { e with pc := .finished } }
    | some r =>
      { s with row := some r, endings := s.endings.set k { e with pc := .refunding credits reason, won := true } }
  | .assess =>
    match s.row with
    | none => { s with endings := s.endings.set k { e with pc := .finished } }
    | some r =>
      let pc := .refunding r.creditsRefunded (r.refundReason q.scanId e.after)
      { s with endings := s.endings.set k { e with pc := pc, delivered := r.moduleResults.delivered } }
  | .find credits reason =>
    match findDebit s.ledger q.scanId with
    | none => { s with endings := s.endings.set k { e with pc := .finished } }
    | some d => { s with endings := s.endings.set k { e with pc := .repay d credits reason } }
  | .repay d credits reason =>
    { s with
      ledger := ((refundPartial periodEnd now ⟨d, credits, reason⟩).run s.ledger).2
      endings := s.endings.set k { e with pc := .finished } }
  | .finished => s

/-- The sweep is for scans that have started, the worker for those whose first job is queued. -/
def mayBegin (s : Order) (after : ScanState) : Bool :=
  match after with
  | .CANCELLED => s.row.isSome
  | .TIMED_OUT => s.row.any fun r => r.startedAt.isSome
  | .COMPLETED | .FAILED => s.row.isSome && s.enqueued
  | _ => false

/-- What an action leads to, where it is possible. -/
def next (q : Commission) (s : Order) : OrderAction → Option Order
  | .create periodEnd now => some (s.create q periodEnd now)
  | .createFails e => some { s with pc := s.pc.failed e }
  | .begin before after =>
    if s.mayBegin after then
      let pc := if after = .TIMED_OUT then .read else .update none
      some { s with endings := s.endings ++ [⟨before, after, pc, false, []⟩] }
    else none
  | .advance k periodEnd now => (s.endings[k]?).map fun e => s.advance q k periodEnd now e
  | .fail k => (s.endings[k]?).map fun e => { s with endings := s.endings.set k { e with pc := .finished } }
  | .move before after now =>
    if after.isTerminal then none
    else if s.enqueued then
      (s.row.bind (·.transition before after now)).map fun r => { s with row := some r }
    else none
  | .persist m state =>
    if s.enqueued then
      s.row.bind fun r =>
        if r.requestedModules.contains m then
          some { s with row := some { r with moduleResults := r.moduleResults.upsert m state } }
        else none
    else none
  | .elsewhere ledger => if leavesScan q.scanId s.ledger ledger then some { s with ledger } else none

/-- The transition relation. -/
def step (q : Commission) (s : Order) (a : OrderAction) (s' : Order) : Prop := s.next q a = some s'

end Order

/-! ### What an action can do -/

/-- No row has been inserted yet. -/
def CreatePc.isBefore : CreatePc → Bool
  | .price | .preflight _ | .insert _ => true
  | _ => false

/-- A request that goes on and touches no table. -/
inductive CreatePc.Calm (q : Commission) : CreatePc → CreatePc → Prop where
  | refused {pc e} (h : pc.isBefore = true) : Calm q pc (.threw e)
  | priced {charge} (h : chargeCredits q.gate q.input = .ok charge) : Calm q .price (.preflight charge)
  | afforded {charge} : Calm q (.preflight charge) (.insert charge)
  | free {charge} (h : charge ≤ 0) : Calm q (.debit charge) (.plan none)
  | unpaid {charge} : Calm q (.debit charge) .delete
  | planned {d} : Calm q (.plan d) (.enqueue d)
  | refusedPlan {d reason} : Calm q (.plan d) (.undo d reason)
  | refusedJob {d reason} : Calm q (.enqueue d) (.undo d reason)
  | nothingToUndo {reason} : Calm q (.undo none reason) .markFailed
  | gaveUp {pc e} (h : pc = .delete ∨ pc = .markFailed ∨ ∃ d reason, pc = .undo d reason) : Calm q pc (.threw e)
  | stopped {pc} (h : pc = .returned ∨ ∃ e, pc = .threw e) : Calm q pc pc

/-- What follows the winning update. -/
def EndPc.afterWin : Option (ℤ × String) → EndPc
  | none => .assess
  | some (credits, reason) => .refunding credits reason

/-- Why an ending is over without having touched a table. -/
inductive Ending.Stops (q : Commission) (s : Order) (k : ℕ) (e : Ending) : OrderAction → Prop where
  | failed : Stops q s k e (.fail k)
  | outside {periodEnd now} (h : e.pc = .read ∨ ∃ refund, e.pc = .update refund) : Stops q s k e (.advance k periodEnd now)
  | vanished {periodEnd now} (h : e.pc = .assess) (hr : s.row = none) : Stops q s k e (.advance k periodEnd now)
  | uncharged {periodEnd now credits reason} (h : e.pc = .find credits reason) (hd : findDebit s.ledger q.scanId = none) :
    Stops q s k e (.advance k periodEnd now)

/-- `s'` is reached from `s` by the action. -/
inductive Order.Moves (q : Commission) (s : Order) : OrderAction → Order → Prop where
  | idle {a} : Moves q s a s
  | calm {a pc} (h : s.pc.Calm q pc) : Moves q s a { s with pc := pc }
  | inserted {periodEnd now charge} (hpc : s.pc = .insert charge) :
    Moves q s (.create periodEnd now) { s with row := some (Order.newRow q charge), pc := .debit charge }
  | charged {periodEnd now charge ledger} (hpc : s.pc = .debit charge) (hpos : 0 < charge)
    (hl : ledger.transactions = s.ledger.transactions ++ [scanCharge q.scanId charge]) :
    Moves q s (.create periodEnd now)
      { s with
        ledger := ledger
        pc := .plan (some s.ledger.transactions.length)
        debitId := some s.ledger.transactions.length }
  | deleted {periodEnd now} (hpc : s.pc = .delete) :
    Moves q s (.create periodEnd now) { s with row := none, pc := .threw .error }
  | enqueued {periodEnd now d} (hpc : s.pc = .enqueue d) :
    Moves q s (.create periodEnd now) { s with pc := .returned, enqueued := true }
  | undone {periodEnd now d reason original ledger} (hpc : s.pc = .undo (some d) reason)
    (ho : s.ledger.transactions[d]? = some original) (hl : Repays s.ledger d original.amount ledger) :
    Moves q s (.create periodEnd now) { s with ledger := ledger, pc := .markFailed, undone := true }
  | markedFailed {periodEnd now} (hpc : s.pc = .markFailed) :
    Moves q s (.create periodEnd now)
      { s with
        row := s.row.map fun r => if r.state = .QUEUED then { r with state := .FAILED } else r
        pc := .threw .error }
  | begun {before after} (h : s.mayBegin after = true) :
    Moves q s (.begin before after)
      { s with endings := s.endings ++ [⟨before, after, if after = .TIMED_OUT then .read else .update none, false, []⟩] }
  | read {k periodEnd now e r} (he : s.endings[k]? = some e) (hpc : e.pc = .read) (hr : s.row = some r) :
    Moves q s (.advance k periodEnd now)
      { s with
        endings := s.endings.set k { e with
          pc := .update (some (r.creditsRefunded, r.refundReason q.scanId e.after))
          delivered := r.moduleResults.delivered } }
  | won {k periodEnd now e refund r startedAt} (he : s.endings[k]? = some e) (hpc : e.pc = .update refund)
    (hr : s.row = some r) (hopen : r.state.isTerminal = false) :
    Moves q s (.advance k periodEnd now)
      { s with
        row := some { r with state := e.after, startedAt := startedAt }
        endings := s.endings.set k { e with pc := .afterWin refund, won := true } }
  | assessed {k periodEnd now e r} (he : s.endings[k]? = some e) (hpc : e.pc = .assess) (hr : s.row = some r) :
    Moves q s (.advance k periodEnd now)
      { s with
        endings := s.endings.set k { e with
          pc := .refunding r.creditsRefunded (r.refundReason q.scanId e.after)
          delivered := r.moduleResults.delivered } }
  | found {k periodEnd now e credits reason d} (he : s.endings[k]? = some e) (hpc : e.pc = .find credits reason)
    (hd : findDebit s.ledger q.scanId = some d) :
    Moves q s (.advance k periodEnd now) { s with endings := s.endings.set k { e with pc := .repay d credits reason } }
  | repaid {k periodEnd now e d credits reason ledger} (he : s.endings[k]? = some e) (hpc : e.pc = .repay d credits reason)
    (hl : Repays s.ledger d credits ledger) :
    Moves q s (.advance k periodEnd now)
      { s with ledger := ledger, endings := s.endings.set k { e with pc := .finished } }
  | repayThrew {k periodEnd now e d credits reason} (he : s.endings[k]? = some e) (hpc : e.pc = .repay d credits reason)
    (hbusy : ∀ amount, s.ledger.transactions[d]? = some (scanCharge q.scanId amount) → 0 < credits → credits ≤ amount →
      credits ≤ int4Max → s.ledger.reversals d ≠ 0) :
    Moves q s (.advance k periodEnd now) { s with endings := s.endings.set k { e with pc := .finished } }
  | stopped {a k e} (he : s.endings[k]? = some e) (h : e.Stops q s k a) :
    Moves q s a { s with endings := s.endings.set k { e with pc := .finished } }
  | moved {before after now r startedAt} (hr : s.row = some r) (hopen : r.state.isTerminal = false)
    (hafter : after.isTerminal = false) :
    Moves q s (.move before after now) { s with row := some { r with state := after, startedAt := startedAt } }
  | persisted {m state r} (henq : s.enqueued = true) (hr : s.row = some r) :
    Moves q s (.persist m state) { s with row := some { r with moduleResults := r.moduleResults.upsert m state } }
  | elsewhere {ledger} (h : leavesScan q.scanId s.ledger ledger = true) : Moves q s (.elsewhere ledger) { s with ledger }

variable {q : Commission} {s s' : Order}

theorem transition_eq_some {r r' : ScanRow} {before after : ScanState} {now : ℤ} (h : r.transition before after now = some r') :
    canTransition before after = true ∧ r.state = before ∧ r.state.isTerminal = false ∧
      ∃ startedAt, r' = { r with state := after, startedAt := startedAt } := by
  unfold ScanRow.transition at h
  split at h
  · rename_i hc
    simp only [Bool.and_eq_true, decide_eq_true_eq] at hc
    cases h
    refine ⟨hc.1, hc.2, ?_, _, rfl⟩
    rcases ht : r.state.isTerminal with _ | _
    · rfl
    · rw [← hc.2, canTransition_terminal ht] at hc
      cases hc.1
  · cases h

/-- An ending that gets its update through finds the scan open. -/
theorem update_eq_some {e : Ending} {now : ℤ} {r' : ScanRow} (h : s.update e now = some r') :
    ∃ r startedAt, s.row = some r ∧ r.state.isTerminal = false ∧ r' = { r with state := e.after, startedAt := startedAt } := by
  obtain ⟨r, hr, h⟩ := Option.bind_eq_some_iff.mp h
  by_cases hc : e.after = .CANCELLED
  · rw [if_pos hc] at h
    unfold ScanRow.cancel at h
    rcases ht : r.state.isTerminal with _ | _ <;> rw [ht] at h
    · cases h
      exact ⟨r, r.startedAt, hr, ht, by rw [hc]⟩
    · cases h
  · rw [if_neg hc] at h
    obtain ⟨-, -, ht, startedAt, rfl⟩ := transition_eq_some h
    exact ⟨r, startedAt, hr, ht, rfl⟩

/-- The next call of `createScan`. -/
theorem create_moves (periodEnd : Option ℤ) (now : ℤ) :
    s.Moves q (.create periodEnd now) (s.create q periodEnd now) := by
  obtain ⟨ledger, row, pc, enqueued, endings, debitId, undone⟩ := s
  cases pc with
  | price =>
    rcases hc : chargeCredits q.gate q.input with e | charge
    · simp only [Order.create, hc]
      exact .calm (.refused rfl)
    · simp only [Order.create, hc]
      exact .calm (.priced hc)
  | preflight charge =>
    simp only [Order.create]
    split
    · exact .calm (.refused rfl)
    · exact .calm .afforded
  | insert charge => exact .inserted rfl
  | debit charge =>
    by_cases hpos : 0 < charge
    · rcases hd : (debit now ⟨charge, "scan:create", some q.scanId, none⟩).run ledger with ⟨e | d, ledger'⟩
      · obtain rfl := debit_safe _ _ _ _ _ hd
        simp only [Order.create, if_pos hpos, hd]
        exact .calm .unpaid
      · obtain ⟨rfl, hl⟩ := debit_transactions hd
        simp only [Order.create, if_pos hpos, hd]
        exact .charged rfl hpos hl
    · simp only [Order.create, if_neg hpos]
      exact .calm (.free (not_lt.mp hpos))
  | delete => exact .deleted rfl
  | plan d => exact .calm .planned
  | enqueue d => exact .enqueued rfl
  | undo d reason =>
    cases d with
    | none => exact .calm .nothingToUndo
    | some d =>
      rcases hd : (refund periodEnd now d reason).run ledger with ⟨e | id, ledger'⟩
      · obtain rfl := refund_safe _ _ _ _ _ _ _ hd
        simp only [Order.create, hd]
        exact .calm (.gaveUp (Or.inr (Or.inr ⟨_, _, rfl⟩)))
      · obtain ⟨hz, original, ho, -, hl⟩ := refund_transactions hd
        simp only [Order.create, hd]
        exact .undone rfl ho ⟨hz, RefundInput.transaction _ original, rfl, rfl, rfl, hl⟩
  | markFailed => exact .markedFailed rfl
  | returned => exact .idle
  | threw e => exact .idle

/-- A call of `createScan` that fails. -/
theorem failed_calm (e : CreateScanError) : s.pc.Calm q (s.pc.failed e) := by
  rcases h : s.pc with _ | _ | _ | _ | _ | d | d | ⟨d, reason⟩ | _ | _ | e'
  · exact .refused rfl
  · exact .refused rfl
  · exact .refused rfl
  · exact .unpaid
  · exact .gaveUp (Or.inl rfl)
  · exact .refusedPlan
  · exact .refusedJob
  · exact .gaveUp (Or.inr (Or.inr ⟨d, reason, rfl⟩))
  · exact .gaveUp (Or.inr (Or.inl rfl))
  · exact .stopped (Or.inl rfl)
  · exact .stopped (Or.inr ⟨e', rfl⟩)

/-- The next call of an ending. -/
theorem advance_moves {k : ℕ} (periodEnd : Option ℤ) (now : ℤ) {e : Ending} (he : s.endings[k]? = some e) :
    s.Moves q (.advance k periodEnd now) (s.advance q k periodEnd now e) := by
  unfold Order.advance
  split
  · rename_i hpc
    split
    · exact .stopped he (.outside (Or.inl hpc))
    · rename_i hr
      exact .read he hpc hr
  · rename_i hpc
    split
    · exact .stopped he (.outside (Or.inr ⟨_, hpc⟩))
    · rename_i hu
      obtain ⟨r, startedAt, hr, hopen, rfl⟩ := update_eq_some hu
      exact .won he hpc hr hopen
  · rename_i hpc
    split
    · exact .stopped he (.outside (Or.inr ⟨_, hpc⟩))
    · rename_i hu
      obtain ⟨r, startedAt, hr, hopen, rfl⟩ := update_eq_some hu
      exact .won he hpc hr hopen
  · rename_i hpc
    split
    · rename_i hr
      exact .stopped he (.vanished hpc hr)
    · rename_i hr
      exact .assessed he hpc hr
  · rename_i hpc
    split
    · rename_i hd
      exact .stopped he (.uncharged hpc hd)
    · rename_i hd
      exact .found he hpc hd
  · rename_i d credits reason hpc
    rcases hp : (refundPartial periodEnd now ⟨d, credits, reason⟩).run s.ledger with ⟨err | id, ledger⟩
    · obtain rfl := refundPartial_safe _ _ _ _ _ _ hp
      refine .repayThrew he hpc fun amount ho hpos hle hmax hz => ?_
      obtain ⟨id, u, hu⟩ := refundPartial_runs periodEnd now ⟨d, credits, reason⟩ ho rfl hpos hle hmax hz
      rw [hu] at hp
      cases hp
    · obtain ⟨hz, original, ho, -, -, hl⟩ := refundPartial_transactions hp
      exact .repaid he hpc ⟨hz, RefundInput.transaction _ original, rfl, rfl, rfl, hl⟩
  · exact .idle

/-- **Every step is one of the moves.** -/
theorem order_moves {a : OrderAction} (h : s.step q a s') : s.Moves q a s' := by
  unfold Order.step at h
  cases a with
  | create periodEnd now =>
    cases h
    exact create_moves periodEnd now
  | createFails e =>
    cases h
    exact .calm (failed_calm e)
  | begin before after =>
    simp only [Order.next] at h
    split at h
    · rename_i hb
      cases h
      exact .begun hb
    · cases h
  | advance k periodEnd now =>
    obtain ⟨e, he, rfl⟩ := Option.map_eq_some_iff.mp h
    exact advance_moves periodEnd now he
  | fail k =>
    obtain ⟨e, he, rfl⟩ := Option.map_eq_some_iff.mp h
    exact .stopped he .failed
  | move before after now =>
    simp only [Order.next] at h
    rcases hafter : after.isTerminal with _ | _ <;> rw [hafter] at h
    · rw [if_neg (by decide)] at h
      split at h
      · obtain ⟨r', hr', rfl⟩ := Option.map_eq_some_iff.mp h
        obtain ⟨r, hr, ht⟩ := Option.bind_eq_some_iff.mp hr'
        obtain ⟨-, -, hopen, startedAt, rfl⟩ := transition_eq_some ht
        exact .moved hr hopen hafter
      · cases h
    · cases h
  | persist m state =>
    simp only [Order.next] at h
    split at h
    · rename_i henq
      obtain ⟨r, hr, h⟩ := Option.bind_eq_some_iff.mp h
      split at h
      · cases h
        exact .persisted henq hr
      · cases h
    · cases h
  | elsewhere ledger =>
    simp only [Order.next] at h
    split at h
    · rename_i hl
      cases h
      exact .elsewhere hl
    · cases h

end WebAudit.Scans
