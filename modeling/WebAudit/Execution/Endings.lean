import WebAudit.Execution.Expiry
import WebAudit.Execution.Host

/-!
# How the host and the sweep end a unit

`classifyPreRunCause`, `hostLoopDecision` and `finalizeFor` on one side, `expirePlanUnits` on the other, with the outcome
that each records, reasons and all: either may be the one to finalize a unit.

When each has seen that the execution is gone and F07 goes on with the lease, they record the same, and a pending stop comes
before a deadline that has passed (`host_sweep_agree`). They differ where only one of them looks: the sweep at effects that
are not confirmed, the host at what F07 says of the grant.

## The model

* What the two read of the tables they read at once, and from the same tables.
* `findPendingStopReason` is a parameter, the same for both, and so is what comes of the calls of the engine and of F07.
* `Host` and `Expiry` have the two step by step, without the reasons: `finalizeFor_records`, `sweepOutcome_kind`.
-/

namespace WebAudit.Execution

open WebAudit.Lib WebAudit.Planning WebAudit.Scans
open ExecutionUnitStatus

/-! ### Outcomes -/

inductive FinalizeOutcome where
  | COMPLETED
  | FAILED (failureClass : FailureClass) (detail : Option String)
  | CANCELLED
  | KILLED (f07Reason : String)
  | REFUSED (reason : String)
  deriving DecidableEq

/-- What a side comes to. -/
inductive Ending where
  | throws
  | leaves
  | records (outcome : FinalizeOutcome)
  deriving DecidableEq

/-- How a stop with this reason ends a unit that runs. -/
def stopOutcome (stopReason : Option String) : FinalizeOutcome :=
  let reason := stopReason.getD "SYSTEM_SAFETY_POLICY"
  if reason = "USER_CANCELLATION" then .CANCELLED else .KILLED reason

/-! ### The host -/

/-- What a host has to go by besides the tables. -/
structure HostFacts where
  leaseClass : LeaseClass
  /-- `fahes_lock_live_lease`. -/
  leaseLive : Bool
  /-- What F07 answers when it is asked. -/
  renewal : LeaseRenewal
  /-- The child is confirmed gone. -/
  childGone : Bool
  hardStopFired : Bool
  observation : UnitObservation
  deriving DecidableEq

/-- The renewal as the decision reads it. -/
def HostFacts.renewalRead (h : HostFacts) : LeaseRenewal :=
  match h.leaseClass with
  | .L => if h.leaseLive then h.renewal else .FENCED
  | .N => .RENEWED

/-- `hostLoopDecision`. -/
def hostLoopDecision (db : Tables) (u : ExecutionUnit) (h : HostFacts) : Except PlanningError HostLoopAction := do
  match ← classifyPreRunCause db u u.status ⟨.RUNNING, 0⟩ with
  | .TERMINAL _ => pure .STOP_TERMINAL
  | cause => pure (decideBy cause h.renewalRead)

/-- The outcome that `finalizeFor` asks for. -/
def finalizeOutcome (action : HostLoopAction) (hardStopFired : Bool) (observation : UnitObservation) (stopReason : Option String) :
    Option FinalizeOutcome :=
  match action with
  | .STOP_TERMINAL | .ABORT_LEASE_LOST _ => none
  | .STOP_AND_FINALIZE .KILL_SWITCH_PENDING => some (stopOutcome stopReason)
  | .STOP_AND_FINALIZE .GRANT_REVOKED => some (.KILLED "AUTHORIZATION_REVOKED")
  | .STOP_AND_FINALIZE _ => some (.KILLED "SYSTEM_SAFETY_POLICY")
  | .EXPIRE_AND_FINALIZE .SCAN_CANCELLED => some .CANCELLED
  | .EXPIRE_AND_FINALIZE .SCAN_FAILED => some (.FAILED .TRANSIENT_INFRASTRUCTURE none)
  | .EXPIRE_AND_FINALIZE _ => some (.FAILED .TIMEOUT (some "SCAN_DEADLINE"))
  | .CONTINUE =>
    if hardStopFired then some (.FAILED .TIMEOUT (some "HARD_STOP"))
    else
      match classifyFailure observation with
      | .COMPLETED => some .COMPLETED
      | .FAILED failureClass => some (.FAILED failureClass none)

/-- What the host comes to when its child has been terminated. -/
def hostEnding (db : Tables) (u : ExecutionUnit) (h : HostFacts) (stopReason : Option String) : Ending :=
  if !h.childGone then .leaves
  else
    match hostLoopDecision db u h with
    | .error _ => .throws
    | .ok action =>
      match finalizeOutcome action h.hardStopFired h.observation stopReason with
      | none => .leaves
      | some outcome => .records outcome

/-! ### The sweep -/

/-- What a sweep has to go by besides the tables. -/
structure SweepFacts where
  /-- What `onUnitExpired` answers, if there is one. -/
  hook : Option ExpiryConfirmation
  /-- `hasUnconfirmedEffects`. -/
  unconfirmedEffects : Bool
  margin : ℤ
  deriving DecidableEq

/-- Whether the execution is known to be gone. -/
def SweepFacts.confirmation (w : SweepFacts) (u : ExecutionUnit) : ExpiryConfirmation :=
  match w.hook.getD (if isPassiveClass u.executionUnitClass then .TERMINATED else .PENDING) with
  | .TERMINATED => if w.unconfirmedEffects then .PENDING else .TERMINATED
  | .PENDING => .PENDING

/-- What the sweep reads of the scan, the clock and the deadline. -/
def sweepLook (db : Tables) (i : ℕ) (u : ExecutionUnit) (plan : ScanPlan) : Except PlanningError Look := do
  let scan := plan.scanId.bind fun id => db.scans[id]?
  let deadline ← effectiveDeadlineAt ⟨scan.bind (·.startedAt)⟩ (some plan.toDeadlinePlan)
    DEFAULT_PLAN_DEADLINE_CONSTANTS.legacyMaxDurationMs
  pure ⟨⟨i, u.status, []⟩, scan, db.clock, deadline⟩

/-- `scanCause`. -/
def Look.scanCause (l : Look) : String :=
  match l.scan.bind (·.terminalState) with
  | some .CANCELLED => "SCAN_CANCELLED"
  | some .FAILED => "SCAN_FAILED"
  | _ => "SCAN_DEADLINE_EXPIRED"

/-- The outcome for a unit that runs, `stop` being whether one is pending. -/
def Look.outcome (l : Look) (stop : Bool) (stopReason : Option String) (margin : ℤ) : ExpiryConfirmation → Option FinalizeOutcome
  | .PENDING => if l.reached margin then some (.FAILED .TRANSIENT_INFRASTRUCTURE (some "TERMINATION_UNCONFIRMED")) else none
  | .TERMINATED =>
    if stop then some (stopOutcome stopReason)
    else
      match l.scan.bind (·.terminalState) with
      | some .CANCELLED => some .CANCELLED
      | some .FAILED => some (.FAILED .TRANSIENT_INFRASTRUCTURE none)
      | _ => some (.FAILED .TIMEOUT (some "SCAN_DEADLINE"))

/-- What a visit of the unit comes to. -/
def sweepEnding (db : Tables) (i : ℕ) (u : ExecutionUnit) (w : SweepFacts) (stopReason : Option String) : Ending :=
  match db.planOf u with
  | none => .leaves
  | some plan =>
    if u.status.isTerminal then .leaves
    else
      match sweepLook db i u plan with
      | .error _ => .throws
      | .ok l =>
        let stop := (db.findPendingStop u).isSome
        if !l.due then .leaves
        else if isPreRunning u.status then .records (.REFUSED (if stop then "KILL_SWITCH_PENDING" else l.scanCause))
        else if w.margin < 0 then .throws
        else
          match l.outcome stop stopReason w.margin (w.confirmation u) with
          | none => .leaves
          | some outcome => .records outcome

/-! ### The same facts -/

/-- The reason with which a dispatch refuses a unit. -/
def causeText : PreRunCause → String
  | .KILL_SWITCH_PENDING _ => "KILL_SWITCH_PENDING"
  | .REFUSE .SCAN_CANCELLED => "SCAN_CANCELLED"
  | .REFUSE .SCAN_FAILED => "SCAN_FAILED"
  | .REFUSE .SCAN_DEADLINE_EXPIRED => "SCAN_DEADLINE_EXPIRED"
  | .REFUSE .SCAN_DEADLINE_INSUFFICIENT => "SCAN_DEADLINE_INSUFFICIENT"
  | .NONE => "NONE"
  | .TERMINAL _ => "TERMINAL"
  | .SCAN_NOT_STARTED => "SCAN_NOT_STARTED"

section Facts

variable {db : Tables} {i : ℕ} {u : ExecutionUnit} {plan : ScanPlan} {l : Look}

/-- The two read the same scan and the same deadline. -/
theorem look_reads (hplan : db.planOf u = some plan) (hlook : sweepLook db i u plan = .ok l) :
    l.scan = db.scanOf u ∧ l.now = db.clock ∧ l.status = u.status ∧ deadlineOf (db.planOf u) (db.scanOf u) = .ok l.deadline := by
  have hscan : db.scanOf u = plan.scanId.bind fun id => db.scans[id]? := by rw [Tables.scanOf, hplan]; rfl
  obtain ⟨deadline, hdeadline, hlook⟩ := bind_ok_iff.mp hlook
  cases hlook
  rw [hplan, hscan]
  exact ⟨rfl, rfl, rfl, hdeadline⟩

/-- What is decided of the scan and the deadline when the sweep finds the unit due. -/
theorem decision_due (hdue : l.due = true) (unit : DeadlineUnit) :
    dispatchDeadlineDecision l.now l.deadline (l.scan.bind (·.terminalState)) unit =
      .REFUSE (match l.scan.bind (·.terminalState) with
        | some .CANCELLED => .SCAN_CANCELLED
        | some .FAILED => .SCAN_FAILED
        | _ => .SCAN_DEADLINE_EXPIRED) := by
  unfold dispatchDeadlineDecision
  cases hstate : l.scan.bind (·.terminalState) with
  | some st => cases st <;> rfl
  | none =>
    unfold Look.due Look.reached at hdue
    rw [hstate] at hdue
    cases hdeadline : l.deadline with
    | none => simp [hdeadline] at hdue
    | some deadline =>
      cases deadline with
      | none => simp [hdeadline] at hdue
      | some deadline =>
        simp only [hdeadline, Option.isSome_none, Bool.false_or, decide_eq_true_eq] at hdue
        have hover : ((some deadline).map (· - l.now)).any (· ≤ 0) = true := by simp; omega
        simp only [hover, if_true]

/-- The cause of a unit that no stop covers. -/
theorem cause_of_look (hplan : db.planOf u = some plan) (hlook : sweepLook db i u plan = .ok l) (hlive : u.status.isTerminal = false)
    (hstop : db.findPendingStop u = none) (options : CauseOptions) :
    classifyPreRunCause db u u.status options = .ok (causeOf options.phase
      (dispatchDeadlineDecision l.now l.deadline (l.scan.bind (·.terminalState)) (u.toDeadlineUnit options))) := by
  obtain ⟨hscan, hnow, -, hdeadline⟩ := look_reads hplan hlook
  simp only [classifyPreRunCause, hlive, hstop, deadlineCause, hdeadline, bind, Except.bind, pure, Except.pure, hscan, hnow]
  rfl

theorem cause_of_stop {key : Safety.StopKey} (hlive : u.status.isTerminal = false) (hstop : db.findPendingStop u = some key)
    (options : CauseOptions) : classifyPreRunCause db u u.status options = .ok (.KILL_SWITCH_PENDING key) := by
  simp only [classifyPreRunCause, hlive, hstop]
  rfl

variable {h : HostFacts} {w : SweepFacts} {stopReason : Option String}

/-- A host whose child is gone. -/
theorem hostEnding_eq {cause : PreRunCause} (hgone : h.childGone = true) (hlive : u.status.isTerminal = false)
    (hcause : classifyPreRunCause db u u.status ⟨.RUNNING, 0⟩ = .ok cause) :
    hostEnding db u h stopReason =
      match finalizeOutcome (decideBy cause h.renewalRead) h.hardStopFired h.observation stopReason with
      | none => .leaves
      | some outcome => .records outcome := by
  have hdecision : hostLoopDecision db u h = .ok (decideBy cause h.renewalRead) := by
    simp only [hostLoopDecision, hcause, bind, Except.bind]
    cases cause with
    | TERMINAL st =>
      unfold classifyPreRunCause at hcause
      rw [hlive] at hcause
      cases hstop : db.findPendingStop u with
      | some key =>
        simp only [hstop, Bool.false_eq_true, if_false] at hcause
        exact nomatch hcause
      | none =>
        simp only [hstop, Bool.false_eq_true, if_false, deadlineCause] at hcause
        obtain ⟨deadline, -, hcause⟩ := bind_ok_iff.mp hcause
        cases hd : dispatchDeadlineDecision db.clock deadline ((db.scanOf u).bind (·.terminalState))
            (u.toDeadlineUnit ⟨.RUNNING, 0⟩) <;> rw [hd] at hcause <;> exact nomatch hcause
    | _ => rfl
  simp only [hostEnding, hgone, hdecision, Bool.not_true, Bool.false_eq_true, if_false]

/-- A sweep at a unit that is due. -/
theorem sweepEnding_due (hplan : db.planOf u = some plan) (hlook : sweepLook db i u plan = .ok l) (hlive : u.status.isTerminal = false)
    (hdue : l.due = true) :
    sweepEnding db i u w stopReason =
      if isPreRunning u.status then
        .records (.REFUSED (if (db.findPendingStop u).isSome then "KILL_SWITCH_PENDING" else l.scanCause))
      else if w.margin < 0 then .throws
      else
        match l.outcome (db.findPendingStop u).isSome stopReason w.margin (w.confirmation u) with
        | none => .leaves
        | some outcome => .records outcome := by
  simp only [sweepEnding, hplan, hlive, hlook, hdue, Bool.false_eq_true, Bool.not_true, if_false]

/-- How a unit ends of which the sweep reads `l`, when the host and the sweep see the same tables. -/
structure SameEndings (db : Tables) (i : ℕ) (u : ExecutionUnit) (l : Look) (h : HostFacts) (w : SweepFacts)
    (stopReason : Option String) : Prop where
  /-- Both have seen the execution gone, and F07 goes on with the lease or reports the stop. -/
  agree : u.status = RUNNING → l.due = true → h.childGone = true → h.renewalRead ≠ .FENCED → 0 ≤ w.margin →
    w.confirmation u = .TERMINATED → (db.findPendingStop u).isSome ∨ h.renewalRead = .RENEWED →
    ∃ outcome, hostEnding db u h stopReason = .records outcome ∧ sweepEnding db i u w stopReason = .records outcome
  /-- What has not started is refused for the cause that a dispatch would see. -/
  refused : isPreRunning u.status = true → l.due = true → ∀ margin, ∃ cause,
    classifyPreRunCause db u u.status ⟨.PRE_RUN, margin⟩ = .ok cause ∧
      sweepEnding db i u w stopReason = .records (.REFUSED (causeText cause))
  /-- A stop comes first with the host. -/
  stopHost : (db.findPendingStop u).isSome → ∀ outcome, hostEnding db u h stopReason = .records outcome → outcome = stopOutcome stopReason
  /-- And with the sweep, if it knows that the execution is gone. -/
  stopSweep : (db.findPendingStop u).isSome → ∀ outcome, sweepEnding db i u w stopReason = .records outcome →
    outcome = if isPreRunning u.status then .REFUSED "KILL_SWITCH_PENDING"
      else if w.confirmation u = .TERMINATED then stopOutcome stopReason
      else .FAILED .TRANSIENT_INFRASTRUCTURE (some "TERMINATION_UNCONFIRMED")
  /-- The sweep waits for the end of the scan or the deadline, and a margin longer for the confirmation. -/
  waits : l.due = false ∨ u.status = RUNNING ∧ 0 ≤ w.margin ∧ w.confirmation u = .PENDING ∧ l.reached w.margin = false →
    sweepEnding db i u w stopReason = .leaves
  /-- Then it does not wait any more. -/
  unconfirmed : u.status = RUNNING → l.due = true → 0 ≤ w.margin → w.confirmation u = .PENDING → l.reached w.margin = true →
    sweepEnding db i u w stopReason = .records (.FAILED .TRANSIENT_INFRASTRUCTURE (some "TERMINATION_UNCONFIRMED"))
  /-- The host leaves a unit to the sweep. -/
  abandons : h.childGone = false ∨ h.renewalRead = .FENCED → hostEnding db u h stopReason = .leaves
  /-- What F07 says of the grant only the host asks. -/
  grant : u.status = RUNNING → db.findPendingStop u = none → h.childGone = true →
    (h.renewalRead = .GRANT_INVALID_REVOKED → hostEnding db u h stopReason = .records (.KILLED "AUTHORIZATION_REVOKED")) ∧
      (h.renewalRead = .GRANT_INVALID_EXPIRED ∨ h.renewalRead = .UNCERTAIN →
        hostEnding db u h stopReason = .records (.KILLED "SYSTEM_SAFETY_POLICY"))

theorem exists_cause (hplan : db.planOf u = some plan) (hlook : sweepLook db i u plan = .ok l) (hlive : u.status.isTerminal = false)
    (options : CauseOptions) : ∃ cause, classifyPreRunCause db u u.status options = .ok cause := by
  cases hstop : db.findPendingStop u with
  | some key => exact ⟨_, cause_of_stop hlive hstop options⟩
  | none => exact ⟨_, cause_of_look hplan hlook hlive hstop options⟩

theorem hostEnding_terminal (hover : u.status.isTerminal = true) : hostEnding db u h stopReason = .leaves := by
  have hcause : classifyPreRunCause db u u.status ⟨.RUNNING, 0⟩ = .ok (.TERMINAL u.status) := if_pos hover
  simp only [hostEnding, hostLoopDecision, hcause, bind, Except.bind, pure, Except.pure, finalizeOutcome]
  split <;> rfl

/-- A decision for a stop. -/
theorem hostEnding_stop {key : Safety.StopKey} (hlive : u.status.isTerminal = false) (hstop : db.findPendingStop u = some key)
    (hgone : h.childGone = true) :
    hostEnding db u h stopReason = if h.renewalRead = .FENCED then .leaves else .records (stopOutcome stopReason) := by
  rw [hostEnding_eq hgone hlive (cause_of_stop hlive hstop _)]
  cases h.renewalRead <;> rfl

theorem same_agree (hplan : db.planOf u = some plan) (hlook : sweepLook db i u plan = .ok l) (hrunning : u.status = RUNNING)
    (hdue : l.due = true) (hgone : h.childGone = true) (hheld : h.renewalRead ≠ .FENCED) (hmargin : 0 ≤ w.margin)
    (hconfirmed : w.confirmation u = .TERMINATED) (hrenewed : (db.findPendingStop u).isSome ∨ h.renewalRead = .RENEWED) :
    ∃ outcome, hostEnding db u h stopReason = .records outcome ∧ sweepEnding db i u w stopReason = .records outcome := by
  have hlive : u.status.isTerminal = false := by rw [hrunning]; rfl
  have hstarted : ¬ isPreRunning u.status = true := by rw [hrunning]; exact Bool.false_ne_true
  have hsweep := @sweepEnding_due db i u plan l w stopReason hplan hlook hlive hdue
  rw [if_neg hstarted, if_neg (not_lt.mpr hmargin), hconfirmed] at hsweep
  cases hstop : db.findPendingStop u with
  | some key =>
    refine ⟨stopOutcome stopReason, ?_, ?_⟩
    · rw [hostEnding_stop hlive hstop hgone, if_neg hheld]
    · rw [hsweep, hstop]
      rfl
  | none =>
    rw [hstop] at hrenewed hsweep
    obtain hrenewed := hrenewed.resolve_left Bool.false_ne_true
    have hcause := cause_of_look hplan hlook hlive hstop ⟨.RUNNING, 0⟩
    rw [decision_due hdue] at hcause
    have hhost := @hostEnding_eq db u h stopReason _ hgone hlive hcause
    rw [hrenewed] at hhost
    rw [hsweep, hhost]
    unfold Look.outcome
    cases l.scan.bind (·.terminalState) with
    | none => exact ⟨_, rfl, rfl⟩
    | some st => cases st <;> exact ⟨_, rfl, rfl⟩

theorem same_refused (hplan : db.planOf u = some plan) (hlook : sweepLook db i u plan = .ok l)
    (hpre : isPreRunning u.status = true) (hdue : l.due = true) (margin : ℤ) :
    ∃ cause, classifyPreRunCause db u u.status ⟨.PRE_RUN, margin⟩ = .ok cause ∧
      sweepEnding db i u w stopReason = .records (.REFUSED (causeText cause)) := by
  have hlive : u.status.isTerminal = false := by
    cases hst : u.status <;> rw [hst] at hpre <;> first | rfl | exact nomatch hpre
  rw [sweepEnding_due hplan hlook hlive hdue, if_pos hpre]
  cases hstop : db.findPendingStop u with
  | some key => exact ⟨_, cause_of_stop hlive hstop _, rfl⟩
  | none =>
    refine ⟨_, cause_of_look hplan hlook hlive hstop _, ?_⟩
    rw [decision_due hdue]
    unfold Look.scanCause
    cases l.scan.bind (·.terminalState) with
    | none => rfl
    | some st => cases st <;> rfl

theorem same_stopSweep (hplan : db.planOf u = some plan) (hlook : sweepLook db i u plan = .ok l)
    (hstop : (db.findPendingStop u).isSome) {outcome : FinalizeOutcome} (h : sweepEnding db i u w stopReason = .records outcome) :
    outcome = if isPreRunning u.status then .REFUSED "KILL_SWITCH_PENDING"
      else if w.confirmation u = .TERMINATED then stopOutcome stopReason
      else .FAILED .TRANSIENT_INFRASTRUCTURE (some "TERMINATION_UNCONFIRMED") := by
  by_cases hlive : u.status.isTerminal = false
  · by_cases hdue : l.due = true
    · rw [sweepEnding_due hplan hlook hlive hdue, hstop] at h
      split
      · rename_i hpre
        rw [if_pos hpre] at h
        cases h
        rfl
      · rename_i hpre
        rw [if_neg hpre] at h
        split at h
        · exact nomatch h
        · cases hconfirmed : w.confirmation u with
          | TERMINATED =>
            rw [hconfirmed] at h
            cases h
            rfl
          | PENDING =>
            rw [hconfirmed] at h
            unfold Look.outcome at h
            by_cases hreached : l.reached w.margin = true
            · simp only [hreached, if_true] at h
              cases h
              rfl
            · simp only [hreached] at h
              exact nomatch h
    · simp only [sweepEnding, hplan, hlook, hlive, hdue] at h
      exact nomatch h
  · simp only [sweepEnding, hplan, hlive] at h
    exact nomatch h

theorem same_waits (hplan : db.planOf u = some plan) (hlook : sweepLook db i u plan = .ok l)
    (hwait : l.due = false ∨ u.status = RUNNING ∧ 0 ≤ w.margin ∧ w.confirmation u = .PENDING ∧ l.reached w.margin = false) :
    sweepEnding db i u w stopReason = .leaves := by
  by_cases hlive : u.status.isTerminal = false
  · by_cases hdue : l.due = true
    · obtain ⟨hrunning, hmargin, hpending, hreached⟩ := hwait.resolve_left (by rw [hdue]; exact Bool.true_eq_false.mp)
      rw [sweepEnding_due hplan hlook hlive hdue, hpending, if_neg (by rw [hrunning]; exact Bool.false_ne_true),
        if_neg (not_lt.mpr hmargin)]
      simp only [Look.outcome, hreached]
      rfl
    · simp only [sweepEnding, hplan, hlook, hlive, hdue]
      rfl
  · simp only [sweepEnding, hplan, hlive]
    rfl

/-- **How the two sides end a unit**, for all tables and all that they have to go by. -/
theorem host_sweep_agree (hplan : db.planOf u = some plan) (hlook : sweepLook db i u plan = .ok l) (h : HostFacts) (w : SweepFacts)
    (stopReason : Option String) : SameEndings db i u l h w stopReason where
  agree := fun hrunning hdue hgone hheld hmargin hconfirmed hrenewed =>
    same_agree hplan hlook hrunning hdue hgone hheld hmargin hconfirmed hrenewed
  refused := fun hpre hdue margin => same_refused hplan hlook hpre hdue margin
  stopHost := by
    intro hstop outcome hends
    by_cases hgone : h.childGone = true
    · by_cases hlive : u.status.isTerminal = false
      · obtain ⟨key, hkey⟩ := Option.isSome_iff_exists.mp hstop
        rw [hostEnding_stop hlive hkey hgone] at hends
        split at hends
        · exact nomatch hends
        · cases hends
          rfl
      · rw [hostEnding_terminal (by simpa using hlive)] at hends
        exact nomatch hends
    · simp only [hostEnding, hgone] at hends
      exact nomatch hends
  stopSweep := fun hstop outcome hends => same_stopSweep hplan hlook hstop hends
  waits := same_waits hplan hlook
  unconfirmed := by
    intro hrunning hdue hmargin hpending hreached
    have hlive : u.status.isTerminal = false := by rw [hrunning]; rfl
    rw [sweepEnding_due hplan hlook hlive hdue, hpending, if_neg (by rw [hrunning]; exact Bool.false_ne_true),
      if_neg (not_lt.mpr hmargin)]
    simp only [Look.outcome, hreached, if_true]
  abandons := by
    intro hleft
    by_cases hgone : h.childGone = true
    · by_cases hlive : u.status.isTerminal = false
      · obtain ⟨cause, hcause⟩ := exists_cause hplan hlook hlive ⟨.RUNNING, 0⟩
        rw [hostEnding_eq hgone hlive hcause, hleft.resolve_left (by rw [hgone]; exact Bool.true_eq_false.mp)]
        cases cause <;> rfl
      · exact hostEnding_terminal (by simpa using hlive)
    · simp only [hostEnding, hgone]
      rfl
  grant := by
    intro hrunning hstop hgone
    have hlive : u.status.isTerminal = false := by rw [hrunning]; rfl
    have hends := @hostEnding_eq db u h stopReason _ hgone hlive (cause_of_look hplan hlook hlive hstop ⟨.RUNNING, 0⟩)
    have hcause : ∀ d, (∃ reason, causeOf .RUNNING d = .REFUSE reason) ∨ causeOf .RUNNING d = .NONE := by
      intro d
      cases d with
      | REFUSE reason => exact .inl ⟨reason, rfl⟩
      | DEFER => exact .inr rfl
      | PROCEED => exact .inr rfl
    refine ⟨fun hrevoked => ?_, fun hother => ?_⟩
    · rw [hends, hrevoked]
      obtain ⟨reason, hcause⟩ | hcause := hcause (dispatchDeadlineDecision l.now l.deadline (l.scan.bind (·.terminalState))
          (u.toDeadlineUnit ⟨.RUNNING, 0⟩)) <;> simp only [hcause] <;> rfl
    · rw [hends]
      obtain ⟨reason, hcause⟩ | hcause := hcause (dispatchDeadlineDecision l.now l.deadline (l.scan.bind (·.terminalState))
          (u.toDeadlineUnit ⟨.RUNNING, 0⟩)) <;> rcases hother with hother | hother <;> simp only [hcause, hother] <;> rfl

end Facts

/-! ### Where only one side looks -/

/-- A scan has been stopped, and its deadline has passed for longer than the margin, with a unit that still runs. -/
def stoppedLate : Tables where
  units := [⟨"unit-1", 7, 0, 3, some 5, .BROWSER, 60000, 1, none, RUNNING⟩]
  dependencies := []
  claims := []
  leases := [⟨0, true, 3700000⟩]
  plans := [⟨⟨.INITIAL, .RESOLVED, some 3600000, 0⟩, some 0⟩]
  scans := [⟨.RUNNING_PHASE_3, some 0⟩]
  moduleResults := []
  stops := [⟨.SCAN 0, .REQUESTED, 3500000⟩]
  clock := 3670000

/-- The host has seen its child gone. -/
def goneHost : HostFacts := ⟨.L, true, .STOP_PENDING, true, false, .ENGINE_EXCEPTION⟩

/-- So has the sweep, but for one effect it has no confirmation. -/
def openEffect : SweepFacts := ⟨some .TERMINATED, true, 60000⟩

def lateUnit : ExecutionUnit := ⟨"unit-1", 7, 0, 3, some 5, .BROWSER, 60000, 1, none, RUNNING⟩

def lateLook : Look := ⟨⟨0, RUNNING, []⟩, some ⟨.RUNNING_PHASE_3, some 0⟩, 3670000, some (some 3600000)⟩

theorem host_sweep_agree_late : SameEndings stoppedLate 0 lateUnit lateLook goneHost openEffect (some "OPERATOR_EMERGENCY_STOP") :=
  @host_sweep_agree stoppedLate 0 lateUnit ⟨⟨.INITIAL, .RESOLVED, some 3600000, 0⟩, some 0⟩ lateLook rfl (by decide) goneHost
    openEffect (some "OPERATOR_EMERGENCY_STOP")

/-- The host records the stop, and the sweep that the termination is not confirmed. -/
theorem endings_differ :
    hostEnding stoppedLate lateUnit goneHost (some "OPERATOR_EMERGENCY_STOP") = .records (.KILLED "OPERATOR_EMERGENCY_STOP") ∧
      sweepEnding stoppedLate 0 lateUnit openEffect (some "OPERATOR_EMERGENCY_STOP") =
        .records (.FAILED .TRANSIENT_INFRASTRUCTURE (some "TERMINATION_UNCONFIRMED")) := by
  decide

end WebAudit.Execution
