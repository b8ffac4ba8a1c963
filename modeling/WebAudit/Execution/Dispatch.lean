import WebAudit.Lib.Runs
import WebAudit.Execution.Finalize
import WebAudit.Planning.Resolver

/-!
# Dispatch

`dispatchExecutionUnit` of `services/execution-runtime/dispatch.ts`, with the claim and the guarded
transitions of `claim.ts`: from the pickup of a unit to `RUNNING`. Any number of hosts dispatch at
once, and between any two of their steps everything else may happen: sweeps and finalizers end
units, leases are released, reclaimed and renewed, scans and stops move on.

## The model

* A step is one transaction, or one call of a hook. A transaction locks the row of the unit before
  it reads what it decides by, so nothing of another transaction on the unit falls inside it.
  `classifyPreRunCause` outside a transaction is several reads.
* What a hook answers is part of the action. F07's admission, when it grants a lease, enters one
  for the unit: `admissionRequestFor` asks for the unit's id.
* A call that throws has done nothing, and the dispatch throws with it (`throw`). Where the
  finalizer or the deadline's arithmetic raises there is no other way on.
* Tokens do not repeat: the token of a claim is the number of its dispatch.
-/

namespace WebAudit.Execution

open WebAudit.Lib WebAudit.Planning
open ExecutionUnitStatus

/-! ### What the rest of the platform does -/

inductive Event where
  | tick (ms : ℕ)
  | createScan (scan : Scan)
  | setScan (i : ℕ) (scan : Scan)
  | setModule (result : ModuleResult)
  | setStop (k : Safety.KillSwitchState)
  /-- A plan is stored, its units planned or skipped, edges between the new units by their number. -/
  | plan (plan : ScanPlan) (units : List ExecutionUnit) (edges : List (ℕ × ℕ))
  /-- A lease is released by its token, or reclaimed. -/
  | closeLease (n : ℕ)
  | renewLease (n : ℕ)
  | finalize (i : ℕ) (kind : FinalizeKind)
  | completePassive (i : ℕ)
  deriving DecidableEq

/-- `interval '30 seconds'`. -/
def leaseMs : ℤ := 30000

/-- A unit waits for none but its own plan's, and one that waits for a skipped unit is skipped. -/
def planOk (units : List ExecutionUnit) (edges : List (ℕ × ℕ)) : Bool :=
  (units.all fun u => decide (u.status = PLANNED) || decide (u.status = SKIPPED)) &&
    edges.all fun e => match units[e.1]?, units[e.2]? with
      | some u, some d => d.status ≠ SKIPPED || decide (u.status = SKIPPED)
      | _, _ => false

def Tables.event (db : Tables) : Event → Option Tables
  | .tick ms => some { db with clock := db.clock + ms }
  | .createScan scan => some { db with scans := db.scans ++ [scan] }
  | .setScan i scan => some { db with scans := db.scans.set i scan }
  | .setModule result =>
    some { db with moduleResults := result :: db.moduleResults.filter fun m => m.scanId ≠ result.scanId || m.module ≠ result.module }
  | .setStop k => some { db with stops := k :: db.stops.filter (·.key ≠ k.key) }
  | .plan plan units edges =>
    if planOk units edges then
      some { db with
        plans := db.plans ++ [plan]
        units := db.units ++ units.map fun u => { u with scanPlanId := db.plans.length }
        dependencies := db.dependencies ++ edges.map fun e => (e.1 + db.units.length, e.2 + db.units.length) }
    else none
  | .closeLease n => some { db with leases := db.leases.modify n fun l => { l with isOpen := false } }
  | .renewLease n =>
    if (db.leases[n]?).any fun l => l.isOpen && decide (db.clock < l.expiresAt) then
      some { db with leases := db.leases.modify n fun l => { l with expiresAt := db.clock + leaseMs } }
    else none
  | .finalize i kind => (fahes_finalize_unit db i kind).map (·.1)
  | .completePassive i => (fahes_complete_passive_unit db i).map (·.1)

/-! ### Plans that the resolver stores -/

section Stored

variable (userId targetId : ℕ) (number : String → ℕ) (domainOf : String → Option String)

/-- The row of a unit, its grant by number; `domainOf` is what its configuration says. -/
def unitRow (u : PlannedUnit) : ExecutionUnit where
  id := u.id
  userId
  scanPlanId := 0
  targetId
  targetAuthorizationId := u.targetAuthorizationId.map number
  executionUnitClass := u.executionUnitClass
  timeoutPolicyMs := u.timeoutPolicyMs
  attempt := 1
  domain := domainOf u.id
  status := if u.status = .PLANNED then PLANNED else SKIPPED

/-- The edge between the rows of two units. -/
def rowEdge (units : List PlannedUnit) (e : GraphEdge) : ℕ × ℕ :=
  (units.findIdx fun u => decide (u.id = e.unitId), units.findIdx fun u => decide (u.id = e.dependsOnUnitId))

/-- **The runtime takes every plan that the resolver stores**, and its edges are between the units that they name. -/
theorem planOk_of_resolveGraph {α : Type} {uuid} {registry : EngineRegistry α}
    {domains classMap perDomain isAuthorized expiresAt now constants plan}
    (h : resolveGraph uuid registry domains classMap perDomain isAuthorized expiresAt now constants = .ok plan) :
    planOk (plan.units.map (unitRow userId targetId number domainOf)) (plan.edges.map (rowEdge plan.units)) = true ∧
      ∀ e ∈ plan.edges, (plan.units[(rowEdge plan.units e).1]?).map (·.id) = some e.unitId ∧
        (plan.units[(rowEdge plan.units e).2]?).map (·.id) = some e.dependsOnUnitId := by
  obtain ⟨hvalid, hclosed⟩ := resolveGraph_graph h
  have hids := hvalid.ids
  rw [List.map_map] at hids
  have hrow {id : String} (hid : id ∈ (plan.units.map fun u => (⟨u.id, u.executionUnitClass⟩ : GraphUnit)).map (·.id)) :
      ∃ u ∈ plan.units, plan.units[plan.units.findIdx fun u => decide (u.id = id)]? = some u ∧ u.id = id := by
    rw [List.map_map] at hid
    obtain ⟨v, hv, rfl⟩ := List.mem_map.mp hid
    have hlt : plan.units.findIdx (fun u => decide (u.id = v.id)) < plan.units.length :=
      List.findIdx_lt_length_of_exists ⟨v, hv, decide_eq_true rfl⟩
    exact ⟨_, List.getElem_mem hlt, List.getElem?_eq_getElem hlt, of_decide_eq_true (List.findIdx_getElem (w := hlt))⟩
  have hends : ∀ e ∈ plan.edges, ∃ u ∈ plan.units, ∃ d ∈ plan.units, plan.units[(rowEdge plan.units e).1]? = some u ∧
      plan.units[(rowEdge plan.units e).2]? = some d ∧ e = ⟨u.id, d.id⟩ := by
    rintro ⟨_, _⟩ he
    obtain ⟨u, hu, hu', rfl⟩ := hrow (hvalid.known _ he).1
    obtain ⟨d, hd, hd', rfl⟩ := hrow (hvalid.known _ he).2
    exact ⟨u, hu, d, hd, hu', hd', rfl⟩
  refine ⟨Bool.and_eq_true_iff.mpr ⟨?_, List.all_eq_true.mpr ?_⟩, fun e he => ?_⟩
  · simp only [List.all_map, List.all_eq_true, Function.comp_apply, unitRow]
    intro u _
    split_ifs <;> rfl
  · intro r hr
    obtain ⟨e, he, rfl⟩ := List.mem_map.mp hr
    obtain ⟨u, hu, d, hd, hu', hd', rfl⟩ := hends e he
    simp only [List.getElem?_map, hu', hd', Option.map_some, unitRow, Bool.or_eq_true, decide_eq_true_eq]
    by_cases hlive : u.status = .PLANNED
    · obtain ⟨p, hp, hpid, hplanned⟩ := hclosed u hu hlive d.id he
      rw [← List.inj_on_of_nodup_map hids hp hd hpid, if_pos hplanned]
      exact .inl nofun
    · exact .inr (if_neg hlive)
  · obtain ⟨u, -, d, -, hu', hd', rfl⟩ := hends e he
    rw [hu', hd']
    exact ⟨rfl, rfl⟩

theorem planOk_of_resolveGraph_browser : ∃ plan : ResolvedPlan,
    planOk (plan.units.map (unitRow 0 0 (fun _ => 0) fun _ => none)) (plan.edges.map (rowEdge plan.units)) = true :=
  browser_resolved.imp fun _ h => (planOk_of_resolveGraph 0 0 (fun _ => 0) (fun _ => none) h).1

end Stored

/-! ### Claims and guarded transitions -/

structure HostIdentity where
  executionUnitId : ℕ
  userId : ℕ
  hostInstanceId : String
  deriving DecidableEq

/-- Whether the class's policy consumes a concurrency lease. -/
inductive LeaseClass where
  | L
  | N
  deriving DecidableEq

/-- Why a dispatch refuses, defers or ignores. -/
inductive DispatchReason where
  | NOT_FOUND
  | STATUS (status : ExecutionUnitStatus)
  | PASSIVE_LEGACY_QUEUE
  | ENGINE_CAPACITY
  | INVALID_CLAIM
  | PLAN_NOT_RESOLVED
  | SCAN_NOT_STARTED
  | ALREADY_CLAIMED
  | KILL_SWITCH_PENDING
  | deadline (reason : DispatchRefusal)
  /-- What a hook or F07 says. -/
  | said (reason : String)
  | LEASE_LOST
  | LOST_PLANNED_ADMITTED
  | LOST_ADMITTED_DISPATCHED
  | LOST_DISPATCHED_RUNNING
  deriving DecidableEq

inductive ClaimResult where
  | CLAIMED (attempt : ℕ)
  | ALREADY_CLAIMED
  | REFUSE (reason : DispatchRefusal)
  | NOT_CLAIMABLE (reason : DispatchReason)
  deriving DecidableEq

inductive CasResult where
  | OK
  | LOST
  | LEASE_LOST
  deriving DecidableEq

inductive HostEdge where
  | PLANNED_ADMITTED
  | ADMITTED_DISPATCHED
  | DISPATCHED_RUNNING
  deriving DecidableEq

def HostEdge.before : HostEdge → ExecutionUnitStatus
  | .PLANNED_ADMITTED => PLANNED
  | .ADMITTED_DISPATCHED => ADMITTED
  | .DISPATCHED_RUNNING => DISPATCHED

def HostEdge.after : HostEdge → ExecutionUnitStatus
  | .PLANNED_ADMITTED => ADMITTED
  | .ADMITTED_DISPATCHED => DISPATCHED
  | .DISPATCHED_RUNNING => RUNNING

section Host

variable (db : Tables) (host : HostIdentity)

/-- The row of the unit, for its own tenant only. -/
def loadUnit : Option ExecutionUnit := (db.units[host.executionUnitId]?).filter (·.userId = host.userId)

/-- The insert of a claim, one for a unit and attempt. -/
def insertClaim (u : ExecutionUnit) (token : ℕ) : Tables × ClaimResult :=
  if db.claims.any fun c => decide (c.executionUnitId = host.executionUnitId) && decide (c.attempt = u.attempt) then
    (db, .ALREADY_CLAIMED)
  else
    ({ db with claims := db.claims ++ [⟨host.executionUnitId, u.attempt, host.hostInstanceId, token⟩] }, .CLAIMED u.attempt)

def claimUnitHost (token : ℕ) (hardStopMarginMs : ℤ) : Except PlanningError (Tables × ClaimResult) :=
  if host.hostInstanceId = "" then .ok (db, .NOT_CLAIMABLE .INVALID_CLAIM)
  else
    match loadUnit db host with
    | none => .ok (db, .NOT_CLAIMABLE .NOT_FOUND)
    | some u =>
      if u.status ≠ PLANNED then .ok (db, .NOT_CLAIMABLE (.STATUS u.status))
      else if (db.planOf u).all fun plan => plan.state ≠ .RESOLVED then .ok (db, .NOT_CLAIMABLE .PLAN_NOT_RESOLVED)
      else
        match classifyPreRunCause db u u.status ⟨.PRE_RUN, hardStopMarginMs⟩ with
        | .error e => .error e
        | .ok .SCAN_NOT_STARTED => .ok (db, .NOT_CLAIMABLE .SCAN_NOT_STARTED)
        | .ok (.REFUSE reason) => .ok (db, .REFUSE reason)
        | .ok _ => .ok (insertClaim db host u token)

/-- `casHostTransition`. -/
def casHostTransition (attempt token : ℕ) (leaseClass : LeaseClass) (edge : HostEdge) : Tables × CasResult :=
  match loadUnit db host with
  | none => (db, .LOST)
  | some u =>
    if u.status ≠ edge.before || u.attempt ≠ attempt || !db.claims.contains ⟨host.executionUnitId, attempt, host.hostInstanceId, token⟩ then
      (db, .LOST)
    else
      match setStatus db.units host.executionUnitId false edge.after with
      | none => (db, .LOST)
      | some units =>
        if leaseClass = .L && !db.hasOpenLease host.executionUnitId then (db, .LEASE_LOST)
        else ({ db with units }, .OK)

end Host

/-! ### `dispatchExecutionUnit` -/

inductive DispatchOutcome where
  | RUNNING (attempt claimToken : ℕ)
  | REFUSED (reason : DispatchReason)
  | DEFERRED (reason : DispatchReason)
  | IGNORED (reason : DispatchReason)
  deriving DecidableEq

/-- The next statement of a dispatch. `u` is the unit as the pickup read it. -/
inductive DispatchPc where
  | pickup
  | capacity (u : ExecutionUnit)
  | claim (u : ExecutionUnit)
  | guards (u : ExecutionUnit) (attempt : ℕ)
  | pre (u : ExecutionUnit) (attempt : ℕ) (r : Reading)
  | admission (u : ExecutionUnit) (attempt : ℕ)
  | plannedAdmitted (u : ExecutionUnit) (attempt : ℕ)
  /-- `releaseLeases`. -/
  | free (reason : DispatchReason)
  | proofs (u : ExecutionUnit) (attempt : ℕ)
  | again (u : ExecutionUnit) (attempt : ℕ) (r : Reading)
  | dispatch (attempt : ℕ)
  | fork (attempt : ℕ)
  | run (attempt : ℕ)
  /-- `child.terminate()`. -/
  | terminate (reason : DispatchReason)
  /-- `refuse`. -/
  | refusing (reason : DispatchReason)
  | returned (outcome : DispatchOutcome)
  | thrown
  deriving DecidableEq

/-- What `requestAdmission` answers, and whether it has entered a lease. -/
inductive AdmissionAnswer where
  | REFUSED (reason : String)
  | GRANTED (lease : Bool)
  deriving DecidableEq

/-- What the call that a dispatch makes comes to. -/
inductive Answer where
  /-- The database is called. -/
  | database
  | hasCapacity (free : Bool)
  | guards (refusal : Option String)
  | requestAdmission (answer : AdmissionAnswer)
  | proofs (refusal : Option String)
  | forkInertChild
  | terminate
  deriving DecidableEq

structure Dispatch where
  host : HostIdentity
  leaseClass : LeaseClass
  hardStopMarginMs : ℤ
  pc : DispatchPc
  deriving DecidableEq

/-- The reason of a cause that refuses. -/
def PreRunCause.reason : PreRunCause → Option DispatchReason
  | .NONE => none
  | .TERMINAL status => some (.STATUS status)
  | .KILL_SWITCH_PENDING _ => some .KILL_SWITCH_PENDING
  | .REFUSE reason => some (.deadline reason)
  | .SCAN_NOT_STARTED => some .SCAN_NOT_STARTED

section Dispatch

variable (db : Tables) (token : ℕ) (d : Dispatch)

def Dispatch.options : CauseOptions := ⟨.PRE_RUN, d.hardStopMarginMs⟩

/-- After the claim. -/
def afterClaim (u : ExecutionUnit) : ClaimResult → DispatchPc
  | .REFUSE reason => .refusing (.deadline reason)
  | .NOT_CLAIMABLE .SCAN_NOT_STARTED => .returned (.DEFERRED .SCAN_NOT_STARTED)
  | .NOT_CLAIMABLE reason => .returned (.IGNORED reason)
  | .ALREADY_CLAIMED => .returned (.IGNORED .ALREADY_CLAIMED)
  | .CLAIMED attempt => .guards u attempt

/-- After the re-read that comes before the admission. -/
def afterPre (u : ExecutionUnit) (attempt : ℕ) : PreRunCause → DispatchPc
  | .TERMINAL status => .returned (.IGNORED (.STATUS status))
  | .SCAN_NOT_STARTED => .returned (.DEFERRED .SCAN_NOT_STARTED)
  | .REFUSE reason => .refusing (.deadline reason)
  | .NONE | .KILL_SWITCH_PENDING _ => .admission u attempt

/-- After the second evaluation. -/
def afterAgain (attempt : ℕ) : PreRunCause → DispatchPc
  | .TERMINAL status => .returned (.IGNORED (.STATUS status))
  | .NONE => .dispatch attempt
  | cause => .refusing (cause.reason.getD .NOT_FOUND)

/-- After a transition: where to go on, or what to do when it is lost. -/
def afterCas (result : CasResult) (won : DispatchPc) (lost : DispatchReason → DispatchPc) (reason : DispatchReason) : DispatchPc :=
  match result with
  | .OK => won
  | .LOST => lost reason
  | .LEASE_LOST => lost .LEASE_LOST

/-- The steps of a dispatch. -/
def dispatchStep : DispatchPc → Answer → Option (Tables × DispatchPc)
  | .pickup, .database =>
    match loadUnit db d.host with
    | none => some (db, .returned (.IGNORED .NOT_FOUND))
    | some u =>
      if u.status ≠ PLANNED then some (db, .returned (.IGNORED (.STATUS u.status)))
      else if isPassiveClass u.executionUnitClass then some (db, .returned (.IGNORED .PASSIVE_LEGACY_QUEUE))
      else some (db, .capacity u)
  | .capacity u, .hasCapacity free => some (db, if free then .claim u else .returned (.DEFERRED .ENGINE_CAPACITY))
  | .claim u, .database =>
    match claimUnitHost db d.host token d.hardStopMarginMs with
    | .error _ => none
    | .ok (db', result) => some (db', afterClaim u result)
  | .guards u attempt, .guards refusal =>
    match refusal with
    | some reason => some (db, .refusing (.said reason))
    | none => some (db, .pre u attempt .clock)
  | .pre u attempt r, .database =>
    match readCause db u PLANNED d.options r with
    | .inl r => some (db, .pre u attempt r)
    | .inr (.error _) => none
    | .inr (.ok cause) => some (db, afterPre u attempt cause)
  | .admission u attempt, .requestAdmission answer =>
    match answer with
    | .REFUSED reason => some (db, .refusing (.said reason))
    | .GRANTED false => some (db, .plannedAdmitted u attempt)
    | .GRANTED true =>
      some ({ db with leases := db.leases ++ [⟨d.host.executionUnitId, true, db.clock + leaseMs⟩] }, .plannedAdmitted u attempt)
  | .plannedAdmitted u attempt, .database =>
    let (db', result) := casHostTransition db d.host attempt token d.leaseClass .PLANNED_ADMITTED
    some (db', afterCas result (.proofs u attempt) .free .LOST_PLANNED_ADMITTED)
  | .free reason, .database =>
    some ({ db with leases := releaseLeases db.leases d.host.executionUnitId }, .returned (.IGNORED reason))
  | .proofs u attempt, .proofs refusal =>
    match refusal with
    | some reason => some (db, .refusing (.said reason))
    | none => some (db, .again u attempt .clock)
  | .again u attempt r, .database =>
    match readCause db u ADMITTED d.options r with
    | .inl r => some (db, .again u attempt r)
    | .inr (.error _) => none
    | .inr (.ok cause) => some (db, afterAgain attempt cause)
  | .dispatch attempt, .database =>
    let (db', result) := casHostTransition db d.host attempt token d.leaseClass .ADMITTED_DISPATCHED
    some (db', if result = .OK then .fork attempt else .returned (.IGNORED .LOST_ADMITTED_DISPATCHED))
  | .fork attempt, .forkInertChild => some (db, .run attempt)
  | .run attempt, .database =>
    let (db', result) := casHostTransition db d.host attempt token d.leaseClass .DISPATCHED_RUNNING
    some (db', afterCas result (.returned (.RUNNING attempt token)) .terminate .LOST_DISPATCHED_RUNNING)
  | .terminate reason, .terminate => some (db, .returned (.IGNORED reason))
  | .refusing reason, .database => do
    let (db', r) ← fahes_finalize_unit db d.host.executionUnitId .REFUSED
    some (db', .returned (if r.replayed then .IGNORED (.STATUS r.status) else .REFUSED reason))
  | _, _ => none

end Dispatch

/-! ### The machine -/

structure State where
  db : Tables
  dispatches : List Dispatch
  deriving DecidableEq

inductive Action where
  | event (e : Event)
  /-- `dispatchExecutionUnit` is called. -/
  | call (host : HostIdentity) (leaseClass : LeaseClass) (hardStopMarginMs : ℤ)
  | run (k : ℕ) (answer : Answer)
  | throw (k : ℕ)
  deriving DecidableEq

/-- Nothing more comes of it. -/
def DispatchPc.isOver : DispatchPc → Bool
  | .returned _ | .thrown => true
  | _ => false

def State.setPc (s : State) (db : Tables) (k : ℕ) (pc : DispatchPc) : State where
  db := db
  dispatches := s.dispatches.modify k fun d => { d with pc }

def next (s : State) : Action → Option State
  | .event e => (s.db.event e).map fun db => { s with db }
  | .call host leaseClass hardStopMarginMs => some { s with dispatches := s.dispatches ++ [⟨host, leaseClass, hardStopMarginMs, .pickup⟩] }
  | .run k answer => do
    let d ← s.dispatches[k]?
    let (db, pc) ← dispatchStep s.db k d d.pc answer
    some (s.setPc db k pc)
  | .throw k => do
    let d ← s.dispatches[k]?
    if d.pc.isOver then none else some (s.setPc s.db k .thrown)

def step (s : State) (a : Action) (s' : State) : Prop := next s a = some s'

def State.init : State := ⟨⟨[], [], [], [], [], [], [], [], 0⟩, []⟩

end WebAudit.Execution
