import Mathlib.Data.List.Sort
import WebAudit.Safety.Tables

/-!
# The safety functions, statement by statement

The migrations `20261028120000` and `20261029000000`: admission, renewal, both releases, the
reclaim sweep and the life of a stop. Any number of transactions are at work at once; a
transaction makes one call after another, and between any two statements the others may run.

## The model

* A statement sees what is committed and what its own transaction has done. A transaction keeps
  what it does in its `Work` until it commits: the books of the grants whose counter rows it has
  locked, the lease rows it has updated, the stops it has locked, its advisory locks.
* A statement that would have to wait cannot be run yet; `lock_timeout` and whatever else may fail
  is a rollback, of the transaction or to the savepoint before the call.
* Statements on rows that the transaction has locked run together with the one before.
* Renewal, release and reclaim wait for a lease row that another transaction has updated.
-/

namespace WebAudit.Safety

/-! ### Transactions -/

inductive LockKey where
  | stop (key : StopKey)
  /-- `f07:exec:`, one at a time for an execution. -/
  | exec (executionId : String)
  deriving DecidableEq

/-- What a transaction has done and locked. -/
structure Work where
  /-- Counter rows locked, with what has become of the books behind them. -/
  held : List (ℕ × Books)
  /-- Lease rows updated. -/
  rows : List ℕ
  /-- The new `expiresAt` of leases. -/
  expiries : List (ℕ × ℤ)
  /-- Advisory locks, `true` for shared ones. -/
  locks : List (LockKey × Bool)
  /-- Stops locked or written. -/
  stops : List KillSwitchState
  deriving DecidableEq

def Work.none : Work := ⟨[], [], [], [], []⟩

inductive AdmissionRefusalReason where
  | NO_MATCHING_GRANT
  | REVOKED
  | EXPIRED
  | ENVIRONMENT_UNCLASSIFIED_OR_NOT_PERMITTED
  | BUDGET_EXHAUSTED_REQUEST
  | BUDGET_EXHAUSTED_CONCURRENCY
  | KILL_SWITCH_PENDING (key : StopKey)
  | EXECUTION_ALREADY_LEASED
  deriving DecidableEq

structure AdmitRequest where
  targetId : ℕ
  grantId : ℕ
  executionId : String
  scanId : Option ℕ
  idempotencyKey : String
  consumeRequest : Bool
  consumeConcurrency : Bool
  deriving DecidableEq

inductive AdmitReply where
  | refused (reason : AdmissionRefusalReason)
  | granted (leaseId holderToken : Option ℕ) (replay : Bool)
  deriving DecidableEq

inductive RenewReply where
  | fenced
  | stopPending (key : StopKey)
  | grantInvalid (reason : AdmissionRefusalReason)
  | renewed (expiresAt : ℤ)
  deriving DecidableEq

/-- The local variables of an admission. -/
structure Admission where
  r : AdmitRequest
  now : ℤ
  user : ℕ
  grant : TargetAuthorization
  deriving DecidableEq

/-- The local variables of a renewal. -/
structure Renewal where
  now : ℤ
  grantId : ℕ
  lease : AdmissionLease
  deriving DecidableEq

/-- The local variables of the reclaim sweep. -/
structure Sweep where
  limit : ℕ
  now : ℤ
  reclaimed : ℕ
  skipped : ℕ
  corrected : ℕ
  deriving DecidableEq

/-- The local variables of the reconciler. -/
structure Reconciler where
  limit : ℕ
  grace : ℤ
  now : ℤ
  acknowledged : ℕ
  stopped : ℕ
  skipped : ℕ
  deriving DecidableEq

/-- The next statement of a call, or what the call has come to. -/
inductive Pc where
  -- `f07_admit`
  | target (r : AdmitRequest) (now : ℤ)
  | grant (r : AdmitRequest) (now : ℤ) (user : ℕ)
  | scan (a : Admission)
  | tenant (a : Admission)
  | lock (a : Admission) (left : List (LockKey × Bool))
  | pending (a : Admission)
  | environment (a : Admission)
  | counter (a : Admission)
  | replay (a : Admission)
  | leased (a : Admission)
  | book (a : Admission)
  | admitted (r : AdmitRequest) (now : ℤ) (reply : AdmitReply)
  -- `f07_renew_lease`
  | renewRead (leaseId token : ℕ) (now : ℤ)
  | renewPending (x : Renewal)
  | renewGrant (x : Renewal)
  | renewUpdate (x : Renewal)
  | renewed (x : Option Renewal) (reply : RenewReply)
  -- `f07_release_lease_by_token`
  | tokenRead (leaseId token : ℕ) (now : ℤ)
  | tokenCounter (leaseId grantId : ℕ) (now : ℤ)
  | tokenUpdate (leaseId grantId : ℕ) (now : ℤ)
  | released (released : Bool)
  -- `f07_release_leases_by_execution`
  | executionRead (executionId : String) (now : ℤ)
  | executionNext (executionId : String) (now : ℤ) (grants : List ℕ) (total : ℕ)
  | executionUpdate (executionId : String) (now : ℤ) (grantId : ℕ) (grants : List ℕ) (total : ℕ)
  | releasedAll (total : ℕ)
  -- `f07_reclaim_expired_leases`
  | reclaimRead (x : Sweep)
  | reclaimNext (x : Sweep) (grants : List ℕ)
  | reclaimUpdate (x : Sweep) (grantId : ℕ) (grants : List ℕ)
  | driftRead (x : Sweep)
  | driftNext (x : Sweep) (grants : List ℕ)
  | driftUpdate (x : Sweep) (grantId : ℕ) (grants : List ℕ)
  | reclaimed (x : Sweep)
  -- `f07_trigger_stop`
  | triggerAuthority (key : StopKey) (triggeredBy : Option ℕ) (reason : KillSwitchReason)
  | triggerLock (key : StopKey)
  | triggerSelect (key : StopKey)
  | triggered (created : Bool) (state : StopLifecycleState)
  -- `f07_ack_stop`
  | ackLock (key : StopKey)
  | ackSelect (key : StopKey)
  | acknowledged (changed : Bool) (state : Option StopLifecycleState)
  -- `f07_record_stopped`
  | stoppedLock (key : StopKey)
  | stoppedSelect (key : StopKey)
  | stoppedLive (k : KillSwitchState)
  | stoppedWrite (k : KillSwitchState)
  | stopped (changed : Bool)
  -- `f07_reconcile_stranded_stops`
  | reconcileRead (x : Reconciler)
  | reconcileNext (x : Reconciler) (keys : List StopKey)
  | reconcileTry (x : Reconciler) (k : KillSwitchState) (keys : List StopKey)
  | reconcileLive (x : Reconciler) (k : KillSwitchState) (keys : List StopKey)
  | reconcileWrite (x : Reconciler) (k : KillSwitchState) (keys : List StopKey)
  | reconciled (x : Reconciler)
  /-- An exception is raised. -/
  | raised
  deriving DecidableEq

/-- A transaction, with what it had done before its current call. -/
structure Tx where
  work : Work
  saved : Work
  call : Option Pc
  deriving DecidableEq

def Tx.idle : Tx := ⟨.none, .none, none⟩

structure State where
  accounts : List Account
  targets : List Target
  scans : List Scan
  operators : List ℕ
  /-- `expiresAt` of the leases. -/
  expiry : List (ℕ × ℤ)
  stops : List KillSwitchState
  txs : List Tx
  /-- The time of the database, in milliseconds. -/
  clock : ℤ
  /-- Greater than every id made. -/
  serial : ℕ
  deriving DecidableEq

/-! ### What a statement sees -/

section View

variable (s : State) (w : Work)

/-- The books of a grant. -/
def booksOf (g : ℕ) : Books :=
  match w.held.lookup g with
  | some b => b
  | none => ((s.accounts[g]?).map (·.books)).getD Books.empty

/-- The `expiresAt` of a lease. -/
def expiryOf (id : ℕ) : ℤ := ((w.expiries.lookup id).or (s.expiry.lookup id)).getD 0

/-- The rows of the stops. -/
def stopsOf : List KillSwitchState := w.stops ++ s.stops.filter fun k => w.stops.all (·.key ≠ k.key)

/-- The row of a stop. -/
def stopOf (key : StopKey) : Option KillSwitchState := (stopsOf s w).find? (·.key = key)

/-- Every lease with the grant it is of. -/
def leasesOf : List (ℕ × AdmissionLease) :=
  (List.range s.accounts.length).flatMap fun g => (booksOf s w g).leases.map fun l => (g, l)

/-- Every consumption row. -/
def consumptionsOf : List BudgetConsumption :=
  (List.range s.accounts.length).flatMap fun g => (booksOf s w g).consumptions

/-- `SELECT … FROM "AdmissionLease" WHERE id = …`. -/
def findLease (id : ℕ) : Option (ℕ × AdmissionLease) := (leasesOf s w).find? fun p => p.2.id = id

/-- Neither released nor reclaimed, and not expired at that time. -/
def isLive (at' : ℤ) (l : AdmissionLease) : Bool := l.isOpen && decide (at' < expiryOf s w l.id)

/-- `f07_stop_pending`. -/
def stopPending (keys : List StopKey) : Option StopKey :=
  keys.find? fun key => (stopOf s w key).any (·.isPending)

/-- `f07_scope_has_live_execution`. -/
def scopeHasLiveExecution (key : StopKey) : Bool :=
  (leasesOf s w).any fun p => isLive s w s.clock p.2 && key.covers p.1 p.2

end View

/-! ### Locks -/

/-- Nobody else has the counter row. -/
def counterFree (others : List Work) (g : ℕ) : Bool := others.all fun w => (w.held.lookup g).isNone

/-- Nobody else has updated the lease row. -/
def rowFree (others : List Work) (id : ℕ) : Bool := others.all fun w => !w.rows.contains id

/-- Nobody else has the stop's row. -/
def stopFree (others : List Work) (key : StopKey) : Bool := others.all fun w => w.stops.all (·.key ≠ key)

/-- Nobody else has the advisory lock in a way that excludes this one. -/
def lockFree (others : List Work) (key : LockKey) (shared : Bool) : Bool :=
  others.all fun w => w.locks.all fun p => p.1 ≠ key || (p.2 && shared)

namespace Work

/-- The counter row is locked, the books behind it are these. -/
def hold (w : Work) (g : ℕ) (b : Books) : Work := { w with held := (g, b) :: w.held.filter (·.1 ≠ g) }

def lock (w : Work) (key : LockKey) (shared : Bool) : Work := { w with locks := (key, shared) :: w.locks }

/-- The row of a stop is locked, and is this one now. -/
def holdStop (w : Work) (k : KillSwitchState) : Work := { w with stops := k :: w.stops.filter (·.key ≠ k.key) }

/-- `SET "expiresAt" = …`. -/
def setExpiry (w : Work) (id : ℕ) (expiresAt : ℤ) : Work := { w with expiries := (id, expiresAt) :: w.expiries }

end Work

/-! ### `f07_admit` -/

section Admit

variable (s : State) (others : List Work) (w : Work)

/-- The advisory locks of an admission, in their order. -/
def admitLocks (a : Admission) : List (LockKey × Bool) :=
  ((coveringKeys a.r.executionId a.r.scanId a.r.grantId a.r.targetId a.user).map fun key => (LockKey.stop key, true)) ++
    if a.r.consumeConcurrency then [(.exec a.r.executionId, false)] else []

def refuse (a : Admission) (reason : AdmissionRefusalReason) : Option (Work × Pc) :=
  some (w, .admitted a.r a.now (.refused reason))

/-- The grant is the one that the target's owner has for the target. -/
def matchingGrant (r : AdmitRequest) (user : ℕ) : Option TargetAuthorization :=
  ((s.accounts[r.grantId]?).map (·.grant)).filter fun g => g.targetId = r.targetId && g.userId = user

/-- The lease that a call is granted. -/
def Admission.lease (a : Admission) (serial : ℕ) : AdmissionLease where
  id := serial
  userId := a.user
  targetId := a.r.targetId
  scanId := a.r.scanId
  executionId := a.r.executionId
  idempotencyKey := a.r.idempotencyKey
  holderToken := serial + 1
  releasedAt := none
  reclaimedAt := none

/-- `interval '30 seconds'`. -/
def leaseMs : ℤ := 30000

/-- The inserts and updates of a grant. -/
def Admission.enter (a : Admission) (serial : ℕ) (b : Books) : Books where
  counter := b.counter.map fun c =>
    { consumedRequests := if a.r.consumeRequest then c.consumedRequests + 1 else c.consumedRequests
      activeConcurrency := if a.r.consumeConcurrency then c.activeConcurrency + 1 else c.activeConcurrency }
  leases := if a.r.consumeConcurrency then b.leases ++ [a.lease serial] else b.leases
  consumptions :=
    if a.r.consumeRequest then b.consumptions ++ [⟨a.user, a.r.executionId, a.r.idempotencyKey⟩] else b.consumptions

/-- The statements of an admission. -/
def admitStep : Pc → Option (Work × Pc)
  | .target r now =>
    match s.targets[r.targetId]? with
    | none => some (w, .admitted r now (.refused .NO_MATCHING_GRANT))
    | some target => some (w, .grant r now target.userId)
  | .grant r now user =>
    match matchingGrant s r user with
    | none => some (w, .admitted r now (.refused .NO_MATCHING_GRANT))
    | some grant => some (w, .scan ⟨r, now, user, grant⟩)
  | .scan a =>
    -- a scan must be this owner's scan of this target
    if a.r.scanId.all fun id => (s.scans[id]?).any fun scan => scan.userId = a.user && scan.targetId = a.r.targetId then
      some (w, .tenant a)
    else refuse w a .NO_MATCHING_GRANT
  | .tenant a =>
    if (leasesOf s w).any (fun p => p.2.executionId = a.r.executionId && p.2.userId ≠ a.user) ||
        (consumptionsOf s w).any (fun c => c.executionId = a.r.executionId && c.userId ≠ a.user) then
      refuse w a .NO_MATCHING_GRANT
    else some (w, .lock a (admitLocks a))
  | .lock a [] => some (w, .pending a)
  | .lock a ((key, shared) :: left) =>
    if lockFree others key shared then some (w.lock key shared, .lock a left) else none
  | .pending a =>
    match stopPending s w (coveringKeys a.r.executionId a.r.scanId a.r.grantId a.r.targetId a.user) with
    | some key => refuse w a (.KILL_SWITCH_PENDING key)
    | none =>
      if a.grant.revokedAt.isSome then refuse w a .REVOKED
      else if a.grant.expiresAt ≤ a.now then refuse w a .EXPIRED
      else some (w, .environment a)
  | .environment a =>
    match (s.targets[a.r.targetId]?).bind (·.classification) with
    | some env =>
      if a.grant.environmentRestriction.contains env then some (w, .counter a)
      else refuse w a .ENVIRONMENT_UNCLASSIFIED_OR_NOT_PERMITTED
    | none => refuse w a .ENVIRONMENT_UNCLASSIFIED_OR_NOT_PERMITTED
  | .counter a =>
    if counterFree others a.r.grantId then
      some (w.hold a.r.grantId (booksOf s w a.r.grantId).withCounter, .replay a)
    else none
  | .replay a =>
    let b := booksOf s w a.r.grantId
    match b.leases.find? (·.idempotencyKey = a.r.idempotencyKey) with
    | some l => some (w, .admitted a.r a.now (.granted (some l.id) (some l.holderToken) true))
    | none =>
      if b.consumptions.any (·.idempotencyKey = a.r.idempotencyKey) then
        some (w, .admitted a.r a.now (.granted none none true))
      else some (w, .leased a)
  | .leased a =>
    if a.r.consumeConcurrency && (leasesOf s w).any (fun p =>
        p.2.executionId = a.r.executionId && isLive s w a.now p.2 && p.2.idempotencyKey ≠ a.r.idempotencyKey) then
      refuse w a .EXECUTION_ALREADY_LEASED
    else some (w, .book a)
  | .book a =>
    let b := booksOf s w a.r.grantId
    if a.r.consumeRequest && decide (b.consumedRequests + 1 > a.grant.requestBudget) then
      refuse w a .BUDGET_EXHAUSTED_REQUEST
    else if a.r.consumeConcurrency && decide (b.activeConcurrency + 1 > a.grant.concurrencyBudget) then
      refuse w a .BUDGET_EXHAUSTED_CONCURRENCY
    else
      let entered := w.hold a.r.grantId (a.enter s.serial b)
      if a.r.consumeConcurrency then
        some (entered.setExpiry s.serial (a.now + leaseMs),
          .admitted a.r a.now (.granted (some s.serial) (some (s.serial + 1)) false))
      else some (entered, .admitted a.r a.now (.granted none none false))
  | _ => none

end Admit

/-! ### `f07_renew_lease` -/

/-- The statements of a renewal. -/
def renewStep (s : State) (others : List Work) (w : Work) : Pc → Option (Work × Pc)
  | .renewRead leaseId token now =>
    match findLease s w leaseId with
    | none => some (w, .renewed none .fenced)
    | some (g, l) => if l.holderToken ≠ token then some (w, .renewed none .fenced) else some (w, .renewPending ⟨now, g, l⟩)
  | .renewPending x =>
    match stopPending s w (coveringKeys x.lease.executionId x.lease.scanId x.grantId x.lease.targetId x.lease.userId) with
    | some key => some (w, .renewed (some x) (.stopPending key))
    | none => some (w, .renewGrant x)
  | .renewGrant x =>
    -- a renewal must not outlive the grant
    match (s.accounts[x.grantId]?).map (·.grant) with
    | none => some (w, .renewed (some x) (.grantInvalid .REVOKED))
    | some grant =>
      if grant.revokedAt.isSome then some (w, .renewed (some x) (.grantInvalid .REVOKED))
      else if grant.expiresAt ≤ x.now then some (w, .renewed (some x) (.grantInvalid .EXPIRED))
      else some (w, .renewUpdate x)
  | .renewUpdate x =>
    if rowFree others x.lease.id then
      if (booksOf s w x.grantId).leases.any fun l =>
          l.id = x.lease.id && l.holderToken = x.lease.holderToken && isLive s w x.now l then
        some ({ w.setExpiry x.lease.id (x.now + leaseMs) with rows := x.lease.id :: w.rows },
          .renewed (some x) (.renewed (x.now + leaseMs)))
      else some (w, .renewed (some x) .fenced)
    else none
  | _ => none

/-! ### Release and reclaim -/

/-- The transaction closes the leases of a grant that satisfy `p`, and puts its counter right. -/
def Work.close (w : Work) (g : ℕ) (b : Books) (p : AdmissionLease → Bool) (stamp : AdmissionLease → AdmissionLease)
    (f : ℤ → ℤ) : Work :=
  { w.hold g ((b.close p stamp).setActive f) with rows := (b.closing p).map (·.id) ++ w.rows }

/-- The statements of the two releases. -/
def releaseStep (s : State) (others : List Work) (w : Work) : Pc → Option (Work × Pc)
  | .tokenRead leaseId token now =>
    match findLease s w leaseId with
    | none => some (w, .released false)
    | some (g, l) => if l.holderToken ≠ token then some (w, .released false) else some (w, .tokenCounter leaseId g now)
  | .tokenCounter leaseId g now =>
    if counterFree others g then some (w.hold g (booksOf s w g), .tokenUpdate leaseId g now) else none
  | .tokenUpdate leaseId g now =>
    let b := booksOf s w g
    if (b.closing (·.id = leaseId)).all fun l => rowFree others l.id then
      if (b.closing (·.id = leaseId)).isEmpty then some (w, .released false)
      else some (w.close g b (·.id = leaseId) (·.release now) fun n => max (n - 1) 0, .released true)
    else none
  | .executionRead executionId now =>
    some (w, .executionNext executionId now ((List.range s.accounts.length).filter fun g =>
      (booksOf s w g).leases.any fun l => l.executionId = executionId && l.isOpen) 0)
  | .executionNext _ _ [] total => some (w, .releasedAll total)
  | .executionNext executionId now (g :: grants) total =>
    if counterFree others g then some (w.hold g (booksOf s w g), .executionUpdate executionId now g grants total) else none
  | .executionUpdate executionId now g grants total =>
    let b := booksOf s w g
    let n := (b.closing (·.executionId = executionId)).length
    if (b.closing (·.executionId = executionId)).all fun l => rowFree others l.id then
      if n = 0 then some (w, .executionNext executionId now grants total)
      else some (w.close g b (·.executionId = executionId) (·.release now) fun active => max (active - n) 0,
        .executionNext executionId now grants (total + n))
    else none
  | _ => none

/-- The statements of the sweep. It skips the counters that others have locked. -/
def reclaimStep (s : State) (others : List Work) (w : Work) : Pc → Option (Work × Pc)
  | .reclaimRead x =>
    some (w, .reclaimNext x (((List.range s.accounts.length).filter fun g =>
      (booksOf s w g).leases.any fun l => l.isOpen && decide (expiryOf s w l.id ≤ x.now)).take x.limit))
  | .reclaimNext x [] => some (w, .driftRead x)
  | .reclaimNext x (g :: grants) =>
    if counterFree others g && (booksOf s w g).counter.isSome then some (w.hold g (booksOf s w g), .reclaimUpdate x g grants)
    else some (w, .reclaimNext { x with skipped := x.skipped + 1 } grants)
  | .reclaimUpdate x g grants =>
    let b := booksOf s w g
    let expired (l : AdmissionLease) : Bool := decide (expiryOf s w l.id ≤ x.now)
    if (b.closing expired).all fun l => rowFree others l.id then
      some (w.close g b expired (·.reclaim x.now) fun _ => (b.close expired (·.reclaim x.now)).openCount,
        .reclaimNext { x with reclaimed := x.reclaimed + (b.closing expired).length } grants)
    else none
  | .driftRead x =>
    some (w, .driftNext x (((List.range s.accounts.length).filter fun g =>
      (booksOf s w g).counter.any fun c => c.activeConcurrency ≠ ((booksOf s w g).openCount : ℤ)).take x.limit))
  | .driftNext x [] => some (w, .reclaimed x)
  | .driftNext x (g :: grants) =>
    if counterFree others g && (booksOf s w g).counter.isSome then some (w.hold g (booksOf s w g), .driftUpdate x g grants)
    else some (w, .driftNext x grants)
  | .driftUpdate x g grants =>
    let b := booksOf s w g
    if b.activeConcurrency ≠ b.openCount then
      some (w.hold g (b.setActive fun _ => b.openCount), .driftNext { x with corrected := x.corrected + 1 } grants)
    else some (w, .driftNext x grants)
  | _ => none

/-! ### The life of a stop -/

/-- Who may stop what. -/
def mayTrigger (s : State) (w : Work) (key : StopKey) (triggeredBy : Option ℕ) (reason : KillSwitchReason) : Bool :=
  match triggeredBy with
  | none =>
    (match key with
      | .GRANT _ | .EXECUTION _ => true
      | _ => false) &&
      match reason with
      | .AUTHORIZATION_REVOKED | .ENVIRONMENT_RECLASSIFIED | .SYSTEM_SAFETY_POLICY => true
      | _ => false
  | some user =>
    s.operators.contains user || (decide (reason = .USER_CANCELLATION) &&
      match key with
      | .SCAN id => (s.scans[id]?).any fun scan => scan.userId = user
      | .EXECUTION id =>
        (leasesOf s w).any (fun p => p.2.executionId = id && p.2.userId = user) &&
          !(leasesOf s w).any fun p => p.2.executionId = id && p.2.userId ≠ user
      | _ => false)

/-- An update of a stop's row, as far as the database lets it through. -/
def writeStop (w : Work) (k : KillSwitchState) (state : StopLifecycleState) (pc : Pc) : Option (Work × Pc) :=
  if killSwitchGuard k.state state then some (w.holdStop { k with state := state }, pc) else some (w, .raised)

/-- `SELECT … FOR UPDATE` of a stop's row, to go on as `f` says. -/
def selectStop (s : State) (others : List Work) (w : Work) (key : StopKey) (f : Option KillSwitchState → Option (Work × Pc)) :
    Option (Work × Pc) :=
  if stopFree others key then f (stopOf s w key) else none

/-- The statements of the functions that a stop is made and moved by. -/
def stopStep (s : State) (others : List Work) (w : Work) : Pc → Option (Work × Pc)
  | .triggerAuthority key triggeredBy reason =>
    some (w, if mayTrigger s w key triggeredBy reason then .triggerLock key else .raised)
  | .triggerLock key =>
    if lockFree others (.stop key) false then some (w.lock (.stop key) false, .triggerSelect key) else none
  | .triggerSelect key =>
    selectStop s others w key fun
      | some k =>
        if k.state = .STOPPED then
          writeStop w { k with requestedAt := s.clock } .REQUESTED (.triggered true .REQUESTED)
        else some (w.holdStop k, .triggered false k.state)
      | none => some (w.holdStop ⟨key, .REQUESTED, s.clock⟩, .triggered true .REQUESTED)
  | .ackLock key => if lockFree others (.stop key) false then some (w.lock (.stop key) false, .ackSelect key) else none
  | .ackSelect key =>
    selectStop s others w key fun
      | some k =>
        if k.state = .REQUESTED then writeStop w k .ACKNOWLEDGED (.acknowledged true (some .ACKNOWLEDGED))
        else some (w.holdStop k, .acknowledged false (some k.state))
      | none => some (w, .acknowledged false none)
  | .stoppedLock key =>
    if lockFree others (.stop key) false then some (w.lock (.stop key) false, .stoppedSelect key) else none
  | .stoppedSelect key =>
    selectStop s others w key fun
      | some k =>
        if k.state = .ACKNOWLEDGED then some (w.holdStop k, .stoppedLive k) else some (w.holdStop k, .stopped false)
      | none => some (w, .stopped false)
  | .stoppedLive k => some (w, if scopeHasLiveExecution s w k.key then .stopped false else .stoppedWrite k)
  | .stoppedWrite k => writeStop w k .STOPPED (.stopped true)
  | .reconcileRead x =>
    some (w, .reconcileNext x ((((stopsOf s w).filter fun k => k.state ≠ .STOPPED).insertionSort
      fun k k' => k.requestedAt ≤ k'.requestedAt).map (·.key)))
  | .reconcileNext x [] => some (w, .reconciled x)
  | .reconcileNext x (key :: keys) =>
    -- rows that others have locked, or that are stopped by now, do not count
    if x.limit = 0 then some (w, .reconciled x)
    else
      match (stopOf s w key).filter fun k => stopFree others key && decide (k.state ≠ .STOPPED) with
      | some k => some (w.holdStop k, .reconcileTry { x with limit := x.limit - 1 } k keys)
      | none => some (w, .reconcileNext x keys)
  | .reconcileTry x k keys =>
    if lockFree others (.stop k.key) false then some (w.lock (.stop k.key) false, .reconcileLive x k keys)
    else some (w, .reconcileNext { x with skipped := x.skipped + 1 } keys)
  | .reconcileLive x k keys =>
    some (w, if scopeHasLiveExecution s w k.key then .reconcileNext x keys else .reconcileWrite x k keys)
  | .reconcileWrite x k keys =>
    if k.state = .REQUESTED then
      if x.now - k.requestedAt ≥ x.grace then
        writeStop w k .ACKNOWLEDGED (.reconcileNext { x with acknowledged := x.acknowledged + 1 } keys)
      else some (w, .reconcileNext x keys)
    else writeStop w k .STOPPED (.reconcileNext { x with stopped := x.stopped + 1 } keys)
  | _ => none

end WebAudit.Safety
