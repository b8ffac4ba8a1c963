import Mathlib.Algebra.BigOperators.Group.List.Basic
import Mathlib.Algebra.Ring.Int.Defs
import Mathlib.Data.List.Sort
import WebAudit.Lib.Db

/-!
# The credit ledger: lots, transactions, allocations

The three tables of `services/credits`, for one user, and the five operations on them:
`grantLot`, `debit`, `refundPartial`, `refund` and `expireRenewedLots`.

There is no balance column: a balance is the sum of what remains in lots, a transaction
records a movement, and an allocation says which lot a movement touched and by how much.

## The model

* A row's id is its position in its table, so a row is found by `rows[id]?` and a new row
  gets the id `rows.length`. Nothing is ever deleted.
* Amounts are integers. The columns are 32-bit, and a transaction's amount must be
  positive (a CHECK constraint): `createTransaction` refuses what the column cannot hold.
  The constraints on lots and allocations are left out; the amounts written there are
  shown to respect them.
* Times are milliseconds. Every operation is handed the reading of the clock it makes.
* `refundPartial` splits a refund in floating point; below 2^53 this is the integer
  quotient used here.
* A program throws `CreditsError`, and only `transaction` undoes what it wrote.
-/

namespace WebAudit.Credits

open WebAudit.Lib

/-- The two kinds of credit: those that come with a plan, and those bought. -/
inductive CreditKind where
  | PLAN
  | PURCHASED
  deriving DecidableEq

/-- What a lot was created for. -/
inductive LotSource where
  | FREE_GRANT
  | PLAN_RENEWAL
  | PURCHASE
  | REFUND
  | PROMOTIONAL
  | ADMIN_GRANT
  deriving DecidableEq

/-- The direction of a movement. -/
inductive TxType where
  | GRANT
  | DEBIT
  | REFUND
  | EXPIRE
  deriving DecidableEq

/-- The name of a direction, as it stands in an error. -/
def TxType.name : TxType → String
  | .GRANT => "GRANT"
  | .DEBIT => "DEBIT"
  | .REFUND => "REFUND"
  | .EXPIRE => "EXPIRE"

/-- A row of `CreditLot`. -/
structure Lot where
  kind : CreditKind
  source : LotSource
  amountGranted : ℤ
  amountRemaining : ℤ
  /-- `none`: the credits never expire. -/
  expiresAt : Option ℤ
  createdAt : ℤ
  deriving DecidableEq

/-- A row of `CreditTransaction`. -/
structure CreditTransaction where
  type : TxType
  amount : ℤ
  reason : String
  scanId : Option ℕ
  issueId : Option ℕ
  /-- The debit that a refund reverses; no two rows share it. -/
  reversesId : Option ℕ
  /-- The billing event whose effect a grant is; no two rows share it. -/
  billingEventId : Option String
  deriving DecidableEq

/-- A row of `CreditAllocation`: the transaction moved `amount` credits of the lot. -/
structure CreditAllocation where
  transactionId : ℕ
  lotId : ℕ
  amount : ℤ
  deriving DecidableEq

/-- The three tables. -/
structure Ledger where
  lots : List Lot
  transactions : List CreditTransaction
  allocations : List CreditAllocation
  deriving DecidableEq

/-- The ledger of a user for whom nothing happened yet. -/
def Ledger.empty : Ledger := ⟨[], [], []⟩

/-- What the operations throw. -/
inductive CreditsError where
  /-- `InsufficientCreditsError`. -/
  | insufficientCredits (required available : ℤ)
  /-- The plain `Error` of a debit of nothing. -/
  | error (message : String)
  | notRefundable (message : String)
  | alreadyRefunded (message : String)
  /-- `OverRefundError`. -/
  | overRefund (requested maxRefundable : ℤ)
  /-- `DuplicateBillingEventGrantError`. -/
  | duplicateBillingEventGrant (billingEventId : String)
  /-- A row the table refuses: the amount is not a positive 32-bit integer. -/
  | amountRange
  /-- A row the table refuses: `reversesId` or `billingEventId` is taken. -/
  | uniqueConflict
  deriving DecidableEq

/-- A program over the ledger. -/
abbrev LedgerM := Db Ledger CreditsError

/-! ### Writes -/

/-- The largest value of an `Int` column. -/
def int4Max : ℤ := 2147483647

namespace Ledger

/-- Some row already carries this key (`none` never collides). -/
def taken {κ : Type} [BEq κ] (s : Ledger) (key : CreditTransaction → Option κ) (k : Option κ) : Bool :=
  match k with
  | none => false
  | some k => s.transactions.any fun t => key t == some k

/-- Append a row to `CreditTransaction`. -/
def insertTransaction (t : CreditTransaction) (s : Ledger) : Ledger :=
  { s with transactions := s.transactions ++ [t] }

/-- Append a row to `CreditLot`. -/
def insertLot (l : Lot) (s : Ledger) : Ledger := { s with lots := s.lots ++ [l] }

/-- Append a row to `CreditAllocation`. -/
def insertAllocation (a : CreditAllocation) (s : Ledger) : Ledger :=
  { s with allocations := s.allocations ++ [a] }

/-- `amountRemaining: { increment: amount }` on one lot. -/
def incrementLot (id : ℕ) (amount : ℤ) (s : Ledger) : Ledger :=
  { s with lots := s.lots.modify id fun l => { l with amountRemaining := l.amountRemaining + amount } }

/-- `amountRemaining: { decrement: amount }` on one lot. -/
def decrementLot (id : ℕ) (amount : ℤ) (s : Ledger) : Ledger :=
  { s with lots := s.lots.modify id fun l => { l with amountRemaining := l.amountRemaining - amount } }

end Ledger

/-- Insert a transaction, under the table's constraints; the new id is returned. -/
def createTransaction (t : CreditTransaction) : LedgerM ℕ := do
  let s ← Db.get
  if t.amount ≤ 0 ∨ int4Max < t.amount then Db.throw .amountRange
  else if s.taken CreditTransaction.reversesId t.reversesId
      ∨ s.taken CreditTransaction.billingEventId t.billingEventId then Db.throw .uniqueConflict
  else do
    Db.modify (·.insertTransaction t)
    pure s.transactions.length

/-! ### `grantLot` -/

/-- The label a grant carries when no reason is given. -/
def LotSource.grantReason : LotSource → String
  | .FREE_GRANT => "grant:free_grant"
  | .PLAN_RENEWAL => "grant:plan_renewal"
  | .PURCHASE => "grant:purchase"
  | .REFUND => "grant:refund"
  | .PROMOTIONAL => "grant:promotional"
  | .ADMIN_GRANT => "grant:admin_grant"

structure GrantInput where
  amount : ℤ
  kind : CreditKind
  source : LotSource
  expiresAt : Option ℤ
  /-- The billing event whose effect the grant is, if there is one. -/
  billingEventId : Option String
  reason : Option String
  deriving DecidableEq

structure GrantResult where
  transactionId : ℕ
  lotId : ℕ
  deriving DecidableEq

/-- The error a failed insert ends in: a taken `billingEventId` is told apart from the others. -/
def grantConflict (billingEventId : Option String) (e : CreditsError) : CreditsError :=
  match billingEventId, e with
  | some b, .uniqueConflict => .duplicateBillingEventGrant b
  | _, e => e

/-- Create a lot and its `GRANT`. The transaction is inserted first, so that a billing event
already granted is found out before any lot exists. -/
def grantLot (now : ℤ) (input : GrantInput) : LedgerM GrantResult := do
  let transactionId ← Db.tryCatch
    (createTransaction
      { type := .GRANT, amount := input.amount
        reason := input.reason.getD input.source.grantReason
        scanId := none, issueId := none, reversesId := none
        billingEventId := input.billingEventId })
    fun e => Db.throw (grantConflict input.billingEventId e)
  let s ← Db.get
  Db.modify (·.insertLot
    { kind := input.kind, source := input.source
      amountGranted := input.amount, amountRemaining := input.amount
      expiresAt := input.expiresAt, createdAt := now })
  pure ⟨transactionId, s.lots.length⟩

/-! ### `debit` -/

/-- The lot may still be spent. -/
def Lot.isAlive (l : Lot) (now : ℤ) : Bool :=
  match l.expiresAt with
  | none => true
  | some t => now < t

/-- `expiresAt ASC NULLS LAST`, then PLAN before PURCHASED, then `createdAt ASC`. -/
def Lot.spentBefore (l m : Lot) : Bool :=
  match l.expiresAt, m.expiresAt with
  | some t, some u => t < u || (t == u && tie)
  | some _, none => true
  | none, some _ => false
  | none, none => tie
where
  /-- The order among lots that die together. -/
  tie : Bool :=
    match l.kind, m.kind with
    | .PLAN, .PURCHASED => true
    | .PURCHASED, .PLAN => false
    | _, _ => l.createdAt ≤ m.createdAt

/-- The lots that hold credits and have not expired, in the order they are spent in. -/
def Ledger.spendable (s : Ledger) (now : ℤ) : List (Lot × ℕ) :=
  (s.lots.zipIdx.filter fun p => 0 < p.1.amountRemaining && p.1.isAlive now).insertionSort
    fun p q => p.1.spentBefore q.1

structure DebitInput where
  amount : ℤ
  reason : String
  scanId : Option ℕ
  issueId : Option ℕ
  deriving DecidableEq

/-- Take what is outstanding from the locked lots in turn, one allocation a lot. -/
def takeFrom (transactionId : ℕ) : List (Lot × ℕ) → ℤ → Ledger → Ledger
  | [], _, s => s
  | (lot, id) :: rest, outstanding, s =>
    if outstanding = 0 then s
    else
      let take := min lot.amountRemaining outstanding
      takeFrom transactionId rest (outstanding - take)
        ((s.decrementLot id take).insertAllocation ⟨transactionId, id, take⟩)

/-- Spend credits, those that expire first before the others. Returns the debit's id. -/
def debit (now : ℤ) (input : DebitInput) : LedgerM ℕ :=
  if input.amount ≤ 0 then Db.throw (.error "debit amount must be positive")
  else Db.transaction do
    let s ← Db.get
    let lots := s.spendable now
    let available := (lots.map (·.1.amountRemaining)).sum
    if available < input.amount then Db.throw (.insufficientCredits input.amount available)
    else do
      let id ← createTransaction
        { type := .DEBIT, amount := input.amount, reason := input.reason
          scanId := input.scanId, issueId := input.issueId, reversesId := none
          billingEventId := none }
      Db.modify (takeFrom id lots input.amount)
      pure id

/-! ### `refundPartial` and `refund` -/

/-- `DAY_MS`. -/
def dayMs : ℤ := 86400000

/-- `REFUND_HORIZON_DAYS`. -/
def refundHorizonDays : ℤ := 30

/-- Credits owed to a lot that cannot take them, and the lifetime they are to have. -/
structure Orphan where
  kind : CreditKind
  expiresAt : Option ℤ
  amount : ℤ
  deriving DecidableEq

/-- When refunded plan credits die if their own lot's boundary has passed: the subscription's
`periodEnd` when that is ahead, else thirty days from now. -/
def planRefundBoundary (periodEnd : Option ℤ) (now : ℤ) : ℤ :=
  match periodEnd with
  | some t => if now < t then t else now + refundHorizonDays * dayMs
  | none => now + refundHorizonDays * dayMs

/-- The expiry of a replacement lot. -/
def refundLotExpiry (periodEnd : Option ℤ) (now : ℤ) (kind : CreditKind) (sourceExpiresAt : Option ℤ) :
    Option ℤ :=
  match kind with
  | .PURCHASED => none
  | .PLAN =>
    match sourceExpiresAt with
    | some t => if now < t then some t else some (planRefundBoundary periodEnd now)
    | none => some (planRefundBoundary periodEnd now)

/-- Add to the orphan of this kind and expiry, or open one for it. -/
def addToOrphans (kind : CreditKind) (expiresAt : Option ℤ) (amount : ℤ) : List Orphan → List Orphan
  | [] => [⟨kind, expiresAt, amount⟩]
  | o :: rest =>
    if o.kind = kind ∧ o.expiresAt = expiresAt then { o with amount := o.amount + amount } :: rest
    else o :: addToOrphans kind expiresAt amount rest

/-- `addOrphan`. -/
def addOrphan (periodEnd : Option ℤ) (now : ℤ) (kind : CreditKind) (sourceExpiresAt : Option ℤ)
    (amount : ℤ) (orphans : List Orphan) : List Orphan :=
  if amount ≤ 0 then orphans
  else addToOrphans kind (refundLotExpiry periodEnd now kind sourceExpiresAt) amount orphans

/-- What each allocation gets back: its proportional share rounded down, and one more for each
of the largest allocations until the shares add up to `credits`. -/
def refundShares (allocations : List CreditAllocation) (credits amount : ℤ) : List (CreditAllocation × ℤ) :=
  let shares := allocations.map fun a => (a, a.amount * credits / amount)
  let remainder := credits - (shares.map (·.2)).sum
  let largest := (shares.zipIdx.insertionSort fun p q => q.1.1.amount ≤ p.1.1.amount).map (·.2)
  let bumped := largest.take remainder.toNat
  shares.zipIdx.map fun p => if p.2 ∈ bumped then (p.1.1, p.1.2 + 1) else p.1

/-- Give one share back to the lot it came from, as far as the lot is alive and has room; the
rest is orphaned. The lots are read as they were `locked`. -/
def returnShare (locked : List Lot) (refundId : ℕ) (periodEnd : Option ℤ) (now : ℤ)
    (acc : Ledger × List Orphan) (p : CreditAllocation × ℤ) : Ledger × List Orphan :=
  if p.2 ≤ 0 then acc
  else
    match locked[p.1.lotId]? with
    | none => acc
    | some lot =>
      if lot.isAlive now then
        let headroom := max 0 (lot.amountGranted - lot.amountRemaining)
        let giveBack := min p.2 headroom
        let ledger :=
          if 0 < giveBack then
            (acc.1.incrementLot p.1.lotId giveBack).insertAllocation ⟨refundId, p.1.lotId, giveBack⟩
          else acc.1
        (ledger, addOrphan periodEnd now lot.kind lot.expiresAt (p.2 - giveBack) acc.2)
      else (acc.1, addOrphan periodEnd now lot.kind lot.expiresAt p.2 acc.2)

/-- Put an orphan into a lot of its own. -/
def replaceOrphan (refundId : ℕ) (now : ℤ) (s : Ledger) (o : Orphan) : Ledger :=
  (s.insertLot
    { kind := o.kind, source := .REFUND, amountGranted := o.amount, amountRemaining := o.amount
      expiresAt := o.expiresAt, createdAt := now }).insertAllocation ⟨refundId, s.lots.length, o.amount⟩

/-- Walk the shares back to their lots, then create the replacement lots. -/
def giveBackShares (refundId : ℕ) (periodEnd : Option ℤ) (now : ℤ)
    (shares : List (CreditAllocation × ℤ)) (s : Ledger) : Ledger :=
  let walked := shares.foldl (returnShare s.lots refundId periodEnd now) (s, [])
  walked.2.foldl (replaceOrphan refundId now) walked.1

/-- The allocations of one transaction. -/
def Ledger.allocationsOf (s : Ledger) (id : ℕ) : List CreditAllocation :=
  s.allocations.filter fun a => a.transactionId = id

/-- The refund of a debit, if it has one. -/
def Ledger.refundOf (s : Ledger) (id : ℕ) : Option ℕ :=
  s.transactions.findIdx? fun t => t.reversesId == some id

structure RefundInput where
  debitTransactionId : ℕ
  credits : ℤ
  reason : String
  deriving DecidableEq

/-- Refund part of a debit, at most what it charged and at most once. `periodEnd` is that of the
user's subscription. Returns the refund's id. -/
def refundPartial (periodEnd : Option ℤ) (now : ℤ) (input : RefundInput) : LedgerM ℕ :=
  if input.credits ≤ 0 then
    Db.throw (.notRefundable "refund amount must be a positive number of credits")
  else Db.transaction do
    let s ← Db.get
    match s.transactions[input.debitTransactionId]? with
    | none => Db.throw (.notRefundable "no such transaction")
    | some original =>
      if original.type ≠ .DEBIT then
        Db.throw (.notRefundable ("cannot refund a " ++ original.type.name ++ " transaction"))
      else if original.amount < input.credits then
        Db.throw (.overRefund input.credits original.amount)
      else
        match s.refundOf input.debitTransactionId with
        | some existing => Db.throw (.alreadyRefunded ("already refunded by " ++ toString existing))
        | none => do
          let id ← createTransaction
            { type := .REFUND, amount := input.credits, reason := input.reason
              scanId := original.scanId, issueId := original.issueId
              reversesId := some input.debitTransactionId, billingEventId := none }
          Db.modify (giveBackShares id periodEnd now
            (refundShares (s.allocationsOf input.debitTransactionId) input.credits original.amount))
          pure id

/-- Refund everything charged on one debit. -/
def refund (periodEnd : Option ℤ) (now : ℤ) (debitTransactionId : ℕ) (reason : String) : LedgerM ℕ := do
  let s ← Db.get
  match s.transactions[debitTransactionId]? with
  | none => Db.throw (.notRefundable "no such transaction")
  | some original =>
    if original.type ≠ .DEBIT then
      Db.throw (.notRefundable ("cannot refund a " ++ original.type.name ++ " transaction"))
    else
      match s.refundOf debitTransactionId with
      | some existing => Db.throw (.alreadyRefunded ("already refunded by " ++ toString existing))
      | none => refundPartial periodEnd now ⟨debitTransactionId, original.amount, reason⟩

/-! ### `balanceOf` -/

/-- `CreditBalance`. -/
structure CreditBalance where
  plan : ℤ
  purchased : ℤ
  /-- When the plan credits that die first do so. -/
  planExpiresAt : Option ℤ
  deriving DecidableEq

/-- The balance at a moment: two figures, from the lots that can still be spent. -/
def balanceOf (s : Ledger) (now : ℤ) : CreditBalance :=
  let lots := s.lots.filter fun l => 0 < l.amountRemaining && l.isAlive now
  let sum (kind : CreditKind) : ℤ := ((lots.filter (·.kind = kind)).map (·.amountRemaining)).sum
  { plan := sum .PLAN
    purchased := sum .PURCHASED
    planExpiresAt := ((lots.filter (·.kind = .PLAN)).filterMap (·.expiresAt)).min? }

/-! ### `expireRenewedLots` -/

/-- The sweep takes lots that hold credits and expire at or before `asOf`. A lot that never
expires is none of them. -/
def Lot.isDue (l : Lot) (asOf : ℤ) : Bool :=
  match l.expiresAt with
  | none => false
  | some t => 0 < l.amountRemaining && t ≤ asOf

/-- Empty a lot that is due, and move its boundary back to the moment its credits died. -/
def Lot.sweep (asOf now : ℤ) (l : Lot) : Lot :=
  if l.isDue asOf then
    { l with
      amountRemaining := 0
      expiresAt := l.expiresAt.map fun t => if min asOf now < t then min asOf now else t }
  else l

structure ExpiryResult where
  lotsExpired : ℕ
  creditsDestroyed : ℤ
  deriving DecidableEq

/-- The renewal sweep: destroy what is left in the lots that are due, and record it. -/
def expireRenewedLots (asOf now : ℤ) : LedgerM ExpiryResult := Db.transaction do
  let s ← Db.get
  let dead := s.lots.filter (·.isDue asOf)
  if dead.length = 0 then pure ⟨0, 0⟩
  else do
    let creditsDestroyed := (dead.map (·.amountRemaining)).sum
    Db.modify fun s => { s with lots := s.lots.map (Lot.sweep asOf now) }
    let _ ← createTransaction
      { type := .EXPIRE, amount := creditsDestroyed, reason := "expire:renewal"
        scanId := none, issueId := none, reversesId := none, billingEventId := none }
    pure ⟨dead.length, creditsDestroyed⟩

end WebAudit.Credits
