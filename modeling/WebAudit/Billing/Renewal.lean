import WebAudit.Billing.Subscription
import WebAudit.Credits.Live

/-!
# What each call of a renewal does

`renewSubscription` makes four calls that matter: it reads the row, sweeps the lots that
die at the boundary it read, and then either lets the subscription lapse or writes the
next period. Here each is turned into what it does to the row, to the live lots and to the
billing events already granted for: `sweep_step`, `lapse_step`, `write_step`.
-/

namespace WebAudit.Billing

open WebAudit.Lib WebAudit.Credits

variable (plans : String → Option Plan) (input : RenewInput) {sub row : Subscription} {plan : Plan} {s s' : Store}

theorem read_step (hs : s.subscription = some sub) (hp : plans sub.planId = some plan) (clock : ℤ) :
    RenewPc.step plans input clock .read s = (.sweep sub plan, s) := by
  simp only [RenewPc.step, hs, hp]

theorem updateSubscription_run (f : Subscription → Subscription) (hs : s.subscription = some row) :
    (updateSubscription f).run s = (.ok (f row), { s with subscription := some (f row) }) := by
  unfold updateSubscription
  rw [Db.run_get_bind, hs]
  rfl

theorem lapse_step (hs : s.subscription = some row) (clock : ℤ) :
    RenewPc.step plans input clock .lapse s =
      (.returned row.lapsed.summary, { s with subscription := some row.lapsed }) := by
  unfold RenewPc.step
  dsimp only
  rw [updateSubscription_run _ hs]

theorem onLedger_ok {α : Type} {m : LedgerM α} {a : α} {l : Ledger} (h : m.run s.ledger = (.ok a, l)) :
    (onLedger m).run s = (.ok a, { s with ledger := l }) :=
  Db.within_ok.mpr ⟨l, h, rfl⟩

theorem onLedger_error {α : Type} {m : LedgerM α} {e : CreditsError} {l : Ledger}
    (h : m.run s.ledger = (.error e, l)) : (onLedger m).run s = (.error (.credits e), { s with ledger := l }) :=
  Db.within_error.mpr ⟨e, l, h, rfl, rfl⟩

/-- The sweep takes what is due at the boundary out of the live lots, or fails without a trace. -/
theorem sweep_step (sub : Subscription) (plan : Plan) (clock : ℤ) (s : Store) :
    (∃ l, RenewPc.step plans input clock (.sweep sub plan) s =
        (if sub.lapses then .lapse else .write sub plan, { s with ledger := l }) ∧
      l.live = (s.ledger.live.filter fun lot => !lot.isDue sub.periodEnd) ∧
      due sub.periodEnd s.ledger.live ≤ int4Max ∧ ∀ event, l.grantedFor event = s.ledger.grantedFor event) ∨
    ∃ e, RenewPc.step plans input clock (.sweep sub plan) s = (.threw e, s) := by
  unfold RenewPc.step
  dsimp only
  rcases hr : (expireRenewedLots sub.periodEnd clock).run s.ledger with ⟨e | r, l⟩
  · right
    obtain rfl := expireRenewedLots_safe _ _ _ _ _ hr
    rw [onLedger_error hr]
    exact ⟨_, rfl⟩
  · left
    rw [onLedger_ok hr]
    exact ⟨l, rfl, expire_live hr⟩

/-- The sweep does not fail if what it destroys fits the column. -/
theorem sweep_step_runs (sub : Subscription) (plan : Plan) (clock : ℤ)
    (h : due sub.periodEnd s.ledger.live ≤ int4Max) :
    ∃ l, RenewPc.step plans input clock (.sweep sub plan) s =
        (if sub.lapses then .lapse else .write sub plan, { s with ledger := l }) ∧
      l.live = (s.ledger.live.filter fun lot => !lot.isDue sub.periodEnd) ∧
      ∀ event, l.grantedFor event = s.ledger.grantedFor event := by
  obtain ⟨r, l, hr⟩ := expire_runs clock h
  obtain ⟨h₁, -, h₃⟩ := expire_live hr
  refine ⟨l, ?_, h₁, h₃⟩
  unfold RenewPc.step
  dsimp only
  rw [onLedger_ok hr]

/-- The write of the next period for a billing event. It is decided by the plan that was read and
by whether the event was granted for already. -/
theorem write_step {event : String} (he : input.billingEventId = some event) (hs : s.subscription = some row)
    (sub : Subscription) (plan : Plan) (clock : ℤ) :
    RenewPc.step plans input clock (.write sub plan) s =
      if plan.isActive then
        if plan.monthlyCredits ≤ 0 ∨ int4Max < plan.monthlyCredits then (.threw (.credits .amountRange), s)
        else if s.ledger.grantedFor event then (.reread, s)
        else (.returned (row.renewed sub input.now).summary,
          { s with
            subscription := some (row.renewed sub input.now)
            ledger := (s.ledger.insertTransaction (renewalGrant input sub plan).transaction).insertLot
              ((renewalGrant input sub plan).lot clock) })
      else (.returned (row.renewed sub input.now).summary, { s with subscription := some (row.renewed sub input.now) }) := by
  have hu := updateSubscription_run (fun r : Subscription => r.renewed sub input.now) hs
  have hg := grantLot_run (s := s.ledger) clock (renewalGrant input sub plan) he
  have hw : (writePeriod input sub plan clock).run s = _ := Db.run_transaction _ _
  rw [Db.run_bind_ok hu] at hw
  unfold RenewPc.step
  dsimp only
  by_cases ha : plan.isActive
  · rw [if_pos ha] at hw ⊢
    by_cases hr : plan.monthlyCredits ≤ 0 ∨ int4Max < plan.monthlyCredits
    · have hr' : (renewalGrant input sub plan).amount ≤ 0 ∨ int4Max < (renewalGrant input sub plan).amount := hr
      rw [if_pos hr'] at hg
      rw [Db.run_bind_error (onLedger_error (s := { s with subscription := some (row.renewed sub input.now) }) hg)] at hw
      rw [if_pos hr, hw]
    · have hr' : ¬ ((renewalGrant input sub plan).amount ≤ 0 ∨ int4Max < (renewalGrant input sub plan).amount) := hr
      rw [if_neg hr'] at hg
      rw [if_neg hr]
      by_cases hd : s.ledger.grantedFor event
      · rw [if_pos hd] at hg
        rw [Db.run_bind_error (onLedger_error (s := { s with subscription := some (row.renewed sub input.now) }) hg)] at hw
        rw [if_pos hd, hw]
      · rw [if_neg hd] at hg
        rw [Db.run_bind_ok (onLedger_ok (s := { s with subscription := some (row.renewed sub input.now) }) hg)] at hw
        rw [if_neg hd, hw]
        rfl
  · rw [if_neg ha] at hw ⊢
    rw [hw]
    rfl

/-! ### A subscriber to look at -/

/-- A plan table with one plan. -/
def onlyPro (planId : String) : Option Plan := if planId = "pro" then some ⟨1200, true, true⟩ else none

/-- A subscriber at the end of the first period, which has 700 credits left. -/
def subscriber : Store :=
  { ledger :=
      { lots := [⟨.PLAN, .PLAN_RENEWAL, 1200, 700, some periodMs, 0⟩]
        transactions := [⟨.GRANT, 1200, "grant:plan_renewal", none, none, none, none⟩]
        allocations := [] }
    subscription := some ⟨"pro", .ACTIVE, 0, periodMs, false, none, none, false, none⟩
    billingEvents := [] }

end WebAudit.Billing
