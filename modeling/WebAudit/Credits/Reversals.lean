import WebAudit.Credits.Operations

/-!
# Debits, and what reverses them

What the operations do to the table of transactions alone: a debit or a refund that ends
with a value appends its row and changes no other (`debit_transactions`,
`refundPartial_transactions`).
-/

namespace WebAudit.Credits

open WebAudit.Lib

variable {s s' : Ledger}

/-- The rows that reverse the debit. -/
def Ledger.reversals (s : Ledger) (d : ℕ) : ℕ := s.transactions.countP (·.reversesId = some d)

theorem refundOf_eq_none {d : ℕ} : s.refundOf d = none ↔ s.reversals d = 0 := by
  unfold Ledger.refundOf Ledger.reversals
  simp [List.findIdx?_eq_none_iff]

/-- A row appended. -/
theorem reversals_append {t : CreditTransaction} (h : s'.transactions = s.transactions ++ [t]) (d : ℕ) :
    s'.reversals d = s.reversals d + if t.reversesId = some d then 1 else 0 := by
  unfold Ledger.reversals
  rw [h, List.countP_append, List.countP_singleton]
  simp

/-- The credits that were given back of the debit. -/
def Ledger.refunded (s : Ledger) (d : ℕ) : ℤ := total (·.reversesId = some d) (·.amount) s.transactions

theorem refunded_append {t : CreditTransaction} (h : s'.transactions = s.transactions ++ [t]) (d : ℕ) :
    s'.refunded d = s.refunded d + if t.reversesId = some d then t.amount else 0 := by
  unfold Ledger.refunded
  rw [h, total_append, total_cons, total_nil, add_zero]
  simp

theorem refunded_eq_zero {d : ℕ} (h : s.reversals d = 0) : s.refunded d = 0 :=
  total_eq_zero fun t ht => by simpa using List.countP_eq_zero.mp h t ht

/-- A refund of `amount` credits of a debit that had none. -/
structure Repays (s : Ledger) (d : ℕ) (amount : ℤ) (s' : Ledger) : Prop where
  fresh : s.reversals d = 0
  row : ∃ t : CreditTransaction, t.type = .REFUND ∧ t.amount = amount ∧ t.reversesId = some d ∧
    s'.transactions = s.transactions ++ [t]

namespace Repays

variable {d e : ℕ} {amount : ℤ}

theorem reversals (h : Repays s d amount s') (e : ℕ) : s'.reversals e = s.reversals e + if e = d then 1 else 0 := by
  obtain ⟨t, -, -, hrev, hl⟩ := h.row
  rw [reversals_append hl, hrev]
  simp only [Option.some.injEq, eq_comm]

theorem refunded (h : Repays s d amount s') : s'.refunded d = amount := by
  obtain ⟨t, -, rfl, hrev, hl⟩ := h.row
  rw [refunded_append hl, refunded_eq_zero h.fresh, hrev, if_pos rfl, zero_add]

end Repays

/-! ### The rows -/

/-- The row a debit inserts. -/
def DebitInput.transaction (input : DebitInput) : CreditTransaction :=
  { type := .DEBIT, amount := input.amount, reason := input.reason, scanId := input.scanId
    issueId := input.issueId, reversesId := none, billingEventId := none }

/-- The row a refund of this debit inserts. -/
def RefundInput.transaction (input : RefundInput) (original : CreditTransaction) : CreditTransaction :=
  { type := .REFUND, amount := input.credits, reason := input.reason, scanId := original.scanId
    issueId := original.issueId, reversesId := some input.debitTransactionId, billingEventId := none }

theorem debit_transactions {now : ℤ} {input : DebitInput} {id : ℕ} :
    (debit now input).run s = (.ok id, s') →
      id = s.transactions.length ∧ s'.transactions = s.transactions ++ [input.transaction] := by
  unfold debit
  by_cases hp : input.amount ≤ 0
  · rw [if_pos hp]
    intro h
    cases h
  rw [if_neg hp, Db.transaction_ok, Db.run_get_bind]
  dsimp only
  split
  · intro h
    cases h
  · intro h
    obtain ⟨id', u, hm, hr⟩ := Db.bind_ok.mp h
    obtain ⟨-, -, -, rfl, rfl⟩ := createTransaction_ok hm
    simp only [Db.run_modify_bind, Db.run_pure, Prod.mk.injEq, Except.ok.injEq] at hr
    obtain ⟨rfl, rfl⟩ := hr
    exact ⟨rfl, by rw [takeFrom_transactions]; rfl⟩

@[simp] theorem returnShare_transactions (locked : List Lot) (refundId : ℕ) (periodEnd : Option ℤ) (now : ℤ)
    (acc : Ledger × List Orphan) (p : CreditAllocation × ℤ) :
    (returnShare locked refundId periodEnd now acc p).1.transactions = acc.1.transactions := by
  unfold returnShare
  split
  · rfl
  · rcases locked[p.1.lotId]? with _ | lot
    · rfl
    · dsimp only
      split
      · dsimp only
        split <;> rfl
      · rfl

@[simp] theorem returnShares_transactions (locked : List Lot) (refundId : ℕ) (periodEnd : Option ℤ) (now : ℤ)
    (shares : List (CreditAllocation × ℤ)) (acc : Ledger × List Orphan) :
    (shares.foldl (returnShare locked refundId periodEnd now) acc).1.transactions = acc.1.transactions := by
  induction shares generalizing acc with
  | nil => rfl
  | cons p shares ih => exact (ih _).trans (returnShare_transactions ..)

@[simp] theorem giveBackShares_transactions (refundId : ℕ) (periodEnd : Option ℤ) (now : ℤ)
    (shares : List (CreditAllocation × ℤ)) (s : Ledger) :
    (giveBackShares refundId periodEnd now shares s).transactions = s.transactions := by
  have horphans : ∀ (orphans : List Orphan) (u : Ledger),
      (orphans.foldl (replaceOrphan refundId now) u).transactions = u.transactions := by
    intro orphans
    induction orphans with
    | nil => exact fun _ => rfl
    | cons o orphans ih => exact fun u => (ih _).trans rfl
  exact (horphans _ _).trans (returnShares_transactions ..)

theorem refundPartial_transactions {periodEnd : Option ℤ} {now : ℤ} {input : RefundInput} {id : ℕ}
    (h : (refundPartial periodEnd now input).run s = (.ok id, s')) :
    s.reversals input.debitTransactionId = 0 ∧
      ∃ original, s.transactions[input.debitTransactionId]? = some original ∧ original.type = .DEBIT ∧
        input.credits ≤ original.amount ∧ s'.transactions = s.transactions ++ [input.transaction original] := by
  unfold refundPartial at h
  split at h
  · cases h
  rw [Db.transaction_ok, Db.run_get_bind] at h
  rcases ho : s.transactions[input.debitTransactionId]? with _ | original <;> rw [ho] at h
  · cases h
  dsimp only at h
  split at h
  · cases h
  rename_i hd
  split at h
  · cases h
  rename_i hc
  rcases hr : s.refundOf input.debitTransactionId with _ | existing <;> rw [hr] at h
  · obtain ⟨id', u, hm, hu⟩ := Db.bind_ok.mp h
    obtain ⟨-, -, -, rfl, rfl⟩ := createTransaction_ok hm
    simp only [Db.run_modify_bind, Db.run_pure, Prod.mk.injEq, Except.ok.injEq] at hu
    obtain ⟨rfl, rfl⟩ := hu
    exact ⟨refundOf_eq_none.mp hr, original, rfl, not_not.mp hd, by omega,
      by rw [giveBackShares_transactions]; rfl⟩
  · cases h

/-- The refund of a debit that was not reversed yet goes through. -/
theorem refundPartial_runs (periodEnd : Option ℤ) (now : ℤ) (input : RefundInput) {original : CreditTransaction}
    (ho : s.transactions[input.debitTransactionId]? = some original) (hd : original.type = .DEBIT)
    (hpos : 0 < input.credits) (hle : input.credits ≤ original.amount) (hmax : input.credits ≤ int4Max)
    (hr : s.reversals input.debitTransactionId = 0) :
    ∃ id s', (refundPartial periodEnd now input).run s = (.ok id, s') := by
  have hfree : s.taken CreditTransaction.reversesId (some input.debitTransactionId) = false := by
    unfold Ledger.reversals at hr
    simpa [Ledger.taken] using hr
  have hinsert := createTransaction_run (input.transaction original) s
  rw [if_neg (by simp only [RefundInput.transaction]; omega),
    if_neg (by simp only [RefundInput.transaction, hfree]; simp [Ledger.taken])] at hinsert
  unfold refundPartial
  rw [if_neg (by omega)]
  refine ⟨s.transactions.length, giveBackShares s.transactions.length periodEnd now
    (refundShares (s.allocationsOf input.debitTransactionId) input.credits original.amount)
    (s.insertTransaction (input.transaction original)), Db.transaction_ok.mpr ?_⟩
  rw [Db.run_get_bind, ho]
  dsimp only
  rw [if_neg (not_not.mpr hd), if_neg (by omega), refundOf_eq_none.mpr hr]
  exact Db.run_bind_ok hinsert

theorem refund_transactions {periodEnd : Option ℤ} {now : ℤ} {d id : ℕ} {reason : String}
    (h : (refund periodEnd now d reason).run s = (.ok id, s')) :
    s.reversals d = 0 ∧ ∃ original, s.transactions[d]? = some original ∧ original.type = .DEBIT ∧
      s'.transactions = s.transactions ++ [RefundInput.transaction ⟨d, original.amount, reason⟩ original] := by
  obtain ⟨original, ho, h⟩ := refund_ok h
  obtain ⟨hr, original', ho', hd, -, ht⟩ := refundPartial_transactions h
  obtain rfl : original = original' := by simpa [ho] using ho'
  exact ⟨hr, original, ho, hd, ht⟩

end WebAudit.Credits
