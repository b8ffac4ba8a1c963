import Mathlib.Algebra.Order.BigOperators.Group.List
import WebAudit.Credits.Accounts
import WebAudit.Lib.Shares

/-!
# What an operation of the ledger does

For each operation, what it did to the ledger when it ended with a value (`grantLot_ok`,
`debit_ok`, `refundPartial_ok`, `expireRenewedLots_ok`), and that it left the ledger alone
when it threw (`grantLot_safe` and so on). Nothing later opens the operations again.

The two loops are then followed through the accounts. Walking the locked lots, a debit
takes exactly what it charges (`Balanced.takeFrom`). A refund's shares add up to what is
refunded (`refundShares_sum`); a share that its lot cannot take ends up among the orphans,
and an orphan in a replacement lot (`Balanced.giveBackShares`).
-/

namespace WebAudit.Credits

open WebAudit.Lib

variable {s s' : Ledger}

/-! ### The programs -/

/-- The insert, as a function of the ledger. -/
theorem createTransaction_run (t : CreditTransaction) (s : Ledger) :
    (createTransaction t).run s =
      if t.amount ≤ 0 ∨ int4Max < t.amount then (.error .amountRange, s)
      else if s.taken CreditTransaction.reversesId t.reversesId
          ∨ s.taken CreditTransaction.billingEventId t.billingEventId then (.error .uniqueConflict, s)
      else (.ok s.transactions.length, s.insertTransaction t) := by
  unfold createTransaction
  rw [Db.run_get_bind]
  split
  · rfl
  · split <;> rfl

theorem createTransaction_ok {t : CreditTransaction} {id : ℕ} (h : (createTransaction t).run s = (.ok id, s')) :
    0 < t.amount ∧ t.amount ≤ int4Max ∧ s.taken CreditTransaction.billingEventId t.billingEventId = false ∧
      id = s.transactions.length ∧ s' = s.insertTransaction t := by
  rw [createTransaction_run] at h
  by_cases hr : t.amount ≤ 0 ∨ int4Max < t.amount
  · rw [if_pos hr] at h
    cases h
  rw [if_neg hr] at h
  split at h
  · cases h
  · rename_i hu
    simp only [not_or, Bool.not_eq_true] at hu
    cases h
    exact ⟨by omega, by omega, hu.2, rfl, rfl⟩

theorem createTransaction_safe (t : CreditTransaction) : Db.Safe (createTransaction t) := by
  intro s e s' h
  rw [createTransaction_run] at h
  split at h
  · cases h
    rfl
  · split at h <;> cases h
    rfl

/-- The row a grant inserts into `CreditTransaction`. -/
def GrantInput.transaction (input : GrantInput) : CreditTransaction :=
  { type := .GRANT, amount := input.amount, reason := input.reason.getD input.source.grantReason
    scanId := none, issueId := none, reversesId := none, billingEventId := input.billingEventId }

/-- The row a grant inserts into `CreditLot`. -/
def GrantInput.lot (now : ℤ) (input : GrantInput) : Lot :=
  { kind := input.kind, source := input.source, amountGranted := input.amount
    amountRemaining := input.amount, expiresAt := input.expiresAt, createdAt := now }

theorem grantLot_ok {now : ℤ} {input : GrantInput} {r : GrantResult} :
    (grantLot now input).run s = (.ok r, s') →
      0 < input.amount ∧ s.taken CreditTransaction.billingEventId input.billingEventId = false ∧
        s' = (s.insertTransaction input.transaction).insertLot (input.lot now) := by
  intro h
  obtain ⟨id, u, hm, hr⟩ := Db.bind_ok.mp h
  rw [Db.tryCatch_throw_ok] at hm
  obtain ⟨hpos, -, hfree, -, rfl⟩ := createTransaction_ok hm
  simp only [Db.run_get_bind, Db.run_modify_bind, Db.run_pure, Prod.mk.injEq] at hr
  exact ⟨hpos, hfree, hr.2.symm⟩

theorem grantLot_safe (now : ℤ) (input : GrantInput) : Db.Safe (grantLot now input) :=
  Db.Safe.bind ((createTransaction_safe _).tryCatch_throw _) fun _ _ => ⟨_, rfl⟩

theorem debit_ok {now : ℤ} {input : DebitInput} {id : ℕ} :
    (debit now input).run s = (.ok id, s') →
      0 < input.amount ∧ input.amount ≤ ((s.spendable now).map (·.1.amountRemaining)).sum ∧
        id = s.transactions.length ∧
        ∃ t : CreditTransaction, t.type = .DEBIT ∧ t.amount = input.amount ∧
          s' = takeFrom id (s.spendable now) input.amount (s.insertTransaction t) := by
  unfold debit
  by_cases hp : input.amount ≤ 0
  · rw [if_pos hp]
    intro h
    cases h
  rw [if_neg hp, Db.transaction_ok, Db.run_get_bind]
  dsimp only
  by_cases ha : ((s.spendable now).map (·.1.amountRemaining)).sum < input.amount
  · rw [if_pos ha]
    intro h
    cases h
  rw [if_neg ha]
  intro h
  obtain ⟨id', u, hm, hr⟩ := Db.bind_ok.mp h
  obtain ⟨-, -, -, rfl, rfl⟩ := createTransaction_ok hm
  simp only [Db.run_modify_bind, Db.run_pure, Prod.mk.injEq, Except.ok.injEq] at hr
  obtain ⟨rfl, rfl⟩ := hr
  exact ⟨by omega, by omega, rfl, _, rfl, rfl, rfl⟩

theorem debit_safe (now : ℤ) (input : DebitInput) : Db.Safe (debit now input) :=
  Db.Safe.ite (Db.safe_throw _) (Db.safe_transaction _)

theorem refundPartial_ok {periodEnd : Option ℤ} {now : ℤ} {input : RefundInput} {id : ℕ} :
    (refundPartial periodEnd now input).run s = (.ok id, s') →
      ∃ original t : CreditTransaction, s.transactions[input.debitTransactionId]? = some original ∧
        original.type = .DEBIT ∧ 0 < input.credits ∧ input.credits ≤ original.amount ∧
        s.refundOf input.debitTransactionId = none ∧ id = s.transactions.length ∧
        t.type = .REFUND ∧ t.amount = input.credits ∧ t.reversesId = some input.debitTransactionId ∧
        s' = giveBackShares id periodEnd now
          (refundShares (s.allocationsOf input.debitTransactionId) input.credits original.amount)
          (s.insertTransaction t) := by
  unfold refundPartial
  by_cases hp : input.credits ≤ 0
  · rw [if_pos hp]
    intro h
    cases h
  rw [if_neg hp, Db.transaction_ok, Db.run_get_bind]
  rcases ho : s.transactions[input.debitTransactionId]? with _ | original
  · intro h
    cases h
  dsimp only
  by_cases hd : original.type ≠ .DEBIT
  · rw [if_pos hd]
    intro h
    cases h
  rw [if_neg hd]
  by_cases hc : original.amount < input.credits
  · rw [if_pos hc]
    intro h
    cases h
  rw [if_neg hc]
  rcases hr : s.refundOf input.debitTransactionId with _ | existing
  · intro h
    obtain ⟨id', u, hm, hr⟩ := Db.bind_ok.mp h
    obtain ⟨-, -, -, rfl, rfl⟩ := createTransaction_ok hm
    simp only [Db.run_modify_bind, Db.run_pure, Prod.mk.injEq, Except.ok.injEq] at hr
    obtain ⟨rfl, rfl⟩ := hr
    exact ⟨original, _, rfl, not_not.mp hd, by omega, by omega, rfl, rfl, rfl, rfl, rfl, rfl⟩
  · intro h
    cases h

theorem refundPartial_safe (periodEnd : Option ℤ) (now : ℤ) (input : RefundInput) :
    Db.Safe (refundPartial periodEnd now input) := Db.Safe.ite (Db.safe_throw _) (Db.safe_transaction _)

/-- A full refund is a partial one of everything the debit charged. -/
theorem refund_ok {periodEnd : Option ℤ} {now : ℤ} {debitId id : ℕ} {reason : String}
    (h : (refund periodEnd now debitId reason).run s = (.ok id, s')) :
    ∃ original, s.transactions[debitId]? = some original ∧
      (refundPartial periodEnd now ⟨debitId, original.amount, reason⟩).run s = (.ok id, s') := by
  unfold refund at h
  rw [Db.run_get_bind] at h
  rcases ho : s.transactions[debitId]? with _ | original <;> rw [ho] at h
  · cases h
  refine ⟨original, rfl, ?_⟩
  dsimp only at h
  split at h
  · cases h
  · split at h
    · cases h
    · exact h

theorem refund_safe (periodEnd : Option ℤ) (now : ℤ) (debitId : ℕ) (reason : String) :
    Db.Safe (refund periodEnd now debitId reason) :=
  Db.Safe.get_bind fun s => by
    rcases s.transactions[debitId]? with _ | original
    · exact Db.safe_throw _
    · refine Db.Safe.ite (Db.safe_throw _) ?_
      rcases s.refundOf debitId with _ | existing
      · exact refundPartial_safe _ _ _
      · exact Db.safe_throw _

theorem expireRenewedLots_ok {asOf now : ℤ} {r : ExpiryResult} :
    (expireRenewedLots asOf now).run s = (.ok r, s') →
      (s' = s ∧ s.lots.filter (·.isDue asOf) = []) ∨
        ∃ t : CreditTransaction, t.type = .EXPIRE ∧ t.billingEventId = none ∧
          0 < t.amount ∧ t.amount ≤ int4Max ∧ t.amount = total (·.isDue asOf) (·.amountRemaining) s.lots ∧
          s' = (s.sweepLots asOf now).insertTransaction t := by
  unfold expireRenewedLots
  rw [Db.transaction_ok, Db.run_get_bind]
  dsimp only
  by_cases hd : (s.lots.filter (·.isDue asOf)).length = 0
  · rw [if_pos hd]
    intro h
    cases h
    exact Or.inl ⟨rfl, List.length_eq_zero_iff.mp hd⟩
  rw [if_neg hd, Db.run_modify_bind]
  intro h
  obtain ⟨id, u, hm, hr⟩ := Db.bind_ok.mp h
  obtain ⟨hpos, hle, -, rfl, rfl⟩ := createTransaction_ok hm
  cases hr
  exact Or.inr ⟨_, rfl, rfl, hpos, hle, rfl, rfl⟩

theorem expireRenewedLots_safe (asOf now : ℤ) : Db.Safe (expireRenewedLots asOf now) := Db.safe_transaction _

/-! ### The debit's loop -/

/-- The lots a debit locks are rows of the table that hold credits, each of them once. -/
theorem mem_spendable {now : ℤ} {p : Lot × ℕ} (h : p ∈ s.spendable now) :
    s.lots[p.2]? = some p.1 ∧ 0 < p.1.amountRemaining ∧ p.1.isAlive now := by
  have hp := (List.perm_insertionSort _ _).mem_iff.mp h
  obtain ⟨hz, hc⟩ := List.mem_filter.mp hp
  simp only [Bool.and_eq_true, decide_eq_true_eq] at hc
  exact ⟨List.mem_zipIdx_iff_getElem?.mp hz, hc⟩

theorem spendable_nodup (s : Ledger) (now : ℤ) : ((s.spendable now).map (·.2)).Nodup := by
  have hz : (s.lots.zipIdx.map (·.2)).Nodup := by
    have hidx : s.lots.zipIdx.map (·.2) = List.range' 0 s.lots.length := List.zipIdx_map_snd 0 s.lots
    rw [hidx]
    exact List.nodup_range' (h := by decide)
  have hperm := (List.perm_insertionSort (fun p q : Lot × ℕ => p.1.spentBefore q.1)
    (s.lots.zipIdx.filter fun p => 0 < p.1.amountRemaining && p.1.isAlive now)).map (·.2)
  exact hperm.nodup_iff.mpr (hz.sublist (List.filter_sublist.map _))

@[simp] theorem takeFrom_transactions (txId : ℕ) (lots : List (Lot × ℕ)) (n : ℤ) (s : Ledger) :
    (takeFrom txId lots n s).transactions = s.transactions := by
  induction lots generalizing n s with
  | nil => rfl
  | cons p lots ih =>
    unfold takeFrom
    split
    · rfl
    · exact ih _ _

theorem held_nonneg {lots : List (Lot × ℕ)} (h : ∀ p ∈ lots, 0 < p.1.amountRemaining) :
    0 ≤ (lots.map (·.1.amountRemaining)).sum :=
  List.sum_nonneg fun x hx => by
    obtain ⟨q, hq, rfl⟩ := List.mem_map.mp hx
    exact (h q hq).le

/-- The loop takes all that is outstanding from the lots, within what each of them holds. -/
theorem Balanced.takeFrom {swept replacements : List ℕ} {txId : ℕ} (lots : List (Lot × ℕ)) {owed n : ℤ}
    (h : Balanced swept replacements owed s) (htype : s.typeOf txId = some .DEBIT)
    (hlots : ∀ p ∈ lots, s.lots[p.2]? = some p.1 ∧ 0 < p.1.amountRemaining)
    (hnd : (lots.map (·.2)).Nodup) (h₀ : 0 ≤ n) (hn : n ≤ (lots.map (·.1.amountRemaining)).sum) :
    Balanced swept replacements (owed + n) (takeFrom txId lots n s) := by
  induction lots generalizing n s owed with
  | nil =>
    obtain rfl : n = 0 := by simp at hn; omega
    simpa [Credits.takeFrom] using h
  | cons p lots ih =>
    obtain ⟨l, id⟩ := p
    unfold Credits.takeFrom
    by_cases hz : n = 0
    · subst hz
      simpa using h
    rw [if_neg hz]
    obtain ⟨hl, hpos⟩ := hlots (l, id) (by simp)
    simp only [List.map_cons, List.sum_cons, List.nodup_cons] at hn hnd hl hpos
    have hd := h.draw (n := min l.amountRemaining n) htype hl (by omega) (by omega)
    have := ih (n := n - min l.amountRemaining n) hd htype (fun p hp => ?_) hnd.2 (by omega) ?_
    · rwa [add_assoc, add_sub_cancel] at this
    · obtain ⟨hp₁, hp₂⟩ := hlots p (by simp [hp])
      have hne : id ≠ p.2 := fun e => hnd.1 (e ▸ List.mem_map_of_mem hp)
      exact ⟨by simpa [Ledger.insertAllocation, Ledger.decrementLot, List.getElem?_modify_ne _ _ hne] using hp₁, hp₂⟩
    · have := held_nonneg fun q hq => (hlots q (List.mem_cons_of_mem _ hq)).2
      omega

/-- The allocations the loop makes: positive, one for each lot it touches, `n` credits in all. -/
theorem takeFrom_allocations (txId : ℕ) (lots : List (Lot × ℕ)) {n : ℤ}
    (hlots : ∀ p ∈ lots, 0 < p.1.amountRemaining) (h₀ : 0 ≤ n) (hn : n ≤ (lots.map (·.1.amountRemaining)).sum) :
    ∃ news : List CreditAllocation, (takeFrom txId lots n s).allocations = s.allocations ++ news ∧
      (∀ a ∈ news, a.transactionId = txId ∧ 0 < a.amount) ∧
      (news.map (·.amount)).sum = n ∧ (news.map (·.lotId)).Sublist (lots.map (·.2)) := by
  induction lots generalizing n s with
  | nil => exact ⟨[], by simp [takeFrom], by simp, by simp at hn ⊢; omega, by simp⟩
  | cons p lots ih =>
    obtain ⟨l, id⟩ := p
    unfold takeFrom
    by_cases hz : n = 0
    · subst hz
      exact ⟨[], by simp⟩
    rw [if_neg hz]
    have hpos := hlots (l, id) (by simp)
    simp only [List.map_cons, List.sum_cons] at hn hpos
    have hrest := held_nonneg fun q hq => hlots q (List.mem_cons_of_mem _ hq)
    obtain ⟨news, ha, hall, hsum, hsub⟩ :=
      ih (s := (s.decrementLot id (min l.amountRemaining n)).insertAllocation ⟨txId, id, min l.amountRemaining n⟩)
        (n := n - min l.amountRemaining n) (fun p hp => hlots p (by simp [hp])) (by omega) (by omega)
    refine ⟨⟨txId, id, min l.amountRemaining n⟩ :: news, ?_, ?_, ?_, ?_⟩
    · rw [ha]
      simp [Ledger.insertAllocation, Ledger.decrementLot]
    · intro a ha
      rcases List.mem_cons.mp ha with rfl | ha
      · exact ⟨rfl, by show 0 < min l.amountRemaining n; omega⟩
      · exact hall a ha
    · simp only [List.map_cons, List.sum_cons, hsum]
      omega
    · exact hsub.cons_cons _

/-! ### The refund's loops -/

/-- Shares are nonnegative, and go to the allocations they were computed from. -/
theorem refundShares_spec (allocations : List CreditAllocation) {credits amount : ℤ} (hA : 0 < amount)
    (hc : 0 ≤ credits) (hpos : ∀ a ∈ allocations, 0 < a.amount) :
    (refundShares allocations credits amount).map (·.1) = allocations ∧
      ∀ p ∈ refundShares allocations credits amount, 0 ≤ p.2 := by
  unfold refundShares
  dsimp only
  constructor
  · rw [List.map_map, List.zipIdx_map, List.map_map]
    refine Eq.trans (List.map_congr_left (g := Prod.fst) fun p _ => ?_) (List.zipIdx_map_fst 0 allocations)
    simp only [Function.comp, Prod.map]
    split <;> rfl
  · intro p hp
    obtain ⟨q, hq, rfl⟩ := List.mem_map.mp hp
    obtain ⟨a, ha, haq⟩ := List.mem_map.mp (List.fst_mem_of_mem_zipIdx hq)
    have hshare : 0 ≤ q.1.2 := by
      rw [← haq]
      exact Int.ediv_nonneg (mul_nonneg (hpos a ha).le hc) hA.le
    split
    · show 0 ≤ q.1.2 + 1
      omega
    · exact hshare

/-- **The shares add up to what is refunded.** -/
theorem refundShares_sum {allocations : List CreditAllocation} {credits amount : ℤ} (hA : 0 < amount)
    (hsum : (allocations.map (·.amount)).sum = amount) :
    ((refundShares allocations credits amount).map (·.2)).sum = credits := by
  unfold refundShares
  dsimp only
  set shares := allocations.map fun a => (a, a.amount * credits / amount) with hshares
  set order := (shares.zipIdx.insertionSort fun p q => q.1.1.amount ≤ p.1.1.amount).map (·.2) with horder
  set remainder := credits - (shares.map (·.2)).sum with hremainder
  have hfloor : (shares.map (·.2)).sum = ((allocations.map (·.amount)).map fun w => w * credits / amount).sum := by
    rw [hshares, List.map_map, List.map_map]
    rfl
  have hlo : 0 ≤ remainder := by
    rw [hremainder, hfloor]
    exact leftover_nonneg hA hsum
  have hhi : remainder ≤ shares.length := by
    rw [hremainder, hfloor, hshares, List.length_map, ← List.length_map (fun a : CreditAllocation => a.amount)]
    exact leftover_le hA hsum
  have hperm : order.Perm (List.range' 0 shares.length) := by
    have := (List.perm_insertionSort (fun p q : (CreditAllocation × ℤ) × ℕ => q.1.1.amount ≤ p.1.1.amount)
      shares.zipIdx).map (·.2)
    exact this.trans (List.Perm.of_eq (List.zipIdx_map_snd 0 shares))
  have hnd : (order.take remainder.toNat).Nodup :=
    (hperm.nodup_iff.mpr (List.nodup_range' (h := by decide))).sublist (List.take_sublist _ _)
  have hlt : ∀ i ∈ order.take remainder.toNat, i < shares.length := fun i hi => by
    have := hperm.mem_iff.mp (List.mem_of_mem_take hi)
    simpa using this
  have hlen : (order.take remainder.toNat).length = remainder.toNat := by
    rw [List.length_take, hperm.length_eq, List.length_range']
    omega
  have hbump := sum_bump (fun p : CreditAllocation × ℤ => p.2) shares hnd hlt
  rw [hlen] at hbump
  rw [List.map_map]
  refine Eq.trans (congrArg List.sum (List.map_congr_left fun p _ => ?_)) (hbump.trans (by omega))
  simp only [Function.comp]
  split <;> rfl

/-- The credits among the orphans. -/
def orphaned (orphans : List Orphan) : ℤ := (orphans.map (·.amount)).sum

theorem addToOrphans_spec (kind : CreditKind) (expiresAt : Option ℤ) {n : ℤ} (hn : 0 < n) {orphans : List Orphan}
    (h : ∀ o ∈ orphans, 0 < o.amount) :
    orphaned (addToOrphans kind expiresAt n orphans) = orphaned orphans + n ∧
      ∀ o ∈ addToOrphans kind expiresAt n orphans, 0 < o.amount := by
  induction orphans with
  | nil =>
    refine ⟨by simp [addToOrphans, orphaned], fun o ho => ?_⟩
    obtain rfl := List.mem_singleton.mp ho
    exact hn
  | cons p orphans ih =>
    obtain ⟨ih₁, ih₂⟩ := ih fun o ho => h o (List.mem_cons_of_mem _ ho)
    have hp := h p (List.mem_cons_self ..)
    unfold addToOrphans
    split
    · refine ⟨by simp only [orphaned, List.map_cons, List.sum_cons]; omega, fun o ho => ?_⟩
      rcases List.mem_cons.mp ho with rfl | ho
      · show 0 < p.amount + n
        omega
      · exact h o (List.mem_cons_of_mem _ ho)
    · unfold orphaned at ih₁ ⊢
      refine ⟨by simp only [List.map_cons, List.sum_cons, ih₁]; omega, fun o ho => ?_⟩
      rcases List.mem_cons.mp ho with rfl | ho
      · exact hp
      · exact ih₂ o ho

theorem addOrphan_spec (periodEnd : Option ℤ) (now : ℤ) (kind : CreditKind) (sourceExpiresAt : Option ℤ) {n : ℤ}
    (hn : 0 ≤ n) {orphans : List Orphan} (h : ∀ o ∈ orphans, 0 < o.amount) :
    orphaned (addOrphan periodEnd now kind sourceExpiresAt n orphans) = orphaned orphans + n ∧
      ∀ o ∈ addOrphan periodEnd now kind sourceExpiresAt n orphans, 0 < o.amount := by
  unfold addOrphan
  split
  · exact ⟨by omega, h⟩
  · exact addToOrphans_spec _ _ (by omega) h

/-- What the walk over the shares keeps: apart from the accounts, that lots not yet visited are
as they were locked, and that only positive allocations of this refund are added. -/
structure Walk (swept replacements : List ℕ) (refundId : ℕ) (owed : ℤ) (s : Ledger)
    (acc : Ledger × List Orphan) : Prop where
  balanced : Balanced swept replacements (owed + orphaned acc.2) acc.1
  transactions : acc.1.transactions = s.transactions
  lots : acc.1.lots.length = s.lots.length
  positive : ∀ o ∈ acc.2, 0 < o.amount
  allocations : ∃ news : List CreditAllocation, acc.1.allocations = s.allocations ++ news ∧
    ∀ a ∈ news, a.transactionId = refundId ∧ 0 < a.amount

/-- One share: it ends up in its lot, among the orphans, or partly in each. -/
theorem Walk.returnShare {swept replacements : List ℕ} {refundId : ℕ} {owed : ℤ} {acc : Ledger × List Orphan}
    {locked : List Lot} (periodEnd : Option ℤ) (now : ℤ) {p : CreditAllocation × ℤ} {l : Lot}
    (h : Walk swept replacements refundId owed s acc) (htype : s.typeOf refundId = some .REFUND) (hp : 0 ≤ p.2)
    (hlocked : locked[p.1.lotId]? = some l) (hcur : acc.1.lots[p.1.lotId]? = some l) :
    Walk swept replacements refundId (owed - p.2) s (returnShare locked refundId periodEnd now acc p) ∧
      ∀ id, id ≠ p.1.lotId →
        (Credits.returnShare locked refundId periodEnd now acc p).1.lots[id]? = acc.1.lots[id]? := by
  unfold Credits.returnShare
  by_cases hz : p.2 ≤ 0
  · rw [if_pos hz, show owed - p.2 = owed by omega]
    exact ⟨h, fun _ _ => rfl⟩
  rw [if_neg hz, hlocked]
  dsimp only
  have htype' : acc.1.typeOf refundId = some .REFUND := by
    unfold Ledger.typeOf at htype ⊢
    rw [h.transactions, htype]
  obtain ⟨news, hnews, hall⟩ := h.allocations
  have hb := h.balanced.bounded l (List.mem_of_getElem? hcur)
  by_cases halive : l.isAlive now
  · rw [if_pos halive]
    have hg : 0 ≤ p.2 - min p.2 (max 0 (l.amountGranted - l.amountRemaining)) := by omega
    obtain ⟨ho₁, ho₂⟩ := addOrphan_spec periodEnd now l.kind l.expiresAt hg h.positive
    by_cases hpos : 0 < min p.2 (max 0 (l.amountGranted - l.amountRemaining))
    · -- the lot has room for some of it
      rw [if_pos hpos]
      refine ⟨⟨?_, h.transactions, ?_, ho₂,
        news ++ [⟨refundId, p.1.lotId, min p.2 (max 0 (l.amountGranted - l.amountRemaining))⟩], ?_, ?_⟩, fun id hid => ?_⟩
      · have := h.balanced.giveBack (n := min p.2 (max 0 (l.amountGranted - l.amountRemaining)))
          htype' hcur hpos.le (by omega)
        dsimp only
        rw [ho₁]
        convert this using 1
        omega
      · simpa [Ledger.insertAllocation, Ledger.incrementLot] using h.lots
      · show acc.1.allocations ++ _ = _
        rw [hnews, List.append_assoc]
      · intro a ha
        rcases List.mem_append.mp ha with ha | ha
        · exact hall a ha
        · obtain rfl := List.mem_singleton.mp ha
          exact ⟨rfl, hpos⟩
      · simp [Ledger.insertAllocation, Ledger.incrementLot, List.getElem?_modify_ne _ _ (Ne.symm hid)]
    · -- the lot is full
      rw [if_neg hpos]
      refine ⟨⟨?_, h.transactions, h.lots, ho₂, news, hnews, hall⟩, fun _ _ => rfl⟩
      dsimp only
      rw [ho₁]
      convert h.balanced using 1
      omega
  · -- the lot is dead
    rw [if_neg halive]
    obtain ⟨ho₁, ho₂⟩ := addOrphan_spec periodEnd now l.kind l.expiresAt hp h.positive
    refine ⟨⟨?_, h.transactions, h.lots, ho₂, news, hnews, hall⟩, fun _ _ => rfl⟩
    dsimp only
    rw [ho₁]
    convert h.balanced using 1
    omega

/-- The walk over all shares. No two of them are of one lot, so each meets its lot as locked. -/
theorem Walk.shares {swept replacements : List ℕ} {refundId : ℕ} {owed : ℤ} {acc : Ledger × List Orphan}
    (locked : List Lot) (periodEnd : Option ℤ) (now : ℤ) (shares : List (CreditAllocation × ℤ))
    (h : Walk swept replacements refundId owed s acc) (htype : s.typeOf refundId = some .REFUND)
    (hp : ∀ p ∈ shares, 0 ≤ p.2) (hnd : (shares.map (·.1.lotId)).Nodup)
    (hcur : ∀ p ∈ shares, ∃ l, locked[p.1.lotId]? = some l ∧ acc.1.lots[p.1.lotId]? = some l) :
    Walk swept replacements refundId (owed - (shares.map (·.2)).sum) s
      (shares.foldl (Credits.returnShare locked refundId periodEnd now) acc) := by
  induction shares generalizing acc owed with
  | nil => simpa using h
  | cons p shares ih =>
    obtain ⟨l, hl, hl'⟩ := hcur p (List.mem_cons_self ..)
    simp only [List.map_cons, List.nodup_cons] at hnd
    obtain ⟨hw, hframe⟩ := h.returnShare periodEnd now htype (hp p (List.mem_cons_self ..)) hl hl'
    have := ih hw (fun q hq => hp q (List.mem_cons_of_mem _ hq)) hnd.2 fun q hq => ?_
    · rw [List.foldl_cons, List.map_cons, List.sum_cons, ← sub_sub]
      exact this
    · obtain ⟨m, hm, hm'⟩ := hcur q (List.mem_cons_of_mem _ hq)
      refine ⟨m, hm, ?_⟩
      rw [hframe q.1.lotId fun e => hnd.1 (e ▸ List.mem_map_of_mem (f := (·.1.lotId)) hq)]
      exact hm'

/-- The orphans' lots: one after the other, each new and full. -/
theorem Balanced.replaceOrphans {swept replacements : List ℕ} {refundId : ℕ} (now : ℤ) (orphans : List Orphan)
    {owed : ℤ} (h : Balanced swept replacements owed s) (htype : s.typeOf refundId = some .REFUND)
    (hpos : ∀ o ∈ orphans, 0 < o.amount) :
    Balanced swept ((List.range' s.lots.length orphans.length).reverse ++ replacements) (owed - orphaned orphans)
        (orphans.foldl (replaceOrphan refundId now) s) ∧
      (orphans.foldl (replaceOrphan refundId now) s).transactions = s.transactions ∧
      (orphans.foldl (replaceOrphan refundId now) s).lots.length = s.lots.length + orphans.length ∧
      ∃ news : List CreditAllocation,
        (orphans.foldl (replaceOrphan refundId now) s).allocations = s.allocations ++ news ∧
        ∀ a ∈ news, a.transactionId = refundId ∧ 0 < a.amount := by
  induction orphans generalizing s owed replacements with
  | nil => exact ⟨by simpa [orphaned] using h, rfl, rfl, [], by simp, by simp⟩
  | cons o orphans ih =>
    have ho := hpos o (List.mem_cons_self ..)
    have h₁ : Balanced swept (s.lots.length :: replacements) (owed - o.amount) (replaceOrphan refundId now s o) :=
      h.replace (l := ⟨o.kind, .REFUND, o.amount, o.amount, o.expiresAt, now⟩) htype rfl ho.le
    have hlen : (replaceOrphan refundId now s o).lots.length = s.lots.length + 1 := by
      simp [replaceOrphan, Ledger.insertLot, Ledger.insertAllocation]
    obtain ⟨hb, ht, hl, news, hnews, hall⟩ :=
      ih (s := replaceOrphan refundId now s o) h₁ htype fun q hq => hpos q (List.mem_cons_of_mem _ hq)
    refine ⟨?_, ht, ?_, ⟨refundId, s.lots.length, o.amount⟩ :: news, ?_, ?_⟩
    · rw [hlen] at hb
      rw [List.foldl_cons]
      convert hb using 1
      · simp [List.range'_succ]
      · simp only [orphaned, List.map_cons, List.sum_cons]
        ring
    · rw [List.foldl_cons, hl, hlen, List.length_cons]
      omega
    · rw [List.foldl_cons, hnews]
      simp [replaceOrphan, Ledger.insertLot, Ledger.insertAllocation]
    · intro a ha
      rcases List.mem_cons.mp ha with rfl | ha
      · exact ⟨rfl, ho⟩
      · exact hall a ha

/-- **All that is refunded arrives**: what the shares owe is in lots afterwards. -/
theorem Balanced.giveBackShares {swept replacements : List ℕ} {refundId : ℕ} {owed : ℤ} (periodEnd : Option ℤ)
    (now : ℤ) {shares : List (CreditAllocation × ℤ)} (h : Balanced swept replacements owed s)
    (htype : s.typeOf refundId = some .REFUND) (hp : ∀ p ∈ shares, 0 ≤ p.2)
    (hnd : (shares.map (·.1.lotId)).Nodup) (hlots : ∀ p ∈ shares, p.1.lotId < s.lots.length) :
    ∃ k, (giveBackShares refundId periodEnd now shares s).lots.length = s.lots.length + k ∧
      Balanced swept ((List.range' s.lots.length k).reverse ++ replacements) (owed - (shares.map (·.2)).sum)
        (giveBackShares refundId periodEnd now shares s) ∧
      (giveBackShares refundId periodEnd now shares s).transactions = s.transactions ∧
      ∃ news : List CreditAllocation,
        (giveBackShares refundId periodEnd now shares s).allocations = s.allocations ++ news ∧
        ∀ a ∈ news, a.transactionId = refundId ∧ 0 < a.amount := by
  have h₀ : Walk swept replacements refundId owed s (s, []) :=
    ⟨by simpa [orphaned] using h, rfl, rfl, by simp, [], by simp, by simp⟩
  have hw := h₀.shares s.lots periodEnd now shares htype hp hnd fun p hp =>
    ⟨_, List.getElem?_eq_getElem (hlots p hp), List.getElem?_eq_getElem (hlots p hp)⟩
  unfold Credits.giveBackShares
  dsimp only
  revert hw
  generalize shares.foldl (Credits.returnShare s.lots refundId periodEnd now) (s, []) = walked
  intro hw
  have htype' : walked.1.typeOf refundId = some .REFUND := by
    unfold Ledger.typeOf at htype ⊢
    rw [hw.transactions, htype]
  obtain ⟨hb, ht, hl, news, hnews, hall⟩ :=
    hw.balanced.replaceOrphans now walked.2 htype' hw.positive
  obtain ⟨news₀, hnews₀, hall₀⟩ := hw.allocations
  rw [hw.lots] at hb hl
  refine ⟨walked.2.length, hl, ?_, ht.trans hw.transactions, news₀ ++ news, ?_, ?_⟩
  · convert hb using 1
    omega
  · rw [hnews, hnews₀, List.append_assoc]
  · intro a ha
    rcases List.mem_append.mp ha with ha | ha
    · exact hall₀ a ha
    · exact hall a ha

end WebAudit.Credits
