import WebAudit.Credits.Operations

/-!
# Conservation of credits

Any finite run of the ledger's operations for one user, in any order, with any amounts and
any readings of the clock, some of them throwing. `History` is the ledger after such a run,
with the two things about the past that the tables do not show: which lots were swept, and
which were created by a refund in place of a lot that could not take its credits.

`Sound` holds of every history (`after_sound`): the accounts agree with nothing owed, and
each debit is accounted for by its allocations, one for each lot. The second part is what
makes a refund's shares add up; the first is the conservation law.

A replacement lot is the one exception to "what is gone from a lot was spent and not
refunded": it is created full, together with a `REFUND` allocation of all of it.
-/

namespace WebAudit.Credits

open WebAudit.Lib

/-- An operation, with its arguments, the clock it reads and the `periodEnd` of the user's
subscription when it runs. -/
inductive Op where
  | grantLot (now : ℤ) (input : GrantInput)
  | debit (now : ℤ) (input : DebitInput)
  | refundPartial (periodEnd : Option ℤ) (now : ℤ) (input : RefundInput)
  | refund (periodEnd : Option ℤ) (now : ℤ) (debitTransactionId : ℕ) (reason : String)
  | expireRenewedLots (asOf now : ℤ)
  deriving DecidableEq

/-- Run an operation; what it returns is dropped. -/
def Op.exec : Op → LedgerM Unit
  | .grantLot now input => do let _ ← Credits.grantLot now input; pure ()
  | .debit now input => do let _ ← Credits.debit now input; pure ()
  | .refundPartial periodEnd now input => do let _ ← Credits.refundPartial periodEnd now input; pure ()
  | .refund periodEnd now id reason => do let _ ← Credits.refund periodEnd now id reason; pure ()
  | .expireRenewedLots asOf now => do let _ ← Credits.expireRenewedLots asOf now; pure ()

/-- A ledger, and what its tables do not show about how it came about. -/
structure History where
  ledger : Ledger
  /-- The lots that a sweep emptied. -/
  swept : List ℕ
  /-- The lots that refunds created. -/
  replacements : List ℕ
  deriving DecidableEq

def History.empty : History := ⟨.empty, [], []⟩

/-- The lots a sweep empties. -/
def Op.sweeps (s : Ledger) : Op → List ℕ
  | .expireRenewedLots asOf _ => (s.lots.zipIdx.filter (·.1.isDue asOf)).map (·.2)
  | _ => []

/-- The lots a refund creates: those with the ids above the old ones. -/
def Op.replaces (s s' : Ledger) : Op → List ℕ
  | .refundPartial _ _ _ | .refund _ _ _ _ =>
    (List.range' s.lots.length (s'.lots.length - s.lots.length)).reverse
  | _ => []

/-- One operation. -/
def Op.apply (op : Op) (h : History) : History :=
  match op.exec.run h.ledger with
  | (.error _, s') => { h with ledger := s' }
  | (.ok _, s') => ⟨s', op.sweeps h.ledger ++ h.swept, op.replaces h.ledger s' ++ h.replacements⟩

/-- The history of a run. -/
def after (ops : List Op) : History := ops.foldl (fun h op => op.apply h) .empty

/-! ### A failed operation leaves no trace -/

theorem Op.exec_safe (op : Op) : Db.Safe op.exec := by
  have hpure : ∀ {α : Type} (a : α) (s : Ledger), ∃ b, ((pure () : LedgerM Unit).run s).1 = .ok b := fun _ _ => ⟨_, rfl⟩
  cases op with
  | grantLot now input => exact (grantLot_safe now input).bind hpure
  | debit now input => exact (debit_safe now input).bind hpure
  | refundPartial periodEnd now input => exact (refundPartial_safe periodEnd now input).bind hpure
  | refund periodEnd now id reason => exact (refund_safe periodEnd now id reason).bind hpure
  | expireRenewedLots asOf now => exact (expireRenewedLots_safe asOf now).bind hpure

/-- What a program that drops its result ended with. -/
theorem drop_ok {α : Type} {m : LedgerM α} {s s' : Ledger} {u : Unit}
    (h : (do let _ ← m; pure () : LedgerM Unit).run s = (.ok u, s')) : ∃ a, m.run s = (.ok a, s') := by
  obtain ⟨a, v, hm, hr⟩ := Db.bind_ok.mp h
  cases hr
  exact ⟨a, hm⟩

/-! ### The invariant -/

/-- Every debit is accounted for by its allocations, one for each lot. -/
structure Covered (s : Ledger) : Prop where
  positive : ∀ a ∈ s.allocations, 0 < a.amount
  charged : ∀ id t, s.transactions[id]? = some t → t.type = .DEBIT →
    ((s.allocationsOf id).map (·.amount)).sum = t.amount ∧ ((s.allocationsOf id).map (·.lotId)).Nodup

/-- The accounts agree, and debits are accounted for. -/
structure Sound (h : History) : Prop where
  balanced : Balanced h.swept h.replacements 0 h.ledger
  covered : Covered h.ledger

/-- A new transaction with its allocations. Those of older transactions are not touched. -/
theorem Covered.append {s s' : Ledger} {t : CreditTransaction} (news : List CreditAllocation) (h : Covered s)
    (hk : s.Keyed) (ht : s'.transactions = s.transactions ++ [t]) (ha : s'.allocations = s.allocations ++ news)
    (hnews : ∀ a ∈ news, a.transactionId = s.transactions.length ∧ 0 < a.amount)
    (hdebit : t.type = .DEBIT → (news.map (·.amount)).sum = t.amount ∧ (news.map (·.lotId)).Nodup) : Covered s' where
  positive a hmem := by
    rw [ha] at hmem
    rcases List.mem_append.mp hmem with hmem | hmem
    · exact h.positive a hmem
    · exact (hnews a hmem).2
  charged id u hu hd := by
    have hsplit : s'.allocationsOf id = s.allocationsOf id ++ news.filter fun a => a.transactionId = id := by
      simp only [Ledger.allocationsOf, ha, List.filter_append]
    rw [ht] at hu
    by_cases e : id < s.transactions.length
    · rw [List.getElem?_append_left e] at hu
      have hnone : (news.filter fun a => a.transactionId = id) = [] :=
        List.filter_eq_nil_iff.mpr fun a hmem => by
          have := (hnews a hmem).1
          simp only [decide_eq_true_eq]
          omega
      rw [hsplit, hnone, List.append_nil]
      exact h.charged id u hu hd
    · obtain rfl : id = s.transactions.length := by
        have := (List.getElem?_eq_some_iff.mp hu).1
        simp only [List.length_append, List.length_singleton] at this
        omega
      obtain rfl : t = u := by simpa using hu
      have hnone : s.allocationsOf s.transactions.length = [] :=
        List.filter_eq_nil_iff.mpr fun a hmem => by
          have := (hk a hmem).1
          simp only [decide_eq_true_eq]
          omega
      have hall : (news.filter fun a => a.transactionId = s.transactions.length) = news :=
        List.filter_eq_self.mpr fun a hmem => by simpa using (hnews a hmem).1
      rw [hsplit, hnone, hall, List.nil_append]
      exact hdebit hd

theorem Sound.empty : Sound .empty where
  balanced := ⟨by simp [Ledger.Keyed, History.empty, Ledger.empty], by simp [History.empty],
    by simp [History.empty, Ledger.empty], by simp [History.empty, Ledger.empty],
    by simp [History.empty, Ledger.empty, Ledger.remaining, Ledger.recorded]⟩
  covered := ⟨by simp [History.empty, Ledger.empty], by simp [History.empty, Ledger.empty]⟩

variable {swept replacements : List ℕ} {s s' : Ledger}

theorem grantLot_sound {now : ℤ} {input : GrantInput} {r : GrantResult} (h : Sound ⟨s, swept, replacements⟩)
    (hrun : (grantLot now input).run s = (.ok r, s')) : Sound ⟨s', swept, replacements⟩ := by
  obtain ⟨hpos, -, rfl⟩ := grantLot_ok hrun
  have hb := (h.balanced.record input.transaction).openLot (l := input.lot now) rfl hpos.le
  refine ⟨?_, h.covered.append [] h.balanced.keyed (t := input.transaction) rfl (by simp [Ledger.insertLot, Ledger.insertTransaction])
    (by simp) fun hd => by cases hd⟩
  convert hb using 1
  simp [CreditTransaction.signed, GrantInput.transaction, GrantInput.lot]

theorem debit_sound {now : ℤ} {input : DebitInput} {id : ℕ} (h : Sound ⟨s, swept, replacements⟩)
    (hrun : (debit now input).run s = (.ok id, s')) : Sound ⟨s', swept, replacements⟩ := by
  obtain ⟨hpos, hle, rfl, t, htype, hamount, rfl⟩ := debit_ok hrun
  have hlots : ∀ p ∈ s.spendable now, s.lots[p.2]? = some p.1 ∧ 0 < p.1.amountRemaining :=
    fun p hp => ⟨(mem_spendable hp).1, (mem_spendable hp).2.1⟩
  constructor
  · have hb := (h.balanced.record t).takeFrom (s.spendable now) (n := input.amount)
      (Ledger.typeOf_inserted.trans (congrArg some htype)) hlots (spendable_nodup s now) hpos.le hle
    convert hb using 1
    simp [CreditTransaction.signed, htype, hamount]
  · obtain ⟨news, ha, hall, hsum, hsub⟩ := takeFrom_allocations s.transactions.length
      (s := s.insertTransaction t) (s.spendable now) (fun p hp => (hlots p hp).2) hpos.le hle
    exact h.covered.append news h.balanced.keyed (takeFrom_transactions _ _ _ _) ha hall fun _ =>
      ⟨hsum.trans hamount.symm, (spendable_nodup s now).sublist hsub⟩

theorem refundPartial_sound {periodEnd : Option ℤ} {now : ℤ} {input : RefundInput} {id : ℕ}
    (h : Sound ⟨s, swept, replacements⟩) (hrun : (refundPartial periodEnd now input).run s = (.ok id, s')) :
    Sound ⟨s', swept, (List.range' s.lots.length (s'.lots.length - s.lots.length)).reverse ++ replacements⟩ := by
  obtain ⟨original, t, ho, hdebit, hpos, hle, -, rfl, htype, hamount, -, rfl⟩ := refundPartial_ok hrun
  obtain ⟨hcharged, hnd⟩ := h.covered.charged _ _ ho hdebit
  have hA : 0 < original.amount := by omega
  have hof : ∀ a ∈ s.allocationsOf input.debitTransactionId, a ∈ s.allocations := fun a ha => (List.mem_filter.mp ha).1
  obtain ⟨hfst, hnonneg⟩ := refundShares_spec (s.allocationsOf input.debitTransactionId) hA hpos.le fun a ha => h.covered.positive a (hof a ha)
  have hids : (refundShares (s.allocationsOf input.debitTransactionId) input.credits original.amount).map (·.1.lotId)
      = (s.allocationsOf input.debitTransactionId).map (·.lotId) := by
    rw [← congrArg (List.map (·.lotId)) hfst, List.map_map]
    rfl
  obtain ⟨k, hlen, hb, ht, news, hnews, hall⟩ := (h.balanced.record t).giveBackShares
    periodEnd now
    (Ledger.typeOf_inserted.trans (congrArg some htype)) hnonneg (hids ▸ hnd) fun p hp =>
      (h.balanced.keyed p.1 (hof p.1 (by rw [← hfst]; exact List.mem_map_of_mem hp))).2
  constructor
  · dsimp only
    rw [hlen]
    convert hb using 1
    · rw [show (s.insertTransaction t).lots = s.lots from rfl, Nat.add_sub_cancel_left]
    · rw [refundShares_sum hA hcharged]
      simp [CreditTransaction.signed, htype, hamount]
  · exact h.covered.append news h.balanced.keyed ht hnews hall fun hd => by
      rw [htype] at hd
      cases hd

theorem expireRenewedLots_sound {asOf now : ℤ} {r : ExpiryResult} (h : Sound ⟨s, swept, replacements⟩)
    (hrun : (expireRenewedLots asOf now).run s = (.ok r, s')) :
    Sound ⟨s', (s.lots.zipIdx.filter (·.1.isDue asOf)).map (·.2) ++ swept, replacements⟩ := by
  rcases expireRenewedLots_ok hrun with ⟨he, hnone⟩ | ⟨t, htype, -, -, -, hamount, rfl⟩
  · -- nothing was due
    subst s'
    have : s.lots.zipIdx.filter (·.1.isDue asOf) = [] :=
      List.filter_eq_nil_iff.mpr fun p hp =>
        List.filter_eq_nil_iff.mp hnone p.1 (List.fst_mem_of_mem_zipIdx hp)
    rw [this]
    exact h
  · constructor
    · have hb := (h.balanced.sweep asOf now).record t
      convert hb using 1
      simp [CreditTransaction.signed, htype, hamount]
    · exact h.covered.append [] h.balanced.keyed (t := t) rfl
        (by simp [Ledger.sweepLots, Ledger.insertTransaction]) (by simp) fun hd => by
          rw [htype] at hd
          cases hd

/-- Every operation keeps the invariant, whether it ends with a value or throws. -/
theorem Op.apply_sound (op : Op) {h : History} (hs : Sound h) : Sound (op.apply h) := by
  unfold Op.apply
  rcases hrun : op.exec.run h.ledger with ⟨e | u, s'⟩
  · obtain rfl := op.exec_safe _ _ _ hrun
    exact hs
  cases op with
  | grantLot now input =>
    obtain ⟨r, hr⟩ := drop_ok hrun
    exact grantLot_sound hs hr
  | debit now input =>
    obtain ⟨r, hr⟩ := drop_ok hrun
    exact debit_sound hs hr
  | refundPartial periodEnd now input =>
    obtain ⟨r, hr⟩ := drop_ok hrun
    exact refundPartial_sound hs hr
  | refund periodEnd now id reason =>
    obtain ⟨r, hr⟩ := drop_ok hrun
    obtain ⟨original, -, hr'⟩ := refund_ok hr
    exact refundPartial_sound hs hr'
  | expireRenewedLots asOf now =>
    obtain ⟨r, hr⟩ := drop_ok hrun
    exact expireRenewedLots_sound hs hr

/-- The invariant holds after every run. -/
theorem after_sound (ops : List Op) : Sound (after ops) := by
  unfold after
  have : ∀ h : History, Sound h → Sound (ops.foldl (fun h op => op.apply h) h) := by
    induction ops with
    | nil => exact fun _ hs => hs
    | cons op ops ih => exact fun h hs => ih _ (op.apply_sound hs)
  exact this _ Sound.empty

/-! ### The law -/

/-- **Conservation**: after every run each lot is within its bounds, what is gone from an unswept
lot was spent and not refunded (its opening allocation, if it replaces another, apart), all that
remains is what was granted and refunded less what was debited and expired, and whatever
operation comes next leaves the ledger alone if it throws. -/
theorem credits_conserved (ops : List Op) :
    (∀ l ∈ (after ops).ledger.lots, 0 ≤ l.amountRemaining ∧ l.amountRemaining ≤ l.amountGranted) ∧
    (∀ id l, (after ops).ledger.lots[id]? = some l → id ∉ (after ops).swept →
      l.amountGranted - l.amountRemaining = (after ops).ledger.allocated .DEBIT id
        - ((after ops).ledger.allocated .REFUND id - opening (after ops).replacements id l)) ∧
    (after ops).ledger.remaining = (after ops).ledger.recorded .GRANT + (after ops).ledger.recorded .REFUND
      - (after ops).ledger.recorded .DEBIT - (after ops).ledger.recorded .EXPIRE ∧
    (∀ (op : Op) (e : CreditsError) (s' : Ledger),
      op.exec.run (after ops).ledger = (.error e, s') → s' = (after ops).ledger) := by
  have h := (after_sound ops).balanced
  have hc := h.conserved
  rw [add_zero] at hc
  exact ⟨h.bounded, h.explained, hc, fun op e s' hrun => op.exec_safe _ _ _ hrun⟩

/-- The run that shows the exception: ten plan credits are granted, all spent, and refunded after
their lot has expired. -/
def refundAfterExpiry : List Op :=
  [ .grantLot 0 ⟨10, .PLAN, .PLAN_RENEWAL, some 100, none, none⟩,
    .debit 1 ⟨10, "scan:full_audit", none, none⟩,
    .refund none 200 1 "scan:failed" ]

/-- A replacement lot is not explained by its allocations alone: nothing is gone from it, and it
has a `REFUND` allocation of everything. -/
theorem replacement_unexplained :
    ¬ ∀ id l, (after refundAfterExpiry).ledger.lots[id]? = some l → id ∉ (after refundAfterExpiry).swept →
      l.amountGranted - l.amountRemaining = (after refundAfterExpiry).ledger.allocated .DEBIT id
        - (after refundAfterExpiry).ledger.allocated .REFUND id := by
  intro h
  have := h 1 ⟨.PLAN, .REFUND, 10, 10, some 2592000200, 200⟩ (by decide) (by decide)
  revert this
  decide

end WebAudit.Credits
