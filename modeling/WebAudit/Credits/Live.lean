import WebAudit.Credits.Operations

/-!
# The live part of a ledger

Most of a ledger is its past. What can still be spent, now or at any later time, is in
the lots that hold credits: `Ledger.live`, with the moment a lot was created erased, since
nothing that is compared here depends on it. A grant adds one lot to it, a sweep filters
it, and every balance is read off it (`balanceOf_congr`).

A grant is decided by its amount and by whether its billing event was granted already
(`grantLot_run`), a sweep by the sum it destroys (`expire_run`).
-/

namespace WebAudit.Credits

open WebAudit.Lib

/-- The lot, but for when it was created. -/
def Lot.undated (l : Lot) : Lot := { l with createdAt := 0 }

/-- The lots that hold credits. -/
def Ledger.live (s : Ledger) : List Lot := (s.lots.filter (0 < ·.amountRemaining)).map Lot.undated

/-- Whether credits were granted for this billing event. -/
def Ledger.grantedFor (s : Ledger) (event : String) : Bool := s.taken CreditTransaction.billingEventId (some event)

/-- The credits a sweep at `asOf` destroys, among some lots. -/
def due (asOf : ℤ) (lots : List Lot) : ℤ := total (·.isDue asOf) (·.amountRemaining) lots

variable {s s' : Ledger}

/-! ### The live lots under the operations -/

@[simp] theorem live_insertTransaction (t : CreditTransaction) : (s.insertTransaction t).live = s.live := rfl

theorem live_insertLot {l : Lot} (h : 0 < l.amountRemaining) : (s.insertLot l).live = s.live ++ [l.undated] := by
  simp [Ledger.live, Ledger.insertLot, h]

theorem Lot.isDue_of_empty {l : Lot} (h : ¬ 0 < l.amountRemaining) (asOf : ℤ) : l.isDue asOf = false := by
  unfold Lot.isDue
  split
  · rfl
  · simp [h]

/-- A sweep takes the lots that are due out of the live ones. -/
theorem live_sweepLots (asOf now : ℤ) : (s.sweepLots asOf now).live = s.live.filter fun l => !l.isDue asOf := by
  unfold Ledger.live Ledger.sweepLots
  dsimp only
  induction s.lots with
  | nil => rfl
  | cons l lots ih =>
    rw [List.map_cons]
    by_cases hd : l.isDue asOf
    · have hpos : 0 < l.amountRemaining := by
        by_contra h
        rw [Lot.isDue_of_empty h] at hd
        cases hd
      have hu : l.undated.isDue asOf = true := hd
      rw [List.filter_cons_of_neg (by simp [Lot.sweep, hd]), List.filter_cons_of_pos (by simpa using hpos),
        List.map_cons, List.filter_cons_of_neg (by simp [hu])]
      exact ih
    · have hsame : Lot.sweep asOf now l = l := by simp [Lot.sweep, hd]
      rw [hsame]
      by_cases hpos : 0 < l.amountRemaining
      · have hu : l.undated.isDue asOf = false := (Bool.not_eq_true _).mp hd
        rw [List.filter_cons_of_pos (by simpa using hpos), List.filter_cons_of_pos (by simpa using hpos),
          List.map_cons, List.map_cons, List.filter_cons_of_pos (by simp [hu]), ih]
      · rw [List.filter_cons_of_neg (by simpa using hpos), List.filter_cons_of_neg (by simpa using hpos)]
        exact ih

/-- What a sweep destroys is live. -/
theorem due_live (asOf : ℤ) : due asOf s.lots = due asOf s.live := by
  unfold due Ledger.live
  induction s.lots with
  | nil => rfl
  | cons l lots ih =>
    rw [total_cons]
    by_cases hpos : 0 < l.amountRemaining
    · rw [List.filter_cons_of_pos (by simpa using hpos), List.map_cons, total_cons, ih]
      rfl
    · rw [List.filter_cons_of_neg (by simpa using hpos), Lot.isDue_of_empty hpos, ih]
      simp

/-- A sweep of lots none of which is due destroys nothing. -/
theorem due_eq_zero {asOf : ℤ} {lots : List Lot} (h : ∀ l ∈ lots, l.isDue asOf = false) : due asOf lots = 0 :=
  total_eq_zero h

theorem filter_of_none_due {asOf : ℤ} {lots : List Lot} (h : ∀ l ∈ lots, l.isDue asOf = false) :
    (lots.filter fun l => !l.isDue asOf) = lots :=
  List.filter_eq_self.mpr fun l hl => by simp [h l hl]

theorem none_due_filter (asOf : ℤ) (lots : List Lot) :
    ∀ l ∈ lots.filter (fun l => !l.isDue asOf), l.isDue asOf = false := fun l hl => by
  have := (List.mem_filter.mp hl).2
  simpa using this

/-- The balance over some lots that can be spent. -/
def balanceOver (lots : List Lot) : CreditBalance :=
  { plan := ((lots.filter (·.kind = .PLAN)).map (·.amountRemaining)).sum
    purchased := ((lots.filter (·.kind = .PURCHASED)).map (·.amountRemaining)).sum
    planExpiresAt := ((lots.filter (·.kind = .PLAN)).filterMap (·.expiresAt)).min? }

theorem balanceOver_undated (lots : List Lot) : balanceOver (lots.map Lot.undated) = balanceOver lots := by
  unfold balanceOver
  simp only [List.filter_map, List.map_map, List.filterMap_map]
  rfl

theorem balanceOf_live (s : Ledger) (now : ℤ) : balanceOf s now = balanceOver (s.live.filter (·.isAlive now)) := by
  have hread : s.live.filter (·.isAlive now)
      = (s.lots.filter fun l => 0 < l.amountRemaining && l.isAlive now).map Lot.undated := by
    unfold Ledger.live
    rw [List.filter_map, List.filter_filter]
    congr 1
    refine List.filter_congr fun l _ => ?_
    simp only [Function.comp, Lot.undated, Lot.isAlive, Bool.and_comm]
  rw [hread, balanceOver_undated]
  rfl

/-- Every balance can be read off the live lots. -/
theorem balanceOf_congr (h : s.live = s'.live) (now : ℤ) : balanceOf s now = balanceOf s' now := by
  rw [balanceOf_live, balanceOf_live, h]

/-! ### What decides a grant and a sweep -/

/-- A grant for a billing event, as a function of the ledger. -/
theorem grantLot_run (now : ℤ) (input : GrantInput) {event : String} (he : input.billingEventId = some event) :
    (grantLot now input).run s =
      if input.amount ≤ 0 ∨ int4Max < input.amount then (.error .amountRange, s)
      else if s.grantedFor event then (.error (.duplicateBillingEventGrant event), s)
      else (.ok ⟨s.transactions.length, s.lots.length⟩,
        (s.insertTransaction input.transaction).insertLot (input.lot now)) := by
  unfold grantLot
  rw [Db.run_bind, Db.run_tryCatch, createTransaction_run]
  by_cases hr : input.amount ≤ 0 ∨ int4Max < input.amount
  · simp only [hr, if_true, grantConflict, he, Db.run_throw]
  · have hn : s.taken CreditTransaction.reversesId none = false := rfl
    by_cases hg : s.grantedFor event
    · have hg' : s.taken CreditTransaction.billingEventId (some event) = true := hg
      simp only [hr, if_false, he, hg, hg', or_true, if_true, grantConflict, Db.run_throw]
    · have hg' : s.taken CreditTransaction.billingEventId (some event) = false := (Bool.not_eq_true _).mp hg
      simp only [hr, if_false, he, hn, hg, hg', Bool.false_eq_true, or_self, GrantInput.transaction]
      rfl

theorem grantedFor_insertTransaction (t : CreditTransaction) (event : String) :
    (s.insertTransaction t).grantedFor event = (s.grantedFor event || t.billingEventId == some event) := by
  simp [Ledger.grantedFor, Ledger.taken, Ledger.insertTransaction]

@[simp] theorem grantedFor_insertLot (l : Lot) (event : String) : (s.insertLot l).grantedFor event = s.grantedFor event := rfl

@[simp] theorem grantedFor_sweepLots (asOf now : ℤ) (event : String) :
    (s.sweepLots asOf now).grantedFor event = s.grantedFor event := rfl

/-- A sweep that ends with a value. -/
theorem expire_live {asOf now : ℤ} {r : ExpiryResult} (h : (expireRenewedLots asOf now).run s = (.ok r, s')) :
    s'.live = (s.live.filter fun l => !l.isDue asOf) ∧ due asOf s.live ≤ int4Max ∧
      ∀ event, s'.grantedFor event = s.grantedFor event := by
  rcases expireRenewedLots_ok h with ⟨he, hnone⟩ | ⟨t, -, hb, -, hle, hamount, rfl⟩
  · subst he
    have hall : ∀ l ∈ s'.lots, l.isDue asOf = false := fun l hl => by
      simpa using List.filter_eq_nil_iff.mp hnone l hl
    have hlive : ∀ l ∈ s'.live, l.isDue asOf = false := fun l hl => by
      obtain ⟨m, hm, rfl⟩ := List.mem_map.mp hl
      exact hall m (List.mem_filter.mp hm).1
    refine ⟨(filter_of_none_due hlive).symm, ?_, fun _ => rfl⟩
    rw [due_eq_zero hlive]
    decide
  · refine ⟨live_sweepLots asOf now, ?_, fun event => ?_⟩
    · rw [← due_live, due, ← hamount]
      exact hle
    · rw [grantedFor_insertTransaction, hb]
      simp

/-- A sweep ends with a value if what it destroys fits the column. -/
theorem expire_runs {asOf : ℤ} (now : ℤ) (h : due asOf s.live ≤ int4Max) :
    ∃ r s', (expireRenewedLots asOf now).run s = (.ok r, s') := by
  unfold expireRenewedLots
  rw [Db.run_transaction, Db.run_get_bind]
  dsimp only
  by_cases hd : (s.lots.filter (·.isDue asOf)).length = 0
  · rw [if_pos hd]
    exact ⟨_, _, rfl⟩
  have hle : due asOf s.lots ≤ int4Max := due_live (s := s) asOf ▸ h
  have hpos : 0 < due asOf s.lots := by
    obtain ⟨l, hl⟩ := List.exists_mem_of_length_pos (Nat.pos_of_ne_zero hd)
    have hsum : 0 < ((s.lots.filter (·.isDue asOf)).map (·.amountRemaining)).sum := by
      refine List.sum_pos _ (fun x hx => ?_) (by simpa using hd)
      obtain ⟨m, hm, rfl⟩ := List.mem_map.mp hx
      by_contra hn
      have := (List.mem_filter.mp hm).2
      rw [Lot.isDue_of_empty hn] at this
      cases this
    exact hsum
  have hrange : ¬ (((s.lots.filter (·.isDue asOf)).map (·.amountRemaining)).sum ≤ 0
      ∨ int4Max < ((s.lots.filter (·.isDue asOf)).map (·.amountRemaining)).sum) := by
    show ¬ (due asOf s.lots ≤ 0 ∨ int4Max < due asOf s.lots)
    omega
  rw [if_neg hd, Db.run_modify_bind, Db.run_bind, createTransaction_run]
  dsimp only
  rw [if_neg hrange, if_neg (by simp [Ledger.taken])]
  exact ⟨_, _, rfl⟩

end WebAudit.Credits
