import Mathlib.Data.List.Induction
import WebAudit.Credits.Landing
import WebAudit.Credits.SpendingOrder

/-!
# Expiry is final

A sweep empties the lots that are due and moves their boundary back to the moment it
reads, or earlier. A refund that comes later reads a clock that shows no less, so it finds
the lot dead, and what it owes to it goes into another lot of the kind.

This takes that the clock readings made under the row locks, those of sweeps and refunds,
do not go back (`Op.InOrder`). The boundary `asOf` of a sweep may be anything, and so may
the other readings.
-/

namespace WebAudit.Credits

open WebAudit.Lib

variable {s s' : Ledger}

/-- The clock reading an operation makes under the row locks. -/
def Op.lockedAt : Op → Option ℤ
  | .refundPartial _ now _ | .refund _ now _ _ | .expireRenewedLots _ now => some now
  | _ => none

/-- The readings of a run. -/
def lockReadings (ops : List Op) : List ℤ := ops.filterMap Op.lockedAt

/-- The clock does not go back. -/
def Op.InOrder (ops : List Op) : Prop := (lockReadings ops).Pairwise (· ≤ ·)

/-- What is known of the lots that were swept: each was swept once, is empty, and died no later than a reading
made so far. -/
structure Buried (readings : List ℤ) (h : History) : Prop where
  once : h.swept.Nodup
  empty : ∀ id ∈ h.swept, ∃ l, h.ledger.lots[id]? = some l ∧ l.amountRemaining = 0 ∧
    ∃ t, l.expiresAt = some t ∧ ∃ u ∈ readings, t ≤ u

/-- A lot that was swept is dead to whoever reads the clock later. -/
theorem Buried.dead {readings : List ℤ} {h : History} (hb : Buried readings h) {now : ℤ} (hnow : ∀ u ∈ readings, u ≤ now)
    {id : ℕ} (hid : id ∈ h.swept) {l : Lot} (hl : h.ledger.lots[id]? = some l) : l.isAlive now = false := by
  obtain ⟨l', hl', -, t, ht, u, hu, htu⟩ := hb.empty id hid
  obtain rfl : l = l' := Option.some.inj (hl.symm.trans hl')
  have := hnow u hu
  unfold Lot.isAlive
  rw [ht]
  simp only [decide_eq_false_iff_not]
  omega

/-- Operations that leave the swept lots alone. -/
theorem Buried.unchanged {readings : List ℤ} {swept replacements replacements' : List ℕ}
    (hb : Buried readings ⟨s, swept, replacements⟩) (hsame : ∀ id ∈ swept, ∀ l, s.lots[id]? = some l → s'.lots[id]? = some l)
    {readings' : List ℤ} (hr : ∀ u ∈ readings, u ∈ readings') : Buried readings' ⟨s', swept, replacements'⟩ where
  once := hb.once
  empty id hid := by
    obtain ⟨l, hl, hz, t, ht, u, hu, htu⟩ := hb.empty id hid
    exact ⟨l, hsame id hid l hl, hz, t, ht, u, hr u hu, htu⟩

/-- Nothing is allocated to a lot that is dead. -/
theorem Landed.dead {refundId : ℕ} {now : ℤ} {shares : List (CreditAllocation × ℤ)} {news : List CreditAllocation}
    (h : Landed s s' refundId now shares news) {id : ℕ} {l : Lot} (hl : s.lots[id]? = some l)
    (hdead : l.isAlive now = false) : s'.lots[id]? = some l := by
  have hnone : credited news id = 0 := by
    apply total_eq_zero
    intro a ha
    simp only [decide_eq_false_iff_not]
    rintro rfl
    rw [h.alive a ha l hl] at hdead
    cases hdead
  rw [h.old id l hl, hnone, add_zero]

/-- What a sweep does to one lot. -/
theorem sweep_lot (asOf now : ℤ) {id : ℕ} {l : Lot} (hl : s.lots[id]? = some l) :
    (s.sweepLots asOf now).lots[id]? = some (l.sweep asOf now) := by
  unfold Ledger.sweepLots
  rw [List.getElem?_map, hl]
  rfl

/-- A lot that is due is empty and dead afterwards. -/
theorem sweep_due {asOf : ℤ} (now : ℤ) {l : Lot} (h : l.isDue asOf = true) :
    (l.sweep asOf now).amountRemaining = 0 ∧ ∃ t, (l.sweep asOf now).expiresAt = some t ∧ t ≤ now := by
  unfold Lot.sweep
  rw [if_pos h]
  refine ⟨rfl, ?_⟩
  unfold Lot.isDue at h
  rcases ht : l.expiresAt with _ | t <;> rw [ht] at h
  · cases h
  · refine ⟨if min asOf now < t then min asOf now else t, rfl, ?_⟩
    split <;> omega

theorem not_due_of_empty {l : Lot} (h : l.amountRemaining = 0) (asOf : ℤ) : l.isDue asOf = false := by
  unfold Lot.isDue
  rcases l.expiresAt with _ | t
  · rfl
  · simp [h]

/-- The lots a sweep takes are due, each of them once. -/
theorem mem_sweeps {asOf now : ℤ} {id : ℕ} (h : id ∈ Op.sweeps s (.expireRenewedLots asOf now)) :
    ∃ l, s.lots[id]? = some l ∧ l.isDue asOf = true := by
  obtain ⟨⟨l, i⟩, hp, rfl⟩ := List.mem_map.mp h
  obtain ⟨hz, hdue⟩ := List.mem_filter.mp hp
  exact ⟨l, List.mem_zipIdx_iff_getElem?.mp hz, hdue⟩

theorem sweeps_nodup (s : Ledger) (asOf now : ℤ) : (Op.sweeps s (.expireRenewedLots asOf now)).Nodup := by
  have hz : (s.lots.zipIdx.map (·.2)).Nodup := by
    rw [show s.lots.zipIdx.map (·.2) = List.range' 0 s.lots.length from List.zipIdx_map_snd 0 s.lots]
    exact List.nodup_range' (h := by decide)
  exact hz.sublist (List.filter_sublist.map _)

/-- The lots a debit does not take from are as they were. -/
theorem debit_empty {now : ℤ} {input : DebitInput} {d : ℕ} (hrun : (debit now input).run s = (.ok d, s')) {id : ℕ}
    {l : Lot} (hl : s.lots[id]? = some l) (hz : l.amountRemaining = 0) : s'.lots[id]? = some l := by
  obtain ⟨hpos, -, rfl, t, -, -, rfl⟩ := debit_ok hrun
  obtain ⟨l', hl', -, hsame⟩ := takeFrom_drawn s.transactions.length (s := s.insertTransaction t) (s.spendable now)
    hpos.le (fun p hp => (mem_spendable hp).2.1) hl
  rw [hl', hsame]
  intro hmem
  obtain ⟨p, hp, rfl⟩ := List.mem_map.mp hmem
  obtain ⟨hl₁, hheld, -⟩ := mem_spendable hp
  obtain rfl : p.1 = l := Option.some.inj (hl₁.symm.trans hl)
  omega

/-- **Every operation leaves the swept lots buried**, if it reads the clock no earlier than those before it. -/
theorem Buried.apply {readings : List ℤ} {h : History} (hs : Sound h) (hb : Buried readings h) (op : Op)
    (hnow : ∀ now, op.lockedAt = some now → ∀ u ∈ readings, u ≤ now) :
    Buried (readings ++ op.lockedAt.toList) (op.apply h) := by
  have hmore : ∀ u ∈ readings, u ∈ readings ++ op.lockedAt.toList := fun u hu => List.mem_append_left _ hu
  obtain ⟨s, swept, replacements⟩ := h
  unfold Op.apply
  rcases hrun : op.exec.run s with ⟨e | u, s'⟩
  · obtain rfl := op.exec_safe _ _ _ hrun
    exact hb.unchanged (fun id _ l hl => hl) hmore
  cases op with
  | grantLot now input =>
    obtain ⟨r, hr⟩ := drop_ok hrun
    obtain ⟨-, -, rfl⟩ := grantLot_ok hr
    refine hb.unchanged (fun id _ l hl => ?_) hmore
    show (s.lots ++ [_])[id]? = some l
    rw [List.getElem?_append_left (List.getElem?_eq_some_iff.mp hl).1]
    exact hl
  | debit now input =>
    obtain ⟨r, hr⟩ := drop_ok hrun
    refine hb.unchanged (fun id hid l hl => ?_) hmore
    obtain ⟨l', hl', hz, -⟩ := hb.empty id hid
    obtain rfl : l = l' := Option.some.inj (hl.symm.trans hl')
    exact debit_empty hr hl hz
  | refundPartial periodEnd now input =>
    obtain ⟨r, hr⟩ := drop_ok hrun
    obtain ⟨shares, news, -, -, -, hlanded⟩ := refundPartial_landed hs hr
    exact hb.unchanged (fun id hid l hl => hlanded.dead hl (hb.dead (hnow now rfl) hid hl)) hmore
  | refund periodEnd now d reason =>
    obtain ⟨r, hr⟩ := drop_ok hrun
    obtain ⟨original, -, hr'⟩ := refund_ok hr
    obtain ⟨shares, news, -, -, -, hlanded⟩ := refundPartial_landed hs hr'
    exact hb.unchanged (fun id hid l hl => hlanded.dead hl (hb.dead (hnow now rfl) hid hl)) hmore
  | expireRenewedLots asOf now =>
    obtain ⟨r, hr⟩ := drop_ok hrun
    rcases expireRenewedLots_ok hr with ⟨rfl, hnone⟩ | ⟨t, -, -, -, -, -, rfl⟩
    · -- nothing was due
      have hsweeps : Op.sweeps s' (.expireRenewedLots asOf now) = [] := by
        refine List.eq_nil_iff_forall_not_mem.mpr fun id hid => ?_
        obtain ⟨l, hl, hdue⟩ := mem_sweeps hid
        exact List.filter_eq_nil_iff.mp hnone l (List.mem_of_getElem? hl) hdue
      rw [hsweeps]
      exact hb.unchanged (fun id _ l hl => hl) hmore
    · constructor
      · refine List.nodup_append.mpr ⟨sweeps_nodup s asOf now, hb.once, fun id hid id' hid' e => ?_⟩
        subst e
        obtain ⟨l, hl, hdue⟩ := mem_sweeps hid
        obtain ⟨l', hl', hz, -⟩ := hb.empty id hid'
        obtain rfl : l = l' := Option.some.inj (hl.symm.trans hl')
        rw [not_due_of_empty hz] at hdue
        cases hdue
      · intro id hid
        rcases List.mem_append.mp hid with hid | hid
        · obtain ⟨l, hl, hdue⟩ := mem_sweeps hid
          obtain ⟨hz, t', ht', hle⟩ := sweep_due now hdue
          exact ⟨_, sweep_lot asOf now hl, hz, t', ht', now, by simp [Op.lockedAt], hle⟩
        · obtain ⟨l, hl, hz, t', ht', u, hu, htu⟩ := hb.empty id hid
          have hkept : l.sweep asOf now = l := by
            unfold Lot.sweep
            rw [if_neg (by rw [not_due_of_empty hz]; exact Bool.false_ne_true)]
          refine ⟨l, ?_, hz, t', ht', u, hmore u hu, htu⟩
          show (s.sweepLots asOf now).lots[id]? = some l
          rw [sweep_lot asOf now hl, hkept]

/-- The lots swept so far stay swept. -/
theorem swept_mono (op : Op) (h : History) : ∀ id ∈ h.swept, id ∈ (op.apply h).swept := by
  intro id hid
  unfold Op.apply
  rcases op.exec.run h.ledger with ⟨e | u, s'⟩
  · exact hid
  · exact List.mem_append_right _ hid

theorem after_concat (ops : List Op) (op : Op) : after (ops ++ [op]) = op.apply (after ops) := by
  unfold after
  rw [List.foldl_append]
  rfl

theorem lockReadings_concat (ops : List Op) (op : Op) : lockReadings (ops ++ [op]) = lockReadings ops ++ op.lockedAt.toList := by
  unfold lockReadings
  rw [List.filterMap_append]
  rcases h : op.lockedAt with _ | now <;> simp [h]

/-- After every run in which the clock does not go back. -/
theorem after_buried {ops : List Op} (h : Op.InOrder ops) : Buried (lockReadings ops) (after ops) := by
  induction ops using List.reverseRecOn with
  | nil => exact ⟨List.nodup_nil, fun id hid => nomatch hid⟩
  | append_singleton ops op ih =>
    unfold Op.InOrder at h ih
    rw [lockReadings_concat] at h ⊢
    rw [after_concat]
    obtain ⟨h₁, -, h₂⟩ := List.pairwise_append.mp h
    refine Buried.apply (after_sound ops) (ih h₁) op fun now hnow u hu => h₂ u hu now ?_
    rw [hnow]
    exact List.mem_singleton.mpr rfl

theorem after_append_swept (ops ops' : List Op) : ∀ id ∈ (after ops).swept, id ∈ (after (ops ++ ops')).swept := by
  induction ops' using List.reverseRecOn with
  | nil =>
    rw [List.append_nil]
    exact fun id hid => hid
  | append_singleton ops' op ih =>
    intro id hid
    rw [← List.append_assoc, after_concat]
    exact swept_mono op _ id (ih id hid)

/-- **Expiry is final**: a lot is swept once, and is empty ever after. A refund that follows puts nothing on it;
what the refund is worth is shared among the allocations of the debit, and of each kind as much is put on lots of
that kind, once, as the shares of lots of that kind. -/
theorem expiry_is_final (ops : List Op) (h : Op.InOrder ops) :
    (after ops).swept.Nodup ∧
    (∀ before rest, ops = before ++ rest → ∀ id ∈ (after before).swept,
      ∃ l, (after ops).ledger.lots[id]? = some l ∧ l.amountRemaining = 0) ∧
    ∀ (periodEnd : Option ℤ) (now : ℤ) (input : RefundInput) (id : ℕ) (s' : Ledger),
      (∀ u ∈ lockReadings ops, u ≤ now) → (refundPartial periodEnd now input).run (after ops).ledger = (.ok id, s') →
      ∃ (shares : List (CreditAllocation × ℤ)) (news : List CreditAllocation),
        shares.map (·.1) = (after ops).ledger.allocationsOf input.debitTransactionId ∧ (∀ p ∈ shares, 0 ≤ p.2) ∧
        (shares.map (·.2)).sum = input.credits ∧ Landed (after ops).ledger s' id now shares news ∧
        ∀ a ∈ news, a.lotId ∉ (after ops).swept := by
  have hb := after_buried h
  refine ⟨hb.once, ?_, ?_⟩
  · rintro before rest rfl id hid
    obtain ⟨l, hl, hz, -⟩ := hb.empty id (after_append_swept before rest id hid)
    exact ⟨l, hl, hz⟩
  · intro periodEnd now input id s' hnow hrun
    obtain ⟨shares, news, hfst, hnonneg, hsum, hlanded⟩ := refundPartial_landed (after_sound ops) hrun
    refine ⟨shares, news, hfst, hnonneg, hsum, hlanded, fun a ha hid => ?_⟩
    obtain ⟨l, hl, -⟩ := hb.empty a.lotId hid
    have hdead := hb.dead hnow hid hl
    rw [hlanded.alive a ha l hl] at hdead
    cases hdead

/-- Plan credits are granted and spent in part, the rest is swept before its time, and the debit is refunded. -/
def sweptEarly : List Op :=
  [ .grantLot 0 ⟨10, .PLAN, .PLAN_RENEWAL, some 100, none, none⟩,
    .debit 1 ⟨4, "scan:full_audit", none, none⟩,
    .expireRenewedLots 100 50,
    .refund none 60 1 "scan:failed" ]

theorem expiry_is_final_sweptEarly : ((after sweptEarly).swept = [0] ∧ (after sweptEarly).swept.Nodup) ∧
    (after sweptEarly).ledger.lots.map (fun l => (l.kind, l.amountRemaining)) = [(.PLAN, 0), (.PLAN, 4)] :=
  ⟨⟨by decide, (expiry_is_final sweptEarly (show (lockReadings sweptEarly).Pairwise (· ≤ ·) by decide)).1⟩, by decide⟩

end WebAudit.Credits
