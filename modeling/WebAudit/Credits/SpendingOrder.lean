import WebAudit.Credits.Adjust
import WebAudit.Credits.Conservation

/-!
# Plan credits are spent before purchased ones

A debit takes the lots that are alive in one order: those that expire first before the
others, those that never expire last, and of two that expire together plan credits before
purchased ones. What it takes is a front part of that order, each lot emptied but the last
(`takeFrom_front`).

So purchased credits are only touched when no plan credits are left, provided that no
purchased lot carries an expiry (`Permanent`). `grantLot` does not check this; every caller
grants purchased credits without an expiry, and `adjustCredits` refuses others. Refunds and
sweeps keep it (`plan_before_purchase`).
-/

namespace WebAudit.Credits

open WebAudit.Lib

variable {s s' : Ledger}

/-! ### The order -/

theorem spentBefore_total (l m : Lot) : l.spentBefore m = true ∨ m.spentBefore l = true := by
  unfold Lot.spentBefore Lot.spentBefore.tie
  rcases l.expiresAt with _ | t <;> rcases m.expiresAt with _ | u <;> rcases l.kind with _ | _ <;>
    rcases m.kind with _ | _ <;> simp <;> omega

theorem spentBefore_trans {l m n : Lot} (h : l.spentBefore m = true) (h' : m.spentBefore n = true) :
    l.spentBefore n = true := by
  revert h h'
  unfold Lot.spentBefore Lot.spentBefore.tie
  rcases l.expiresAt with _ | t <;> rcases m.expiresAt with _ | u <;> rcases n.expiresAt with _ | v <;>
    rcases l.kind with _ | _ <;> rcases m.kind with _ | _ <;> rcases n.kind with _ | _ <;> simp <;> omega

/-- The lots a debit locks are in the order they are spent in. -/
theorem spendable_sorted (s : Ledger) (now : ℤ) :
    (s.spendable now).Pairwise fun p q => p.1.spentBefore q.1 = true := by
  have htotal : Std.Total fun p q : Lot × ℕ => p.1.spentBefore q.1 = true := ⟨fun p q => spentBefore_total p.1 q.1⟩
  have htrans : IsTrans (Lot × ℕ) fun p q => p.1.spentBefore q.1 = true := ⟨fun _ _ _ => spentBefore_trans⟩
  exact List.pairwise_insertionSort _ _

/-- A lot that is alive and holds credits is among them. -/
theorem mem_spendable_of {now : ℤ} {id : ℕ} {l : Lot} (hl : s.lots[id]? = some l) (hpos : 0 < l.amountRemaining)
    (halive : l.isAlive now = true) : (l, id) ∈ s.spendable now := by
  refine (List.perm_insertionSort _ _).mem_iff.mpr (List.mem_filter.mpr ⟨List.mem_zipIdx_iff_getElem?.mpr hl, ?_⟩)
  simp [hpos, halive]

/-- Credits that expire at `a` die no later than credits that expire at `b`. -/
def diesNoLater (a b : Option ℤ) : Prop :=
  match a, b with
  | some t, some u => t ≤ u
  | some _, none => True
  | none, none => True
  | none, some _ => False

theorem diesNoLater_of_spentBefore {l m : Lot} (h : l.spentBefore m = true) : diesNoLater l.expiresAt m.expiresAt := by
  unfold Lot.spentBefore at h
  rcases hl : l.expiresAt with _ | t <;> rcases hm : m.expiresAt with _ | u <;> rw [hl, hm] at h
  · trivial
  · cases h
  · trivial
  · show t ≤ u
    simp only [Bool.or_eq_true, decide_eq_true_eq, Bool.and_eq_true, beq_iff_eq] at h
    omega

/-! ### What a debit takes -/

/-- The lot as it was, but for what remains in it, which is no more. -/
def Lot.DrawnTo (l l' : Lot) : Prop :=
  l' = { l with amountRemaining := l'.amountRemaining } ∧ l'.amountRemaining ≤ l.amountRemaining

theorem Lot.DrawnTo.refl (l : Lot) : l.DrawnTo l := ⟨rfl, le_rfl⟩

theorem Lot.DrawnTo.trans {l m n : Lot} (h : l.DrawnTo m) (h' : m.DrawnTo n) : l.DrawnTo n := by
  obtain ⟨e, hle⟩ := h
  obtain ⟨e', hle'⟩ := h'
  refine ⟨?_, hle'.trans hle⟩
  rw [e', e]

/-- What the loop leaves of each lot. -/
theorem takeFrom_drawn (txId : ℕ) (lots : List (Lot × ℕ)) {n : ℤ} (h₀ : 0 ≤ n)
    (hlots : ∀ p ∈ lots, 0 < p.1.amountRemaining) {id : ℕ} {l : Lot} (hl : s.lots[id]? = some l) :
    ∃ l', (takeFrom txId lots n s).lots[id]? = some l' ∧ l.DrawnTo l' ∧ (id ∉ lots.map (·.2) → l' = l) := by
  induction lots generalizing n s l with
  | nil => exact ⟨l, hl, .refl l, fun _ => rfl⟩
  | cons p lots ih =>
    obtain ⟨m, k⟩ := p
    have hm : 0 < m.amountRemaining := hlots (m, k) (List.mem_cons_self ..)
    unfold takeFrom
    by_cases hz : n = 0
    · rw [if_pos hz]
      exact ⟨l, hl, .refl l, fun _ => rfl⟩
    rw [if_neg hz]
    have hrest : ∀ q ∈ lots, 0 < q.1.amountRemaining := fun q hq => hlots q (List.mem_cons_of_mem _ hq)
    by_cases e : k = id
    · subst e
      have hl₁ : ((s.decrementLot k (min m.amountRemaining n)).insertAllocation ⟨txId, k, min m.amountRemaining n⟩).lots[k]?
          = some { l with amountRemaining := l.amountRemaining - min m.amountRemaining n } := by
        simp [Ledger.insertAllocation, Ledger.decrementLot, hl]
      obtain ⟨l', hl', hdrawn, -⟩ := ih (n := n - min m.amountRemaining n) (by omega) hrest hl₁
      refine ⟨l', hl', Lot.DrawnTo.trans ⟨rfl, ?_⟩ hdrawn, fun hno => absurd (List.mem_cons_self ..) hno⟩
      show l.amountRemaining - min m.amountRemaining n ≤ l.amountRemaining
      omega
    · have hl₁ : ((s.decrementLot k (min m.amountRemaining n)).insertAllocation ⟨txId, k, min m.amountRemaining n⟩).lots[id]?
          = some l := by
        simpa [Ledger.insertAllocation, Ledger.decrementLot, List.getElem?_modify_ne _ _ e] using hl
      obtain ⟨l', hl', hdrawn, hsame⟩ := ih (n := n - min m.amountRemaining n) (by omega) hrest hl₁
      exact ⟨l', hl', hdrawn, fun hno => hsame fun hmem => hno (List.mem_cons_of_mem _ hmem)⟩

/-- **The front of the order**: the loop takes from the first lots, one allocation each and in turn, and
empties all of them but the last. -/
theorem takeFrom_front (txId : ℕ) (lots : List (Lot × ℕ)) {n : ℤ} (h₀ : 0 ≤ n)
    (hlots : ∀ p ∈ lots, s.lots[p.2]? = some p.1 ∧ 0 < p.1.amountRemaining) (hnd : (lots.map (·.2)).Nodup) :
    ∃ (news : List CreditAllocation) (k : ℕ), k ≤ lots.length ∧
      (takeFrom txId lots n s).allocations = s.allocations ++ news ∧ news.map (·.lotId) = (lots.take k).map (·.2) ∧
      (∀ (j : ℕ) p, lots[j]? = some p → j + 1 < k →
        ∃ l', (takeFrom txId lots n s).lots[p.2]? = some l' ∧ l'.amountRemaining = 0) := by
  induction lots generalizing n s with
  | nil => exact ⟨[], 0, le_rfl, by simp [takeFrom], rfl, fun j p hp => by simp at hp⟩
  | cons p lots ih =>
    obtain ⟨m, id⟩ := p
    obtain ⟨hm, hpos⟩ := hlots (m, id) (List.mem_cons_self ..)
    dsimp only at hm hpos
    unfold takeFrom
    by_cases hz : n = 0
    · rw [if_pos hz]
      exact ⟨[], 0, Nat.zero_le _, by simp, rfl, fun j p _ hj => by omega⟩
    rw [if_neg hz]
    simp only [List.map_cons, List.nodup_cons] at hnd
    set s₁ := (s.decrementLot id (min m.amountRemaining n)).insertAllocation ⟨txId, id, min m.amountRemaining n⟩ with hs₁
    have hrest : ∀ q ∈ lots, s₁.lots[q.2]? = some q.1 ∧ 0 < q.1.amountRemaining := fun q hq => by
      obtain ⟨hq₁, hq₂⟩ := hlots q (List.mem_cons_of_mem _ hq)
      have hne : id ≠ q.2 := fun e => hnd.1 (e ▸ List.mem_map_of_mem hq)
      exact ⟨by simpa [hs₁, Ledger.insertAllocation, Ledger.decrementLot, List.getElem?_modify_ne _ _ hne] using hq₁, hq₂⟩
    obtain ⟨news, k, hk, ha, hids, hempty⟩ := ih (n := n - min m.amountRemaining n) (s := s₁) (by omega) hrest hnd.2
    refine ⟨⟨txId, id, min m.amountRemaining n⟩ :: news, k + 1, Nat.succ_le_succ hk, ?_, ?_, ?_⟩
    · dsimp only
      rw [ha, hs₁]
      simp [Ledger.insertAllocation, Ledger.decrementLot]
    · simp [hids]
    · intro j p hp hj
      cases j with
      | zero =>
        obtain rfl : (m, id) = p := by simpa using hp
        have hid : s₁.lots[id]? = some { m with amountRemaining := m.amountRemaining - min m.amountRemaining n } := by
          simp [hs₁, Ledger.insertAllocation, Ledger.decrementLot, hm]
        obtain ⟨l', hl', -, hsame⟩ := takeFrom_drawn txId lots (n := n - min m.amountRemaining n) (by omega)
          (fun q hq => (hrest q hq).2) hid
        refine ⟨l', hl', ?_⟩
        rw [hsame hnd.1]
        -- something was left to take from the next lot, so this one gave all it had
        have hmore : n - min m.amountRemaining n ≠ 0 := by
          intro hdone
          rw [hdone] at ha
          have hnone : news = [] := by
            have hdone' : takeFrom txId lots 0 s₁ = s₁ := by cases lots <;> simp [takeFrom]
            rw [hdone'] at ha
            simpa using ha
          have hlen := congrArg List.length hids
          rw [hnone, List.map_nil, List.length_nil, List.length_map, List.length_take] at hlen
          omega
        show m.amountRemaining - min m.amountRemaining n = 0
        omega
      | succ j => exact hempty j p (by simpa using hp) (by omega)

/-! ### Purchased credits never expire -/

/-- No lot of purchased credits carries an expiry. -/
def Permanent (s : Ledger) : Prop := ∀ l ∈ s.lots, l.kind = .PURCHASED → l.expiresAt = none

/-- A grant as the callers of `grantLot` make it. -/
def GrantInput.IsLawful (input : GrantInput) : Prop := input.kind = .PURCHASED → input.expiresAt = none

theorem Permanent.append (h : Permanent s) {l : Lot} (hl : l.kind = .PURCHASED → l.expiresAt = none) :
    Permanent (s.insertLot l) := by
  intro m hm hk
  rcases List.mem_append.mp hm with hm | hm
  · exact h m hm hk
  · obtain rfl := List.mem_singleton.mp hm
    exact hl hk

/-- Changing what remains in a lot changes neither its kind nor its expiry. -/
theorem Permanent.modify (h : Permanent s) (id : ℕ) (f : ℤ → ℤ) (allocations : List CreditAllocation) :
    Permanent { s with
      lots := s.lots.modify id fun l => { l with amountRemaining := f l.amountRemaining }
      allocations := allocations } := by
  apply forall_mem_modify (P := fun l : Lot => l.kind = .PURCHASED → l.expiresAt = none) h
  exact fun _ hl => hl

theorem Permanent.takeFrom (txId : ℕ) (lots : List (Lot × ℕ)) (n : ℤ) (h : Permanent s) :
    Permanent (takeFrom txId lots n s) := by
  induction lots generalizing n s with
  | nil => exact h
  | cons p lots ih =>
    unfold Credits.takeFrom
    split
    · exact h
    · exact ih _ (h.modify p.2 (fun r => r - min p.1.amountRemaining n) _)

/-- What a refund owes in purchased credits never expires. -/
def OwedPermanent (orphans : List Orphan) : Prop := ∀ o ∈ orphans, o.kind = .PURCHASED → o.expiresAt = none

theorem OwedPermanent.addOrphan {orphans : List Orphan} (h : OwedPermanent orphans) (periodEnd : Option ℤ) (now : ℤ)
    (kind : CreditKind) (sourceExpiresAt : Option ℤ) (n : ℤ) :
    OwedPermanent (addOrphan periodEnd now kind sourceExpiresAt n orphans) := by
  have hadd : ∀ (expiresAt : Option ℤ), (kind = .PURCHASED → expiresAt = none) →
      OwedPermanent (addToOrphans kind expiresAt n orphans) := by
    intro expiresAt hk
    induction orphans with
    | nil =>
      intro o ho hp
      obtain rfl := List.mem_singleton.mp ho
      exact hk hp
    | cons p orphans ih =>
      have hrest : OwedPermanent orphans := fun o ho => h o (List.mem_cons_of_mem _ ho)
      unfold addToOrphans
      split
      · intro o ho hp
        rcases List.mem_cons.mp ho with rfl | ho
        · exact h p (List.mem_cons_self ..) hp
        · exact hrest o ho hp
      · intro o ho hp
        rcases List.mem_cons.mp ho with rfl | ho
        · exact h _ (List.mem_cons_self ..) hp
        · exact ih hrest o ho hp
  unfold Credits.addOrphan
  split
  · exact h
  · apply hadd
    rintro rfl
    rfl

/-- One share given back. -/
theorem Permanent.returnShare (locked : List Lot) {acc : Ledger × List Orphan} (h : Permanent acc.1)
    (ho : OwedPermanent acc.2) (refundId : ℕ) (periodEnd : Option ℤ) (now : ℤ) (p : CreditAllocation × ℤ) :
    Permanent (returnShare locked refundId periodEnd now acc p).1 ∧
      OwedPermanent (returnShare locked refundId periodEnd now acc p).2 := by
  unfold Credits.returnShare
  split
  · exact ⟨h, ho⟩
  rcases locked[p.1.lotId]? with _ | lot
  · exact ⟨h, ho⟩
  dsimp only
  split
  · dsimp only
    refine ⟨?_, ho.addOrphan _ _ _ _ _⟩
    split
    · exact h.modify p.1.lotId (fun r => r + _) _
    · exact h
  · exact ⟨h, ho.addOrphan _ _ _ _ _⟩

theorem Permanent.giveBackShares (h : Permanent s) (refundId : ℕ) (periodEnd : Option ℤ) (now : ℤ)
    (shares : List (CreditAllocation × ℤ)) : Permanent (giveBackShares refundId periodEnd now shares s) := by
  have hwalk : ∀ (locked : List Lot) (acc : Ledger × List Orphan), Permanent acc.1 → OwedPermanent acc.2 →
      Permanent (shares.foldl (Credits.returnShare locked refundId periodEnd now) acc).1 ∧
        OwedPermanent (shares.foldl (Credits.returnShare locked refundId periodEnd now) acc).2 := by
    intro locked
    induction shares with
    | nil => exact fun acc h ho => ⟨h, ho⟩
    | cons p shares ih =>
      intro acc h ho
      obtain ⟨h', ho'⟩ := h.returnShare locked ho refundId periodEnd now p
      exact ih _ h' ho'
  have hreplace : ∀ (orphans : List Orphan) (u : Ledger), Permanent u → OwedPermanent orphans →
      Permanent (orphans.foldl (replaceOrphan refundId now) u) := by
    intro orphans
    induction orphans with
    | nil => exact fun u hu _ => hu
    | cons o orphans ih =>
      intro u hu ho
      exact ih _ (hu.append (ho o (List.mem_cons_self ..))) fun q hq => ho q (List.mem_cons_of_mem _ hq)
  obtain ⟨h₁, h₂⟩ := hwalk s.lots (s, []) h fun o ho => nomatch ho
  exact hreplace _ _ h₁ h₂

theorem Permanent.sweepLots (h : Permanent s) (asOf now : ℤ) : Permanent (s.sweepLots asOf now) := by
  intro m hm hk
  obtain ⟨l, hl, rfl⟩ := List.mem_map.mp hm
  unfold Lot.sweep at hk ⊢
  split
  · rename_i hdue
    rw [if_pos hdue] at hk
    rw [h l hl hk]
    rfl
  · rename_i hdue
    rw [if_neg hdue] at hk
    exact h l hl hk

/-! ### The law -/

/-- An operation of the ledger, or an adjustment by an operator. -/
inductive Movement where
  | run (op : Op)
  | adjust (known : Bool) (now : ℤ) (input : AdjustCreditsInput)
  deriving DecidableEq

/-- The ledger after a movement; one that throws leaves it alone. -/
def Movement.apply (m : Movement) (s : Ledger) : Ledger :=
  match m with
  | .run op => (op.exec.run s).2
  | .adjust known now input => ((adjustCredits known now input).run s).2

/-- Grants are made as the callers of `grantLot` make them. -/
def Movement.IsLawful : Movement → Prop
  | .run (.grantLot _ input) => input.IsLawful
  | _ => True

/-- The ledger after a run. -/
def afterMovements (ms : List Movement) : Ledger := ms.foldl (fun s m => m.apply s) .empty

theorem Permanent.exec {op : Op} {u : Unit} (h : Permanent s) (hop : (Movement.run op).IsLawful)
    (hrun : op.exec.run s = (.ok u, s')) : Permanent s' := by
  cases op with
  | grantLot now input =>
    obtain ⟨r, hr⟩ := drop_ok hrun
    obtain ⟨-, -, rfl⟩ := grantLot_ok hr
    exact Permanent.append (s := s.insertTransaction input.transaction) h hop
  | debit now input =>
    obtain ⟨r, hr⟩ := drop_ok hrun
    obtain ⟨-, -, -, t, -, -, rfl⟩ := debit_ok hr
    exact Permanent.takeFrom (s := s.insertTransaction t) _ _ _ h
  | refundPartial periodEnd now input =>
    obtain ⟨r, hr⟩ := drop_ok hrun
    obtain ⟨-, t, -, -, -, -, -, -, -, -, -, rfl⟩ := refundPartial_ok hr
    exact Permanent.giveBackShares (s := s.insertTransaction t) h _ _ _ _
  | refund periodEnd now id reason =>
    obtain ⟨r, hr⟩ := drop_ok hrun
    obtain ⟨original, -, hr'⟩ := refund_ok hr
    obtain ⟨-, t, -, -, -, -, -, -, -, -, -, rfl⟩ := refundPartial_ok hr'
    exact Permanent.giveBackShares (s := s.insertTransaction t) h _ _ _ _
  | expireRenewedLots asOf now =>
    obtain ⟨r, hr⟩ := drop_ok hrun
    rcases expireRenewedLots_ok hr with ⟨rfl, -⟩ | ⟨t, -, -, -, -, -, rfl⟩
    · exact h
    · exact h.sweepLots asOf now

theorem Permanent.apply (h : Permanent s) {m : Movement} (hm : m.IsLawful) : Permanent (m.apply s) := by
  cases m with
  | run op =>
    show Permanent (op.exec.run s).2
    rcases hrun : op.exec.run s with ⟨e | u, s'⟩
    · obtain rfl := op.exec_safe _ _ _ hrun
      exact h
    · exact h.exec hm hrun
  | adjust known now input =>
    show Permanent ((adjustCredits known now input).run s).2
    rcases hrun : (adjustCredits known now input).run s with ⟨e | r, s'⟩
    · obtain rfl := adjustCredits_safe _ _ _ _ _ _ hrun
      exact h
    · obtain ⟨hk, granted, hr⟩ := adjustCredits_ok hrun
      obtain ⟨-, -, rfl⟩ := grantLot_ok hr
      exact Permanent.append (s := s.insertTransaction input.grant.transaction) h hk

/-- Purchased credits never expire, after every run. -/
theorem permanent_after {ms : List Movement} (h : ∀ m ∈ ms, m.IsLawful) : Permanent (afterMovements ms) := by
  have hrun : ∀ s, Permanent s → Permanent (ms.foldl (fun s m => m.apply s) s) := by
    induction ms with
    | nil => exact fun _ hs => hs
    | cons m ms ih =>
      intro s hs
      exact ih (fun m' hm' => h m' (List.mem_cons_of_mem _ hm')) _ (hs.apply (h m (List.mem_cons_self ..)))
  exact hrun _ fun l hl => nomatch hl

/-- What a debit that ended with a value did, with the allocations it made. -/
structure DebitOrder (now : ℤ) (input : DebitInput) (s s' : Ledger) (news : List CreditAllocation) : Prop where
  sum : (news.map (·.amount)).sum = input.amount
  distinct : (news.map (·.lotId)).Nodup
  /-- Each is of a lot that is alive. -/
  live : ∀ a ∈ news, 0 < a.amount ∧ ∃ l, s.lots[a.lotId]? = some l ∧ l.isAlive now = true
  /-- In the order in which the lots expire. -/
  ordered : news.Pairwise fun a b => ∀ l m : Lot, s.lots[a.lotId]? = some l → s.lots[b.lotId]? = some m →
    diesNoLater l.expiresAt m.expiresAt
  /-- A lot that expires before one that was taken from is empty afterwards. -/
  earliest : ∀ a ∈ news, ∀ l : Lot, s.lots[a.lotId]? = some l → ∀ (id : ℕ) (m m' : Lot), s.lots[id]? = some m → m.isAlive now = true →
    ¬ diesNoLater l.expiresAt m.expiresAt → s'.lots[id]? = some m' → m'.amountRemaining ≤ 0
  /-- When purchased credits were taken, no plan credits are left. -/
  planFirst : ∀ a ∈ news, ∀ l : Lot, s.lots[a.lotId]? = some l → l.kind = .PURCHASED → ∀ (id : ℕ) (m : Lot), s'.lots[id]? = some m →
    m.kind = .PLAN → m.isAlive now = true → m.amountRemaining ≤ 0

@[simp] theorem takeFrom_length (txId : ℕ) (lots : List (Lot × ℕ)) (n : ℤ) (s : Ledger) :
    (takeFrom txId lots n s).lots.length = s.lots.length := by
  induction lots generalizing n s with
  | nil => rfl
  | cons p lots ih =>
    unfold takeFrom
    split
    · rfl
    · rw [ih]
      simp [Ledger.insertAllocation, Ledger.decrementLot]

/-- Every debit takes the lots in order. -/
theorem debit_order {now : ℤ} {input : DebitInput} {id : ℕ} (hs : Permanent s)
    (hrun : (debit now input).run s = (.ok id, s')) :
    ∃ news, s'.allocations = s.allocations ++ news ∧ (∀ a ∈ news, a.transactionId = id) ∧ DebitOrder now input s s' news := by
  obtain ⟨hpos, hle, rfl, t, -, -, rfl⟩ := debit_ok hrun
  have hlots : ∀ p ∈ s.spendable now, s.lots[p.2]? = some p.1 ∧ 0 < p.1.amountRemaining :=
    fun p hp => ⟨(mem_spendable hp).1, (mem_spendable hp).2.1⟩
  obtain ⟨news, ha, hall, hsum, hsub⟩ := takeFrom_allocations s.transactions.length
    (s := s.insertTransaction t) (s.spendable now) (fun p hp => (hlots p hp).2) hpos.le hle
  obtain ⟨news', k, hk, ha', hids, hempty⟩ := takeFrom_front s.transactions.length
    (s := s.insertTransaction t) (s.spendable now) hpos.le hlots (spendable_nodup s now)
  obtain rfl : news = news' := List.append_cancel_left (ha.symm.trans ha')
  -- where the lot of an allocation stands in the order
  have hplace : ∀ a ∈ news, ∀ l : Lot, s.lots[a.lotId]? = some l →
      ∃ j, j < k ∧ (s.spendable now)[j]? = some (l, a.lotId) := by
    intro a hmem l hl
    have : a.lotId ∈ ((s.spendable now).take k).map (·.2) := hids ▸ List.mem_map_of_mem hmem
    obtain ⟨⟨l', i⟩, hp, rfl⟩ := List.mem_map.mp this
    obtain ⟨j, hj⟩ := List.mem_iff_getElem?.mp hp
    have hjk : j < k := by
      have := (List.getElem?_eq_some_iff.mp hj).1
      rw [List.length_take] at this
      omega
    rw [List.getElem?_take_of_lt hjk] at hj
    obtain rfl : l' = l := by
      have := (hlots _ (List.mem_of_getElem? hj)).1
      exact Option.some.inj (this.symm.trans hl)
    exact ⟨j, hjk, hj⟩
  -- a lot that comes before one that was taken from is empty
  have hbefore : ∀ a ∈ news, ∀ l : Lot, s.lots[a.lotId]? = some l → ∀ (i : ℕ) (m m' : Lot), s.lots[i]? = some m →
      m.isAlive now = true → l.spentBefore m = false →
      (takeFrom s.transactions.length (s.spendable now) input.amount (s.insertTransaction t)).lots[i]? = some m' →
      m'.amountRemaining ≤ 0 := by
    intro a hmem l hl i m m' hm halive hnot hm'
    obtain ⟨m₁, hm₁, hdrawn, -⟩ := takeFrom_drawn s.transactions.length (s := s.insertTransaction t) (s.spendable now)
      hpos.le (fun p hp => (hlots p hp).2) hm
    obtain rfl : m₁ = m' := Option.some.inj (hm₁.symm.trans hm')
    by_cases hheld : 0 < m.amountRemaining
    · obtain ⟨j, hjk, hj⟩ := hplace a hmem l hl
      obtain ⟨i', hi'⟩ := List.mem_iff_getElem?.mp (mem_spendable_of hm hheld halive)
      have hlt : i' < j := by
        by_contra hge
        have hafter : l.spentBefore m = true := by
          rcases Nat.lt_or_ge j i' with hlt | hge'
          · obtain ⟨hj₁, hj₂⟩ := List.getElem?_eq_some_iff.mp hj
            obtain ⟨hi₁, hi₂⟩ := List.getElem?_eq_some_iff.mp hi'
            have := List.pairwise_iff_getElem.mp (spendable_sorted s now) j i' hj₁ hi₁ hlt
            rw [hj₂, hi₂] at this
            exact this
          · obtain rfl : i' = j := by omega
            cases hi'.symm.trans hj
            rcases spentBefore_total l l with h | h <;> exact h
        rw [hnot] at hafter
        cases hafter
      obtain ⟨m₂, hm₂, hz⟩ := hempty i' _ hi' (by omega)
      obtain rfl : m₁ = m₂ := Option.some.inj (hm₁.symm.trans hm₂)
      exact hz.le
    · have := hdrawn.2
      omega
  refine ⟨news, ha, fun a hmem => (hall a hmem).1, ?_⟩
  constructor
  · exact hsum
  · exact (spendable_nodup s now).sublist hsub
  · intro a hmem
    have : a.lotId ∈ (s.spendable now).map (·.2) := hsub.subset (List.mem_map_of_mem hmem)
    obtain ⟨p, hp, e⟩ := List.mem_map.mp this
    obtain ⟨hl, -, halive⟩ := mem_spendable hp
    exact ⟨(hall a hmem).2, p.1, e ▸ hl, halive⟩
  · have hsorted : ((s.spendable now).take k).Pairwise fun p q => ∀ l m : Lot, s.lots[p.2]? = some l →
        s.lots[q.2]? = some m → diesNoLater l.expiresAt m.expiresAt := by
      refine ((spendable_sorted s now).sublist (List.take_sublist _ _)).imp_of_mem fun {p q} hp hq hpq l m hl hm => ?_
      have hp' := (hlots p (List.mem_of_mem_take hp)).1
      have hq' := (hlots q (List.mem_of_mem_take hq)).1
      obtain rfl : p.1 = l := Option.some.inj (hp'.symm.trans hl)
      obtain rfl : q.1 = m := Option.some.inj (hq'.symm.trans hm)
      exact diesNoLater_of_spentBefore hpq
    have hmapped : (((s.spendable now).take k).map (·.2)).Pairwise fun i j => ∀ l m : Lot, s.lots[i]? = some l →
        s.lots[j]? = some m → diesNoLater l.expiresAt m.expiresAt := List.pairwise_map.mpr hsorted
    rw [← hids] at hmapped
    exact List.pairwise_map.mp hmapped
  · intro a hmem l hl i m m' hm halive hnot hm'
    refine hbefore a hmem l hl i m m' hm halive ?_ hm'
    by_contra hb
    exact hnot (diesNoLater_of_spentBefore (by simpa using hb))
  · intro a hmem l hl hk' i m' hm' hplan halive
    -- the lot as it was before
    have hlt : i < s.lots.length := by
      have := (List.getElem?_eq_some_iff.mp hm').1
      rw [takeFrom_length] at this
      exact this
    have hm := List.getElem?_eq_getElem hlt
    obtain ⟨m₁, hm₁, hdrawn, -⟩ := takeFrom_drawn s.transactions.length (s := s.insertTransaction t) (s.spendable now)
      hpos.le (fun p hp => (hlots p hp).2) hm
    obtain rfl : m₁ = m' := Option.some.inj (hm₁.symm.trans hm')
    have hsame := hdrawn.1
    rw [hsame] at hplan halive
    refine hbefore a hmem l hl i _ m₁ hm halive ?_ hm'
    have hnever := hs l (List.mem_of_getElem? hl) hk'
    dsimp only at hplan
    unfold Lot.spentBefore Lot.spentBefore.tie
    rw [hnever, hk', hplan]
    rcases s.lots[i].expiresAt with _ | t <;> rfl

/-- Credits are bought, then an operator grants plan credits that never expire, and a debit takes all of the
latter and some of the former. -/
def boughtFirst : List Movement :=
  [.run (.grantLot 0 ⟨5, .PURCHASED, .PURCHASE, none, none, none⟩), .adjust true 1 ⟨3, .PLAN, none, "goodwill"⟩]

end WebAudit.Credits
