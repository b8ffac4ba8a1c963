import WebAudit.Credits.Conservation
import WebAudit.Credits.Reversals
import WebAudit.Lib.Doubles

/-!
# Partial refunds are exact

A refund is divided among the allocations of its debit (`refundShares`). What a debit took from a lot, and has not been
refunded, is outstanding there, and after every run a lot has room for all that is outstanding (`Roomy`): so a live lot
takes its share back, and only the shares of dead lots go to lots that replace them.

The source divides doubles. Up to a debit of `exactMax` credits, far more than any of its callers charges, this gives the same
shares (`refundSharesDouble_eq`).
-/

namespace WebAudit.Credits

open WebAudit.Lib

/-! ### What is outstanding -/

namespace Ledger

variable (s : Ledger)

/-- The allocation is one of a debit that has not been refunded. -/
def isOpen (a : CreditAllocation) : Bool := s.typeOf a.transactionId = some .DEBIT && s.reversals a.transactionId = 0

/-- What debits that have not been refunded took from a lot. -/
def outstanding (lotId : ℕ) : ℤ := total (fun a => a.lotId = lotId && s.isOpen a) (·.amount) s.allocations

/-- The share that one refund of its debit computed for an allocation. -/
def shareIn (a : CreditAllocation) (refund : CreditTransaction) : ℤ :=
  match s.transactions[a.transactionId]? with
  | none => 0
  | some original =>
    total (·.1 = a) (·.2) (refundShares (s.allocationsOf a.transactionId) refund.amount original.amount)

/-- What is left of an allocation after the refunds of its debit. -/
def unrefunded (a : CreditAllocation) : ℤ :=
  a.amount - total (·.reversesId = some a.transactionId) (s.shareIn a) s.transactions

end Ledger

theorem unrefunded_eq {s : Ledger} {a : CreditAllocation} (h : s.reversals a.transactionId = 0) : s.unrefunded a = a.amount := by
  unfold Ledger.unrefunded
  rw [total_eq_zero, sub_zero]
  intro t ht
  simpa using List.countP_eq_zero.mp h t ht

/-- Every lot has room for what is outstanding there and for what is pending. -/
structure Roomy (pending : List (CreditAllocation × ℤ)) (s : Ledger) : Prop where
  known : ∀ a ∈ s.allocations, a.lotId < s.lots.length
  room : ∀ id l, s.lots[id]? = some l →
    l.amountRemaining + s.outstanding id + total (·.1.lotId = id) (·.2) pending ≤ l.amountGranted

section Outstanding

variable {s : Ledger} {t : CreditTransaction} {a : CreditAllocation} {l : Lot} {id d : ℕ}

theorem isOpen_insertTransaction (h : a.transactionId < s.transactions.length) :
    (s.insertTransaction t).isOpen a = (s.isOpen a && !(t.reversesId = some a.transactionId)) := by
  unfold Ledger.isOpen
  rw [Ledger.typeOf_insertTransaction h, reversals_append (t := t) rfl]
  by_cases hr : t.reversesId = some a.transactionId <;> simp [hr]

/-- Whatever is recorded, no more is outstanding. -/
theorem outstanding_record_le (h : s.Keyed) (hpos : ∀ a ∈ s.allocations, 0 < a.amount) :
    (s.insertTransaction t).outstanding id ≤ s.outstanding id := by
  unfold Ledger.outstanding
  have hsplit : total (fun a => decide (a.lotId = id) && s.isOpen a) (·.amount) s.allocations = _ + _ :=
    total_split fun a => decide (t.reversesId = some a.transactionId)
  have hstill : total (fun a => decide (a.lotId = id) && (s.insertTransaction t).isOpen a) (·.amount) (s.insertTransaction t).allocations =
      total (fun a => (decide (a.lotId = id) && s.isOpen a) && !decide (t.reversesId = some a.transactionId)) (·.amount) s.allocations :=
    total_congr (fun a ha => by rw [isOpen_insertTransaction (h a ha).1, Bool.and_assoc]) fun _ _ _ => rfl
  have hgone : 0 ≤ total (fun a => (decide (a.lotId = id) && s.isOpen a) && decide (t.reversesId = some a.transactionId))
      (·.amount) s.allocations :=
    total_nonneg fun a ha _ => (hpos a ha).le
  omega

/-- A row that reverses a debit: what the debit took is no longer outstanding. -/
theorem outstanding_reverse (h : s.Keyed) (ht : t.reversesId = some d) (hd : s.typeOf d = some .DEBIT) (hr : s.reversals d = 0) :
    s.outstanding id = total (·.lotId = id) (·.amount) (s.allocationsOf d) + (s.insertTransaction t).outstanding id := by
  unfold Ledger.outstanding Ledger.allocationsOf
  rw [total_filter, total_split fun a => decide (a.transactionId = d)]
  congr 1
  · refine total_congr (fun a _ => ?_) fun _ _ _ => rfl
    by_cases he : a.transactionId = d
    · subst he
      simp [Ledger.isOpen, hd, hr]
    · simp [he]
  · refine total_congr (fun a ha => ?_) fun _ _ _ => rfl
    rw [isOpen_insertTransaction (h a ha).1, ht]
    by_cases he : a.transactionId = d
    · simp [he]
    · simp [he, Ne.symm he]

theorem outstanding_insertAllocation : (s.insertAllocation a).outstanding id =
    s.outstanding id + if a.lotId = id ∧ s.isOpen a then a.amount else 0 := by
  show total _ _ (s.allocations ++ [a]) = _
  rw [total_append, total_cons, total_nil, add_zero]
  simp only [Bool.and_eq_true, decide_eq_true_eq]
  rfl

theorem outstanding_fresh (h : ∀ a ∈ s.allocations, a.lotId < s.lots.length) (hid : s.lots.length ≤ id) : s.outstanding id = 0 :=
  total_eq_zero fun a ha => by
    have := h a ha
    simp [show a.lotId ≠ id by omega]

theorem outstanding_nonneg (h : ∀ a ∈ s.allocations, 0 < a.amount) : 0 ≤ s.outstanding id := total_nonneg fun a ha _ => (h a ha).le

end Outstanding

namespace Roomy

variable {pending : List (CreditAllocation × ℤ)} {s : Ledger} {t : CreditTransaction} {l : Lot} {id d txId : ℕ} {n : ℤ}
  {p : CreditAllocation × ℤ}

theorem record (h : Roomy pending s) (hk : s.Keyed) (hpos : ∀ a ∈ s.allocations, 0 < a.amount) : Roomy pending (s.insertTransaction t) where
  known := h.known
  room id l hl := by
    have hroom := h.room id l hl
    have hle : (s.insertTransaction t).outstanding id ≤ s.outstanding id := outstanding_record_le hk hpos
    omega

/-- A share that is not given back. -/
theorem drop (h : Roomy (p :: pending) s) (hp : 0 ≤ p.2) : Roomy pending s where
  known := h.known
  room id l hl := by
    have hroom := h.room id l hl
    rw [total_cons] at hroom
    split at hroom <;> omega

/-- Credits move into a lot (out of it, if `n` is negative) with an allocation of `m`. -/
theorem move (h : Roomy pending s) {pending' : List (CreditAllocation × ℤ)} {m : ℤ} (hid : id < s.lots.length)
    (hroom : n + (if s.isOpen ⟨txId, id, m⟩ then m else 0) + total (·.1.lotId = id) (·.2) pending' ≤ total (·.1.lotId = id) (·.2) pending)
    (hothers : ∀ i, i ≠ id → total (·.1.lotId = i) (·.2) pending' ≤ total (·.1.lotId = i) (·.2) pending) :
    Roomy pending' ((s.incrementLot id n).insertAllocation ⟨txId, id, m⟩) where
  known a ha := by
    have hlen : (s.incrementLot id n).lots.length = s.lots.length := List.length_modify _ _ _
    show a.lotId < (s.incrementLot id n).lots.length
    rw [hlen]
    rcases List.mem_append.mp ha with ha | ha
    · exact h.known a ha
    · obtain rfl := List.mem_singleton.mp ha
      exact hid
  room i l hl := by
    rw [outstanding_insertAllocation]
    change (s.lots.modify id _)[i]? = some l at hl
    rw [List.getElem?_modify] at hl
    obtain ⟨l', hl', rfl⟩ := Option.map_eq_some_iff.mp hl
    have hlot := h.room i l' hl'
    show _ + (s.outstanding i + if id = i ∧ s.isOpen ⟨txId, id, m⟩ then m else 0) + _ ≤ _
    by_cases he : id = i
    · subst he
      simp only [true_and, if_true]
      omega
    · have := hothers i (Ne.symm he)
      simp only [he, false_and, if_false]
      show l'.amountRemaining + _ + _ ≤ l'.amountGranted
      omega

/-- What a debit takes becomes outstanding. -/
theorem draw (h : Roomy pending s) (hid : id < s.lots.length) (hn : 0 ≤ n) :
    Roomy pending ((s.decrementLot id n).insertAllocation ⟨txId, id, n⟩) := by
  have hd : s.decrementLot id n = s.incrementLot id (-n) := by simp [Ledger.decrementLot, Ledger.incrementLot, sub_eq_add_neg]
  rw [hd]
  refine h.move hid ?_ fun _ _ => le_rfl
  split <;> omega

/-- Part of a share is given back. -/
theorem giveBack (h : Roomy (p :: pending) s) (hid : p.1.lotId < s.lots.length) (htype : s.typeOf txId = some .REFUND) (hp : 0 ≤ p.2)
    (hn : n ≤ p.2) : Roomy pending ((s.incrementLot p.1.lotId n).insertAllocation ⟨txId, p.1.lotId, n⟩) := by
  have hclosed : s.isOpen ⟨txId, p.1.lotId, n⟩ = false := by simp [Ledger.isOpen, htype]
  refine h.move hid ?_ fun i hi => ?_
  · rw [hclosed, total_cons]
    simp only [Bool.false_eq_true, if_false, decide_true, if_true]
    omega
  · rw [total_cons]
    split <;> omega

theorem openLot (h : Roomy [] s) (hl : l.amountRemaining ≤ l.amountGranted) : Roomy [] (s.insertLot l) where
  known a ha := by
    have := h.known a ha
    simp only [Ledger.insertLot, List.length_append, List.length_singleton]
    omega
  room id k hk := by
    show k.amountRemaining + s.outstanding id + 0 ≤ k.amountGranted
    rcases getElem?_concat_index hk with hk | ⟨rfl, rfl⟩
    · exact h.room id k hk
    · rw [outstanding_fresh h.known le_rfl]
      omega

theorem sweep (h : Roomy pending s) (hb : ∀ l ∈ s.lots, 0 ≤ l.amountRemaining) (asOf now : ℤ) : Roomy pending (s.sweepLots asOf now) where
  known a ha := by simpa [Ledger.sweepLots] using h.known a ha
  room id k hk := by
    simp only [Ledger.sweepLots, List.getElem?_map] at hk
    obtain ⟨l, hl, rfl⟩ := Option.map_eq_some_iff.mp hk
    have hroom := h.room id l hl
    have hl₀ := hb l (List.mem_of_getElem? hl)
    show (l.sweep asOf now).amountRemaining + s.outstanding id + _ ≤ (l.sweep asOf now).amountGranted
    unfold Lot.sweep
    split
    · dsimp only
      omega
    · exact hroom

/-- The debit's loop. -/
theorem takeFrom (lots : List (Lot × ℕ)) {n : ℤ} (h : Roomy [] s) (hlots : ∀ p ∈ lots, p.2 < s.lots.length ∧ 0 < p.1.amountRemaining)
    (hn : 0 ≤ n) : Roomy [] (takeFrom txId lots n s) := by
  induction lots generalizing n s with
  | nil => exact h
  | cons p lots ih =>
    obtain ⟨l, id⟩ := p
    unfold Credits.takeFrom
    split
    · exact h
    · obtain ⟨hid, hpos⟩ := hlots (l, id) List.mem_cons_self
      dsimp only at hpos
      refine ih (h.draw hid (by omega)) (fun p hp => ?_) (by omega)
      have := hlots p (List.mem_cons_of_mem _ hp)
      simpa [Ledger.insertAllocation, Ledger.decrementLot] using this

end Roomy

/-! ### The shares -/

section Shares

variable {allocations : List CreditAllocation} {credits amount : ℤ}

/-- **No share is more than what its allocation took.** One more than the quotient is given only where the refund is not of
everything, and there the quotient is less than what was taken. -/
theorem refundShares_le (hA : 0 < amount) (hle : credits ≤ amount) (hpos : ∀ a ∈ allocations, 0 < a.amount)
    (hsum : (allocations.map (·.amount)).sum = amount) : ∀ p ∈ refundShares allocations credits amount, p.2 ≤ p.1.amount := by
  have hquotient : ∀ a ∈ allocations, a.amount * credits / amount ≤ a.amount ∧
      (credits < amount → a.amount * credits / amount + 1 ≤ a.amount) := by
    intro a ha
    have hmul : a.amount * credits ≤ a.amount * amount := mul_le_mul_of_nonneg_left hle (hpos a ha).le
    refine ⟨Int.ediv_le_of_le_mul hA hmul, fun hlt => ?_⟩
    have hstrict : a.amount * credits < a.amount * amount := mul_lt_mul_of_pos_left hlt (hpos a ha)
    exact Int.ediv_lt_of_lt_mul hA hstrict
  intro p hp
  unfold refundShares at hp
  dsimp only at hp
  obtain ⟨q, hq, rfl⟩ := List.mem_map.mp hp
  obtain ⟨a, ha, haq⟩ := List.mem_map.mp (List.fst_mem_of_mem_zipIdx hq)
  obtain ⟨hfloor, hbump⟩ := hquotient a ha
  rw [← haq]
  split
  · rename_i hbumped
    refine hbump (lt_of_le_of_ne hle fun heq => ?_)
    -- everything is refunded: the quotients add up to it, and none is left to be bumped
    subst heq
    have hexact : ((allocations.map fun a => (a, a.amount * credits / credits)).map Prod.snd).sum = credits := by
      rw [List.map_map, ← hsum]
      refine congrArg List.sum (List.map_congr_left fun a _ => ?_)
      rw [hsum]
      exact Int.mul_ediv_cancel _ hA.ne'
    rw [hexact, sub_self, Int.toNat_zero, List.take_zero] at hbumped
    cases hbumped
  · exact hfloor

/-- What is pending for a lot is no more than what was taken from it. -/
theorem pending_le {shares : List (CreditAllocation × ℤ)} (hfst : shares.map Prod.fst = allocations)
    (hle : ∀ p ∈ shares, p.2 ≤ p.1.amount) (id : ℕ) :
    total (·.1.lotId = id) (·.2) shares ≤ total (·.lotId = id) (·.amount) allocations := by
  rw [← hfst, total_map]
  exact total_mono fun p hp _ => hle p hp

end Shares

/-! ### Doubles -/

/-- `Math.floor((alloc.amount * input.credits) / original.amount)`. -/
def floorQuotient (taken credits amount : ℤ) : ℤ := ⌊toDouble (toDouble ((taken : ℚ) * credits) / amount)⌋

/-- `refundShares`, with the quotient of the source. -/
def refundSharesDouble (allocations : List CreditAllocation) (credits amount : ℤ) : List (CreditAllocation × ℤ) :=
  let shares := allocations.map fun a => (a, floorQuotient a.amount credits amount)
  let remainder := credits - (shares.map (·.2)).sum
  let largest := (shares.zipIdx.insertionSort fun p q => q.1.1.amount ≤ p.1.1.amount).map (·.2)
  let bumped := largest.take remainder.toNat
  shares.zipIdx.map fun p => if p.2 ∈ bumped then (p.1.1, p.1.2 + 1) else p.1

/-- The square root of 2^53, rounded down. -/
def exactMax : ℤ := 94906265

section Doubles

variable {allocations : List CreditAllocation} {taken credits amount : ℤ}

theorem floorQuotient_eq (ht : 0 ≤ taken) (hc : 0 ≤ credits) (hA : 0 < amount) (hle : taken ≤ amount) (hcle : credits ≤ amount)
    (hmax : amount ≤ exactMax) : floorQuotient taken credits amount = taken * credits / amount := by
  unfold exactMax at hmax
  have hproduct : taken * credits < 2 ^ 53 := by
    have hsquare : taken * credits ≤ 94906265 * 94906265 := mul_le_mul (hle.trans hmax) (hcle.trans hmax) hc (by norm_num)
    exact hsquare.trans_lt (by norm_num)
  have hnonneg : 0 ≤ taken * credits := mul_nonneg ht hc
  unfold floorQuotient
  rw [← Int.cast_mul, toDouble_int hnonneg hproduct, floor_toDouble_div hnonneg hproduct hA]

theorem refundSharesDouble_eq (hA : 0 < amount) (hc : 0 ≤ credits) (hcle : credits ≤ amount) (hmax : amount ≤ exactMax)
    (hpos : ∀ a ∈ allocations, 0 < a.amount) (hsum : (allocations.map (·.amount)).sum = amount) :
    refundSharesDouble allocations credits amount = refundShares allocations credits amount := by
  have hshares : (allocations.map fun a => (a, floorQuotient a.amount credits amount)) =
      allocations.map fun a => (a, a.amount * credits / amount) := by
    refine List.map_congr_left fun a ha => ?_
    have htaken : a.amount ≤ amount := by
      rw [← hsum]
      exact List.single_le_sum (fun x hx => by
        obtain ⟨b, hb, rfl⟩ := List.mem_map.mp hx
        exact (hpos b hb).le) _ (List.mem_map_of_mem ha)
    rw [floorQuotient_eq (hpos a ha).le hc hA htaken hcle hmax]
  unfold refundSharesDouble refundShares
  rw [hshares]

end Doubles

/-! ### The refund's loops -/

/-- The lot that an orphan is put into. -/
def Orphan.lot (now : ℤ) (o : Orphan) : Lot := ⟨o.kind, .REFUND, o.amount, o.amount, o.expiresAt, now⟩

/-- A lot of this kind and expiry is owed in place of a dead one. -/
def Owed (locked : List Lot) (periodEnd : Option ℤ) (now : ℤ) (shares : List (CreditAllocation × ℤ)) (kind : CreditKind)
    (expiresAt : Option ℤ) : Prop :=
  ∃ p ∈ shares, ∃ old, locked[p.1.lotId]? = some old ∧ old.isAlive now = false ∧ kind = old.kind ∧
    expiresAt = refundLotExpiry periodEnd now old.kind old.expiresAt

section Loops

variable {s : Ledger} {t : CreditTransaction} {l : Lot} {d refundId : ℕ} {periodEnd : Option ℤ} {now : ℤ}
  {locked : List Lot} {shares pending : List (CreditAllocation × ℤ)} {p : CreditAllocation × ℤ} {acc : Ledger × List Orphan}

/-- The refund is recorded, and its shares are pending. -/
theorem Roomy.reverse (h : Roomy [] s) (hk : s.Keyed) (ht : t.reversesId = some d) (hd : s.typeOf d = some .DEBIT) (hr : s.reversals d = 0)
    (hle : ∀ id, total (·.1.lotId = id) (·.2) shares ≤ total (·.lotId = id) (·.amount) (s.allocationsOf d)) :
    Roomy shares (s.insertTransaction t) where
  known := h.known
  room id l hl := by
    have hroom := h.room id l hl
    have hpending := hle id
    rw [outstanding_reverse hk ht hd hr, total_nil] at hroom
    omega

/-- **A lot has room for its share.** -/
theorem Roomy.share_le (h : Roomy shares s) (hpos : ∀ a ∈ s.allocations, 0 < a.amount) (hnonneg : ∀ p ∈ shares, 0 ≤ p.2)
    (hp : p ∈ shares) (hl : s.lots[p.1.lotId]? = some l) : p.2 ≤ l.amountGranted - l.amountRemaining := by
  have hroom := h.room _ l hl
  have houtstanding : 0 ≤ s.outstanding p.1.lotId := outstanding_nonneg hpos
  have hpending : p.2 ≤ total (fun q => decide (q.1.lotId = p.1.lotId)) (·.2) shares :=
    le_total (fun q hq _ => hnonneg q hq) hp (decide_eq_true rfl)
  omega

theorem returnShare_length : (returnShare locked refundId periodEnd now acc p).1.lots.length = acc.1.lots.length := by
  unfold returnShare
  split
  · rfl
  · split
    · rfl
    · dsimp only
      split
      · dsimp only
        split
        · exact List.length_modify _ _ _
        · rfl
      · rfl

theorem Roomy.returnShare (h : Roomy (p :: pending) acc.1) (htype : acc.1.typeOf refundId = some .REFUND) (hp : 0 ≤ p.2)
    (hid : p.1.lotId < acc.1.lots.length) : Roomy pending (returnShare locked refundId periodEnd now acc p).1 := by
  unfold Credits.returnShare
  split
  · exact h.drop hp
  · split
    · exact h.drop hp
    · dsimp only
      split
      · dsimp only
        split
        · exact h.giveBack hid htype hp (min_le_left _ _)
        · exact h.drop hp
      · exact h.drop hp

theorem Roomy.returnShares (h : Roomy pending acc.1) (htype : acc.1.typeOf refundId = some .REFUND) (hp : ∀ p ∈ pending, 0 ≤ p.2)
    (hid : ∀ p ∈ pending, p.1.lotId < acc.1.lots.length) :
    Roomy [] (pending.foldl (Credits.returnShare locked refundId periodEnd now) acc).1 := by
  induction pending generalizing acc with
  | nil => exact h
  | cons p pending ih =>
    rw [List.foldl_cons]
    refine ih (h.returnShare htype (hp p List.mem_cons_self) (hid p List.mem_cons_self)) ?_ (fun q hq => hp q (List.mem_cons_of_mem _ hq))
      fun q hq => ?_
    · unfold Ledger.typeOf at htype ⊢
      rw [returnShare_transactions, htype]
    · rw [returnShare_length]
      exact hid q (List.mem_cons_of_mem _ hq)

theorem mem_addToOrphans {kind : CreditKind} {expiresAt : Option ℤ} {n : ℤ} {orphans : List Orphan} {o : Orphan}
    (h : o ∈ addToOrphans kind expiresAt n orphans) :
    (o.kind = kind ∧ o.expiresAt = expiresAt) ∨ ∃ o' ∈ orphans, o.kind = o'.kind ∧ o.expiresAt = o'.expiresAt := by
  induction orphans with
  | nil =>
    obtain rfl := List.mem_singleton.mp h
    exact .inl ⟨rfl, rfl⟩
  | cons o' orphans ih =>
    unfold addToOrphans at h
    split at h
    · rename_i hkey
      rcases List.mem_cons.mp h with rfl | h
      · exact .inl hkey
      · exact .inr ⟨o, List.mem_cons_of_mem _ h, rfl, rfl⟩
    · rcases List.mem_cons.mp h with rfl | h
      · exact .inr ⟨o, List.mem_cons_self, rfl, rfl⟩
      · rcases ih h with hkey | ⟨o'', hmem, hsame⟩
        · exact .inl hkey
        · exact .inr ⟨o'', List.mem_cons_of_mem _ hmem, hsame⟩

/-- Only the share of a dead lot is orphaned, where live lots have room for theirs. -/
theorem returnShare_owed (hlive : ∀ l, locked[p.1.lotId]? = some l → l.isAlive now = true → p.2 ≤ l.amountGranted - l.amountRemaining)
    (hp : p ∈ shares) (h : ∀ o ∈ acc.2, Owed locked periodEnd now shares o.kind o.expiresAt) :
    ∀ o ∈ (returnShare locked refundId periodEnd now acc p).2, Owed locked periodEnd now shares o.kind o.expiresAt := by
  unfold returnShare
  split
  · exact h
  · rename_i hpos
    split
    · exact h
    · rename_i lot hlot
      dsimp only
      split
      · rename_i halive
        have hroom := hlive lot hlot halive
        have hnone : p.2 - min p.2 (max 0 (lot.amountGranted - lot.amountRemaining)) ≤ 0 := by omega
        unfold addOrphan
        rw [if_pos hnone]
        exact h
      · rename_i hdead
        unfold addOrphan
        rw [if_neg hpos]
        intro o ho
        rcases mem_addToOrphans ho with ⟨hkind, hexpires⟩ | ⟨o', ho', hkind, hexpires⟩
        · exact ⟨p, hp, lot, hlot, Bool.eq_false_iff.mpr hdead, hkind, hexpires⟩
        · rw [hkind, hexpires]
          exact h o' ho'

theorem returnShares_owed
    (hlive : ∀ p ∈ shares, ∀ l, locked[p.1.lotId]? = some l → l.isAlive now = true → p.2 ≤ l.amountGranted - l.amountRemaining)
    (hsub : pending ⊆ shares) (h : ∀ o ∈ acc.2, Owed locked periodEnd now shares o.kind o.expiresAt) :
    ∀ o ∈ (pending.foldl (returnShare locked refundId periodEnd now) acc).2, Owed locked periodEnd now shares o.kind o.expiresAt := by
  induction pending generalizing acc with
  | nil => exact h
  | cons p pending ih =>
    have hp : p ∈ shares := hsub List.mem_cons_self
    exact ih (fun q hq => hsub (List.mem_cons_of_mem _ hq)) (returnShare_owed (hlive p hp) hp h)

theorem Roomy.replaceOrphans (orphans : List Orphan) (h : Roomy [] s) (htype : s.typeOf refundId = some .REFUND) :
    Roomy [] (orphans.foldl (replaceOrphan refundId now) s) := by
  induction orphans generalizing s with
  | nil => exact h
  | cons o orphans ih =>
    have hopen : Roomy [] (s.insertLot (o.lot now)) := h.openLot le_rfl
    have hlen : (s.insertLot (o.lot now)).lots.length = s.lots.length + 1 := by simp [Ledger.insertLot]
    have hout (id : ℕ) : (replaceOrphan refundId now s o).outstanding id = (s.insertLot (o.lot now)).outstanding id := by
      have hclosed : (s.insertLot (o.lot now)).typeOf refundId = some .REFUND := htype
      have hnote : ((s.insertLot (o.lot now)).insertAllocation ⟨refundId, s.lots.length, o.amount⟩).outstanding id =
          (s.insertLot (o.lot now)).outstanding id := by
        rw [outstanding_insertAllocation]
        simp [Ledger.isOpen, hclosed]
      exact hnote
    refine ih (s := replaceOrphan refundId now s o) ⟨fun a ha => ?_, fun id l hl => ?_⟩ htype
    · rcases List.mem_append.mp ha with ha | ha
      · exact hopen.known a ha
      · obtain rfl := List.mem_singleton.mp ha
        show s.lots.length < (s.insertLot (o.lot now)).lots.length
        omega
    · rw [hout]
      exact hopen.room id l hl

theorem replaceOrphans_lots (orphans : List Orphan) (s : Ledger) :
    (orphans.foldl (replaceOrphan refundId now) s).lots = s.lots ++ orphans.map (Orphan.lot now) := by
  induction orphans generalizing s with
  | nil => simp
  | cons o orphans ih =>
    rw [List.foldl_cons, ih, List.map_cons]
    show (s.lots ++ [o.lot now]) ++ _ = _
    rw [List.append_assoc, List.singleton_append]

theorem returnShares_length : (pending.foldl (returnShare locked refundId periodEnd now) acc).1.lots.length = acc.1.lots.length := by
  induction pending generalizing acc with
  | nil => rfl
  | cons p pending ih => exact ih.trans returnShare_length

theorem Roomy.giveBackShares (h : Roomy shares s) (htype : s.typeOf refundId = some .REFUND) (hnonneg : ∀ p ∈ shares, 0 ≤ p.2)
    (hid : ∀ p ∈ shares, p.1.lotId < s.lots.length) : Roomy [] (giveBackShares refundId periodEnd now shares s) := by
  have hwalked : Roomy [] (shares.foldl (Credits.returnShare s.lots refundId periodEnd now) (s, [])).1 :=
    Roomy.returnShares h htype hnonneg hid
  refine hwalked.replaceOrphans _ ?_
  unfold Ledger.typeOf at htype ⊢
  rw [returnShares_transactions, htype]

/-- What is new among the lots is in place of dead lots. -/
theorem giveBackShares_owed (h : Roomy shares s) (hpos : ∀ a ∈ s.allocations, 0 < a.amount) (hnonneg : ∀ p ∈ shares, 0 ≤ p.2) {i : ℕ}
    (hi : s.lots.length ≤ i) (hl : (giveBackShares refundId periodEnd now shares s).lots[i]? = some l) :
    Owed s.lots periodEnd now shares l.kind l.expiresAt := by
  have howed : ∀ o ∈ (shares.foldl (returnShare s.lots refundId periodEnd now) (s, [])).2,
      Owed s.lots periodEnd now shares o.kind o.expiresAt :=
    returnShares_owed (fun p hp l hl _ => h.share_le hpos hnonneg hp hl) (List.Subset.refl shares) fun o ho => nomatch ho
  unfold giveBackShares at hl
  dsimp only at hl
  rw [replaceOrphans_lots, List.getElem?_append_right (by rw [returnShares_length]; exact hi), List.getElem?_map] at hl
  obtain ⟨o, ho, rfl⟩ := Option.map_eq_some_iff.mp hl
  exact howed o (List.mem_of_getElem? ho)

end Loops

/-! ### Along a run -/

section Runs

variable {swept replacements : List ℕ} {s s' : Ledger}

theorem debit_amount_le {now : ℤ} {input : DebitInput} {id : ℕ} (h : (debit now input).run s = (.ok id, s')) : input.amount ≤ int4Max := by
  unfold debit at h
  split at h
  · cases h
  rw [Db.transaction_ok, Db.run_get_bind] at h
  dsimp only at h
  split at h
  · cases h
  · obtain ⟨id', u, hm, -⟩ := Db.bind_ok.mp h
    exact (createTransaction_ok hm).2.1

/-- What refunds rely on in a history: the accounts, the room, and that every debit's amount is that of a row. -/
structure Refundable (h : History) : Prop where
  sound : Sound h
  roomy : Roomy [] h.ledger
  range : ∀ t ∈ h.ledger.transactions, t.type = .DEBIT → t.amount ≤ int4Max

theorem Refundable.empty : Refundable .empty where
  sound := .empty
  roomy := ⟨nofun, nofun⟩
  range _ h := nomatch h

theorem grantLot_roomy {now : ℤ} {input : GrantInput} {r : GrantResult} (h : Refundable ⟨s, swept, replacements⟩)
    (hrun : (grantLot now input).run s = (.ok r, s')) : Roomy [] s' ∧ ∀ t ∈ s'.transactions, t.type = .DEBIT → t.amount ≤ int4Max := by
  obtain ⟨-, -, rfl⟩ := grantLot_ok hrun
  constructor
  · exact (h.roomy.record h.sound.balanced.keyed h.sound.covered.positive).openLot le_rfl
  · exact forall_mem_concat h.range nofun

theorem debit_roomy {now : ℤ} {input : DebitInput} {id : ℕ} (h : Refundable ⟨s, swept, replacements⟩)
    (hrun : (debit now input).run s = (.ok id, s')) : Roomy [] s' ∧ ∀ t ∈ s'.transactions, t.type = .DEBIT → t.amount ≤ int4Max := by
  obtain ⟨hpos, -, -, t, -, hamount, rfl⟩ := debit_ok hrun
  constructor
  · refine (h.roomy.record h.sound.balanced.keyed h.sound.covered.positive).takeFrom _ (fun p hp => ?_) hpos.le
    obtain ⟨hlot, hheld, -⟩ := mem_spendable hp
    exact ⟨(List.getElem?_eq_some_iff.mp hlot).1, hheld⟩
  · rw [takeFrom_transactions]
    refine forall_mem_concat h.range fun _ => ?_
    rw [hamount]
    exact debit_amount_le hrun

/-- The shares of a refund, computed for a debit of a history. -/
structure Admissible (s : Ledger) (d : ℕ) (credits : ℤ) (original : CreditTransaction) : Prop where
  row : s.transactions[d]? = some original
  debit : original.type = .DEBIT
  positive : 0 < credits
  le : credits ≤ original.amount
  unreversed : s.reversals d = 0

section Refund

variable {d : ℕ} {credits : ℤ} {original : CreditTransaction}

theorem Admissible.typeOf (hd : Admissible s d credits original) : s.typeOf d = some .DEBIT := by
  unfold Ledger.typeOf
  rw [hd.row, Option.map_some, hd.debit]

theorem allocationsOf_positive (h : Refundable ⟨s, swept, replacements⟩) (d : ℕ) : ∀ a ∈ s.allocationsOf d, 0 < a.amount :=
  fun a ha => h.sound.covered.positive a (List.mem_of_mem_filter ha)

/-- Of the shares, all that a refund needs. -/
theorem Admissible.shares (hd : Admissible s d credits original) (h : Refundable ⟨s, swept, replacements⟩) :
    (refundShares (s.allocationsOf d) credits original.amount).map Prod.fst = s.allocationsOf d ∧
      ∀ p ∈ refundShares (s.allocationsOf d) credits original.amount, 0 ≤ p.2 ∧ p.2 ≤ p.1.amount ∧ p.1.lotId < s.lots.length := by
  have hpos := allocationsOf_positive h d
  have hA : 0 < original.amount := hd.positive.trans_le hd.le
  obtain ⟨hfst, hnonneg⟩ := refundShares_spec (s.allocationsOf d) hA hd.positive.le hpos
  have hle := refundShares_le hA hd.le hpos (h.sound.covered.charged d original hd.row hd.debit).1
  refine ⟨hfst, fun p hp => ⟨hnonneg p hp, hle p hp, ?_⟩⟩
  have hmem : p.1 ∈ s.allocationsOf d := hfst ▸ List.mem_map_of_mem hp
  exact h.roomy.known p.1 (List.mem_of_mem_filter hmem)

/-- Once the refund is recorded, there is room for its shares. -/
theorem Admissible.roomy (hd : Admissible s d credits original) (h : Refundable ⟨s, swept, replacements⟩) {t : CreditTransaction}
    (ht : t.reversesId = some d) : Roomy (refundShares (s.allocationsOf d) credits original.amount) (s.insertTransaction t) := by
  obtain ⟨hfst, hshares⟩ := hd.shares h
  exact h.roomy.reverse h.sound.balanced.keyed ht hd.typeOf hd.unreversed
    (pending_le hfst fun p hp => (hshares p hp).2.1)

theorem refundPartial_roomy {periodEnd : Option ℤ} {now : ℤ} {input : RefundInput} {id : ℕ} (h : Refundable ⟨s, swept, replacements⟩)
    (hrun : (refundPartial periodEnd now input).run s = (.ok id, s')) :
    Roomy [] s' ∧ ∀ t ∈ s'.transactions, t.type = .DEBIT → t.amount ≤ int4Max := by
  obtain ⟨original, t, ho, hdebit, hpos, hle, hnone, rfl, htype, -, hrev, rfl⟩ := refundPartial_ok hrun
  have hd : Admissible s input.debitTransactionId input.credits original := ⟨ho, hdebit, hpos, hle, refundOf_eq_none.mp hnone⟩
  obtain ⟨-, hshares⟩ := hd.shares h
  constructor
  · exact (hd.roomy h hrev).giveBackShares (Ledger.typeOf_inserted.trans (congrArg some htype)) (fun p hp => (hshares p hp).1)
      fun p hp => (hshares p hp).2.2
  · rw [giveBackShares_transactions]
    refine forall_mem_concat h.range fun hd => ?_
    rw [htype] at hd
    cases hd

end Refund

theorem expireRenewedLots_roomy {asOf now : ℤ} {r : ExpiryResult} (h : Refundable ⟨s, swept, replacements⟩)
    (hrun : (expireRenewedLots asOf now).run s = (.ok r, s')) :
    Roomy [] s' ∧ ∀ t ∈ s'.transactions, t.type = .DEBIT → t.amount ≤ int4Max := by
  rcases expireRenewedLots_ok hrun with ⟨rfl, -⟩ | ⟨t, htype, -, -, -, -, rfl⟩
  · exact ⟨h.roomy, h.range⟩
  · have hswept := h.roomy.sweep (fun l hl => (h.sound.balanced.bounded l hl).1) asOf now
    constructor
    · refine hswept.record (fun a ha => ?_) h.sound.covered.positive
      have := h.sound.balanced.keyed a ha
      simpa [Ledger.sweepLots] using this
    · refine forall_mem_concat h.range fun hd => ?_
      rw [htype] at hd
      cases hd

theorem Op.apply_refundable (op : Op) {h : History} (hr : Refundable h) : Refundable (op.apply h) := by
  have hsound := op.apply_sound hr.sound
  suffices hrest : Roomy [] (op.apply h).ledger ∧ ∀ t ∈ (op.apply h).ledger.transactions, t.type = .DEBIT → t.amount ≤ int4Max from
    ⟨hsound, hrest.1, hrest.2⟩
  unfold Op.apply
  rcases hrun : op.exec.run h.ledger with ⟨e | u, s'⟩
  · obtain rfl := op.exec_safe _ _ _ hrun
    exact ⟨hr.roomy, hr.range⟩
  cases op with
  | grantLot now input =>
    obtain ⟨r, hok⟩ := drop_ok hrun
    exact grantLot_roomy hr hok
  | debit now input =>
    obtain ⟨r, hok⟩ := drop_ok hrun
    exact debit_roomy hr hok
  | refundPartial periodEnd now input =>
    obtain ⟨r, hok⟩ := drop_ok hrun
    exact refundPartial_roomy hr hok
  | refund periodEnd now id reason =>
    obtain ⟨r, hok⟩ := drop_ok hrun
    obtain ⟨original, -, hok'⟩ := refund_ok hok
    exact refundPartial_roomy hr hok'
  | expireRenewedLots asOf now =>
    obtain ⟨r, hok⟩ := drop_ok hrun
    exact expireRenewedLots_roomy hr hok

theorem after_refundable (ops : List Op) : Refundable (after ops) := by
  unfold after
  have hrun : ∀ h : History, Refundable h → Refundable (ops.foldl (fun h op => op.apply h) h) := by
    induction ops with
    | nil => exact fun _ hr => hr
    | cons op ops ih => exact fun h hr => ih _ (op.apply_refundable hr)
  exact hrun _ Refundable.empty

end Runs

/-! ### The refund -/

/-- The expiry of a replacement lot is ahead for plan credits, and there is none for bought ones. -/
def Lot.Lasts (l : Lot) (now : ℤ) : Prop :=
  (l.kind = .PLAN → ∃ t, l.expiresAt = some t ∧ now < t) ∧ (l.kind = .PURCHASED → l.expiresAt = none)

theorem refundLotExpiry_lasts {periodEnd : Option ℤ} {now : ℤ} {kind : CreditKind} {sourceExpiresAt : Option ℤ} :
    (kind = .PLAN → ∃ t, refundLotExpiry periodEnd now kind sourceExpiresAt = some t ∧ now < t) ∧
      (kind = .PURCHASED → refundLotExpiry periodEnd now kind sourceExpiresAt = none) := by
  have hboundary : now < planRefundBoundary periodEnd now := by
    unfold planRefundBoundary refundHorizonDays dayMs
    split
    · split
      · assumption
      · omega
    · omega
  cases kind with
  | PURCHASED => exact ⟨nofun, fun _ => rfl⟩
  | PLAN =>
    refine ⟨fun _ => ?_, nofun⟩
    unfold refundLotExpiry
    dsimp only
    split
    · rename_i t
      split
      · exact ⟨t, rfl, by assumption⟩
      · exact ⟨_, rfl, hboundary⟩
    · exact ⟨_, rfl, hboundary⟩

/-- What a refund of `credits` of a debit that charged `amount` does, from `s` to `s'`. -/
structure ExactRefund (s s' : Ledger) (d : ℕ) (credits amount now : ℤ) : Prop where
  /-- One share for each allocation. -/
  allocations : (refundShares (s.allocationsOf d) credits amount).map Prod.fst = s.allocationsOf d
  bounds : ∀ p ∈ refundShares (s.allocationsOf d) credits amount, 0 ≤ p.2 ∧ p.2 ≤ s.unrefunded p.1
  sum : ((refundShares (s.allocationsOf d) credits amount).map Prod.snd).sum = credits
  room : ∀ p ∈ refundShares (s.allocationsOf d) credits amount, ∀ l, s.lots[p.1.lotId]? = some l → l.isAlive now = true →
    p.2 ≤ l.amountGranted - l.amountRemaining
  /-- A new lot is of the kind of a dead one that had a share. -/
  replacements : ∀ i l, s.lots.length ≤ i → s'.lots[i]? = some l → l.Lasts now ∧
    ∃ p ∈ refundShares (s.allocationsOf d) credits amount, ∃ old, s.lots[p.1.lotId]? = some old ∧ old.isAlive now = false ∧
      l.kind = old.kind
  doubles : amount ≤ exactMax → refundSharesDouble (s.allocationsOf d) credits amount = refundShares (s.allocationsOf d) credits amount

/-- Three lots are drawn from, and the first is dead when part of the debit is refunded. -/
def threeLots : List Op :=
  [ .grantLot 0 ⟨3, .PLAN, .PLAN_RENEWAL, some 100, none, none⟩,
    .grantLot 1 ⟨5, .PLAN, .PROMOTIONAL, some 900, none, none⟩,
    .grantLot 2 ⟨9, .PURCHASED, .PURCHASE, none, none, none⟩,
    .debit 3 ⟨2, "scan:create", none, none⟩,
    .debit 4 ⟨12, "scan:create", none, none⟩,
    .refundPartial none 50 ⟨3, 1, "scan:failed"⟩ ]

end WebAudit.Credits
