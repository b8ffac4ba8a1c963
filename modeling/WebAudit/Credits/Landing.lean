import WebAudit.Credits.Conservation

/-!
# Where a refund lands

A refund gives each share back to the lot it came from, as far as the lot is alive and has
room, and puts the rest into new lots of the same kind. `Landed` says what comes of it: what
remains in a lot grew by what was allocated to it, no lot that was dead got anything, and of
each kind as much arrived as the shares of that kind (`refundPartial_landed`).
-/

namespace WebAudit.Credits

open WebAudit.Lib

variable {s s' : Ledger}

/-- The kind of a lot. -/
def Ledger.kindOf (s : Ledger) (id : ℕ) : Option CreditKind := s.lots[id]?.map (·.kind)

/-- What these allocations put into one lot. -/
def credited (news : List CreditAllocation) (id : ℕ) : ℤ := total (·.lotId = id) (·.amount) news

/-- What these allocations put into lots of one kind. -/
def creditedKind (s : Ledger) (news : List CreditAllocation) (kind : CreditKind) : ℤ :=
  total (fun a => s.kindOf a.lotId = some kind) (·.amount) news

/-- The shares that are owed to lots of one kind. -/
def sharedKind (s : Ledger) (shares : List (CreditAllocation × ℤ)) (kind : CreditKind) : ℤ :=
  total (fun p => s.kindOf p.1.lotId = some kind) (·.2) shares

/-- The orphans of one kind. -/
def orphanedKind (orphans : List Orphan) (kind : CreditKind) : ℤ := total (·.kind = kind) (·.amount) orphans

theorem credited_concat (news : List CreditAllocation) (a : CreditAllocation) (id : ℕ) :
    credited (news ++ [a]) id = credited news id + if a.lotId = id then a.amount else 0 := by
  unfold credited
  rw [total_append, total_cons, total_nil, add_zero]
  simp

theorem creditedKind_concat (s : Ledger) (news : List CreditAllocation) (a : CreditAllocation) (kind : CreditKind) :
    creditedKind s (news ++ [a]) kind
      = creditedKind s news kind + if s.kindOf a.lotId = some kind then a.amount else 0 := by
  unfold creditedKind
  rw [total_append, total_cons, total_nil, add_zero]
  simp

theorem orphanedKind_addToOrphans (kind : CreditKind) (expiresAt : Option ℤ) (n : ℤ) (orphans : List Orphan)
    (k : CreditKind) :
    orphanedKind (addToOrphans kind expiresAt n orphans) k = orphanedKind orphans k + if kind = k then n else 0 := by
  unfold orphanedKind
  induction orphans with
  | nil =>
    unfold addToOrphans
    rw [total_cons, total_nil]
    simp
  | cons o orphans ih =>
    unfold addToOrphans
    split
    · rename_i hsame
      rw [total_cons, total_cons, ← hsame.1]
      by_cases e : o.kind = k <;> simp [e]
      ring
    · rw [total_cons, total_cons, ih]
      ring

theorem orphanedKind_addOrphan (periodEnd : Option ℤ) (now : ℤ) (kind : CreditKind) (sourceExpiresAt : Option ℤ) {n : ℤ}
    (hn : 0 ≤ n) (orphans : List Orphan) (k : CreditKind) :
    orphanedKind (addOrphan periodEnd now kind sourceExpiresAt n orphans) k
      = orphanedKind orphans k + if kind = k then n else 0 := by
  unfold addOrphan
  split
  · obtain rfl : n = 0 := by omega
    simp
  · exact orphanedKind_addToOrphans _ _ _ _ _

/-- The walk over the shares: what it allocated so far, and what is orphaned. -/
structure Walked (s : Ledger) (refundId : ℕ) (now : ℤ) (shares : List (CreditAllocation × ℤ))
    (acc : Ledger × List Orphan) (news : List CreditAllocation) : Prop where
  length : acc.1.lots.length = s.lots.length
  allocations : acc.1.allocations = s.allocations ++ news
  lots : ∀ (id : ℕ) (l : Lot), s.lots[id]? = some l →
    acc.1.lots[id]? = some { l with amountRemaining := l.amountRemaining + credited news id }
  alive : ∀ a ∈ news, a.transactionId = refundId ∧ ∃ l, s.lots[a.lotId]? = some l ∧ l.isAlive now = true
  kinds : ∀ kind, creditedKind s news kind + orphanedKind acc.2 kind = sharedKind s shares kind

theorem sharedKind_concat (s : Ledger) (shares : List (CreditAllocation × ℤ)) (p : CreditAllocation × ℤ)
    (kind : CreditKind) :
    sharedKind s (shares ++ [p]) kind = sharedKind s shares kind + if s.kindOf p.1.lotId = some kind then p.2 else 0 := by
  unfold sharedKind
  rw [total_append, total_cons, total_nil, add_zero]
  simp

/-- One share more. -/
theorem Walked.returnShare {refundId : ℕ} {now : ℤ} {shares : List (CreditAllocation × ℤ)} {acc : Ledger × List Orphan}
    {news : List CreditAllocation} (h : Walked s refundId now shares acc news) (periodEnd : Option ℤ)
    {p : CreditAllocation × ℤ} (hp : 0 ≤ p.2) {l : Lot} (hl : s.lots[p.1.lotId]? = some l) :
    ∃ news', Walked s refundId now (shares ++ [p]) (returnShare s.lots refundId periodEnd now acc p) news' := by
  have hkind : s.kindOf p.1.lotId = some l.kind := by
    unfold Ledger.kindOf
    rw [hl]
    rfl
  unfold Credits.returnShare
  by_cases hz : p.2 ≤ 0
  · rw [if_pos hz]
    refine ⟨news, h.length, h.allocations, h.lots, h.alive, fun kind => ?_⟩
    rw [sharedKind_concat, h.kinds, show p.2 = 0 by omega]
    simp
  rw [if_neg hz, hl]
  dsimp only
  by_cases halive : l.isAlive now = true
  · rw [if_pos halive]
    have hrest : 0 ≤ p.2 - min p.2 (max 0 (l.amountGranted - l.amountRemaining)) := by omega
    by_cases hpos : 0 < min p.2 (max 0 (l.amountGranted - l.amountRemaining))
    · -- the lot has room for some of it
      rw [if_pos hpos]
      refine ⟨news ++ [⟨refundId, p.1.lotId, min p.2 (max 0 (l.amountGranted - l.amountRemaining))⟩],
        ?_, ?_, ?_, ?_, ?_⟩
      · simpa [Ledger.insertAllocation, Ledger.incrementLot] using h.length
      · simp [Ledger.insertAllocation, Ledger.incrementLot, h.allocations]
      · intro id m hm
        have hm' := h.lots id m hm
        rw [credited_concat]
        by_cases e : p.1.lotId = id
        · simp [Ledger.insertAllocation, Ledger.incrementLot, e, hm', add_assoc]
        · simp [Ledger.insertAllocation, Ledger.incrementLot, List.getElem?_modify_ne _ _ e, e, hm']
      · exact forall_mem_concat h.alive ⟨rfl, l, hl, halive⟩
      · intro kind
        have := h.kinds kind
        rw [sharedKind_concat, creditedKind_concat, orphanedKind_addOrphan _ _ _ _ hrest, ← this, hkind]
        simp only [Option.some.injEq]
        split <;> ring
    · -- the lot is full
      rw [if_neg hpos]
      refine ⟨news, h.length, h.allocations, h.lots, h.alive, fun kind => ?_⟩
      have := h.kinds kind
      rw [sharedKind_concat, orphanedKind_addOrphan _ _ _ _ hrest, ← this, hkind]
      simp only [Option.some.injEq]
      split <;> omega
  · -- the lot is dead
    rw [if_neg halive]
    refine ⟨news, h.length, h.allocations, h.lots, h.alive, fun kind => ?_⟩
    have := h.kinds kind
    rw [sharedKind_concat, orphanedKind_addOrphan _ _ _ _ hp, ← this, hkind]
    simp only [Option.some.injEq]
    split <;> omega

/-- The walk over all shares. -/
theorem walked_shares (s : Ledger) (refundId : ℕ) (periodEnd : Option ℤ) (now : ℤ) (shares : List (CreditAllocation × ℤ))
    (hp : ∀ p ∈ shares, 0 ≤ p.2) (hl : ∀ p ∈ shares, p.1.lotId < s.lots.length) :
    ∃ news, Walked s refundId now shares (shares.foldl (Credits.returnShare s.lots refundId periodEnd now) (s, [])) news := by
  have hstart : Walked s refundId now [] (s, []) [] := by
    refine ⟨rfl, by simp, fun id l h => ?_, (fun a ha => nomatch ha), fun kind => ?_⟩
    · simp [credited, h]
    · simp [creditedKind, orphanedKind, sharedKind]
  have hrun : ∀ (before : List (CreditAllocation × ℤ)) (acc : Ledger × List Orphan) (news : List CreditAllocation),
      Walked s refundId now before acc news →
      ∃ news', Walked s refundId now (before ++ shares)
        (shares.foldl (Credits.returnShare s.lots refundId periodEnd now) acc) news' := by
    induction shares with
    | nil =>
      intro before acc news h
      exact ⟨news, by simpa using h⟩
    | cons p shares ih =>
      intro before acc news h
      obtain ⟨news₁, h₁⟩ := h.returnShare periodEnd (hp p (List.mem_cons_self ..))
        (List.getElem?_eq_getElem (hl p (List.mem_cons_self ..)))
      obtain ⟨news₂, h₂⟩ := ih (fun q hq => hp q (List.mem_cons_of_mem _ hq))
        (fun q hq => hl q (List.mem_cons_of_mem _ hq)) (before ++ [p]) _ news₁ h₁
      exact ⟨news₂, by simpa using h₂⟩
  simpa using hrun [] (s, []) [] hstart

/-- What comes of a refund. -/
structure Landed (s s' : Ledger) (refundId : ℕ) (now : ℤ) (shares : List (CreditAllocation × ℤ))
    (news : List CreditAllocation) : Prop where
  allocations : s'.allocations = s.allocations ++ news
  own : ∀ a ∈ news, a.transactionId = refundId ∧ a.lotId < s'.lots.length
  /-- An old lot holds what it held and what was allocated to it. -/
  old : ∀ (id : ℕ) (l : Lot), s.lots[id]? = some l →
    s'.lots[id]? = some { l with amountRemaining := l.amountRemaining + credited news id }
  /-- No old lot that is dead was given anything. -/
  alive : ∀ a ∈ news, ∀ l, s.lots[a.lotId]? = some l → l.isAlive now = true
  /-- A new lot was granted, and holds, what was allocated to it. -/
  opened : ∀ (id : ℕ) (l : Lot), s.lots.length ≤ id → s'.lots[id]? = some l →
    l.source = .REFUND ∧ l.amountGranted = credited news id ∧ l.amountRemaining = credited news id
  /-- Of each kind as much arrived as was owed. -/
  kinds : ∀ kind, creditedKind s' news kind = sharedKind s shares kind

/-- Nothing was allocated to a lot that is not there yet. -/
theorem credited_eq_zero {news : List CreditAllocation} {n : ℕ} (h : ∀ a ∈ news, a.lotId < n) : credited news n = 0 := by
  apply total_eq_zero
  intro a ha
  have := h a ha
  simp only [decide_eq_false_iff_not]
  omega

theorem kindOf_append (l : Lot) {id : ℕ} (h : id < s.lots.length) : (s.insertLot l).kindOf id = s.kindOf id := by
  unfold Ledger.kindOf Ledger.insertLot
  rw [List.getElem?_append_left h]

/-- The state between two replacement lots: `orphans` are still to get theirs. -/
structure Landing (s u : Ledger) (refundId : ℕ) (now : ℤ) (shares : List (CreditAllocation × ℤ))
    (orphans : List Orphan) (news : List CreditAllocation) : Prop where
  length : s.lots.length ≤ u.lots.length
  allocations : u.allocations = s.allocations ++ news
  own : ∀ a ∈ news, a.transactionId = refundId ∧ a.lotId < u.lots.length
  old : ∀ (id : ℕ) (l : Lot), s.lots[id]? = some l →
    u.lots[id]? = some { l with amountRemaining := l.amountRemaining + credited news id }
  alive : ∀ a ∈ news, ∀ l, s.lots[a.lotId]? = some l → l.isAlive now = true
  opened : ∀ (id : ℕ) (l : Lot), s.lots.length ≤ id → u.lots[id]? = some l →
    l.source = .REFUND ∧ l.amountGranted = credited news id ∧ l.amountRemaining = credited news id
  kinds : ∀ kind, creditedKind u news kind + orphanedKind orphans kind = sharedKind s shares kind

/-- One orphan gets its lot. -/
theorem Landing.replaceOrphan {u : Ledger} {refundId : ℕ} {now : ℤ} {shares : List (CreditAllocation × ℤ)} {o : Orphan}
    {orphans : List Orphan} {news : List CreditAllocation} (h : Landing s u refundId now shares (o :: orphans) news) :
    Landing s (Credits.replaceOrphan refundId now u o) refundId now shares orphans
      (news ++ [⟨refundId, u.lots.length, o.amount⟩]) := by
  have hlength : (Credits.replaceOrphan refundId now u o).lots.length = u.lots.length + 1 := by
    simp [Credits.replaceOrphan, Ledger.insertLot, Ledger.insertAllocation]
  have hfresh : credited news u.lots.length = 0 := credited_eq_zero fun a ha => (h.own a ha).2
  constructor
  · have := h.length
    omega
  · simp [Credits.replaceOrphan, Ledger.insertLot, Ledger.insertAllocation, h.allocations]
  · rw [hlength]
    exact forall_mem_concat (fun a ha => ⟨(h.own a ha).1, (h.own a ha).2.trans (Nat.lt_succ_self _)⟩)
      ⟨rfl, Nat.lt_succ_self _⟩
  · intro id l hl
    have hlt : id < u.lots.length := (List.getElem?_eq_some_iff.mp hl).1.trans_le h.length
    have hl' := h.old id l hl
    rw [credited_concat, if_neg (show u.lots.length ≠ id by omega), add_zero, ← hl']
    exact List.getElem?_append_left hlt
  · refine forall_mem_concat h.alive fun l hl => ?_
    have := (List.getElem?_eq_some_iff.mp hl).1
    have := h.length
    dsimp only at *
    omega
  · intro id l hid hl
    rw [credited_concat]
    by_cases e : u.lots.length = id
    · subst e
      change (u.lots ++ [_])[u.lots.length]? = some l at hl
      rw [List.getElem?_concat_length] at hl
      obtain rfl := Option.some.inj hl
      simp [hfresh]
    · have hlt : id < u.lots.length := by
        have := (List.getElem?_eq_some_iff.mp hl).1
        omega
      change (u.lots ++ [_])[id]? = some l at hl
      rw [List.getElem?_append_left hlt] at hl
      rw [if_neg e, add_zero]
      exact h.opened id l hid hl
  · intro kind
    have hk := h.kinds kind
    have hold : creditedKind (Credits.replaceOrphan refundId now u o) news kind = creditedKind u news kind := by
      refine total_congr (fun a ha => ?_) fun _ _ _ => rfl
      rw [show (Credits.replaceOrphan refundId now u o).kindOf a.lotId = u.kindOf a.lotId from kindOf_append _ (h.own a ha).2]
    have hnew : (Credits.replaceOrphan refundId now u o).kindOf u.lots.length = some o.kind := by
      simp [Ledger.kindOf, Credits.replaceOrphan, Ledger.insertLot, Ledger.insertAllocation]
    unfold orphanedKind at hk ⊢
    rw [creditedKind_concat, hold, hnew, ← hk, total_cons]
    simp only [Option.some.injEq, decide_eq_true_eq]
    ring

/-- Every orphan gets its lot. -/
theorem Landing.replaceOrphans {refundId : ℕ} {now : ℤ} {shares : List (CreditAllocation × ℤ)} (orphans : List Orphan)
    {u : Ledger} (news : List CreditAllocation) (h : Landing s u refundId now shares orphans news) :
    ∃ news', Landed s (orphans.foldl (Credits.replaceOrphan refundId now) u) refundId now shares news' := by
  induction orphans generalizing u news with
  | nil =>
    refine ⟨news, h.allocations, h.own, h.old, h.alive, h.opened, fun kind => ?_⟩
    have := h.kinds kind
    simpa [orphanedKind] using this
  | cons o orphans ih => exact ih _ h.replaceOrphan

theorem giveBackShares_landed (s : Ledger) (refundId : ℕ) (periodEnd : Option ℤ) (now : ℤ)
    (shares : List (CreditAllocation × ℤ)) (hp : ∀ p ∈ shares, 0 ≤ p.2) (hl : ∀ p ∈ shares, p.1.lotId < s.lots.length) :
    ∃ news, Landed s (giveBackShares refundId periodEnd now shares s) refundId now shares news := by
  obtain ⟨news, hw⟩ := walked_shares s refundId periodEnd now shares hp hl
  refine Landing.replaceOrphans _ news ⟨hw.length.ge, hw.allocations, fun a ha => ?_, hw.lots, ?_, ?_, fun kind => ?_⟩
  · obtain ⟨hid, l, hl, -⟩ := hw.alive a ha
    refine ⟨hid, ?_⟩
    rw [hw.length]
    exact (List.getElem?_eq_some_iff.mp hl).1
  · intro a ha l hl
    obtain ⟨-, l', hl', halive⟩ := hw.alive a ha
    obtain rfl : l' = l := Option.some.inj (hl'.symm.trans hl)
    exact halive
  · intro id l hid hl
    have := (List.getElem?_eq_some_iff.mp hl).1
    rw [hw.length] at this
    omega
  · rw [← hw.kinds kind]
    congr 1
    refine total_congr (fun a ha => ?_) fun _ _ _ => rfl
    obtain ⟨-, l, hl, -⟩ := hw.alive a ha
    unfold Ledger.kindOf
    rw [hw.lots _ l hl, hl]
    rfl

/-- **Every refund lands**: what it is worth is shared among the allocations of the debit, and each share ends up
once, in the lot it came from if that is alive and has room, and otherwise in a new lot of its kind. -/
theorem refundPartial_landed {swept replacements : List ℕ} (h : Sound ⟨s, swept, replacements⟩) {periodEnd : Option ℤ}
    {now : ℤ} {input : RefundInput} {id : ℕ} (hrun : (refundPartial periodEnd now input).run s = (.ok id, s')) :
    ∃ (shares : List (CreditAllocation × ℤ)) (news : List CreditAllocation),
      shares.map (·.1) = s.allocationsOf input.debitTransactionId ∧ (∀ p ∈ shares, 0 ≤ p.2) ∧
      (shares.map (·.2)).sum = input.credits ∧ Landed s s' id now shares news := by
  obtain ⟨original, t, ho, hdebit, hpos, hle, -, rfl, -, -, -, rfl⟩ := refundPartial_ok hrun
  obtain ⟨hcharged, -⟩ := h.covered.charged _ _ ho hdebit
  have hA : 0 < original.amount := by omega
  have hof : ∀ a ∈ s.allocationsOf input.debitTransactionId, a ∈ s.allocations := fun a ha => (List.mem_filter.mp ha).1
  obtain ⟨hfst, hnonneg⟩ := refundShares_spec (s.allocationsOf input.debitTransactionId) hA hpos.le
    fun a ha => h.covered.positive a (hof a ha)
  have hkeyed : ∀ p ∈ refundShares (s.allocationsOf input.debitTransactionId) input.credits original.amount,
      p.1.lotId < s.lots.length := fun p hp =>
    (h.balanced.keyed p.1 (hof p.1 (by rw [← hfst]; exact List.mem_map_of_mem hp))).2
  obtain ⟨news, hl⟩ := giveBackShares_landed (s.insertTransaction t) s.transactions.length periodEnd now
    (refundShares (s.allocationsOf input.debitTransactionId) input.credits original.amount) hnonneg hkeyed
  exact ⟨_, news, hfst, hnonneg, refundShares_sum hA hcharged,
    ⟨hl.allocations, hl.own, hl.old, hl.alive, hl.opened, hl.kinds⟩⟩

end WebAudit.Credits
