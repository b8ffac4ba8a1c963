import WebAudit.Credits.Ledger
import WebAudit.Lib.Rows

/-!
# The accounts of a ledger

Three totals describe a ledger: what remains in its lots, the credits recorded by its
transactions in each direction, and the credits allocated to a lot in each direction.
`Balanced` states how they agree, up to an amount `owed` that has been recorded and has
not reached the lots yet: the state a ledger is in inside an operation. Each kind of
write moves `owed` by what it writes (`Balanced.record`, `Balanced.draw`,
`Balanced.giveBack`, `Balanced.openLot`, `Balanced.replace`, `Balanced.sweep`).
-/

namespace WebAudit.Credits

open WebAudit.Lib

namespace Ledger

/-- What remains in all lots. -/
def remaining (s : Ledger) : ℤ := (s.lots.map (·.amountRemaining)).sum

/-- The credits that transactions of one direction record. -/
def recorded (s : Ledger) (type : TxType) : ℤ := total (·.type = type) (·.amount) s.transactions

/-- The direction of a transaction. -/
def typeOf (s : Ledger) (id : ℕ) : Option TxType := s.transactions[id]?.map (·.type)

/-- The credits that movements of one direction allocate to a lot. -/
def allocated (s : Ledger) (type : TxType) (lotId : ℕ) : ℤ :=
  total (fun a => a.lotId = lotId && s.typeOf a.transactionId = some type) (·.amount) s.allocations

/-- Every allocation is of a transaction and a lot that exist. -/
def Keyed (s : Ledger) : Prop :=
  ∀ a ∈ s.allocations, a.transactionId < s.transactions.length ∧ a.lotId < s.lots.length

/-- The ledger after every due lot has been emptied. -/
def sweepLots (s : Ledger) (asOf now : ℤ) : Ledger := { s with lots := s.lots.map (Lot.sweep asOf now) }

end Ledger

/-- The amount a transaction adds to the credits, with its sign. -/
def CreditTransaction.signed (t : CreditTransaction) : ℤ :=
  match t.type with
  | .GRANT | .REFUND => t.amount
  | .DEBIT | .EXPIRE => -t.amount

/-- The opening allocation of a lot: a lot that replaces another at a refund is created full,
together with a `REFUND` allocation of all of it; no other lot is created with one. -/
def opening (replacements : List ℕ) (id : ℕ) (l : Lot) : ℤ := if id ∈ replacements then l.amountGranted else 0

/-- The accounts agree, when the lots in `swept` were swept, those in `replacements` were
created by refunds, and `owed` credits are recorded but not in lots yet. -/
structure Balanced (swept replacements : List ℕ) (owed : ℤ) (s : Ledger) : Prop where
  keyed : s.Keyed
  /-- The ids remembered are ids of lots. -/
  known : ∀ id ∈ swept ++ replacements, id < s.lots.length
  bounded : ∀ l ∈ s.lots, 0 ≤ l.amountRemaining ∧ l.amountRemaining ≤ l.amountGranted
  /-- What is gone from a lot was spent and not refunded. -/
  explained : ∀ id l, s.lots[id]? = some l → id ∉ swept →
    l.amountGranted - l.amountRemaining
      = s.allocated .DEBIT id - (s.allocated .REFUND id - opening replacements id l)
  conserved : s.remaining + owed
    = s.recorded .GRANT + s.recorded .REFUND - s.recorded .DEBIT - s.recorded .EXPIRE

/-! ### How writes move the totals -/

namespace Ledger

variable {s : Ledger} {t : CreditTransaction} {a : CreditAllocation} {l : Lot} {type : TxType} {id : ℕ}

theorem recorded_insertTransaction :
    (s.insertTransaction t).recorded type = s.recorded type + if t.type = type then t.amount else 0 := by
  simp [recorded, insertTransaction, total_append, total_cons]

theorem typeOf_insertTransaction (h : id < s.transactions.length) :
    (s.insertTransaction t).typeOf id = s.typeOf id := by
  simp [typeOf, insertTransaction, List.getElem?_append_left h]

theorem typeOf_inserted : (s.insertTransaction t).typeOf s.transactions.length = some t.type := by
  simp [typeOf, insertTransaction]

theorem allocated_insertTransaction (h : s.Keyed) :
    (s.insertTransaction t).allocated type id = s.allocated type id :=
  total_congr (fun a ha => by rw [typeOf_insertTransaction (h a ha).1]) fun _ _ _ => rfl

theorem allocated_insertAllocation :
    (s.insertAllocation a).allocated type id
      = s.allocated type id + if a.lotId = id ∧ s.typeOf a.transactionId = some type then a.amount else 0 := by
  show total _ _ (s.allocations ++ [a]) = _
  rw [total_append, total_cons, total_nil, add_zero]
  simp only [Bool.and_eq_true, decide_eq_true_eq]
  rfl

/-- Nothing is allocated to a lot that does not exist yet. -/
theorem allocated_fresh (h : s.Keyed) (hid : s.lots.length ≤ id) : s.allocated type id = 0 :=
  total_eq_zero fun a ha => by
    have := (h a ha).2
    simp [show a.lotId ≠ id by omega]

theorem remaining_incrementLot {n : ℤ} (h : s.lots[id]? = some l) :
    (s.incrementLot id n).remaining = s.remaining + n := by
  unfold remaining incrementLot
  rw [sum_map_modify _ h]
  ring

theorem remaining_insertLot : (s.insertLot l).remaining = s.remaining + l.amountRemaining := by
  simp [remaining, insertLot]

end Ledger

namespace Balanced

variable {swept replacements : List ℕ} {owed : ℤ} {s : Ledger}

/-- Recording a movement: the credits it speaks of are owed. -/
theorem record (h : Balanced swept replacements owed s) (t : CreditTransaction) :
    Balanced swept replacements (owed + t.signed) (s.insertTransaction t) where
  keyed a ha := by
    obtain ⟨ht, hl⟩ := h.keyed a ha
    exact ⟨by simp only [Ledger.insertTransaction, List.length_append, List.length_singleton]; omega, hl⟩
  known := h.known
  bounded := h.bounded
  explained id l hl hs := by
    rw [Ledger.allocated_insertTransaction h.keyed, Ledger.allocated_insertTransaction h.keyed]
    exact h.explained id l hl hs
  conserved := by
    have := h.conserved
    simp only [Ledger.recorded_insertTransaction, CreditTransaction.signed]
    show s.remaining + _ = _
    cases t.type <;> simp <;> omega

/-- Moving `n` credits out of a lot (into it, if `n` is negative) with an allocation of them:
they are no longer owed. Both loops consist of this. -/
theorem move (h : Balanced swept replacements owed s) {txId id : ℕ} {l : Lot} {type : TxType} {n m : ℤ}
    (htype : s.typeOf txId = some type) (hl : s.lots[id]? = some l)
    (hn : 0 ≤ l.amountRemaining + n ∧ l.amountRemaining + n ≤ l.amountGranted)
    (hm : (type = .DEBIT ∧ m = -n) ∨ (type = .REFUND ∧ m = n)) :
    Balanced swept replacements (owed - n) ((s.incrementLot id n).insertAllocation ⟨txId, id, m⟩) where
  keyed a ha := by
    have hlen : (s.incrementLot id n).lots.length = s.lots.length := by simp [Ledger.incrementLot]
    show _ ∧ a.lotId < (s.incrementLot id n).lots.length
    rw [hlen]
    rcases List.mem_append.mp ha with ha | ha
    · exact h.keyed a ha
    · obtain rfl := List.mem_singleton.mp ha
      obtain ⟨t, ht, -⟩ := Option.map_eq_some_iff.mp htype
      exact ⟨(List.getElem?_eq_some_iff.mp ht).1, (List.getElem?_eq_some_iff.mp hl).1⟩
  known i hi := by
    have := h.known i hi
    simpa [Ledger.insertAllocation, Ledger.incrementLot] using this
  bounded k hk := by
    obtain ⟨i, hi⟩ := List.mem_iff_getElem?.mp hk
    simp only [Ledger.insertAllocation, Ledger.incrementLot, List.getElem?_modify] at hi
    obtain ⟨k', hk', rfl⟩ := Option.map_eq_some_iff.mp hi
    by_cases e : id = i
    · subst e
      obtain rfl : l = k' := Option.some.inj (hl.symm.trans hk')
      simpa using hn
    · simpa [e] using h.bounded k' (List.mem_of_getElem? hk')
  explained i k hi hs := by
    rw [Ledger.allocated_insertAllocation, Ledger.allocated_insertAllocation]
    show _ = (s.allocated .DEBIT i + if _ ∧ s.typeOf txId = _ then _ else _)
      - (s.allocated .REFUND i + (if _ ∧ s.typeOf txId = _ then _ else _) - _)
    simp only [Ledger.insertAllocation, Ledger.incrementLot, List.getElem?_modify] at hi
    obtain ⟨k', hk', rfl⟩ := Option.map_eq_some_iff.mp hi
    have hk := h.explained i k' hk' hs
    by_cases e : id = i
    · subst e
      rcases hm with ⟨rfl, rfl⟩ | ⟨rfl, rfl⟩ <;> simp [htype, opening] at hk ⊢ <;> omega
    · simpa [e, opening] using hk
  conserved := by
    have := h.conserved
    show (s.incrementLot id n).remaining + _ = _
    rw [Ledger.remaining_incrementLot hl]
    show _ = s.recorded .GRANT + s.recorded .REFUND - s.recorded .DEBIT - s.recorded .EXPIRE
    omega

/-- Taking `n` credits out of a lot for a debit. -/
theorem draw (h : Balanced swept replacements owed s) {txId id : ℕ} {l : Lot} {n : ℤ}
    (htype : s.typeOf txId = some .DEBIT) (hl : s.lots[id]? = some l) (h₀ : 0 ≤ n) (hn : n ≤ l.amountRemaining) :
    Balanced swept replacements (owed + n) ((s.decrementLot id n).insertAllocation ⟨txId, id, n⟩) := by
  have hb := h.bounded l (List.mem_of_getElem? hl)
  have hd : s.decrementLot id n = s.incrementLot id (-n) := by simp [Ledger.decrementLot, Ledger.incrementLot, sub_eq_add_neg]
  have := h.move (n := -n) (m := n) htype hl (by omega) (Or.inl ⟨rfl, by omega⟩)
  rwa [hd, show owed + n = owed - -n by omega]

/-- Returning `n` credits to a lot that has room for them. -/
theorem giveBack (h : Balanced swept replacements owed s) {txId id : ℕ} {l : Lot} {n : ℤ}
    (htype : s.typeOf txId = some .REFUND) (hl : s.lots[id]? = some l) (h₀ : 0 ≤ n)
    (hn : n ≤ l.amountGranted - l.amountRemaining) :
    Balanced swept replacements (owed - n) ((s.incrementLot id n).insertAllocation ⟨txId, id, n⟩) :=
  h.move htype hl (by have := h.bounded l (List.mem_of_getElem? hl); omega) (Or.inr ⟨rfl, rfl⟩)

/-- Opening a full lot. Nothing is allocated to it. -/
theorem openLot (h : Balanced swept replacements owed s) {l : Lot} (hl : l.amountRemaining = l.amountGranted)
    (h₀ : 0 ≤ l.amountGranted) : Balanced swept replacements (owed - l.amountGranted) (s.insertLot l) where
  keyed a ha := by
    obtain ⟨ht, hl⟩ := h.keyed a ha
    exact ⟨ht, by simp only [Ledger.insertLot, List.length_append, List.length_singleton]; omega⟩
  known i hi := by
    have := h.known i hi
    simp only [Ledger.insertLot, List.length_append, List.length_singleton]
    omega
  bounded k hk := by
    rcases List.mem_append.mp hk with hk | hk
    · exact h.bounded k hk
    · obtain rfl := List.mem_singleton.mp hk
      omega
  explained i k hi hs := by
    show _ = s.allocated .DEBIT i - (s.allocated .REFUND i - _)
    by_cases e : i < s.lots.length
    · rw [Ledger.insertLot, List.getElem?_append_left e] at hi
      exact h.explained i k hi hs
    · rw [Ledger.insertLot, List.getElem?_append_right (by omega)] at hi
      obtain rfl : l = k := by
        rcases hj : i - s.lots.length with _ | j <;> simp [hj] at hi
        exact hi
      rw [Ledger.allocated_fresh h.keyed (by omega), Ledger.allocated_fresh h.keyed (by omega), opening,
        if_neg fun hr => e (h.known i (List.mem_append_right _ hr))]
      omega
  conserved := by
    have := h.conserved
    rw [Ledger.remaining_insertLot]
    show _ = s.recorded .GRANT + s.recorded .REFUND - s.recorded .DEBIT - s.recorded .EXPIRE
    omega

/-- Opening a full lot in place of a dead one, with the refund's allocation of all of it. -/
theorem replace (h : Balanced swept replacements owed s) {txId : ℕ} {l : Lot}
    (htype : s.typeOf txId = some .REFUND) (hl : l.amountRemaining = l.amountGranted) (h₀ : 0 ≤ l.amountGranted) :
    Balanced swept (s.lots.length :: replacements) (owed - l.amountGranted)
      ((s.insertLot l).insertAllocation ⟨txId, s.lots.length, l.amountGranted⟩) := by
  have ho := h.openLot hl h₀
  have hlen : (s.insertLot l).lots.length = s.lots.length + 1 := by simp [Ledger.insertLot]
  refine ⟨fun a ha => ?_, fun i hi => ?_, ho.bounded, fun i k hi hs => ?_, ho.conserved⟩
  · rcases List.mem_append.mp ha with ha | ha
    · exact ho.keyed a ha
    · obtain rfl := List.mem_singleton.mp ha
      obtain ⟨t, ht, -⟩ := Option.map_eq_some_iff.mp htype
      exact ⟨(List.getElem?_eq_some_iff.mp ht).1, by show s.lots.length < (s.insertLot l).lots.length; omega⟩
  · show i < (s.insertLot l).lots.length
    rcases List.mem_append.mp hi with hi | hi
    · exact ho.known i (List.mem_append_left _ hi)
    · rcases List.mem_cons.mp hi with rfl | hi
      · omega
      · exact ho.known i (List.mem_append_right _ hi)
  · have hk := ho.explained i k hi hs
    rw [Ledger.allocated_insertAllocation, Ledger.allocated_insertAllocation]
    show _ = ((s.insertLot l).allocated .DEBIT i + if _ ∧ s.typeOf txId = _ then _ else _)
      - ((s.insertLot l).allocated .REFUND i + (if _ ∧ s.typeOf txId = _ then _ else _) - _)
    simp only [htype, opening] at hk ⊢
    by_cases e : s.lots.length = i
    · subst e
      have hki : k = l := by simpa [Ledger.insertLot, Ledger.insertAllocation] using hi.symm
      subst hki
      have hnew : s.lots.length ∉ replacements := fun hr =>
        absurd (h.known _ (List.mem_append_right _ hr)) (lt_irrefl _)
      simp only [hnew] at hk
      simp at hk ⊢
      omega
    · simpa [e, Ne.symm e] using hk

/-- Sweeping every lot that is due: its credits are owed to an `EXPIRE`. -/
theorem sweep (h : Balanced swept replacements owed s) (asOf now : ℤ) :
    Balanced ((s.lots.zipIdx.filter (·.1.isDue asOf)).map (·.2) ++ swept) replacements
      (owed + total (·.isDue asOf) (·.amountRemaining) s.lots)
      (s.sweepLots asOf now) where
  keyed a ha := by
    have := h.keyed a ha
    simpa [Ledger.sweepLots] using this
  known i hi := by
    rw [List.append_assoc] at hi
    show i < (s.lots.map _).length
    rw [List.length_map]
    rcases List.mem_append.mp hi with hi | hi
    · obtain ⟨⟨k, j⟩, hk, rfl⟩ := List.mem_map.mp hi
      have := List.mem_zipIdx (List.mem_filter.mp hk).1
      omega
    · exact h.known i hi
  bounded k hk := by
    obtain ⟨l, hl, rfl⟩ := List.mem_map.mp hk
    have := h.bounded l hl
    unfold Lot.sweep
    split
    · exact ⟨le_rfl, by dsimp only; omega⟩
    · exact this
  explained i k hi hs := by
    simp only [Ledger.sweepLots, List.getElem?_map] at hi
    obtain ⟨l, hl, rfl⟩ := Option.map_eq_some_iff.mp hi
    have hdue : l.isDue asOf = false := by
      by_contra hd
      refine hs (List.mem_append_left _ (List.mem_map.mpr ⟨(l, i), List.mem_filter.mpr ⟨?_, by simpa using hd⟩, rfl⟩))
      exact List.mem_zipIdx_iff_getElem?.mpr hl
    simp only [Lot.sweep, hdue]
    exact h.explained i l hl fun hi => hs (List.mem_append_right _ hi)
  conserved := by
    have := h.conserved
    have hz := sum_map_zeroed s.lots (p := (·.isDue asOf)) (f := (·.amountRemaining))
      (h := Lot.sweep asOf now) (fun l _ hl => by simp [Lot.sweep, hl]) fun l _ hl => by simp [Lot.sweep, hl]
    show ((s.lots.map (Lot.sweep asOf now)).map (·.amountRemaining)).sum + _
      = s.recorded .GRANT + s.recorded .REFUND - s.recorded .DEBIT - s.recorded .EXPIRE
    rw [hz]
    unfold Ledger.remaining at this
    omega

end Balanced

end WebAudit.Credits
