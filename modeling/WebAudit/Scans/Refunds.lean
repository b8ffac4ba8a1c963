import WebAudit.Scans.Order

/-!
# The charge of a scan and its refund

Whatever happens, a scan is charged once, with the price of the areas whose control gate is
met, and refunded once, at most that much (`Booked`). Who ends the scan gives back the share of
the charge that `refundForUndelivered` computes from what was delivered when it looked. That
this is what the ledger shows in the end takes that the database fails no step of the one who
ended the scan, and that it did not look for the debit before there was one (`Order.smooth`):
then the two agree (`charge_and_refund_agree`).
-/

namespace WebAudit.Scans

open WebAudit.Lib WebAudit.Credits

variable {q : Commission} {s s' : Order} {a : OrderAction} {l l' : Ledger} {d : ℕ}

/-! ### The ledger's side -/

/-- The share of the charge that goes back when these areas were delivered. -/
def Commission.share (q : Commission) (delivered : List ModuleType) : ℤ :=
  refundForUndelivered q.charge q.input.modules.length delivered.length

/-- The row is a charge of the scan. -/
def isScanCharge (scanId : ℕ) (t : CreditTransaction) : Bool := t.type = .DEBIT && t.scanId = some scanId

theorem charge_nonneg (q : Commission) : 0 ≤ q.charge := quoteAreas_nonneg _

theorem charge_le (q : Commission) : q.charge ≤ int4Max := (quoteAreas_le _).trans (by decide)

theorem share_nonneg (delivered : List ModuleType) : 0 ≤ q.share delivered := refundForUndelivered_nonneg

theorem share_le (delivered : List ModuleType) : q.share delivered ≤ q.charge :=
  refundForUndelivered_le (charge_nonneg q) (Int.natCast_nonneg _)

/-- Nothing delivered: the whole charge. -/
theorem share_nil (h : 0 < q.input.modules.length) : q.share [] = q.charge :=
  refundForUndelivered_zero (by exact_mod_cast h) (charge_nonneg q)

theorem findDebit_eq_none {scanId : ℕ} (h : findDebit l scanId = none) :
    ∀ t ∈ l.transactions, isScanCharge scanId t = false := by
  intro t ht
  exact List.findIdx?_eq_none_iff.mp h t ht

theorem findDebit_eq_some {scanId : ℕ} (h : findDebit l scanId = some d) :
    ∃ t, l.transactions[d]? = some t ∧ isScanCharge scanId t = true := by
  unfold findDebit at h
  obtain ⟨hlt, hp, -⟩ := List.findIdx?_eq_some_iff_getElem.mp h
  exact ⟨_, List.getElem?_eq_getElem hlt, hp⟩

/-- Others leave the scan's rows alone. -/
theorem leavesScan_spec {scanId : ℕ} (h : leavesScan scanId l l' = true) :
    ∃ rest, l'.transactions = l.transactions ++ rest ∧ ∀ t ∈ rest, t.scanId ≠ some scanId ∧
      ∀ d, t.reversesId = some d → d < l'.transactions.length ∧ ∀ t', l'.transactions[d]? = some t' → t'.scanId ≠ some scanId := by
  simp only [leavesScan, Bool.and_eq_true, decide_eq_true_eq, List.all_eq_true, Option.all_eq_true] at h
  obtain ⟨htake, hrest⟩ := h
  refine ⟨l'.transactions.drop l.transactions.length, ?_, fun t ht => ?_⟩
  · calc l'.transactions
        = l'.transactions.take l.transactions.length ++ l'.transactions.drop l.transactions.length :=
          (List.take_append_drop _ _).symm
      _ = l.transactions ++ l'.transactions.drop l.transactions.length := by rw [htake]
  · exact hrest t ht

/-! ### What is true of the tables -/

/-- What a request knows. -/
def Tied (q : Commission) (s : Order) : Prop :=
  match s.pc with
  | .price => s.row = none ∧ s.endings = [] ∧ s.debitId = none ∧ s.enqueued = false ∧ s.undone = false
  | .preflight c | .insert c =>
    s.row = none ∧ s.endings = [] ∧ s.debitId = none ∧ s.enqueued = false ∧ s.undone = false ∧
      c = q.charge ∧ 0 < q.input.modules.length
  | .debit c => s.row ≠ none ∧ s.debitId = none ∧ s.enqueued = false ∧ s.undone = false ∧ c = q.charge
  | .delete => s.debitId = none ∧ s.enqueued = false ∧ s.undone = false
  | .plan d | .enqueue d | .undo d _ => s.debitId = d ∧ s.enqueued = false ∧ s.undone = false
  | .markFailed => s.enqueued = false ∧ (s.debitId ≠ none → s.undone = true)
  | .returned => s.undone = false
  | .threw _ => s.enqueued = false

/-- What someone about to end the scan knows. -/
def Ending.Tied (q : Commission) (debitId : Option ℕ) (e : Ending) : Prop :=
  e.after.isTerminal = true ∧ e.delivered.Nodup ∧
    match e.pc with
    | .read | .update none => e.won = false
    | .update (some (credits, _)) => e.won = false ∧ credits = q.share e.delivered
    | .assess => e.won = true
    | .find credits _ => e.won = true ∧ credits = q.share e.delivered ∧ 0 < credits
    | .repay d credits _ => e.won = true ∧ credits = q.share e.delivered ∧ 0 < credits ∧ debitId = some d
    | .finished => True

/-- Every pointer points to the charge, and everyone reads the row the request wrote. -/
structure Wired (q : Commission) (s : Order) : Prop where
  tied : Tied q s
  endings : ∀ e ∈ s.endings, e.Tied q s.debitId
  undone : s.undone = true → s.enqueued = false ∧ s.debitId ≠ none
  charge : ∀ d, s.debitId = some d → s.ledger.transactions[d]? = some (scanCharge q.scanId q.charge) ∧ 0 < q.charge
  only : ∀ i t, s.ledger.transactions[i]? = some t → isScanCharge q.scanId t = true → s.debitId = some i
  reversing : ∀ t ∈ s.ledger.transactions, ∀ d, t.reversesId = some d → d < s.ledger.transactions.length
  row : ∀ r, s.row = some r →
    r.requestedModules = q.input.modules ∧ r.chargedCredits = q.charge ∧ 0 < q.input.modules.length
  kept : s.debitId ≠ none → s.row ≠ none
  /-- Nothing is delivered before a job is queued. -/
  idle : s.enqueued = false → (∀ r, s.row = some r → r.moduleResults.delivered = []) ∧ ∀ e ∈ s.endings, e.delivered = []

namespace Wired

/-- At the debit. -/
theorem at_debit (h : Wired q s) {c : ℤ} (hpc : s.pc = .debit c) :
    s.row ≠ none ∧ s.debitId = none ∧ s.enqueued = false ∧ s.undone = false ∧ c = q.charge := by
  have ht := h.tied
  unfold Scans.Tied at ht
  rwa [hpc] at ht

/-- What the refund paths compute from the row is the share. -/
theorem creditsRefunded (h : Wired q s) {r : ScanRow} (hr : s.row = some r) :
    r.creditsRefunded = q.share r.moduleResults.delivered := by
  obtain ⟨hm, hc, -⟩ := h.row r hr
  unfold ScanRow.creditsRefunded Commission.share
  rw [hm, hc]

/-- The ledger after a step: as it was, charged, with a refund of the charge, or changed by others. -/
theorem ledger_cases (h : Wired q s) (hm : s.Moves q a s') :
    s'.ledger = s.ledger ∧ s'.debitId = s.debitId ∨
      s'.ledger.transactions = s.ledger.transactions ++ [scanCharge q.scanId q.charge] ∧ 0 < q.charge ∧ s.debitId = none ∧
        s'.debitId = some s.ledger.transactions.length ∨
      (∃ d amount, s.debitId = some d ∧ Repays s.ledger d amount s'.ledger) ∧ s'.debitId = s.debitId ∨
      leavesScan q.scanId s.ledger s'.ledger = true ∧ s'.debitId = s.debitId := by
  cases hm with
  | charged hpc hpos hl =>
    obtain ⟨-, hnone, -, -, rfl⟩ := h.at_debit hpc
    exact Or.inr (Or.inl ⟨hl, hpos, hnone, rfl⟩)
  | undone hpc ho hl =>
    have ht := h.tied
    unfold Scans.Tied at ht
    rw [hpc] at ht
    exact Or.inr (Or.inr (Or.inl ⟨⟨_, _, ht.1, hl⟩, rfl⟩))
  | repaid he hpc hl =>
    have ht := (h.endings _ (List.mem_of_getElem? he)).2.2
    rw [hpc] at ht
    exact Or.inr (Or.inr (Or.inl ⟨⟨_, _, ht.2.2.2, hl⟩, rfl⟩))
  | elsewhere hl => exact Or.inr (Or.inr (Or.inr ⟨hl, rfl⟩))
  | _ => exact Or.inl ⟨rfl, rfl⟩

theorem lt_length (h : Wired q s) (hd : s.debitId = some d) : d < s.ledger.transactions.length :=
  (List.getElem?_eq_some_iff.mp (h.charge d hd).1).1

/-- Rows stay where they are. -/
theorem grows (h : Wired q s) (hm : s.Moves q a s') : s.ledger.transactions <+: s'.ledger.transactions := by
  rcases h.ledger_cases hm with ⟨hl, -⟩ | ⟨hl, -⟩ | ⟨⟨d, amount, -, hl⟩, -⟩ | ⟨hl, -⟩
  · exact hl ▸ List.prefix_rfl
  · exact ⟨_, hl.symm⟩
  · obtain ⟨t, -, -, -, ht⟩ := hl.row
    exact ⟨_, ht.symm⟩
  · obtain ⟨rest, hrest, -⟩ := leavesScan_spec hl
    exact ⟨rest, hrest.symm⟩

theorem getElem?_of_grows {i : ℕ} {t : CreditTransaction} (hl : l.transactions <+: l'.transactions)
    (h : l.transactions[i]? = some t) : l'.transactions[i]? = some t := by
  obtain ⟨rest, hrest⟩ := hl
  rw [← hrest, List.getElem?_append_left (List.getElem?_eq_some_iff.mp h).1]
  exact h

theorem step_charge (h : Wired q s) (hm : s.Moves q a s') (d : ℕ) (hd : s'.debitId = some d) :
    s'.ledger.transactions[d]? = some (scanCharge q.scanId q.charge) ∧ 0 < q.charge := by
  have hold : s'.debitId = s.debitId →
      s'.ledger.transactions[d]? = some (scanCharge q.scanId q.charge) ∧ 0 < q.charge := fun e => by
    obtain ⟨hc, hpos⟩ := h.charge d (e ▸ hd)
    exact ⟨getElem?_of_grows (h.grows hm) hc, hpos⟩
  rcases h.ledger_cases hm with ⟨-, e⟩ | ⟨hl, hpos, -, e⟩ | ⟨-, e⟩ | ⟨-, e⟩
  · exact hold e
  · rw [e] at hd
    cases hd
    rw [hl]
    exact ⟨List.getElem?_concat_length .., hpos⟩
  · exact hold e
  · exact hold e

theorem step_only (h : Wired q s) (hm : s.Moves q a s') (i : ℕ) (t : CreditTransaction)
    (hi : s'.ledger.transactions[i]? = some t) (ht : isScanCharge q.scanId t = true) : s'.debitId = some i := by
  have hold : s'.debitId = s.debitId → i < s.ledger.transactions.length → s'.debitId = some i := fun e hlt => by
    have hi' := getElem?_of_grows (h.grows hm) (List.getElem?_eq_getElem hlt)
    rw [hi] at hi'
    cases hi'
    rw [e]
    exact h.only i _ (List.getElem?_eq_getElem hlt) ht
  rcases h.ledger_cases hm with ⟨hl, e⟩ | ⟨hl, hpos, hnone, e⟩ | ⟨⟨d, amount, hd, hl⟩, e⟩ | ⟨hl, e⟩
  · rw [hl] at hi
    exact hold e (List.getElem?_eq_some_iff.mp hi).1
  · rw [hl] at hi
    by_cases hlt : i < s.ledger.transactions.length
    · rw [List.getElem?_append_left hlt] at hi
      have := h.only i t hi ht
      rw [hnone] at this
      cases this
    · have := (List.getElem?_eq_some_iff.mp hi).1
      rw [List.length_append, List.length_singleton] at this
      rw [e, show i = s.ledger.transactions.length by omega]
  · obtain ⟨u, htype, -, -, hu⟩ := hl.row
    by_cases hlt : i < s.ledger.transactions.length
    · exact hold e hlt
    · rw [hu, List.getElem?_append_right (by omega)] at hi
      obtain rfl := List.mem_singleton.mp (List.mem_of_getElem? hi)
      simp [isScanCharge, htype] at ht
  · obtain ⟨rest, hrest, hall⟩ := leavesScan_spec hl
    by_cases hlt : i < s.ledger.transactions.length
    · exact hold e hlt
    · rw [hrest, List.getElem?_append_right (by omega)] at hi
      have := (hall t (List.mem_of_getElem? hi)).1
      simp [isScanCharge, this] at ht

theorem step_reversing (h : Wired q s) (hm : s.Moves q a s') :
    ∀ t ∈ s'.ledger.transactions, ∀ d, t.reversesId = some d → d < s'.ledger.transactions.length := by
  have hold : ∀ t ∈ s.ledger.transactions, ∀ d, t.reversesId = some d → d < s'.ledger.transactions.length :=
    fun t ht d hd => (h.reversing t ht d hd).trans_le (h.grows hm).length_le
  rcases h.ledger_cases hm with ⟨hl, -⟩ | ⟨hl, -⟩ | ⟨⟨d, amount, hd, hl⟩, -⟩ | ⟨hl, -⟩
  · rw [hl] at hold ⊢
    exact hold
  · intro t ht
    rw [hl] at ht
    revert t
    exact forall_mem_concat hold fun d hd => by cases hd
  · obtain ⟨u, -, -, hrev, hu⟩ := hl.row
    intro t ht
    rw [hu] at ht
    revert t
    refine forall_mem_concat hold fun d' hd' => ?_
    rw [hrev] at hd'
    cases hd'
    exact (h.lt_length hd).trans_le (h.grows hm).length_le
  · obtain ⟨rest, hrest, hall⟩ := leavesScan_spec hl
    intro t ht
    rw [hrest] at ht
    rcases List.mem_append.mp ht with ht | ht
    · exact hold t ht
    · exact fun d hd => ((hall t ht).2 d hd).1

theorem step_row (h : Wired q s) (hm : s.Moves q a s') (r : ScanRow) (hr : s'.row = some r) :
    r.requestedModules = q.input.modules ∧ r.chargedCredits = q.charge ∧ 0 < q.input.modules.length := by
  cases hm with
  | inserted hpc =>
    have ht := h.tied
    unfold Scans.Tied at ht
    rw [hpc] at ht
    cases hr
    exact ⟨rfl, ht.2.2.2.2.2.1, ht.2.2.2.2.2.2⟩
  | deleted => cases hr
  | markedFailed hpc =>
    obtain ⟨r₀, hr₀, rfl⟩ := Option.map_eq_some_iff.mp hr
    split <;> exact h.row r₀ hr₀
  | won he hpc hr₀ | moved hr₀ | persisted henq hr₀ =>
    have := h.row _ hr₀
    cases hr
    exact this
  | _ => exact h.row r hr

theorem step_kept (h : Wired q s) (hm : s.Moves q a s') (hd : s'.debitId ≠ none) : s'.row ≠ none := by
  cases hm with
  | inserted hpc => exact Option.some_ne_none _
  | charged hpc => exact (h.at_debit hpc).1
  | deleted hpc =>
    have ht := h.tied
    unfold Scans.Tied at ht
    rw [hpc] at ht
    exact absurd ht.1 hd
  | markedFailed hpc => exact fun e => h.kept hd (Option.map_eq_none_iff.mp e)
  | won | moved | persisted => exact Option.some_ne_none _
  | _ => exact h.kept hd

/-- A request that goes on and touches no table. -/
theorem tied_calm {pc : CreatePc} (ht : Scans.Tied q s) (h : s.pc.Calm q pc) : Scans.Tied q { s with pc := pc } := by
  obtain ⟨ledger, row, pc₀, enqueued, endings, debitId, undone⟩ := s
  cases h with
  | refused hb => cases pc₀ <;> cases hb <;> exact ht.2.2.2.1
  | priced hc =>
    obtain ⟨hcharge, -, hlength⟩ := chargeCredits_ok hc
    exact ⟨ht.1, ht.2.1, ht.2.2.1, ht.2.2.2.1, ht.2.2.2.2, hcharge, hlength⟩
  | afforded => exact ht
  | free => exact ht.2.imp_right fun h => ⟨h.1, h.2.1⟩
  | unpaid => exact ht.2.imp_right fun h => ⟨h.1, h.2.1⟩
  | planned => exact ht
  | refusedPlan => exact ht
  | refusedJob => exact ht
  | nothingToUndo => exact ⟨ht.2.1, fun hd => absurd ht.1 hd⟩
  | gaveUp hp =>
    rcases hp with rfl | rfl | ⟨d, reason, rfl⟩
    · exact ht.2.1
    · exact ht.1
    · exact ht.2.1
  | stopped hp => exact ht

/-- What a request knows does not depend on what others do. -/
theorem tied_congr (ht : Scans.Tied q s) (hpc : s'.pc = s.pc) (hd : s'.debitId = s.debitId)
    (hq : s'.enqueued = s.enqueued) (hu : s'.undone = s.undone) (hr : s.row ≠ none → s'.row ≠ none)
    (hbefore : s.row = none → s.endings = [] → s'.row = none ∧ s'.endings = []) : Scans.Tied q s' := by
  unfold Scans.Tied at ht ⊢
  rw [hpc, hd, hq, hu]
  cases hc : s.pc <;> rw [hc] at ht <;> dsimp only at ht ⊢
  case price =>
    obtain ⟨hrow, hend, rest⟩ := ht
    exact ⟨(hbefore hrow hend).1, (hbefore hrow hend).2, rest⟩
  case preflight =>
    obtain ⟨hrow, hend, rest⟩ := ht
    exact ⟨(hbefore hrow hend).1, (hbefore hrow hend).2, rest⟩
  case insert =>
    obtain ⟨hrow, hend, rest⟩ := ht
    exact ⟨(hbefore hrow hend).1, (hbefore hrow hend).2, rest⟩
  case debit => exact ⟨hr ht.1, ht.2⟩
  all_goals exact ht

theorem set_of_nil {k : ℕ} {e : Ending} (hnil : s.endings = []) : s.endings.set k e = [] := by
  rw [hnil]
  rfl

theorem step_tied (h : Wired q s) (hm : s.Moves q a s') : Scans.Tied q s' := by
  have ht := h.tied
  cases hm with
  | idle => exact ht
  | calm hc => exact tied_calm ht hc
  | inserted hpc =>
    unfold Scans.Tied at ht
    rw [hpc] at ht
    exact ⟨Option.some_ne_none _, ht.2.2.1, ht.2.2.2.1, ht.2.2.2.2.1, ht.2.2.2.2.2.1⟩
  | charged hpc =>
    obtain ⟨-, -, henq, hun, -⟩ := h.at_debit hpc
    exact ⟨rfl, henq, hun⟩
  | deleted hpc | enqueued hpc | undone hpc | markedFailed hpc =>
    unfold Scans.Tied at ht
    rw [hpc] at ht
    first
    | exact ht.2.1
    | exact ht.2.2
    | exact ⟨ht.2.1, fun _ => rfl⟩
    | exact ht.1
  | begun hb =>
    refine tied_congr ht rfl rfl rfl rfl (fun h => h) fun hrow hnil => ?_
    rename_i before after
    unfold Order.mayBegin at hb
    rw [hrow] at hb
    cases after <;> cases hb
  | won _ _ hr | moved hr | persisted _ hr =>
    refine tied_congr ht rfl rfl rfl rfl (fun _ => Option.some_ne_none _) fun hn => ?_
    rw [hr] at hn
    cases hn
  | elsewhere => exact tied_congr ht rfl rfl rfl rfl (fun h => h) fun hr hnil => ⟨hr, hnil⟩
  | read | assessed | found | repaid | repayThrew | stopped =>
    exact tied_congr ht rfl rfl rfl rfl (fun h => h) fun hr hnil => ⟨hr, set_of_nil hnil⟩

/-- An ending that knows what it is to refund. -/
theorem tied_refunding {e : Ending} {debitId : Option ℕ} {credits : ℤ} {reason : String} (hafter : e.after.isTerminal = true)
    (hnd : e.delivered.Nodup) (hwon : e.won = true) (hpc : e.pc = .refunding credits reason)
    (hc : credits = q.share e.delivered) : e.Tied q debitId := by
  refine ⟨hafter, hnd, ?_⟩
  by_cases hpos : 0 < credits
  · rw [EndPc.refunding, if_pos hpos] at hpc
    rw [hpc]
    exact ⟨hwon, hc, hpos⟩
  · rw [EndPc.refunding, if_neg hpos] at hpc
    rw [hpc]
    trivial

theorem step_endings (h : Wired q s) (hm : s.Moves q a s') : ∀ e ∈ s'.endings, e.Tied q s'.debitId := by
  have hold : ∀ e ∈ s.endings, e.Tied q s.debitId := h.endings
  cases hm with
  | charged hpc =>
    intro e hmem
    obtain ⟨hafter, hnd, ht⟩ := hold e hmem
    refine ⟨hafter, hnd, ?_⟩
    obtain ⟨-, hnone, -⟩ := h.at_debit hpc
    cases hend : e.pc with
    | repay d credits reason =>
      rw [hend, hnone] at ht
      cases ht.2.2.2
    | update refund =>
      rw [hend] at ht
      rcases refund with _ | ⟨credits, reason⟩ <;> exact ht
    | _ =>
      rw [hend] at ht
      exact ht
  | @begun before after hb =>
    refine forall_mem_concat hold ⟨?_, List.nodup_nil, ?_⟩
    · cases after <;> first | rfl | cases hb
    · by_cases hto : after = .TIMED_OUT
      · rw [if_pos hto]
      · rw [if_neg hto]
  | @read k _ _ e r he hpc hr =>
    obtain ⟨hafter, -, ht⟩ := hold e (List.mem_of_getElem? he)
    rw [hpc] at ht
    exact forall_mem_set hold ⟨hafter, r.moduleResults.delivered_nodup, ht, h.creditsRefunded hr⟩
  | @won k _ _ e refund r startedAt he hpc hr hopen =>
    obtain ⟨hafter, hnd, ht⟩ := hold e (List.mem_of_getElem? he)
    rw [hpc] at ht
    refine forall_mem_set hold ?_
    rcases refund with _ | ⟨credits, reason⟩
    · exact ⟨hafter, hnd, rfl⟩
    · exact tied_refunding hafter hnd rfl rfl ht.2
  | @assessed k _ _ e r he hpc hr =>
    obtain ⟨hafter, -, ht⟩ := hold e (List.mem_of_getElem? he)
    rw [hpc] at ht
    exact forall_mem_set hold (tied_refunding hafter r.moduleResults.delivered_nodup ht rfl (h.creditsRefunded hr))
  | @found k _ _ e credits reason d he hpc hd =>
    obtain ⟨hafter, hnd, ht⟩ := hold e (List.mem_of_getElem? he)
    rw [hpc] at ht
    obtain ⟨t, hdt, hcharge⟩ := findDebit_eq_some hd
    exact forall_mem_set hold ⟨hafter, hnd, ht.1, ht.2.1, ht.2.2, h.only d t hdt hcharge⟩
  | repaid he | repayThrew he | stopped he =>
    obtain ⟨hafter, hnd, -⟩ := hold _ (List.mem_of_getElem? he)
    exact forall_mem_set hold ⟨hafter, hnd, trivial⟩
  | _ => exact hold

theorem step_undone (h : Wired q s) (hm : s.Moves q a s') (hu : s'.undone = true) :
    s'.enqueued = false ∧ s'.debitId ≠ none := by
  have ht := h.tied
  unfold Scans.Tied at ht
  cases hm with
  | charged hpc =>
    obtain ⟨-, -, -, hun, -⟩ := h.at_debit hpc
    rw [hun] at hu
    cases hu
  | enqueued hpc =>
    rw [hpc] at ht
    rw [ht.2.2] at hu
    cases hu
  | undone hpc =>
    rw [hpc] at ht
    exact ⟨ht.2.1, by rw [ht.1]; exact Option.some_ne_none _⟩
  | _ => exact h.undone hu

theorem step_idle (h : Wired q s) (hm : s.Moves q a s') (hq : s'.enqueued = false) :
    (∀ r, s'.row = some r → r.moduleResults.delivered = []) ∧ ∀ e ∈ s'.endings, e.delivered = [] := by
  cases hm with
  | inserted =>
    refine ⟨fun r hr => ?_, (h.idle hq).2⟩
    cases hr
    rfl
  | deleted => exact ⟨(fun r hr => nomatch hr), (h.idle hq).2⟩
  | enqueued => cases hq
  | markedFailed =>
    refine ⟨fun r hr => ?_, (h.idle hq).2⟩
    obtain ⟨r₀, hr₀, rfl⟩ := Option.map_eq_some_iff.mp hr
    split <;> exact (h.idle hq).1 r₀ hr₀
  | begun => exact ⟨(h.idle hq).1, forall_mem_concat (h.idle hq).2 rfl⟩
  | read he hpc hr => exact ⟨(h.idle hq).1, forall_mem_set (h.idle hq).2 ((h.idle hq).1 _ hr)⟩
  | @won k _ _ e refund r startedAt he hpc hr hopen =>
    refine ⟨fun r' hr' => ?_, forall_mem_set (h.idle hq).2 ((h.idle hq).2 e (List.mem_of_getElem? he))⟩
    cases hr'
    exact (h.idle hq).1 r hr
  | assessed he hpc hr => exact ⟨(h.idle hq).1, forall_mem_set (h.idle hq).2 ((h.idle hq).1 _ hr)⟩
  | found he | repaid he | repayThrew he | stopped he =>
    have hnone := (h.idle hq).2 _ (List.mem_of_getElem? he)
    exact ⟨(h.idle hq).1, forall_mem_set (h.idle hq).2 hnone⟩
  | moved hr =>
    have hnone := (h.idle hq).1 _ hr
    refine ⟨fun r' hr' => ?_, (h.idle hq).2⟩
    cases hr'
    exact hnone
  | persisted henq =>
    rw [henq] at hq
    cases hq
  | _ => exact h.idle hq

/-- Others reverse no charge of the scan. -/
theorem leaves_refunds (h : Wired q s) (hl : leavesScan q.scanId s.ledger l' = true) (hd : s.debitId = some d) :
    l'.reversals d = s.ledger.reversals d ∧ l'.refunded d = s.ledger.refunded d := by
  obtain ⟨rest, hrest, hall⟩ := leavesScan_spec hl
  have hnone : ∀ t ∈ rest, t.reversesId ≠ some d := fun t ht hrev => by
    refine ((hall t ht).2 d hrev).2 (scanCharge q.scanId q.charge) ?_ rfl
    rw [hrest, List.getElem?_append_left (h.lt_length hd)]
    exact (h.charge d hd).1
  have hcount : rest.countP (·.reversesId = some d) = 0 :=
    List.countP_eq_zero.mpr fun t ht => by simpa using hnone t ht
  have htotal : total (·.reversesId = some d) (·.amount) rest = 0 :=
    total_eq_zero fun t ht => by simpa using hnone t ht
  constructor
  · unfold Ledger.reversals
    rw [hrest, List.countP_append, hcount, add_zero]
  · unfold Ledger.refunded
    rw [hrest, total_append, htotal, add_zero]

/-- What a step does to the refunds of the charge. -/
theorem refunds_cases (h : Wired q s) (hm : s.Moves q a s') (hd : s'.debitId = some d) :
    (s.debitId = some d ∨ s.debitId = none ∧ s'.ledger.reversals d = 0) ∧
      (s'.ledger.reversals d = s.ledger.reversals d ∧ s'.ledger.refunded d = s.ledger.refunded d ∨
        s.ledger.reversals d = 0 ∧ s'.ledger.reversals d = 1) := by
  rcases h.ledger_cases hm with ⟨hl, e⟩ | ⟨hl, hpos, hnone, e⟩ | ⟨⟨d', amount, hd', hl⟩, e⟩ | ⟨hl, e⟩
  · rw [hl]
    exact ⟨Or.inl (e ▸ hd), Or.inl ⟨rfl, rfl⟩⟩
  · rw [e] at hd
    cases hd
    have hzero : s.ledger.reversals s.ledger.transactions.length = 0 := by
      refine List.countP_eq_zero.mpr fun t ht hrev => ?_
      exact absurd (h.reversing t ht _ (of_decide_eq_true hrev)) (lt_irrefl _)
    have hsame := reversals_append hl s.ledger.transactions.length
    have hcredits := refunded_append hl s.ledger.transactions.length
    rw [if_neg (by exact nofun)] at hsame hcredits
    exact ⟨Or.inr ⟨hnone, hsame.trans hzero⟩, Or.inl ⟨hsame, hcredits.trans (add_zero _)⟩⟩
  · rw [e, hd'] at hd
    cases hd
    exact ⟨Or.inl hd', Or.inr ⟨hl.fresh, by rw [hl.reversals, hl.fresh, if_pos rfl]⟩⟩
  · rw [e] at hd
    exact ⟨Or.inl hd, Or.inl (h.leaves_refunds hl hd)⟩

theorem step (h : Wired q s) (hm : s.Moves q a s') : Wired q s' where
  tied := h.step_tied hm
  endings := h.step_endings hm
  undone := h.step_undone hm
  charge := h.step_charge hm
  only := h.step_only hm
  reversing := h.step_reversing hm
  row := h.step_row hm
  kept := h.step_kept hm
  idle := h.step_idle hm

end Wired

/-! ### One winner, one refund -/

/-- Somebody ended the scan, and it was one of them; and the charge is reversed once, by the request or by the one
who ended the scan. -/
structure Booked (q : Commission) (s : Order) : Prop where
  wired : Wired q s
  winner : s.endings.countP (·.won) ≤ 1
  closed : ∀ e ∈ s.endings, e.won = true → ∀ r, s.row = some r → r.state.isTerminal = true
  ended : ∀ r, s.row = some r → r.state.isTerminal = true →
    (∃ e ∈ s.endings, e.won = true) ∨
      r.state = .FAILED ∧ (∃ e, s.pc = .threw e) ∧ (s.debitId ≠ none → s.undone = true)
  once : ∀ d, s.debitId = some d → s.ledger.reversals d ≤ 1
  undone : s.undone = true → ∀ d, s.debitId = some d → s.ledger.reversals d = 1 ∧ s.ledger.refunded d = q.charge
  source : ∀ d, s.debitId = some d → s.ledger.reversals d ≠ 0 → s.undone = true ∨
    ∃ e ∈ s.endings, (e.won = true ∧ e.pc = .finished) ∧ s.ledger.refunded d = q.share e.delivered

namespace Booked

theorem step_winner (h : Booked q s) (hm : s.Moves q a s') : s'.endings.countP (·.won) ≤ 1 := by
  have hold := h.winner
  have hset : ∀ {k : ℕ} {e e' : Ending}, s.endings[k]? = some e → e'.won = e.won →
      (s.endings.set k e').countP (·.won) ≤ 1 := fun {k e e'} he hw => by
    have := countP_set_add (·.won) e' he
    rw [hw] at this
    omega
  cases hm with
  | begun =>
    rw [List.countP_append, List.countP_singleton]
    exact hold
  | @won k _ _ e refund r startedAt he hpc hr hopen =>
    have hnone : s.endings.countP (·.won) = 0 := by
      refine List.countP_eq_zero.mpr fun e' hmem hw => ?_
      rw [h.closed e' hmem hw r hr] at hopen
      cases hopen
    have := countP_set_add (·.won) { e with pc := .afterWin refund, won := true } he
    dsimp only at this ⊢
    rw [hnone, if_pos rfl] at this
    omega
  | read he | assessed he | found he | repaid he | repayThrew he | stopped he => exact hset he rfl
  | _ => exact hold

theorem step_closed (h : Booked q s) (hm : s.Moves q a s') :
    ∀ e ∈ s'.endings, e.won = true → ∀ r, s'.row = some r → r.state.isTerminal = true := by
  have hold : ∀ e ∈ s.endings, e.won = true → ∀ r, s.row = some r → r.state.isTerminal = true := h.closed
  have hset : ∀ {k : ℕ} {e e' : Ending}, s.endings[k]? = some e → e'.won = e.won →
      ∀ x ∈ s.endings.set k e', x.won = true → ∀ r, s.row = some r → r.state.isTerminal = true :=
    fun {k e e'} he hw => forall_mem_set hold fun hx => hold e (List.mem_of_getElem? he) (hw ▸ hx)
  cases hm with
  | inserted hpc =>
    intro e hmem
    have ht := h.wired.tied
    unfold Scans.Tied at ht
    rw [hpc] at ht
    rw [ht.2.1] at hmem
    cases hmem
  | deleted => exact fun _ _ _ r hr => nomatch hr
  | markedFailed =>
    intro e hmem hw r hr
    obtain ⟨r₀, hr₀, rfl⟩ := Option.map_eq_some_iff.mp hr
    split
    · rfl
    · exact hold e hmem hw r₀ hr₀
  | begun => exact forall_mem_concat hold fun hw => by cases hw
  | won he hpc hr hopen =>
    intro _ _ _ r hr'
    cases hr'
    exact (h.wired.endings _ (List.mem_of_getElem? he)).1
  | moved hr hopen =>
    intro e hmem hw
    rw [hold e hmem hw _ hr] at hopen
    cases hopen
  | persisted henq hr =>
    intro e hmem hw r hr'
    have := hold e hmem hw _ hr
    cases hr'
    exact this
  | read he | assessed he | found he | repaid he | repayThrew he | stopped he => exact hset he rfl
  | _ => exact hold

theorem step_ended (h : Booked q s) (hm : s.Moves q a s') (r : ScanRow) (hr : s'.row = some r)
    (hterm : r.state.isTerminal = true) :
    (∃ e ∈ s'.endings, e.won = true) ∨
      r.state = .FAILED ∧ (∃ e, s'.pc = .threw e) ∧ (s'.debitId ≠ none → s'.undone = true) := by
  have hset : ∀ {k : ℕ} {e e' : Ending}, s.endings[k]? = some e → e'.won = e.won → s.row = some r →
      (∃ x ∈ s.endings.set k e', x.won = true) ∨
        r.state = .FAILED ∧ (∃ e, s.pc = .threw e) ∧ (s.debitId ≠ none → s.undone = true) := fun he hw hr =>
    (h.ended r hr hterm).imp_left fun hx => exists_mem_set he hx fun hwon => hw.trans hwon
  cases hm with
  | calm hc =>
    refine (h.ended r hr hterm).imp_right fun ⟨hfailed, ⟨e, he⟩, hun⟩ => ⟨hfailed, ?_, hun⟩
    rw [he] at hc
    cases hc with
    | refused hb => cases hb
    | gaveUp hp => exact ⟨_, rfl⟩
    | stopped => exact ⟨e, rfl⟩
  | inserted =>
    cases hr
    cases hterm
  | charged hpc | enqueued hpc | undone hpc =>
    refine Or.inl ((h.ended r hr hterm).resolve_right fun ⟨_, ⟨e, he⟩, _⟩ => ?_)
    rw [hpc] at he
    cases he
  | deleted => cases hr
  | markedFailed hpc =>
    obtain ⟨r₀, hr₀, rfl⟩ := Option.map_eq_some_iff.mp hr
    have ht := h.wired.tied
    unfold Scans.Tied at ht
    rw [hpc] at ht
    by_cases hqueued : r₀.state = .QUEUED
    · rw [if_pos hqueued]
      exact Or.inr ⟨rfl, ⟨_, rfl⟩, ht.2⟩
    · rw [if_neg hqueued] at hterm ⊢
      exact (h.ended r₀ hr₀ hterm).imp_right fun ⟨hfailed, _, hun⟩ => ⟨hfailed, ⟨_, rfl⟩, hun⟩
  | begun =>
    refine (h.ended r hr hterm).imp_left fun ⟨e, hmem, hw⟩ => ⟨e, ?_, hw⟩
    exact List.mem_append_left _ hmem
  | won he => exact Or.inl ⟨_, List.mem_set (List.getElem?_eq_some_iff.mp he).1 _, rfl⟩
  | moved hr₀ hopen hafter =>
    cases hr
    rw [hafter] at hterm
    cases hterm
  | persisted henq hr₀ =>
    have := h.ended _ hr₀
    cases hr
    exact this hterm
  | read he | assessed he | found he | repaid he | repayThrew he | stopped he => exact hset he rfl hr
  | _ => exact h.ended r hr hterm

theorem step_once (h : Booked q s) (hm : s.Moves q a s') (d : ℕ) (hd : s'.debitId = some d) :
    s'.ledger.reversals d ≤ 1 := by
  obtain ⟨hid, ⟨hsame, -⟩ | ⟨-, hone⟩⟩ := h.wired.refunds_cases hm hd
  · rcases hid with hid | ⟨-, hzero⟩
    · rw [hsame]
      exact h.once d hid
    · rw [hzero]
      exact zero_le_one
  · rw [hone]

theorem step_undone (h : Booked q s) (hm : s.Moves q a s') (hu : s'.undone = true) (d : ℕ) (hd : s'.debitId = some d) :
    s'.ledger.reversals d = 1 ∧ s'.ledger.refunded d = q.charge := by
  have hcases := h.wired.refunds_cases hm hd
  have hold : s.undone = true → s'.ledger.reversals d = 1 ∧ s'.ledger.refunded d = q.charge := fun hun => by
    obtain ⟨-, hne⟩ := h.wired.undone hun
    obtain ⟨hid | ⟨hid, -⟩, hrev⟩ := hcases
    · obtain ⟨hone, hcredits⟩ := h.undone hun d hid
      rcases hrev with ⟨hsame, hsum⟩ | ⟨hzero, -⟩
      · exact ⟨hsame.trans hone, hsum.trans hcredits⟩
      · rw [hzero] at hone
        cases hone
    · exact absurd hid hne
  cases hm with
  | undone hpc ho hl =>
    have ht := h.wired.tied
    unfold Scans.Tied at ht
    rw [hpc] at ht
    obtain rfl : _ = d := Option.some.inj (ht.1.symm.trans hd)
    rw [(h.wired.charge _ hd).1] at ho
    cases ho
    exact ⟨(by rw [hl.reversals, hl.fresh, if_pos rfl]), hl.refunded⟩
  | _ => exact hold hu

/-- Who reversed the charge. -/
theorem step_source (h : Booked q s) (hm : s.Moves q a s') (d : ℕ) (hd : s'.debitId = some d)
    (hrev : s'.ledger.reversals d ≠ 0) : s'.undone = true ∨
      ∃ e ∈ s'.endings, (e.won = true ∧ e.pc = .finished) ∧ s'.ledger.refunded d = q.share e.delivered := by
  obtain ⟨hid, hcases⟩ := h.wired.refunds_cases hm hd
  have hold : s'.ledger = s.ledger ∨ s.ledger.reversals d ≠ 0 → s.undone = true ∨
      ∃ e ∈ s.endings, (e.won = true ∧ e.pc = .finished) ∧ s'.ledger.refunded d = q.share e.delivered := fun hsame => by
    have hne : s.ledger.reversals d ≠ 0 := hsame.elim (fun e => e ▸ hrev) id
    rcases hcases with ⟨-, hsum⟩ | ⟨hzero, -⟩
    · rcases hid with hid | ⟨-, hzero⟩
      · rw [hsum]
        exact h.source d hid hne
      · exact absurd hzero hrev
    · exact absurd hzero hne
  have hset : ∀ {k : ℕ} {e e' : Ending}, s.endings[k]? = some e →
      (e.pc = .finished → e'.pc = .finished ∧ e'.won = e.won ∧ e'.delivered = e.delivered) → s'.ledger = s.ledger →
      s.undone = true ∨ ∃ x ∈ s.endings.set k e',
        (x.won = true ∧ x.pc = .finished) ∧ s'.ledger.refunded d = q.share x.delivered := fun he heq hl =>
    (hold (Or.inl hl)).imp_right fun hx => exists_mem_set he hx fun ⟨⟨hw, hover⟩, hp⟩ => by
      obtain ⟨hover', hw', hdel⟩ := heq hover
      exact ⟨⟨hw'.trans hw, hover'⟩, hdel ▸ hp⟩
  cases hm with
  | charged hpc hpos hl =>
    obtain ⟨-, hnone, -⟩ := h.wired.at_debit hpc
    rcases hid with hid | ⟨-, hzero⟩
    · rw [hnone] at hid
      cases hid
    · exact absurd hzero hrev
  | undone => exact Or.inl rfl
  | begun =>
    refine (hold (Or.inl rfl)).imp_right fun ⟨e, hmem, hp⟩ => ⟨e, ?_, hp⟩
    exact List.mem_append_left _ hmem
  | @repaid k _ _ e d' credits reason ledger he hpc hl =>
    obtain ⟨-, -, ht⟩ := h.wired.endings e (List.mem_of_getElem? he)
    rw [hpc] at ht
    obtain ⟨hw, hcredits, -, hd'⟩ := ht
    obtain rfl : d' = d := Option.some.inj (hd'.symm.trans hd)
    exact Or.inr ⟨_, List.mem_set (List.getElem?_eq_some_iff.mp he).1 _, ⟨hw, rfl⟩, hl.refunded.trans hcredits⟩
  | elsewhere hl =>
    exact hold (Or.inr ((h.wired.leaves_refunds hl hd).1 ▸ hrev))
  | read he hpc | won he hpc | assessed he hpc | found he hpc | repayThrew he hpc =>
    refine hset he (fun hover => ?_) rfl
    rw [hpc] at hover
    cases hover
  | stopped he => exact hset he (fun hover => ⟨rfl, rfl, rfl⟩) rfl
  | _ => exact hold (Or.inl rfl)

theorem step (h : Booked q s) (hm : s.Moves q a s') : Booked q s' where
  wired := h.wired.step hm
  winner := h.step_winner hm
  closed := h.step_closed hm
  ended := h.step_ended hm
  once := h.step_once hm
  undone := h.step_undone hm
  source := h.step_source hm

/-- The refund is at most the charge. -/
theorem refunded_le (h : Booked q s) (hd : s.debitId = some d) :
    0 ≤ s.ledger.refunded d ∧ s.ledger.refunded d ≤ q.charge := by
  by_cases hz : s.ledger.reversals d = 0
  · rw [refunded_eq_zero hz]
    exact ⟨le_rfl, charge_nonneg q⟩
  · rcases h.source d hd hz with hun | ⟨e, -, -, hsum⟩
    · rw [(h.undone hun d hd).2]
      exact ⟨charge_nonneg q, le_rfl⟩
    · rw [hsum]
      exact ⟨share_nonneg _, share_le _⟩

/-- Before the one who ended the scan is over, only the request can have reversed the charge; and then nothing was
delivered. -/
theorem open_refunds (h : Booked q s) (hd : s.debitId = some d) {e : Ending}
    (hopen : ∀ x ∈ s.endings, x.won = true → x.pc ≠ .finished) (hdel : s.enqueued = false → e.delivered = []) :
    s.ledger.reversals d ≠ 0 → s.ledger.refunded d = q.share e.delivered ∧ 0 < q.share e.delivered := by
  intro hrev
  rcases h.source d hd hrev with hun | ⟨x, hx, ⟨hw, hover⟩, -⟩
  · obtain ⟨r, hr⟩ := Option.ne_none_iff_exists'.mp (h.wired.kept (by rw [hd]; exact Option.some_ne_none _))
    rw [hdel (h.wired.undone hun).1, share_nil (h.wired.row r hr).2.2]
    exact ⟨(h.undone hun d hd).2, (h.wired.charge d hd).2⟩
  · exact absurd hover (hopen x hx hw)

end Booked

/-! ### When the two agree -/

/-- The database fails no step of the one who ended the scan, which does not look for the debit while it is being
made. -/
def Order.smooth (s : Order) : OrderAction → Bool
  | .fail k => s.endings[k]?.all fun e => !e.won
  | .advance k _ _ => s.endings[k]?.all fun e =>
    match e.pc, s.pc with
    | .find _ _, .debit _ => false
    | _, _ => true
  | _ => true

/-- Who ended the scan has given back its share by the time it is over. -/
structure Agreed (q : Commission) (s : Order) : Prop where
  booked : Booked q s
  waiting : ∀ c, s.pc = .debit c → 0 < c → ∀ e ∈ s.endings, e.won = true → e.pc ≠ .finished
  settled : ∀ d, s.debitId = some d → ∀ e ∈ s.endings, e.won = true → e.pc = .finished →
    s.ledger.refunded d = q.share e.delivered

namespace Agreed

/-- A refund of nothing is over at once, and only then. -/
theorem refunding_over {credits : ℤ} {reason : String} (h : EndPc.refunding credits reason = .finished) : credits ≤ 0 := by
  unfold EndPc.refunding at h
  split at h
  · cases h
  · omega

/-- An ending that wins, or has won, is over only if its share is nothing. -/
theorem share_of_over {e : Ending} {credits : ℤ} {reason : String} (hc : credits = q.share e.delivered)
    (h : EndPc.refunding credits reason = .finished) : q.share e.delivered = 0 :=
  le_antisymm (hc ▸ refunding_over h) (share_nonneg _)

/-- The winner that stops here had nothing left to do. -/
theorem stops_cases (h : Agreed q s) {k : ℕ} {e : Ending} (he : s.endings[k]? = some e) (hstop : e.Stops q s k a)
    (hs : s.smooth a = true) (hw : e.won = true) :
    e.pc = .assess ∧ s.row = none ∨
      (∃ credits reason, e.pc = .find credits reason) ∧ findDebit s.ledger q.scanId = none ∧ ∀ c, s.pc ≠ .debit c := by
  have ht := (h.booked.wired.endings e (List.mem_of_getElem? he)).2.2
  cases hstop with
  | failed =>
    simp only [Order.smooth, he, Option.all_some, hw] at hs
    cases hs
  | outside hpc =>
    rcases hpc with hpc | ⟨_ | ⟨credits, reason⟩, hpc⟩ <;> rw [hpc] at ht
    · rw [ht] at hw
      cases hw
    · rw [ht] at hw
      cases hw
    · rw [ht.1] at hw
      cases hw
  | vanished hpc hr => exact Or.inl ⟨hpc, hr⟩
  | uncharged hpc hd =>
    refine Or.inr ⟨⟨_, _, hpc⟩, hd, fun c hc => ?_⟩
    simp only [Order.smooth, he, Option.all_some, hpc, hc] at hs
    cases hs

/-- At the debit, nothing was delivered, and there is a charge to come. -/
theorem share_pos_at_debit (h : Agreed q s) {c : ℤ} (hpc : s.pc = .debit c) (hpos : 0 < c) : 0 < q.share [] := by
  obtain ⟨hrow, -, -, -, hc⟩ := h.booked.wired.at_debit hpc
  obtain ⟨r, hr⟩ := Option.ne_none_iff_exists'.mp hrow
  rw [share_nil (h.booked.wired.row r hr).2.2, ← hc]
  exact hpos

theorem step_waiting (h : Agreed q s) (hm : s.Moves q a s') (hs : s.smooth a = true) (c : ℤ) (hpc' : s'.pc = .debit c)
    (hpos : 0 < c) : ∀ e ∈ s'.endings, e.won = true → e.pc ≠ .finished := by
  have hold : s.pc = .debit c → ∀ e ∈ s.endings, e.won = true → e.pc ≠ .finished := fun hpc => h.waiting c hpc hpos
  have hshare : s.pc = .debit c → ∀ e : Ending, e.delivered = [] → 0 < q.share e.delivered := fun hpc e hdel =>
    hdel ▸ h.share_pos_at_debit hpc hpos
  have hidle : s.pc = .debit c → s.enqueued = false := fun hpc => (h.booked.wired.at_debit hpc).2.2.1
  cases hm with
  | calm hc =>
    dsimp only at hpc'
    subst hpc'
    generalize s.pc = pc at hc
    cases hc with
    | stopped hp => rcases hp with hp | ⟨e, hp⟩ <;> cases hp
  | inserted hpc =>
    intro e hmem
    have ht := h.booked.wired.tied
    unfold Scans.Tied at ht
    rw [hpc] at ht
    rw [ht.2.1] at hmem
    cases hmem
  | charged | deleted | enqueued | undone | markedFailed => cases hpc'
  | begun => exact forall_mem_concat (hold hpc') fun hw => by cases hw
  | read | found => exact forall_mem_set (hold hpc') fun _ => nofun
  | @won k _ _ e refund r startedAt he hpc hr hopen =>
    refine forall_mem_set (hold hpc') fun _ hover => ?_
    rcases refund with _ | ⟨credits, reason⟩
    · cases hover
    · have ht := (h.booked.wired.endings e (List.mem_of_getElem? he)).2.2
      rw [hpc] at ht
      have hpos' := hshare hpc' e ((h.booked.wired.idle (hidle hpc')).2 e (List.mem_of_getElem? he))
      exact absurd (share_of_over ht.2 hover) hpos'.ne'
  | @assessed k _ _ e r he hpc hr =>
    refine forall_mem_set (hold hpc') fun _ hover => ?_
    have hdel := (h.booked.wired.idle (hidle hpc')).1 r hr
    have hc : q.share r.moduleResults.delivered ≤ 0 := h.booked.wired.creditsRefunded hr ▸ refunding_over hover
    rw [hdel] at hc
    exact absurd (h.share_pos_at_debit hpc' hpos) (not_lt.mpr hc)
  | repaid he hpc | repayThrew he hpc =>
    have ht := (h.booked.wired.endings _ (List.mem_of_getElem? he)).2.2
    rw [hpc] at ht
    rw [(h.booked.wired.at_debit hpc').2.1] at ht
    cases ht.2.2.2
  | stopped he hstop =>
    refine forall_mem_set (hold hpc') fun hw _ => ?_
    rcases h.stops_cases he hstop hs hw with ⟨-, hr⟩ | ⟨-, -, hne⟩
    · exact (h.booked.wired.at_debit hpc').1 hr
    · exact hne c hpc'
  | _ => exact hold hpc'

/-- The one who ends the scan is over at once, because its share is nothing: nobody has reversed the charge. -/
theorem settled_of_nothing (h : Agreed q s) (hd : s.debitId = some d) {e : Ending}
    (hopen : ∀ x ∈ s.endings, x.won = true → x.pc ≠ .finished) (hdel : s.enqueued = false → e.delivered = [])
    (hshare : q.share e.delivered = 0) : s.ledger.refunded d = q.share e.delivered := by
  by_cases hz : s.ledger.reversals d = 0
  · rw [refunded_eq_zero hz, hshare]
  · exact (h.booked.open_refunds hd hopen hdel hz).1

/-- Two who ended the scan are one. -/
theorem open_of_won (h : Booked q s) {k : ℕ} {e : Ending} (he : s.endings[k]? = some e) (hw : e.won = true)
    (hpc : e.pc ≠ .finished) : ∀ x ∈ s.endings, x.won = true → x.pc ≠ .finished := fun x hx hw' hover => by
  obtain rfl := eq_of_countP_le_one h.winner (List.mem_of_getElem? he) hx hw hw'
  exact hpc hover

theorem step_settled (h : Agreed q s) (hm : s.Moves q a s') (hs : s.smooth a = true) (d : ℕ) (hd : s'.debitId = some d) :
    ∀ e ∈ s'.endings, e.won = true → e.pc = .finished → s'.ledger.refunded d = q.share e.delivered := by
  have hold : s.debitId = some d → s'.ledger.refunded d = s.ledger.refunded d →
      ∀ e ∈ s.endings, e.won = true → e.pc = .finished → s'.ledger.refunded d = q.share e.delivered := fun hid hsame e hmem hw hover =>
    hsame.trans (h.settled d hid e hmem hw hover)
  have hidle : ∀ e ∈ s.endings, s.enqueued = false → e.delivered = [] := fun e hmem hq => (h.booked.wired.idle hq).2 e hmem
  cases hm with
  | charged hpc hpos =>
    intro e hmem hw hover
    exact absurd hover (h.waiting _ hpc hpos e hmem hw)
  | undone hpc ho hl =>
    intro e hmem hw hover
    have ht := h.booked.wired.tied
    unfold Scans.Tied at ht
    rw [hpc] at ht
    obtain rfl := Option.some.inj (ht.1.symm.trans hd)
    have hzero := refunded_eq_zero hl.fresh
    obtain ⟨r, hr⟩ := Option.ne_none_iff_exists'.mp (h.booked.wired.kept (hd ▸ Option.some_ne_none _))
    rw [h.settled _ hd e hmem hw hover, hidle e hmem ht.2.1, share_nil (h.booked.wired.row r hr).2.2] at hzero
    exact absurd hzero (h.booked.wired.charge _ hd).2.ne'
  | begun => exact forall_mem_concat (hold hd rfl) fun hw => by cases hw
  | read | found => exact forall_mem_set (hold hd rfl) fun _ => nofun
  | @won k _ _ e refund r startedAt he hpc hr hopen =>
    refine forall_mem_set (hold hd rfl) fun _ hover => ?_
    rcases refund with _ | ⟨credits, reason⟩
    · cases hover
    · have ht := (h.booked.wired.endings e (List.mem_of_getElem? he)).2.2
      rw [hpc] at ht
      refine h.settled_of_nothing hd (e := e) (fun x hx hw _ => ?_) (hidle e (List.mem_of_getElem? he))
        (share_of_over ht.2 hover)
      rw [h.booked.closed x hx hw r hr] at hopen
      cases hopen
  | @assessed k _ _ e r he hpc hr =>
    refine forall_mem_set (hold hd rfl) fun hw hover => ?_
    have hne : e.pc ≠ .finished := by
      rw [hpc]
      nofun
    refine h.settled_of_nothing hd (e := { e with delivered := r.moduleResults.delivered })
      (open_of_won h.booked he hw hne) (fun hq => (h.booked.wired.idle hq).1 r hr) ?_
    exact share_of_over (h.booked.wired.creditsRefunded hr) hover
  | @repaid k _ _ e d' credits reason ledger he hpc hl =>
    have ht := (h.booked.wired.endings e (List.mem_of_getElem? he)).2.2
    rw [hpc] at ht
    obtain ⟨hw, hcredits, -, hd'⟩ := ht
    obtain rfl := Option.some.inj (hd'.symm.trans hd)
    have hne : e.pc ≠ .finished := by
      rw [hpc]
      nofun
    refine forall_mem_set (fun x hx hw' hover => ?_) fun _ _ => hl.refunded.trans hcredits
    exact absurd hover (open_of_won h.booked he hw hne x hx hw')
  | @repayThrew k _ _ e d' credits reason he hpc hbusy =>
    have ht := (h.booked.wired.endings e (List.mem_of_getElem? he)).2.2
    rw [hpc] at ht
    obtain ⟨hw, hcredits, hpos, hd'⟩ := ht
    obtain rfl := Option.some.inj (hd'.symm.trans hd)
    have hne : e.pc ≠ .finished := by
      rw [hpc]
      nofun
    have hle : credits ≤ q.charge := hcredits ▸ share_le _
    have hrev := hbusy q.charge (h.booked.wired.charge _ hd).1 hpos hle (hle.trans (charge_le q))
    exact forall_mem_set (hold hd rfl) fun _ _ =>
      (h.booked.open_refunds hd (open_of_won h.booked he hw hne) (hidle e (List.mem_of_getElem? he)) hrev).1
  | @stopped _ k e he hstop =>
    refine forall_mem_set (hold hd rfl) fun hw _ => ?_
    rcases h.stops_cases he hstop hs hw with ⟨-, hr⟩ | ⟨-, hnone, -⟩
    · exact absurd hr (h.booked.wired.kept (hd ▸ Option.some_ne_none _))
    · obtain ⟨hcharge, -⟩ := h.booked.wired.charge d hd
      have := findDebit_eq_none hnone _ (List.mem_of_getElem? hcharge)
      simp [isScanCharge, scanCharge] at this
  | elsewhere hl => exact hold hd (h.booked.wired.leaves_refunds hl hd).2
  | _ => exact hold hd rfl

theorem step (h : Agreed q s) (hm : s.Moves q a s') (hs : s.smooth a = true) : Agreed q s' where
  booked := h.booked.step hm
  waiting := h.step_waiting hm hs
  settled := h.step_settled hm hs

end Agreed

/-! ### What the ledger shows in the end -/

/-- Nothing in the ledger is about the scan yet. -/
structure Unscanned (q : Commission) (ledger : Ledger) : Prop where
  rows : ∀ t ∈ ledger.transactions, t.scanId ≠ some q.scanId
  reversing : ∀ t ∈ ledger.transactions, ∀ d, t.reversesId = some d → d < ledger.transactions.length

theorem Unscanned.agreed (h : Unscanned q l) : Agreed q (.start l) where
  booked :=
    { wired :=
        { tied := ⟨rfl, rfl, rfl, rfl, rfl⟩
          endings := fun _ he => nomatch he
          undone := fun hu => nomatch hu
          charge := fun _ hd => nomatch hd
          only := fun i t hi ht => by
            have := h.rows t (List.mem_of_getElem? hi)
            simp [isScanCharge, this] at ht
          reversing := h.reversing
          row := fun _ hr => nomatch hr
          kept := fun hd => absurd rfl hd
          idle := fun _ => ⟨(fun _ hr => nomatch hr), fun _ he => nomatch he⟩ }
      winner := Nat.zero_le _
      closed := fun _ he => nomatch he
      ended := fun _ hr => nomatch hr
      once := fun _ hd => nomatch hd
      undone := fun hu => nomatch hu
      source := fun _ hd => nomatch hd }
  waiting := fun _ hpc => nomatch hpc
  settled := fun _ hd => nomatch hd

/-- Everyone who set out to end the scan has come to an end, and it is ended. -/
def Order.isEnded (s : Order) : Bool := s.endings.all (·.pc = .finished) && s.row.any (·.state.isTerminal)

/-- What is true in every state: one charge, and one refund of it at most. -/
structure Order.Orderly (q : Commission) (s : Order) : Prop where
  amount : ∀ (d : ℕ) t, s.ledger.transactions[d]? = some t → isScanCharge q.scanId t = true → t.amount = q.charge
  single : ∀ (d d' : ℕ) t t', s.ledger.transactions[d]? = some t → isScanCharge q.scanId t = true →
    s.ledger.transactions[d']? = some t' → isScanCharge q.scanId t' = true → d = d'
  once : ∀ (d : ℕ) t, s.ledger.transactions[d]? = some t → isScanCharge q.scanId t = true →
    s.ledger.reversals d ≤ 1 ∧ 0 ≤ s.ledger.refunded d ∧ s.ledger.refunded d ≤ t.amount

/-- What is true of the charge of an ended scan: the one who ended the scan gave back the share of what it found
undelivered, which is nothing if every area was charged for, each was named once and all were delivered; or the
request itself failed the scan, and gave back everything. -/
structure Order.Settled (q : Commission) (s : Order) : Prop where
  refund : s.isEnded = true → ∀ (d : ℕ) t, s.ledger.transactions[d]? = some t → isScanCharge q.scanId t = true →
    (∃ e ∈ s.endings, e.won = true ∧
      s.ledger.refunded d = refundForUndelivered t.amount q.input.modules.length e.delivered.length ∧
      (q.input.modules.Nodup → (∀ m ∈ q.input.modules, q.gate.isMet q.input.modules m = true) →
        (∀ m ∈ q.gate.chargeable q.input.modules, m ∈ e.delivered) → s.ledger.refunded d = 0)) ∨
    s.row.map (·.state) = some .FAILED ∧ s.ledger.refunded d = t.amount

theorem Booked.orderly (h : Booked q s) : s.Orderly q where
  amount d t hd ht := by
    obtain ⟨hc, -⟩ := h.wired.charge d (h.wired.only d t hd ht)
    rw [hd] at hc
    cases hc
    rfl
  single d d' t t' hd ht hd' ht' := Option.some.inj ((h.wired.only d t hd ht).symm.trans (h.wired.only d' t' hd' ht'))
  once d t hd ht := by
    have hid := h.wired.only d t hd ht
    obtain ⟨hc, -⟩ := h.wired.charge d hid
    rw [hd] at hc
    cases hc
    exact ⟨h.once d hid, h.refunded_le hid⟩

/-- All that was requested was charged, and delivered: there is no share to give back. -/
theorem share_of_delivered {delivered : List ModuleType} (hnd : q.input.modules.Nodup)
    (hmet : ∀ m ∈ q.input.modules, q.gate.isMet q.input.modules m = true)
    (hall : ∀ m ∈ q.gate.chargeable q.input.modules, m ∈ delivered) : q.share delivered = 0 := by
  have hsub : q.input.modules ⊆ delivered := fun m hm => hall m (List.mem_filter.mpr ⟨hm, hmet m hm⟩)
  refine refundForUndelivered_of_le ?_
  exact_mod_cast (List.subperm_of_subset hnd hsub).length_le

theorem Agreed.settled_at_end (h : Agreed q s) : s.Settled q where
  refund hend d t hd ht := by
    have hid := h.booked.wired.only d t hd ht
    obtain ⟨hc, -⟩ := h.booked.wired.charge d hid
    rw [hd] at hc
    cases hc
    simp only [Order.isEnded, Bool.and_eq_true, List.all_eq_true, decide_eq_true_eq] at hend
    obtain ⟨hover, hrow⟩ := hend
    obtain ⟨r, hr, hterm⟩ := Option.any_eq_true _ _ |>.mp hrow
    rcases h.booked.ended r hr hterm with ⟨e, hmem, hw⟩ | ⟨hfailed, -, hun⟩
    · have hsum := h.settled d hid e hmem hw (hover e hmem)
      exact Or.inl ⟨e, hmem, hw, hsum, fun hnd hmet hall => hsum.trans (share_of_delivered hnd hmet hall)⟩
    · refine Or.inr ⟨by rw [hr, ← hfailed]; rfl, ?_⟩
      exact (h.booked.undone (hun (hid ▸ Option.some_ne_none _)) d hid).2

/-- **A scan's charge and its refund agree**: what is true of every run, what is true where the database fails no
step of the one who ends the scan, and that delivering one more area never gives more back. -/
theorem charge_and_refund_agree (h₀ : Unscanned q l) :
    (∀ s, Reaches (Order.step q) (.start l) s → s.Orderly q) ∧
      (∀ s, Reaches (Guarded (Order.step q) fun s a _ => s.smooth a = true) (.start l) s → s.Settled q) ∧
        ∀ n : ℕ, refundForUndelivered q.charge q.input.modules.length (n + 1) ≤
          refundForUndelivered q.charge q.input.modules.length n := by
  refine ⟨fun s hs => ?_, fun s hs => ?_, fun n => refundForUndelivered_antitone (by omega)⟩
  · have : Booked q s := hs.inv h₀.agreed.booked fun u a u' hu hstep => hu.step (order_moves hstep)
    exact this.orderly
  · have : Agreed q s := hs.inv h₀.agreed fun u a u' hu hstep => hu.step (order_moves hstep.1) hstep.2
    exact this.settled_at_end

/-- A design and a search engine audit, nothing gated. -/
def twoAreas : Commission := ⟨7, ⟨[.UI, .SEO], 35⟩, ⟨fun _ => .NONE, .NONE⟩⟩

/-- Fifty credits to spend. -/
def fiftyCredits : Ledger :=
  { lots := [⟨.PLAN, .FREE_GRANT, 50, 50, none, 0⟩]
    transactions := [⟨.GRANT, 50, "grant:free_grant", none, none, none, none⟩]
    allocations := [] }

theorem unscanned_fiftyCredits : Unscanned twoAreas fiftyCredits where
  rows t ht := by
    obtain rfl := List.mem_singleton.mp ht
    nofun
  reversing t ht d hd := by
    obtain rfl := List.mem_singleton.mp ht
    cases hd

/-- The scan is ordered and starts, one area is delivered, and the user cancels. -/
def cancelledHalfway : List OrderAction :=
  List.replicate 6 (.create none 1) ++ [.move .QUEUED .RUNNING_PHASE_1 2, .persist .SEO .COMPLETE, .begin .QUEUED .CANCELLED] ++
    List.replicate 4 (.advance 0 none 3)

/-- Half of the areas: half of the charge, rounded down. -/
theorem charge_and_refund_agree_cancelled : ∃ s,
    Reaches (Guarded (Order.step twoAreas) fun s a _ => s.smooth a = true) (.start fiftyCredits) s ∧
      (s.isEnded = true ∧ findDebit s.ledger 7 = some 1 ∧ s.ledger.refunded 1 = 17) ∧ s.Settled twoAreas := by
  obtain ⟨s, hs, hp⟩ := Reaches.exists_of_play (Order.next twoAreas) Order.smooth (.start fiftyCredits) cancelledHalfway
    (fun s => s.isEnded = true ∧ findDebit s.ledger 7 = some 1 ∧ s.ledger.refunded 1 = 17) (by decide)
  exact ⟨s, hs, hp, (charge_and_refund_agree unscanned_fiftyCredits).2.1 s hs⟩

/-- The share is a share of what was requested, not the price of what was delivered: half of an audit that cost 35
costs 18, although the area that was delivered costs 10. -/
theorem share_is_not_the_price : ¬ ∀ s, Reaches (Order.step twoAreas) (.start fiftyCredits) s → s.isEnded = true →
    ∀ r t, s.row = some r → s.ledger.transactions[1]? = some t →
      t.amount - s.ledger.refunded 1 = quoteFor r.moduleResults.delivered := by
  intro hall
  obtain ⟨s, hs, hend, hrow, ht, hsum⟩ :=
    Reaches.exists_of_play (Order.next twoAreas) Order.smooth (.start fiftyCredits) cancelledHalfway
      (fun s => s.isEnded = true ∧ s.row.map (fun r => quoteFor r.moduleResults.delivered) = some 10 ∧
        (s.ledger.transactions[1]?).map (·.amount) = some 35 ∧ s.ledger.refunded 1 = 17)
      (by decide)
  obtain ⟨r, hr, hprice⟩ := Option.map_eq_some_iff.mp hrow
  obtain ⟨t, ht, hamount⟩ := Option.map_eq_some_iff.mp ht
  have := hall s hs.of_guarded hend r t hr ht
  omega

end WebAudit.Scans
