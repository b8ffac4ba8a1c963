import Mathlib.Algebra.Order.BigOperators.Group.List
import Mathlib.Tactic.Linarith
import Mathlib.Data.List.Dedup
import WebAudit.Scans.States

/-!
# What a scan costs, and what is given back

The price table with its bundle (`packages/config/src/pricing.ts`), the share of a charge that
goes back for what was not delivered (`refund.ts`), and what `createScan` makes of a request:
the price of the whole selection has to be the one the user accepted, and what is charged is the
price of the areas whose control gate is met.
-/

namespace WebAudit.Scans

/-! ### The price table -/

/-- `AREA_COST`. -/
def areaCost : ModuleType → ℤ
  | .PERFORMANCE => 20
  | .SECURITY => 20
  | .UI => 25
  | .TESTING => 20
  | .SEO => 10

/-- `FULL_AUDIT_COST`. -/
def fullAuditCost : ℤ := 80

/-- The cost of auditing a set of areas: all five at the bundled price. -/
def quoteAreas (areas : List ModuleType) : ℤ :=
  let unique := areas.dedup
  if unique.length = 0 then 0
  else if unique.length = allAreas.length then fullAuditCost
  else (unique.map areaCost).sum

/-- The credits of `quoteFor`. -/
def quoteFor (modules : List ModuleType) : ℤ := quoteAreas modules.dedup

theorem quoteAreas_nonneg (areas : List ModuleType) : 0 ≤ quoteAreas areas := by
  have hsum : 0 ≤ (areas.dedup.map areaCost).sum := by
    refine List.sum_nonneg fun x hx => ?_
    obtain ⟨m, -, rfl⟩ := List.mem_map.mp hx
    cases m <;> decide
  unfold quoteAreas
  dsimp only
  split
  · exact le_rfl
  · split
    · decide
    · exact hsum

theorem quoteAreas_le (areas : List ModuleType) : quoteAreas areas ≤ 125 := by
  have hlength : areas.dedup.length ≤ 5 := length_le_of_nodup (List.nodup_dedup areas)
  have hsum : (areas.dedup.map areaCost).sum ≤ (areas.dedup.map areaCost).length • (25 : ℤ) := by
    refine List.sum_le_card_nsmul _ _ fun x hx => ?_
    obtain ⟨m, -, rfl⟩ := List.mem_map.mp hx
    cases m <;> decide
  rw [List.length_map, nsmul_eq_mul] at hsum
  unfold quoteAreas
  dsimp only
  split
  · decide
  · split
    · decide
    · have : (areas.dedup.length : ℤ) ≤ 5 := by exact_mod_cast hlength
      linarith

/-! ### What is given back -/

/-- What to refund of a charge for what was requested and not delivered, rounded down. -/
def refundForUndelivered (chargedCredits requestedCount deliveredCount : ℤ) : ℤ :=
  if requestedCount ≤ 0 ∨ chargedCredits ≤ 0 then 0
  else
    let undelivered := max 0 (requestedCount - deliveredCount)
    if undelivered = 0 then 0
    else if deliveredCount = 0 then chargedCredits
    else chargedCredits * undelivered / requestedCount

variable {charged requested delivered : ℤ}

/-- The share of `undelivered` in `requested`, which the refund is whether or not anything was delivered. -/
theorem refundForUndelivered_eq (hr : 0 < requested) (hc : 0 ≤ charged) :
    refundForUndelivered charged requested delivered = charged * max 0 (requested - delivered) / requested := by
  unfold refundForUndelivered
  dsimp only
  split
  · obtain rfl : charged = 0 := by omega
    simp
  · split
    · rename_i h
      simp [h]
    · split
      · rename_i h
        rw [h, sub_zero, max_eq_right hr.le, Int.mul_ediv_cancel _ hr.ne']
      · rfl

theorem refundForUndelivered_of_nonpos (h : requested ≤ 0 ∨ charged ≤ 0) :
    refundForUndelivered charged requested delivered = 0 := if_pos h

theorem refundForUndelivered_nonneg : 0 ≤ refundForUndelivered charged requested delivered := by
  by_cases h : requested ≤ 0 ∨ charged ≤ 0
  · rw [refundForUndelivered_of_nonpos h]
  · rw [refundForUndelivered_eq (by omega) (by omega)]
    exact Int.ediv_nonneg (mul_nonneg (by omega) (le_max_left _ _)) (by omega)

/-- **Delivering more never gives more back.** -/
theorem refundForUndelivered_antitone {delivered' : ℤ} (h : delivered ≤ delivered') :
    refundForUndelivered charged requested delivered' ≤ refundForUndelivered charged requested delivered := by
  by_cases hn : requested ≤ 0 ∨ charged ≤ 0
  · rw [refundForUndelivered_of_nonpos hn, refundForUndelivered_of_nonpos hn]
  · rw [refundForUndelivered_eq (by omega) (by omega), refundForUndelivered_eq (by omega) (by omega)]
    refine Int.ediv_le_ediv (by omega) (mul_le_mul_of_nonneg_left ?_ (by omega))
    exact max_le_max le_rfl (by omega)

/-- Nothing delivered: all of the charge goes back. -/
theorem refundForUndelivered_zero (hr : 0 < requested) (hc : 0 ≤ charged) :
    refundForUndelivered charged requested 0 = charged := by
  rw [refundForUndelivered_eq hr hc, sub_zero, max_eq_right hr.le, Int.mul_ediv_cancel _ hr.ne']

theorem refundForUndelivered_le (hc : 0 ≤ charged) (hd : 0 ≤ delivered) :
    refundForUndelivered charged requested delivered ≤ charged := by
  by_cases hr : requested ≤ 0
  · rw [refundForUndelivered_of_nonpos (Or.inl hr)]
    exact hc
  · calc refundForUndelivered charged requested delivered
        ≤ refundForUndelivered charged requested 0 := refundForUndelivered_antitone hd
      _ = charged := refundForUndelivered_zero (by omega) hc

/-- As much delivered as was requested: nothing goes back. -/
theorem refundForUndelivered_of_le (h : requested ≤ delivered) :
    refundForUndelivered charged requested delivered = 0 := by
  by_cases hn : requested ≤ 0 ∨ charged ≤ 0
  · exact refundForUndelivered_of_nonpos hn
  · rw [refundForUndelivered_eq (by omega) (by omega), max_eq_left (by omega), mul_zero, Int.zero_ediv]

/-! ### What is charged -/

structure CreateScanInput where
  modules : List ModuleType
  acceptedQuote : ℤ
  deriving DecidableEq

/-- What `createScan` is told from outside: the level an area requires, and the level that the target is found to
have if it is probed. -/
structure ControlGate where
  resolveRequiredControlLevel : ModuleType → ControlLevel
  probe : ControlLevel

namespace ControlGate

/-- Some selected area requires more than `NONE`. -/
def anyGate (g : ControlGate) (modules : List ModuleType) : Bool :=
  modules.any fun m => 0 < controlLevelRank (g.resolveRequiredControlLevel m)

/-- The target's level: it is only probed where that matters. -/
def reconfirmed (g : ControlGate) (modules : List ModuleType) : ControlLevel :=
  if g.anyGate modules then g.probe else .NONE

/-- The target's level is enough for the area. -/
def isMet (g : ControlGate) (modules : List ModuleType) (m : ModuleType) : Bool :=
  controlLevelRank (g.resolveRequiredControlLevel m) ≤ controlLevelRank (g.reconfirmed modules)

/-- `chargeableModules`. -/
def chargeable (g : ControlGate) (modules : List ModuleType) : List ModuleType := modules.filter (g.isMet modules)

end ControlGate

/-- What `createScan` throws, as far as it is told apart here. -/
inductive CreateScanError where
  | controlLevelRequired (required current : ControlLevel)
  | quoteMismatch (currentCredits acceptedQuote : ℤ)
  | insufficientCredits (required available : ℤ)
  | duplicateScan
  | scanPlanRefused
  /-- A call failed. -/
  | error
  deriving DecidableEq

/-- The strictest level that the selection requires; of two alike the first. -/
def strictest (g : ControlGate) : List ModuleType → ControlLevel
  | [] => .NONE
  | m :: modules => modules.foldl
      (fun max m' =>
        if controlLevelRank max < controlLevelRank (g.resolveRequiredControlLevel m') then
          g.resolveRequiredControlLevel m'
        else max)
      (g.resolveRequiredControlLevel m)

/-- `chargeCredits`: what the request comes to, or why it is refused. -/
def chargeCredits (g : ControlGate) (input : CreateScanInput) : Except CreateScanError ℤ :=
  let level := g.reconfirmed input.modules
  if input.modules.all (fun m => !g.isMet input.modules m) then
    .error (.controlLevelRequired (strictest g input.modules) level)
  else if quoteFor input.modules ≠ input.acceptedQuote then
    .error (.quoteMismatch (quoteFor input.modules) input.acceptedQuote)
  else .ok (quoteFor (g.chargeable input.modules))

theorem chargeCredits_ok {g : ControlGate} {input : CreateScanInput} {charge : ℤ}
    (h : chargeCredits g input = .ok charge) :
    charge = quoteFor (g.chargeable input.modules) ∧ quoteFor input.modules = input.acceptedQuote ∧
      0 < input.modules.length := by
  unfold chargeCredits at h
  dsimp only at h
  split at h
  · cases h
  rename_i hall
  split at h
  · cases h
  rename_i hquote
  cases h
  refine ⟨rfl, not_not.mp hquote, ?_⟩
  rcases hm : input.modules with _ | ⟨m, modules⟩
  · rw [hm] at hall
    exact absurd rfl hall
  · exact Nat.succ_pos _

end WebAudit.Scans
