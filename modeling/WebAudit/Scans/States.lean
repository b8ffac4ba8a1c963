import Mathlib.Data.List.Nodup
import Mathlib.Data.List.Perm.Subperm

/-!
# A scan: its states, its areas, their results

The transition table of a scan and the areas it may audit, as `packages/types` and the
orchestrator's state machine have them. A scan never comes back to a state it has left:
every edge of the table goes up (`rank_lt_of_canTransition`).
-/

namespace WebAudit.Scans

/-! ### States -/

inductive ScanState where
  | QUEUED
  | RUNNING_PHASE_1
  | AWAITING_QUESTIONNAIRE
  | RUNNING_PHASE_2
  | RUNNING_PHASE_3
  | RUNNING_MASTER
  | RUNNING_DOCS
  | COMPLETED
  | FAILED
  | CANCELLED
  | TIMED_OUT
  deriving DecidableEq

namespace ScanState

/-- `SCAN_STATES_TERMINAL` holds the state. -/
def isTerminal : ScanState → Bool
  | COMPLETED | FAILED | CANCELLED | TIMED_OUT => true
  | _ => false

/-- `ALLOWED`: where a scan may go from here. -/
def allowed : ScanState → List ScanState
  | QUEUED => [RUNNING_PHASE_1, CANCELLED, FAILED, TIMED_OUT]
  | RUNNING_PHASE_1 => [AWAITING_QUESTIONNAIRE, RUNNING_PHASE_2, CANCELLED, FAILED, TIMED_OUT]
  | AWAITING_QUESTIONNAIRE => [RUNNING_PHASE_2, CANCELLED, FAILED, TIMED_OUT]
  | RUNNING_PHASE_2 => [RUNNING_PHASE_3, CANCELLED, FAILED, TIMED_OUT]
  | RUNNING_PHASE_3 => [RUNNING_MASTER, CANCELLED, FAILED, TIMED_OUT]
  | RUNNING_MASTER => [RUNNING_DOCS, CANCELLED, FAILED, TIMED_OUT]
  | RUNNING_DOCS => [COMPLETED, CANCELLED, FAILED, TIMED_OUT]
  | COMPLETED | FAILED | CANCELLED | TIMED_OUT => []

/-- How far along a scan is. -/
def rank : ScanState → ℕ
  | QUEUED => 0
  | RUNNING_PHASE_1 => 1
  | AWAITING_QUESTIONNAIRE => 2
  | RUNNING_PHASE_2 => 3
  | RUNNING_PHASE_3 => 4
  | RUNNING_MASTER => 5
  | RUNNING_DOCS => 6
  | COMPLETED | FAILED | CANCELLED | TIMED_OUT => 7

end ScanState

open ScanState

/-- The table has this edge. -/
def canTransition (before after : ScanState) : Bool := before.allowed.contains after

/-- `PHASE_ORDER`. -/
def phaseOrder : List ScanState := [RUNNING_PHASE_1, RUNNING_PHASE_2, RUNNING_PHASE_3, RUNNING_MASTER, RUNNING_DOCS]

/-- Which phase follows this one. -/
def nextPhase (state : ScanState) : Option ScanState :=
  if state.isTerminal then none
  else (phaseOrder.findIdx? (· = state)).map fun index => phaseOrder[index + 1]?.getD COMPLETED

theorem rank_lt_of_canTransition {before after : ScanState} (h : canTransition before after = true) :
    before.rank < after.rank := by
  revert h
  cases before <;> cases after <;> decide

theorem canTransition_terminal {before after : ScanState} (h : before.isTerminal = true) :
    canTransition before after = false := by
  cases before <;> first | rfl | cases h

/-! ### Areas -/

inductive ModuleType where
  | PERFORMANCE
  | SECURITY
  | UI
  | TESTING
  | SEO
  deriving DecidableEq

/-- `ALL_AREAS`. -/
def allAreas : List ModuleType := [.PERFORMANCE, .SECURITY, .UI, .TESTING, .SEO]

theorem mem_allAreas (m : ModuleType) : m ∈ allAreas := by cases m <;> decide

theorem length_le_of_nodup {areas : List ModuleType} (h : areas.Nodup) : areas.length ≤ allAreas.length :=
  (List.subperm_of_subset h fun m _ => mem_allAreas m).length_le

/-- What has to be proved about a target before an area may be audited. -/
inductive ControlLevel where
  | NONE
  | ATTESTED
  | VERIFIED
  deriving DecidableEq

/-- `controlLevelRank`. -/
def controlLevelRank : ControlLevel → ℕ
  | .NONE => 0
  | .ATTESTED => 1
  | .VERIFIED => 2

/-- Which of the requested areas a phase runs. -/
def modulesForPhase (phase : ScanState) (requested : List ModuleType) : List ModuleType :=
  match phase with
  | .RUNNING_PHASE_1 => requested.filter (· ≠ .UI)
  | .RUNNING_PHASE_2 => requested.filter (· = .UI)
  | _ => []

/-! ### Results -/

inductive ModuleState where
  | PENDING
  | RUNNING
  | COMPLETE
  | DEGRADED
  | FAILED
  | NOT_APPLICABLE
  deriving DecidableEq

/-- `isDelivered`: the state is one of `MODULE_STATES_SCORED`. -/
def ModuleState.isDelivered : ModuleState → Bool
  | COMPLETE | DEGRADED => true
  | _ => false

/-- The rows of `ModuleResult` of one scan: at most one for an area. -/
structure ModuleResults where
  rows : List (ModuleType × ModuleState)
  unique : (rows.map Prod.fst).Nodup
  deriving DecidableEq

namespace ModuleResults

def empty : ModuleResults := ⟨[], List.nodup_nil⟩

/-- The result of an area replaces the one it had. -/
def upsert (r : ModuleResults) (module : ModuleType) (state : ModuleState) : ModuleResults where
  rows := (r.rows.filter (·.1 ≠ module)) ++ [(module, state)]
  unique := by
    rw [List.map_append, List.nodup_append]
    refine ⟨r.unique.sublist (List.filter_sublist.map _), List.nodup_singleton _, ?_⟩
    intro m hm n hn e
    obtain ⟨p, hp, rfl⟩ := List.mem_map.mp hm
    have hne : p.1 ≠ module := by simpa using (List.mem_filter.mp hp).2
    have hn : n = module := by simpa using hn
    exact hne (e.trans hn)

/-- The areas that were delivered. -/
def delivered (r : ModuleResults) : List ModuleType := (r.rows.filter (·.2.isDelivered)).map Prod.fst

theorem delivered_nodup (r : ModuleResults) : r.delivered.Nodup := r.unique.sublist (List.filter_sublist.map _)

end ModuleResults

end WebAudit.Scans
