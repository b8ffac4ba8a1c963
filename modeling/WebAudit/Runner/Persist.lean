import WebAudit.Runner.Run
import WebAudit.Lib.Distinct
import WebAudit.Lib.Runs

/-!
# What is stored of a module's run

`module-runner/persist.ts`, over the tables of one scan. The row of the result is replaced; issues are created under
the scan's unique fingerprints, and those that are there stay as they are; executions and the model's invocations are
appended.

A call is one transaction. The id of a result is its module, and that of an execution its position.
-/

namespace WebAudit.Runner

open WebAudit.Lib WebAudit.Lib.Uri WebAudit.Lib.Values WebAudit.Scans

/-- A row of `ModuleResult`. -/
structure ModuleResultRow where
  module : ModuleType
  state : ModuleState
  score : Option ℤ
  summary : Option Text
  skippedReason : Option Text
  degradedReason : Option Text
  deriving DecidableEq

/-- A row of `Issue`. -/
structure IssueRow where
  module : ModuleType
  fingerprint : Text
  checkId : Text
  severity : Severity
  title : Text
  explanation : Text
  consequence : Text
  location : Option Text
  evidence : Option Tree
  attribution : Attribution
  fixPrompt : Text
  fixable : Bool

/-- A row of `CapabilityExecution`. -/
structure ExecutionRow where
  module : ModuleType
  record : ExecutionRecord
  deriving DecidableEq

/-- A row of `AiInvocation`; its execution is that of a module. -/
structure InvocationRow where
  module : ModuleType
  provider : Text
  model : Text
  chainPosition : ℕ
  promptTokens : ℤ
  outputTokens : ℤ
  latencyMs : ℕ
  costMicros : ℤ
  outcome : AiOutcome
  deriving DecidableEq

structure ScanTables where
  results : List ModuleResultRow
  issues : List IssueRow
  executions : List ExecutionRow
  invocations : List InvocationRow

def ScanTables.empty : ScanTables := ⟨[], [], [], []⟩

namespace ModuleRunResult

variable (result : ModuleRunResult)

def row : ModuleResultRow :=
  ⟨result.module, result.state, result.score, result.summary, result.skippedReason, result.degradedReason⟩

def issueRow (finding : AttributedFinding) : IssueRow :=
  ⟨result.module, finding.fingerprint, finding.checkId, finding.severity, finding.title, finding.explanation, finding.consequence,
    finding.location, finding.evidence, finding.attribution, finding.fixPrompt, finding.fixable⟩

def issueRows : List IssueRow := result.findings.map result.issueRow

/-- The execution of the module's own call of the model. -/
def aiExecution : ExecutionRecord :=
  { capabilityId := ascii "module-ai:" ++ moduleLower result.module
    succeeded := result.aiInvocations.any (·.outcome = .SUCCESS)
    skippedReason := none
    findingCount := (result.findings.filter (·.layer = .AI)).length
    durationMs := (result.aiInvocations.map (·.latencyMs)).sum
    costMicros := result.aiCostMicros
    errorMessage := (result.aiInvocations.find? (·.outcome ≠ .SUCCESS)).bind (·.errorMessage) }

def executionRows : List ExecutionRow :=
  (result.executions ++ if result.aiInvocations.isEmpty then [] else [result.aiExecution]).map (⟨result.module, ·⟩)

def invocationRows : List InvocationRow :=
  result.aiInvocations.map fun i =>
    ⟨result.module, i.provider, i.model, i.chainPosition, i.promptTokens, i.outputTokens, i.latencyMs, i.costMicros, i.outcome⟩

end ModuleRunResult

/-- `upsert` on the scan and the module. -/
def upsertResult (rows : List ModuleResultRow) (row : ModuleResultRow) : List ModuleResultRow :=
  rows.filter (·.module ≠ row.module) ++ [row]

def persistModuleResult (tables : ScanTables) (result : ModuleRunResult) : ScanTables :=
  { results := upsertResult tables.results result.row
    issues := tables.issues ++ created IssueRow.fingerprint (tables.issues.map (·.fingerprint)) result.issueRows
    executions := tables.executions ++ result.executionRows
    invocations := tables.invocations ++ result.invocationRows }

namespace ScanTables

variable (tables : ScanTables) (module : ModuleType)

def resultOf : Option ModuleResultRow := tables.results.find? (·.module = module)
def issuesOf : List IssueRow := tables.issues.filter (·.module = module)
def executionsOf : List ExecutionRow := tables.executions.filter (·.module = module)
def invocationsOf : List InvocationRow := tables.invocations.filter (·.module = module)

end ScanTables

section Of

variable {tables : ScanTables} {result : ModuleRunResult} {module : ModuleType}

/-- Rows of another module are the same without this one's. -/
theorem find?_others (rows : List ModuleResultRow) (same : ModuleType) :
    (rows.filter (·.module ≠ same)).find? (·.module = module) = if same = module then none else rows.find? (·.module = module) := by
  induction rows with
  | nil => simp
  | cons row rows ih =>
    by_cases hsame : row.module = same
    · rw [List.filter_cons_of_neg (by simp [hsame]), ih, List.find?_cons]
      split
      · rfl
      · next h => rw [decide_eq_false (hsame ▸ h)]
    · rw [List.filter_cons_of_pos (by simp [hsame]), List.find?_cons, ih, List.find?_cons]
      by_cases hrow : row.module = module
      · have hne : ¬ same = module := fun h => hsame (hrow.trans h.symm)
        simp only [if_neg hne]
      · rw [decide_eq_false hrow]

theorem resultOf_persist : (persistModuleResult tables result).resultOf module =
    if result.module = module then some result.row else tables.resultOf module := by
  have hrow : result.row.module = result.module := rfl
  unfold ScanTables.resultOf persistModuleResult upsertResult
  dsimp only
  rw [List.find?_append, hrow, find?_others, List.find?_singleton, hrow]
  by_cases h : result.module = module
  · simp [h]
  · simp [h]

/-- Rows of one module are those of the module, or none. -/
theorem filter_of_same {ρ : Type} (moduleOf : ρ → ModuleType) {rows : List ρ} {same : ModuleType} (h : ∀ r ∈ rows, moduleOf r = same) :
    rows.filter (moduleOf · = module) = if same = module then rows else [] := by
  split <;> rename_i hsame
  · exact List.filter_eq_self.mpr fun r hr => decide_eq_true ((h r hr).trans hsame)
  · exact List.filter_eq_nil_iff.mpr fun r hr hmod => hsame ((h r hr).symm.trans (of_decide_eq_true hmod))

theorem module_of_issueRows : ∀ row ∈ result.issueRows, row.module = result.module := by
  intro row hrow
  obtain ⟨finding, -, rfl⟩ := List.mem_map.mp hrow
  rfl

theorem module_of_executionRows : ∀ row ∈ result.executionRows, row.module = result.module := by
  intro row hrow
  obtain ⟨record, -, rfl⟩ := List.mem_map.mp hrow
  rfl

theorem module_of_invocationRows : ∀ row ∈ result.invocationRows, row.module = result.module := by
  intro row hrow
  obtain ⟨invocation, -, rfl⟩ := List.mem_map.mp hrow
  rfl

theorem issuesOf_persist : (persistModuleResult tables result).issuesOf module = tables.issuesOf module ++
    if result.module = module then created IssueRow.fingerprint (tables.issues.map (·.fingerprint)) result.issueRows else [] := by
  unfold ScanTables.issuesOf persistModuleResult
  dsimp only
  rw [List.filter_append, filter_of_same IssueRow.module fun row hrow => module_of_issueRows row (created_sublist.subset hrow)]

theorem executionsOf_persist : (persistModuleResult tables result).executionsOf module = tables.executionsOf module ++
    if result.module = module then result.executionRows else [] := by
  unfold ScanTables.executionsOf persistModuleResult
  dsimp only
  rw [List.filter_append, filter_of_same ExecutionRow.module module_of_executionRows]

theorem invocationsOf_persist : (persistModuleResult tables result).invocationsOf module = tables.invocationsOf module ++
    if result.module = module then result.invocationRows else [] := by
  unfold ScanTables.invocationsOf persistModuleResult
  dsimp only
  rw [List.filter_append, filter_of_same InvocationRow.module module_of_invocationRows]

end Of

end WebAudit.Runner
