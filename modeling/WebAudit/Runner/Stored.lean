import WebAudit.Runner.Interpretation
import Mathlib.Algebra.Order.BigOperators.Group.List

/-!
# The report that is stored

The modules of one scan are run and persisted in any order, and any of them again. What is stored for a module should be
what its last run found (`Stored`); a run that is persisted where nothing of the module is stored, and whose findings are
new to the scan, is stored so (`Fresh`).

The row of the result is replaced, and the rest is not: issues of an earlier run stay, and executions add up.
-/

namespace WebAudit.Runner

open WebAudit.Lib WebAudit.Lib.Uri WebAudit.Scans

/-- A result that a run of a module gave. -/
def IsRun (result : ModuleRunResult) : Prop :=
  ∃ platform options capabilities executor, runModule platform options capabilities executor = some result

/-- The tables of a scan, and the last run of each module that was persisted. -/
structure Report where
  tables : ScanTables
  last : ModuleType → Option ModuleRunResult

def Report.empty : Report := ⟨.empty, fun _ => none⟩

/-- One transaction. -/
def Report.persist (s : Report) (result : ModuleRunResult) : Report :=
  ⟨persistModuleResult s.tables result, Function.update s.last result.module (some result)⟩

/-- Any run of any module is persisted. -/
def Report.Steps (s : Report) (result : ModuleRunResult) (s' : Report) : Prop := IsRun result ∧ s' = s.persist result

/-- What measured findings take from a score. -/
def weightOf (measured : List MeasuredFacts) : ℤ := (measured.map fun facts => severityWeight facts.severity).sum

/-- What is stored for the module is what this run found. -/
structure Stored (tables : ScanTables) (result : ModuleRunResult) : Prop where
  row : tables.resultOf result.module = some result.row
  issues : tables.issuesOf result.module = created IssueRow.fingerprint [] result.issueRows
  score : ∀ s ∈ result.row.score, s = scoreFromFindings ((tables.measuredOf result.module).map MeasuredFacts.severity)
  executions : tables.executionsOf result.module = result.executionRows
  invocations : tables.invocationsOf result.module = result.invocationRows

/-- Every module is stored as it was run last. -/
def Report.Consistent (s : Report) : Prop := ∀ module, ∀ result ∈ s.last module, result.module = module ∧ Stored s.tables result

/-- Nothing of the module is stored, its findings are new to the scan, and what is found twice does not count. -/
structure Fresh (tables : ScanTables) (result : ModuleRunResult) : Prop where
  issues : tables.issuesOf result.module = []
  executions : tables.executionsOf result.module = []
  invocations : tables.invocationsOf result.module = []
  fingerprints : ∀ finding ∈ result.findings, finding.fingerprint ∉ tables.issues.map (·.fingerprint)
  repeated : result.score = none ∨ weightOf (created MeasuredFacts.fingerprint [] result.measured) = weightOf result.measured ∨
    100 ≤ weightOf (created MeasuredFacts.fingerprint [] result.measured)

/-! ### Weights -/

theorem severityWeight_nonneg (severity : Severity) : 0 ≤ severityWeight severity := by
  cases severity <;> decide

theorem weightOf_le_of_sublist {a b : List MeasuredFacts} (h : a.Sublist b) : weightOf a ≤ weightOf b :=
  (h.map _).sum_le_sum fun weight hweight => by
    obtain ⟨facts, -, rfl⟩ := List.mem_map.mp hweight
    exact severityWeight_nonneg facts.severity

theorem scoreFromFindings_eq (measured : List MeasuredFacts) :
    scoreFromFindings (measured.map MeasuredFacts.severity) = max 0 (100 - weightOf measured) := by
  unfold scoreFromFindings weightOf
  rw [List.map_map]
  rfl

/-- What is found twice does not count where it weighs nothing, or where what is found once is enough. -/
theorem score_of_distinct {measured : List MeasuredFacts}
    (h : weightOf (created MeasuredFacts.fingerprint [] measured) = weightOf measured ∨ 100 ≤ weightOf (created MeasuredFacts.fingerprint [] measured)) :
    scoreFromFindings (measured.map MeasuredFacts.severity) =
      scoreFromFindings ((created MeasuredFacts.fingerprint [] measured).map MeasuredFacts.severity) := by
  rw [scoreFromFindings_eq, scoreFromFindings_eq]
  rcases h with heq | hge
  · rw [heq]
  · have hle := weightOf_le_of_sublist (@created_sublist _ _ _ MeasuredFacts.fingerprint [] measured)
    rw [max_eq_left (by omega), max_eq_left (by omega)]

/-! ### Runs -/

section Runs

variable {s : Report} {result : ModuleRunResult} {tables : ScanTables}

theorem IsRun.measuredOf_persist (h : IsRun result) (tables : ScanTables) : (persistModuleResult tables result).measuredOf result.module =
    tables.measuredOf result.module ++ created MeasuredFacts.fingerprint (tables.issues.map (·.fingerprint)) result.measured := by
  obtain ⟨platform, options, capabilities, executor, hrun⟩ := h
  unfold runModule at hrun
  obtain ⟨m, -, hrun⟩ := Option.bind_eq_some_iff.mp hrun
  obtain ⟨f, hf, rfl⟩ := Option.map_eq_some_iff.mp hrun
  have hmodule : (finish options m (aiOf options executor m) f).module = options.module := rfl
  rw [(attributed_of_eq hf).measuredOf_persist, if_pos hmodule.symm]

theorem IsRun.score (h : IsRun result) : ∀ s ∈ result.score, s = scoreFromFindings (result.measured.map MeasuredFacts.severity) := by
  obtain ⟨platform, options, capabilities, executor, hrun⟩ := h
  unfold runModule at hrun
  obtain ⟨m, -, hrun⟩ := Option.bind_eq_some_iff.mp hrun
  obtain ⟨f, -, rfl⟩ := Option.map_eq_some_iff.mp hrun
  exact fun s hs => Attributed.score_finish hs

/-- A fresh run is stored as it is. -/
theorem IsRun.stored (h : IsRun result) (hfresh : Fresh tables result) : Stored (persistModuleResult tables result) result := by
  have hissues : ∀ row ∈ result.issueRows, row.fingerprint ∉ tables.issues.map (·.fingerprint) := by
    intro row hrow
    obtain ⟨finding, hfinding, rfl⟩ := List.mem_map.mp hrow
    exact hfresh.fingerprints finding hfinding
  have hmeasured : ∀ facts ∈ result.measured, facts.fingerprint ∉ tables.issues.map (·.fingerprint) := by
    intro facts hfacts
    obtain ⟨finding, hfinding, rfl⟩ := List.mem_map.mp hfacts
    exact hfresh.fingerprints finding (List.mem_of_mem_filter hfinding)
  have hnone : tables.measuredOf result.module = [] := by
    unfold ScanTables.measuredOf
    rw [hfresh.issues]
    rfl
  refine ⟨?_, ?_, fun s hs => ?_, ?_, ?_⟩
  · rw [resultOf_persist, if_pos rfl]
  · rw [issuesOf_persist, if_pos rfl, hfresh.issues, List.nil_append, created_of_disjoint hissues]
  · have hscore : s ∈ result.score := hs
    rw [h.measuredOf_persist, hnone, List.nil_append, created_of_disjoint hmeasured, h.score s hscore]
    rcases hfresh.repeated with hnone | hrepeated
    · rw [hnone] at hscore
      cases hscore
    · exact score_of_distinct hrepeated
  · rw [executionsOf_persist, if_pos rfl, hfresh.executions, List.nil_append]
  · rw [invocationsOf_persist, if_pos rfl, hfresh.invocations, List.nil_append]

/-- What is stored of another module stays as it is. -/
theorem Stored.persist {other : ModuleRunResult} (h : Stored tables other) (hne : result.module ≠ other.module) :
    Stored (persistModuleResult tables result) other := by
  have hissues : (persistModuleResult tables result).issuesOf other.module = tables.issuesOf other.module := by
    rw [issuesOf_persist, if_neg hne, List.append_nil]
  refine ⟨?_, ?_, fun s hs => ?_, ?_, ?_⟩
  · rw [resultOf_persist, if_neg hne, h.row]
  · rw [hissues, h.issues]
  · unfold ScanTables.measuredOf
    rw [hissues]
    exact h.score s hs
  · rw [executionsOf_persist, if_neg hne, List.append_nil, h.executions]
  · rw [invocationsOf_persist, if_neg hne, List.append_nil, h.invocations]

/-- **One transaction.** -/
theorem Report.Consistent.persist (h : s.Consistent) (hrun : IsRun result) (hfresh : Fresh s.tables result) : (s.persist result).Consistent := by
  intro module other hother
  by_cases hmodule : module = result.module
  · subst hmodule
    have hlast : (s.persist result).last result.module = some result := Function.update_self _ _ _
    rw [hlast] at hother
    cases hother
    exact ⟨rfl, hrun.stored hfresh⟩
  · have hlast : (s.persist result).last module = s.last module := Function.update_of_ne hmodule _ _
    rw [hlast] at hother
    obtain ⟨hmod, hstored⟩ := h module other hother
    exact ⟨hmod, hstored.persist fun heq => hmodule (hmod.symm.trans heq.symm)⟩

end Runs

/-! ### Two runs of one module -/

/-- A finding as a capability reports it. -/
def entry : EntryView where
  checkId := some (.text (ascii "cookie.insecure"))
  fingerprintParts := some (some ⟨some true, some []⟩)
  severity := some (some .HIGH)
  title := some (.text (ascii "A cookie is not secure"))
  description := some (.text (ascii "Set-Cookie without Secure"))
  location := some .undefined
  consequence := some .undefined
  evidence := some .undefined
  fixable := some true

def finder : Capability := silent (ascii "finder") (.resolved ⟨some true, [some entry], true⟩ 0)

def runOf (capability : Capability) : Option ModuleRunResult := runModule somePlatform someOptions [capability] (.refused .DISABLED [])

theorem isRun_runOf {capability : Capability} {result : ModuleRunResult} (h : runOf capability = some result) : IsRun result :=
  ⟨somePlatform, someOptions, [capability], .refused .DISABLED [], h⟩

theorem runOf_quiet : ∃ result, runOf quiet = some result ∧ result.module = .SECURITY ∧ result.findings.isEmpty = true ∧ result.score = some 100 := by
  have hrun : (runOf quiet).any (fun r => r.module = .SECURITY && r.findings.isEmpty && r.score = some 100) = true := by decide
  obtain ⟨result, hresult, hfacts⟩ := (Option.any_eq_true _ _).mp hrun
  simp only [Bool.and_eq_true, decide_eq_true_eq] at hfacts
  exact ⟨result, hresult, hfacts.1.1, hfacts.1.2, hfacts.2⟩

end WebAudit.Runner
