import WebAudit.Runner.Shares
import WebAudit.Runner.Storable

/-!
# Harmless answers

What a capability answers hurts a run where it is read outside `containCapabilityCall` and throws there, and where it
comes to be a text that cannot be stored. `Capability.isHarmless` says of each answer whether it does; it is what is
measured of the capability alone (`isHarmless_eq_measure`), and a result can be stored if and only if every capability
is harmless (`isStorable_run`).
-/

namespace WebAudit.Runner

open WebAudit.Lib WebAudit.Lib.Uri WebAudit.Lib.Values WebAudit.Scans

/-! ### Harmless answers -/

/-- A text can be made of it, and stored. -/
def Thrown.isHarmless (error : Thrown) : Bool := (describeThrown error).any isStorable

section Harmless

variable (platform : Platform) (options : RunModuleOptions)

/-- A fingerprint can be made of its parts, and its texts can be stored. -/
def CapabilityFinding.isHarmless (finding : CapabilityFinding) : Bool :=
  finding.fingerprintParts.all (·.bytes.isSome) && finding.isStorable platform options.workspaceRoot

def ResultView.isHarmless (value : ResultView) : Bool :=
  (asFindings value).any fun findings => findings.all (List.all · (·.isHarmless platform options))

/-- What the code layer answered hurts nothing. -/
def Contained.isHarmless : Contained ResultView → Bool
  | .timeout _ => true
  | .rejected error _ => error.isHarmless
  | .resolved value _ => value.isHarmless platform options

/-- What the capability answers in a run can be read, and stored. -/
def Capability.isHarmless (capability : Capability) : Bool :=
  if isGated options.targetControlLevel options.requiredControlLevels capability then isStorable capability.id
  else
    match capability.canRun, capability.runCodeLayer with
    | .timeout _, _ | .resolved false _, _ => isStorable capability.id
    | .rejected error _, _ => isStorable capability.id && error.isHarmless
    | .resolved true _, none => true
    | .resolved true _, some answer => isStorable capability.id && answer.isHarmless platform options

def CodeLayerOutcome.isHarmless (outcome : CodeLayerOutcome) : Bool :=
  isStorable outcome.capabilityId && outcome.errorMessage.all isStorable && outcome.findings.all (·.isHarmless platform options)

def SkippedCapability.isStorable (skip : SkippedCapability) : Bool := Values.isStorable skip.capabilityId && Values.isStorable skip.detail

def Measurement.isHarmless (m : Measurement) : Bool :=
  m.outcomes.all (·.isHarmless platform options) && m.skipped.all SkippedCapability.isStorable

theorem Measurement.isHarmless_append (a b : Measurement) :
    (a.append b).isHarmless platform options = (a.isHarmless platform options && b.isHarmless platform options) := by
  unfold isHarmless append
  rw [List.all_append, List.all_append, Bool.eq_iff_iff]
  simp only [Bool.and_eq_true]
  tauto

theorem isHarmless_outcomeOf (capability : Capability) (answer : Contained ResultView) :
    (isStorable capability.id && answer.isHarmless platform options) =
      (outcomeOf options.timeoutMs capability.id answer).any (·.isHarmless platform options) := by
  cases answer with
  | timeout durationMs =>
    have htext : isStorable (ascii "did not finish within " ++ Redaction.decimalText options.timeoutMs ++ ascii "ms") = true :=
      isStorable_of_plain (plain_append (plain_append (plain_ascii rfl) (plain_decimalText _)) (plain_ascii rfl))
    simp only [Contained.isHarmless, outcomeOf, Option.any_some, CodeLayerOutcome.isHarmless, CodeLayerOutcome.failed, Option.all_some, htext,
      List.all_nil, Bool.and_true]
  | rejected error durationMs =>
    unfold Contained.isHarmless Thrown.isHarmless outcomeOf
    dsimp only
    cases describeThrown error with
    | none => exact Bool.and_false _
    | some text =>
      simp only [Option.any_some, Option.map_some, CodeLayerOutcome.isHarmless, CodeLayerOutcome.failed, Option.all_some, List.all_nil, Bool.and_true]
  | resolved value durationMs =>
    unfold Contained.isHarmless ResultView.isHarmless outcomeOf
    dsimp only
    cases asFindings value with
    | none => exact Bool.and_false _
    | some findings =>
      cases findings with
      | none =>
        have htext : isStorable (ascii "returned something that is not an array of findings") = true := isStorable_ascii rfl
        simp only [Option.any_some, Option.map_some, CodeLayerOutcome.isHarmless, CodeLayerOutcome.failed, Option.all_some, htext, List.all_nil,
          Bool.and_true, Option.all_none]
      | some findings =>
        simp only [Option.any_some, Option.map_some, CodeLayerOutcome.isHarmless, Option.all_some, Option.all_none, Bool.and_true]

theorem isStorable_errored (text : Text) :
    isStorable (ascii "The check errored deciding whether it applies (" ++ text ++ ascii "). Skipped rather than run.") = isStorable text := by
  rw [isStorable_append_plain (plain_ascii rfl), isStorable_plain_append (plain_ascii rfl)]

theorem plain_levelName (level : ControlLevel) : (levelName level).all isPlain = true := by
  cases level <;> exact plain_ascii rfl

theorem isStorable_gated (required level : ControlLevel) : isStorable (ascii "This check needs " ++ levelName required ++
    ascii " control of the target and the target is " ++ levelName level ++ ascii ". Verify control by publishing the token to unlock it.") = true :=
  isStorable_of_plain (plain_append (plain_append (plain_append (plain_append (plain_ascii rfl) (plain_levelName required)) (plain_ascii rfl))
    (plain_levelName level)) (plain_ascii rfl))

/-- **A capability is harmless** if and only if what is measured of it is there and can be stored. -/
theorem isHarmless_eq_measure (capability : Capability) :
    capability.isHarmless platform options = (measure options [capability]).any (·.isHarmless platform options) := by
  have hskipped (skip : SkippedCapability) : Measurement.isHarmless platform options ⟨[], [skip], []⟩ = skip.isStorable := Bool.and_true _
  rw [measure_singleton]
  unfold Capability.isHarmless resolveOne
  by_cases hgated : isGated options.targetControlLevel options.requiredControlLevels capability = true
  · rw [if_pos hgated, if_pos hgated, Option.bind_some]
    dsimp only
    rw [Option.any_some, hskipped, SkippedCapability.isStorable, isStorable_gated, Bool.and_true]
  · rw [if_neg hgated, if_neg hgated]
    cases capability.canRun with
    | timeout durationMs =>
      have htext : isStorable (ascii "The check did not answer whether it applies. Skipped rather than run.") = true := isStorable_ascii rfl
      dsimp only
      rw [Option.bind_some, Option.any_some, hskipped, SkippedCapability.isStorable, htext, Bool.and_true]
    | rejected error durationMs =>
      unfold Thrown.isHarmless
      dsimp only
      cases describeThrown error with
      | none => exact Bool.and_false _
      | some text =>
        rw [Option.map_some, Option.bind_some, Option.any_some]
        dsimp only
        rw [Option.any_some, hskipped, SkippedCapability.isStorable, isStorable_errored]
    | resolved value durationMs =>
      cases value with
      | false =>
        have htext : isStorable (ascii "This check does not apply to what was submitted.") = true := isStorable_ascii rfl
        dsimp only
        rw [Option.bind_some, Option.any_some, hskipped, SkippedCapability.isStorable, htext, Bool.and_true]
      | true =>
        dsimp only
        rw [Option.bind_some]
        cases capability.runCodeLayer with
        | none => rfl
        | some answer =>
          dsimp only
          rw [isHarmless_outcomeOf]
          cases outcomeOf options.timeoutMs capability.id answer with
          | none => rfl
          | some outcome =>
            rw [Option.map_some, Option.any_some, Option.any_some]
            simp only [Measurement.isHarmless, List.all_cons, List.all_nil, Bool.and_true]

/-- **A run's measurement is harmless** if and only if each capability is. -/
theorem measure_isHarmless (capabilities : List Capability) :
    (measure options capabilities).any (·.isHarmless platform options) = capabilities.all (·.isHarmless platform options) := by
  induction capabilities with
  | nil => rfl
  | cons capability rest ih =>
    rw [List.all_cons, ← ih, isHarmless_eq_measure, ← List.singleton_append, measure_append]
    cases measure options [capability] with
    | none => rfl
    | some a =>
      cases measure options rest with
      | none => exact (Bool.and_false _).symm
      | some b => exact Measurement.isHarmless_append platform options a b

end Harmless

/-! ### Results -/

def AiInvocationRecord.isStorable (invocation : AiInvocationRecord) : Bool :=
  Values.isStorable invocation.provider && Values.isStorable invocation.model && invocation.errorMessage.all Values.isStorable

/-- The model's texts can be stored. -/
def AiResult.isStorable : AiResult → Bool
  | .ok value invocations => value.isStorable && invocations.all AiInvocationRecord.isStorable
  | .refused _ invocations => invocations.all AiInvocationRecord.isStorable

section Results

variable {platform : Platform} {options : RunModuleOptions} {m : Measurement} {executor : AiResult} {f : Findings}

theorem result_aiOf : (aiOf options executor m).result = none ∨ (aiOf options executor m).result = some executor := by
  unfold aiOf runAiLayer
  split
  · exact .inl rfl
  · exact .inr rfl

theorem insight_aiOf (h : executor.isStorable = true) : (aiOf options executor m).insight.all ModuleInsight.isStorable = true := by
  unfold AiLayerOutcome.insight
  rcases @result_aiOf options m executor with hnone | hsome
  · rw [hnone]
    rfl
  · rw [hsome]
    cases executor with
    | refused reason invocations => rfl
    | ok value invocations => exact ((Bool.and_eq_true _ _).mp h).1

theorem invocations_aiOf (h : executor.isStorable = true) : (aiOf options executor m).invocations.all AiInvocationRecord.isStorable = true := by
  unfold AiLayerOutcome.invocations
  rcases @result_aiOf options m executor with hnone | hsome
  · rw [hnone]
    rfl
  · rw [hsome]
    cases executor with
    | refused reason invocations => exact h
    | ok value invocations => exact ((Bool.and_eq_true _ _).mp h).2

theorem degraded_storable (ai : AiLayerOutcome) : ai.degraded.all Values.isStorable = true := by
  unfold AiLayerOutcome.degraded
  split
  · have hplain : (ascii "AI interpretation is intentionally disabled for this deployment (AI_MODE=disabled), so this area").all isPlain = true :=
      plain_ascii rfl
    have hrest : (ascii "s findings are what was measured directly, without interpretation.").all isPlain = true := plain_ascii rfl
    rw [Option.all_some]
    exact isStorable_of_plain (plain_append (plain_append hplain (by decide)) hrest)
  · have hplain : (ascii
        "No AI provider could be reached for this area, so its findings are what was measured directly, without interpretation.").all
        isPlain = true := plain_ascii rfl
    rw [Option.all_some]
    exact isStorable_of_plain hplain
  · rfl

theorem secrets_storable (result : ModuleRunResult) {secrets : List Redaction.RedactedSecretRef} {attributed : List AttributedFinding}
    (hsecrets : ∀ secret ∈ secrets, PlainSecret secret)
    (h : attributeMeasured platform options.context (secretFindingsFrom secrets) none = some attributed) :
    attributed.all (fun finding => (result.issueRow finding).isStorable) = true := by
  have hnone : (none : Option ModuleInsight).all ModuleInsight.isStorable = true := rfl
  rw [all_mapM (fun _ _ hfinding => issueRow_attributeFinding hnone hfinding) h, List.all_eq_true]
  intro finding hfinding
  obtain ⟨secret, hsecret, rfl⟩ := List.mem_map.mp hfinding
  exact isStorable_secretToFinding (hsecrets secret hsecret)

theorem judged_storable (result : ModuleRunResult) {ai : AiLayerOutcome} {judged : List AttributedFinding}
    (hinsight : ai.insight.all ModuleInsight.isStorable = true) (h : judgedOf platform options m ai = some judged) :
    judged.all (fun finding => (result.issueRow finding).isStorable) = true := by
  unfold judgedOf at h
  cases hai : ai.insight with
  | none =>
    rw [hai] at h
    cases h
    rfl
  | some insight =>
    rw [hai] at h hinsight
    rw [List.all_eq_true]
    intro finding hfinding
    obtain ⟨p, hp, hitem⟩ := mapM_mem h hfinding
    have hmem : p.1 ∈ insight.insights := List.mem_of_mem_filter (List.fst_mem_of_mem_zipIdx hp)
    exact issueRow_attributeInsight (List.all_eq_true.mp ((Bool.and_eq_true _ _).mp hinsight).2 p.1 hmem) hitem

/-- **The issues of a run** can be stored if and only if what its findings say can be. -/
theorem issues_storable (result : ModuleRunResult) {ai : AiLayerOutcome} (hinsight : ai.insight.all ModuleInsight.isStorable = true)
    (hsecrets : ∀ secret ∈ ai.secrets, PlainSecret secret) (h : attributed platform options m ai = some f) :
    (f.all.map result.issueRow).all IssueRow.isStorable = m.measured.all (·.isStorable platform options.workspaceRoot) := by
  obtain ⟨hmeasured, hsecret, hjudged⟩ := attributed_eq_some h
  have hmeasured' := all_mapM (fun _ _ hfinding => @issueRow_attributeFinding _ _ result _ _ _ hinsight hfinding) hmeasured
  have hrow : IssueRow.isStorable ∘ result.issueRow = fun finding => (result.issueRow finding).isStorable := rfl
  unfold Findings.all
  rw [List.all_map, List.all_append, List.all_append, hrow, hmeasured', secrets_storable result hsecrets hsecret,
    judged_storable result hinsight hjudged, Bool.and_true, Bool.and_true]
  rfl

/-- The rows of the executions, but for the model's. -/
theorem executions_storable : (executionsFor m.outcomes m.skipped).all ExecutionRecord.isStorable =
    ((m.outcomes.all fun outcome => Values.isStorable outcome.capabilityId && outcome.errorMessage.all Values.isStorable) &&
      m.skipped.all SkippedCapability.isStorable) := by
  unfold executionsFor
  rw [List.all_append, List.all_map, List.all_map]
  congr 1
  · refine List.all_congr rfl fun outcome => ?_
    simp [ExecutionRecord.isStorable]
  · refine List.all_congr rfl fun skip => ?_
    simp [ExecutionRecord.isStorable, SkippedCapability.isStorable]

/-- What a state says is said of the executions. -/
theorem state_storable {n : ℕ} {findings : List AttributedFinding} {degraded : Option Text} (hdegraded : degraded.all Values.isStorable = true)
    (h : (executionsFor m.outcomes m.skipped).all ExecutionRecord.isStorable = true) :
    (resolveModuleState n m.outcomes m.skipped findings degraded).skippedReason.all Values.isStorable = true ∧
      (resolveModuleState n m.outcomes m.skipped findings degraded).degradedReason.all Values.isStorable = true := by
  rw [executions_storable, Bool.and_eq_true, List.all_eq_true, List.all_eq_true] at h
  obtain ⟨houtcomes, hskipped⟩ := h
  have hskips : (m.skipped.map fun skip => skip.capabilityId ++ ascii ": " ++ skip.detail).all Values.isStorable = true := by
    rw [List.all_map, List.all_eq_true]
    intro skip hskip
    obtain ⟨hid, hdetail⟩ := (Bool.and_eq_true _ _).mp (hskipped skip hskip)
    rw [Function.comp_apply, isStorable_separated (by decide) (by decide), hid, hdetail]
    rfl
  have hreasons : ((m.outcomes.filter fun outcome => !outcome.succeeded).map CodeLayerOutcome.reason).all Values.isStorable = true := by
    rw [List.all_map, List.all_eq_true]
    intro outcome houtcome
    obtain ⟨hid, herror⟩ := (Bool.and_eq_true _ _).mp (houtcomes outcome (List.mem_of_mem_filter houtcome))
    unfold Function.comp CodeLayerOutcome.reason
    rw [isStorable_separated (by decide) (by decide), hid, Bool.true_and]
    cases hmessage : outcome.errorMessage with
    | none =>
      have hfailed : isStorable (ascii "failed") = true := isStorable_ascii rfl
      exact hfailed
    | some message =>
      rw [hmessage] at herror
      exact herror
  have hlist : degraded.toList.all Values.isStorable = true := by
    cases degraded with
    | none => rfl
    | some text =>
      rw [Option.toList_some, List.all_cons, List.all_nil, Bool.and_true]
      exact hdegraded
  have hnone : isStorable (ascii "No checks are enabled for this area.") = true := isStorable_ascii rfl
  have hunreached : isStorable aiUnreached = true := isStorable_ascii rfl
  unfold resolveModuleState
  dsimp only
  split
  · refine ⟨?_, rfl⟩
    rw [Option.all_some]
    split
    · exact hnone
    · rw [isStorable_intercalate (by decide) (by decide)]
      exact hskips
  split
  · refine ⟨rfl, ?_⟩
    rw [Option.all_some, isStorable_intercalate (by decide) (by decide)]
    exact hreasons
  split
  · refine ⟨rfl, ?_⟩
    rw [Option.all_some]
    cases degraded with
    | none => exact hunreached
    | some text => exact hdegraded
  split
  · refine ⟨rfl, ?_⟩
    rw [Option.all_some, isStorable_intercalate (by decide) (by decide), List.all_append, hreasons, hlist]
    rfl
  · exact ⟨rfl, rfl⟩

theorem Measurement.isHarmless_eq (hparts : m.measured.all (·.fingerprintParts.all (·.bytes.isSome)) = true) :
    m.isHarmless platform options = ((executionsFor m.outcomes m.skipped).all ExecutionRecord.isStorable &&
      m.measured.all (·.isStorable platform options.workspaceRoot)) := by
  have hfindings : m.measured.all (·.isStorable platform options.workspaceRoot) =
      m.outcomes.all fun outcome => outcome.findings.all (·.isHarmless platform options) := by
    unfold Measurement.measured at hparts ⊢
    rw [List.all_flatMap, List.all_eq_true] at hparts
    rw [List.all_flatMap, Bool.eq_iff_iff, List.all_eq_true, List.all_eq_true]
    constructor
    · intro h outcome houtcome
      have hp := List.all_eq_true.mp (hparts outcome houtcome)
      have ht := List.all_eq_true.mp (h outcome houtcome)
      exact List.all_eq_true.mpr fun finding hfinding => (Bool.and_eq_true _ _).mpr ⟨hp finding hfinding, ht finding hfinding⟩
    · intro h outcome houtcome
      exact List.all_eq_true.mpr fun finding hfinding =>
        ((Bool.and_eq_true _ _).mp (List.all_eq_true.mp (h outcome houtcome) finding hfinding)).2
  rw [executions_storable, hfindings, Bool.eq_iff_iff]
  unfold Measurement.isHarmless CodeLayerOutcome.isHarmless
  simp only [Bool.and_eq_true, List.all_eq_true, imp_and, forall_and]
  tauto

theorem aiExecution_storable {result : ModuleRunResult} (h : result.aiInvocations.all AiInvocationRecord.isStorable = true) :
    result.aiExecution.isStorable = true := by
  have hid : isStorable (ascii "module-ai:" ++ moduleLower result.module) = true :=
    isStorable_of_plain (plain_append (plain_ascii rfl) (plain_moduleLower _))
  have herror : ((result.aiInvocations.find? (·.outcome ≠ .SUCCESS)).bind (·.errorMessage)).all Values.isStorable = true := by
    cases hfind : result.aiInvocations.find? (·.outcome ≠ .SUCCESS) with
    | none => rfl
    | some invocation =>
      have hmem := List.all_eq_true.mp h invocation (List.mem_of_find?_eq_some hfind)
      exact ((Bool.and_eq_true _ _).mp hmem).2
  unfold ExecutionRecord.isStorable ModuleRunResult.aiExecution
  dsimp only
  rw [hid, herror]
  rfl

theorem executionRows_storable {result : ModuleRunResult} (h : result.aiInvocations.all AiInvocationRecord.isStorable = true) :
    result.executionRows.all (·.record.isStorable) = result.executions.all ExecutionRecord.isStorable := by
  unfold ModuleRunResult.executionRows
  rw [List.all_map, List.all_append]
  split
  · exact Bool.and_true _
  · rw [List.all_cons, List.all_nil, Bool.and_true]
    exact (congrArg _ (aiExecution_storable h)).trans (Bool.and_true _)

theorem invocationRows_storable {result : ModuleRunResult} (h : result.aiInvocations.all AiInvocationRecord.isStorable = true) :
    result.invocationRows.all InvocationRow.isStorable = true := by
  unfold ModuleRunResult.invocationRows
  rw [List.all_map, List.all_eq_true]
  intro invocation hmem
  exact ((Bool.and_eq_true _ _).mp (List.all_eq_true.mp h invocation hmem)).1

/-- **A result can be stored** if and only if its capabilities are harmless, and the model's texts can be stored. -/
theorem isStorable_run {capabilities : List Capability} {result : ModuleRunResult} (hai : executor.isStorable = true)
    (h : runModule platform options capabilities executor = some result) :
    result.isStorable = capabilities.all (·.isHarmless platform options) := by
  unfold runModule at h
  obtain ⟨m, hm, h⟩ := Option.bind_eq_some_iff.mp h
  obtain ⟨f, hf, rfl⟩ := Option.map_eq_some_iff.mp h
  have hinsight := @insight_aiOf options m executor hai
  have hinvocations := @invocations_aiOf options m executor hai
  have hdegraded := degraded_storable (aiOf options executor m)
  have hsecrets : ∀ secret ∈ (aiOf options executor m).secrets, PlainSecret secret := by
    unfold aiOf
    exact plain_secrets_runAiLayer
  have hparts : m.measured.all (·.fingerprintParts.all (·.bytes.isSome)) = true := by
    have hfacts := (attributed_of_eq hf).facts
    unfold measurementOf at hfacts
    rw [mapM_append] at hfacts
    obtain ⟨facts, hfacts, -⟩ := Option.bind_eq_some_iff.mp hfacts
    have hsome := isSome_mapM (measuredFacts platform options.context) m.measured
    rw [hfacts] at hsome
    simp only [isSome_measuredFacts] at hsome
    exact hsome.symm
  generalize aiOf options executor m = ai at *
  rw [← measure_isHarmless, hm, Option.any_some, Measurement.isHarmless_eq hparts]
  unfold ModuleRunResult.isStorable
  rw [executionRows_storable hinvocations, invocationRows_storable hinvocations, Bool.and_true]
  have hissues : (finish options m ai f).issueRows.all IssueRow.isStorable = m.measured.all (·.isStorable platform options.workspaceRoot) :=
    issues_storable (finish options m ai f) hinsight hsecrets hf
  have hexecutions : (finish options m ai f).executions = executionsFor m.outcomes m.skipped := rfl
  rw [hissues, hexecutions]
  cases htexts : (executionsFor m.outcomes m.skipped).all ExecutionRecord.isStorable with
  | false => rw [Bool.and_false, Bool.false_and]
  | true =>
    obtain ⟨hskipped, hreason⟩ := @state_storable m m.applicable.length f.all ai.degraded hdegraded htexts
    have hsummary : (ai.insight.map (·.summary)).all Values.isStorable = true := by
      cases hai : ai.insight with
      | none => rfl
      | some insight =>
        rw [hai] at hinsight
        exact ((Bool.and_eq_true _ _).mp hinsight).1
    have hrow : (finish options m ai f).row.isStorable = true := by
      unfold ModuleResultRow.isStorable ModuleRunResult.row finish
      dsimp only
      rw [hsummary, hskipped, hreason]
      rfl
    rw [hrow, Bool.true_and, Bool.and_true]

end Results

end WebAudit.Runner
