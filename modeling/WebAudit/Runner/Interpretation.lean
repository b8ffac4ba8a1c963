import WebAudit.Runner.Persist

/-!
# What the model cannot change

Two runs of a module that differ in what the model answered, and in nothing else. An insight adds to a measured
finding's explanation, consequence and prompt; the rest of the finding is a function of the measurement
(`measuredFacts`), and so are its fingerprint and the score. What the model finds itself is judged, and comes after.
-/

namespace WebAudit.Runner

open WebAudit.Lib WebAudit.Lib.Uri WebAudit.Lib.Values WebAudit.Scans

/-- What is measured of a finding. -/
structure MeasuredFacts where
  checkId : Text
  fingerprint : Text
  severity : Severity
  title : Text
  location : Option Text
  evidence : Option Tree
  attribution : Attribution

def AttributedFinding.facts (f : AttributedFinding) : MeasuredFacts :=
  ⟨f.checkId, f.fingerprint, f.severity, f.title, f.location, f.evidence, f.attribution⟩

def IssueRow.facts (row : IssueRow) : MeasuredFacts :=
  ⟨row.checkId, row.fingerprint, row.severity, row.title, row.location, row.evidence, row.attribution⟩

def ModuleRunResult.measured (result : ModuleRunResult) : List MeasuredFacts :=
  (result.findings.filter (·.attribution = .MEASURED)).map AttributedFinding.facts

/-- The measured issues that are stored for a module. -/
def ScanTables.measuredOf (tables : ScanTables) (module : ModuleType) : List MeasuredFacts :=
  ((tables.issuesOf module).filter (·.attribution = .MEASURED)).map IssueRow.facts

/-- Two runs that measured the same. -/
structure SameMeasurement (r₁ r₂ : ModuleRunResult) : Prop where
  measured : r₁.measured = r₂.measured
  persisted : ∀ tables module, (persistModuleResult tables r₁).measuredOf module = (persistModuleResult tables r₂).measuredOf module
  judged : ∀ r ∈ [r₁, r₂], ∀ f ∈ r.findings, f.layer = .AI → f.attribution = .AI_JUDGMENT
  scores : ∀ s₁ ∈ r₁.score, ∀ s₂ ∈ r₂.score, s₁ = s₂

/-! ### Attribution -/

section Attribute

variable {platform : Platform} {context : AttributeContext} {finding : CapabilityFinding} {findings : List CapabilityFinding}
  {insight : Option ModuleInsight} {attributed : List AttributedFinding}

/-- What is measured of a finding is a function of it. -/
def measuredFacts (platform : Platform) (context : AttributeContext) (finding : CapabilityFinding) : Option MeasuredFacts :=
  (fingerprintOf platform context.targetId context.module finding.checkId finding.fingerprintParts).map fun fingerprint =>
    ⟨finding.checkId, fingerprint, finding.severity, finding.title, finding.location.map (normalizeLocation platform context.workspaceRoot),
      finding.evidence, .MEASURED⟩

theorem facts_attributeFinding :
    (attributeFinding platform context insight finding).map AttributedFinding.facts = measuredFacts platform context finding := by
  unfold attributeFinding measuredFacts
  rw [Option.map_map]
  rfl

/-- **An insight changes nothing that is measured.** -/
theorem facts_attributeMeasured : (attributeMeasured platform context findings insight).map (List.map AttributedFinding.facts) =
    findings.mapM (measuredFacts platform context) := by
  unfold attributeMeasured
  rw [map_mapM]
  exact congrArg (findings.mapM ·) (funext fun _ => facts_attributeFinding)

theorem attribution_of_attributeMeasured (h : attributeMeasured platform context findings insight = some attributed) :
    ∀ f ∈ attributed, f.attribution = .MEASURED ∧ f.layer = .CODE := by
  intro f hf
  obtain ⟨finding, -, hfinding⟩ := mapM_mem h hf
  obtain ⟨fingerprint, -, rfl⟩ := Option.map_eq_some_iff.mp hfinding
  exact ⟨rfl, rfl⟩

theorem attribution_of_attributeJudgment {insight : ModuleInsight} {checkIds : List Text}
    (h : attributeJudgment platform context insight checkIds = some attributed) :
    ∀ f ∈ attributed, f.attribution = .AI_JUDGMENT ∧ f.layer = .AI := by
  intro f hf
  obtain ⟨item, -, hitem⟩ := mapM_mem h hf
  unfold attributeInsight at hitem
  obtain ⟨fingerprint, -, rfl⟩ := Option.map_eq_some_iff.mp hitem
  exact ⟨rfl, rfl⟩

/-- Of texts a fingerprint can be made. -/
theorem encodeParts_texts (texts : List Text) : (encodeParts (texts.map .text)).isSome := by
  have hbytes : (texts.map Part.text).mapM Part.bytes = some (texts.map utf8) := by
    rw [List.mapM_map]
    exact List.mapM_pure
  unfold encodeParts
  rw [hbytes]
  rfl

/-- The model's findings never throw. -/
theorem attributeJudgment_isSome (insight : ModuleInsight) (checkIds : List Text) :
    (attributeJudgment platform context insight checkIds).isSome := by
  have hitem : ∀ index item, (attributeInsight platform context index item).isSome := by
    intro index item
    unfold attributeInsight fingerprintOf
    rw [Option.isSome_map, Option.isSome_map]
    exact encodeParts_texts [context.targetId, moduleName context.module, judgmentCheckId context.module, item.title, Redaction.decimalText index]
  unfold attributeJudgment
  rw [isSome_mapM]
  exact List.all_eq_true.mpr fun p _ => hitem p.2 p.1

end Attribute

/-! ### One run -/

theorem filter_all_eq {findings measured judged : List AttributedFinding} (h : findings = measured ++ judged)
    (hmeasured : ∀ f ∈ measured, f.attribution = .MEASURED) (hjudged : ∀ f ∈ judged, f.attribution = .AI_JUDGMENT) :
    findings.filter (·.attribution = .MEASURED) = measured := by
  have hself : measured.filter (·.attribution = .MEASURED) = measured :=
    List.filter_eq_self.mpr fun f hf => decide_eq_true (hmeasured f hf)
  have hnil : judged.filter (·.attribution = .MEASURED) = [] := by
    refine List.filter_eq_nil_iff.mpr fun f hf => ?_
    rw [hjudged f hf]
    exact Bool.false_ne_true
  rw [h, List.filter_append, hself, hnil, List.append_nil]

/-- What is measured in a run: what the code layers found, and the credentials in it. -/
def measurementOf (platform : Platform) (options : RunModuleOptions) (m : Measurement) (secrets : List Redaction.RedactedSecretRef) :
    Option (List MeasuredFacts) :=
  (m.measured ++ secretFindingsFrom secrets).mapM (measuredFacts platform options.context)

section Run

variable {platform : Platform} {options : RunModuleOptions} {m : Measurement} {ai : AiLayerOutcome} {f : Findings}

/-- What comes of a run: measured findings first, whatever the model said, and judged ones after. -/
structure Attributed (platform : Platform) (options : RunModuleOptions) (m : Measurement) (ai : AiLayerOutcome) (f : Findings) : Prop where
  facts : measurementOf platform options m ai.secrets = some ((f.measured ++ f.secret).map AttributedFinding.facts)
  measured : ∀ finding ∈ f.measured ++ f.secret, finding.attribution = .MEASURED ∧ finding.layer = .CODE
  judged : ∀ finding ∈ f.judged, finding.attribution = .AI_JUDGMENT ∧ finding.layer = .AI

theorem judgedOf_isSome : (judgedOf platform options m ai).isSome := by
  unfold judgedOf
  cases ai.insight with
  | none => rfl
  | some insight => exact attributeJudgment_isSome insight _

theorem attribution_of_judgedOf {judged : List AttributedFinding} (h : judgedOf platform options m ai = some judged) :
    ∀ finding ∈ judged, finding.attribution = .AI_JUDGMENT ∧ finding.layer = .AI := by
  unfold judgedOf at h
  cases hai : ai.insight with
  | none =>
    rw [hai] at h
    cases h
    intro finding hfinding
    cases hfinding
  | some insight =>
    rw [hai] at h
    exact attribution_of_attributeJudgment h

theorem measurementOf_eq : measurementOf platform options m ai.secrets = (do
    let measured ← (attributeMeasured platform options.context m.measured ai.insight).map (List.map AttributedFinding.facts)
    let secret ← (attributeMeasured platform options.context (secretFindingsFrom ai.secrets) none).map (List.map AttributedFinding.facts)
    some (measured ++ secret)) := by
  rw [facts_attributeMeasured, facts_attributeMeasured]
  exact List.mapM_append

theorem attributed_eq_some (h : attributed platform options m ai = some f) :
    attributeMeasured platform options.context m.measured ai.insight = some f.measured ∧
      attributeMeasured platform options.context (secretFindingsFrom ai.secrets) none = some f.secret ∧
      judgedOf platform options m ai = some f.judged := by
  unfold attributed at h
  obtain ⟨measured, hmeasured, h⟩ := Option.bind_eq_some_iff.mp h
  obtain ⟨secret, hsecret, h⟩ := Option.bind_eq_some_iff.mp h
  obtain ⟨judged, hjudged, h⟩ := Option.bind_eq_some_iff.mp h
  cases h
  exact ⟨hmeasured, hsecret, hjudged⟩

theorem attributed_of_eq (h : attributed platform options m ai = some f) : Attributed platform options m ai f := by
  obtain ⟨hmeasured, hsecret, hjudged⟩ := attributed_eq_some h
  refine ⟨?_, ?_, attribution_of_judgedOf hjudged⟩
  · rw [measurementOf_eq, hmeasured, hsecret, List.map_append]
    rfl
  · intro finding hfinding
    rcases List.mem_append.mp hfinding with hfinding | hfinding
    · exact attribution_of_attributeMeasured hmeasured finding hfinding
    · exact attribution_of_attributeMeasured hsecret finding hfinding

/-- Whether a run comes to its end is settled by what was measured. -/
theorem attributed_isSome : (attributed platform options m ai).isSome = (measurementOf platform options m ai.secrets).isSome := by
  obtain ⟨judged, hjudged⟩ := Option.isSome_iff_exists.mp (@judgedOf_isSome platform options m ai)
  rw [measurementOf_eq]
  unfold attributed
  rw [hjudged]
  cases attributeMeasured platform options.context m.measured ai.insight with
  | none => rfl
  | some measured =>
    cases attributeMeasured platform options.context (secretFindingsFrom ai.secrets) none with
    | none => rfl
    | some secret => rfl

theorem score_of_state {n : ℕ} {outcomes : List CodeLayerOutcome} {skipped : List SkippedCapability} {findings : List AttributedFinding}
    {degraded : Option Text} {s : ℤ} (h : s ∈ (resolveModuleState n outcomes skipped findings degraded).score) :
    s = scoreFromFindings (measuredSeverities findings) := by
  unfold resolveModuleState at h
  dsimp only at h
  split at h
  · cases h
  · split at h
    · cases h
    · split at h
      · cases h
      · split at h <;> exact (Option.some.inj h).symm

theorem facts_created (seen : List Text) (rows : List IssueRow) :
    (created IssueRow.fingerprint seen rows).map IssueRow.facts = created MeasuredFacts.fingerprint seen (rows.map IssueRow.facts) :=
  created_map IssueRow.facts fun _ => rfl

namespace Attributed

variable (h : Attributed platform options m ai f)
include h

theorem filter_all : f.all.filter (·.attribution = .MEASURED) = f.measured ++ f.secret :=
  filter_all_eq rfl (fun finding hfinding => (h.measured finding hfinding).1) fun finding hfinding => (h.judged finding hfinding).1

theorem measured_finish : (finish options m ai f).measured = (f.measured ++ f.secret).map AttributedFinding.facts :=
  congrArg (List.map AttributedFinding.facts) h.filter_all

theorem layer_finish : ∀ finding ∈ (finish options m ai f).findings, finding.layer = .AI → finding.attribution = .AI_JUDGMENT := by
  intro finding hfinding hlayer
  rcases List.mem_append.mp hfinding with hfinding | hfinding
  · rw [(h.measured finding hfinding).2] at hlayer
    cases hlayer
  · exact (h.judged finding hfinding).1

omit h in
/-- The score weighs what was measured. -/
theorem score_finish {s : ℤ} (hs : s ∈ (finish options m ai f).score) :
    s = scoreFromFindings ((finish options m ai f).measured.map MeasuredFacts.severity) := by
  rw [score_of_state hs]
  unfold measuredSeverities ModuleRunResult.measured
  rw [List.map_map]
  rfl

/-- **What is stored of the measured findings** is created from what was measured. -/
theorem measuredOf_persist (tables : ScanTables) (module : ModuleType) :
    (persistModuleResult tables (finish options m ai f)).measuredOf module = tables.measuredOf module ++
      if options.module = module then created MeasuredFacts.fingerprint (tables.issues.map (·.fingerprint)) (finish options m ai f).measured
      else [] := by
  unfold ScanTables.measuredOf
  rw [issuesOf_persist, List.filter_append, List.map_append]
  congr 1
  have hmodule : (finish options m ai f).module = options.module := rfl
  rw [hmodule]
  split
  · have hrows : (finish options m ai f).issueRows =
        (f.measured ++ f.secret).map (finish options m ai f).issueRow ++ f.judged.map (finish options m ai f).issueRow := List.map_append
    have hmeasured : ∀ row ∈ created IssueRow.fingerprint (tables.issues.map (·.fingerprint))
        ((f.measured ++ f.secret).map (finish options m ai f).issueRow), decide (row.attribution = .MEASURED) = true := by
      intro row hrow
      obtain ⟨finding, hfinding, rfl⟩ := List.mem_map.mp (created_sublist.subset hrow)
      exact decide_eq_true (h.measured finding hfinding).1
    have hjudged : ∀ seen : List Text, ∀ row ∈ created IssueRow.fingerprint seen (f.judged.map (finish options m ai f).issueRow),
        ¬ decide (row.attribution = .MEASURED) = true := by
      intro seen row hrow
      obtain ⟨finding, hfinding, rfl⟩ := List.mem_map.mp (created_sublist.subset hrow)
      have hjudgment : ((finish options m ai f).issueRow finding).attribution = .AI_JUDGMENT := (h.judged finding hfinding).1
      rw [hjudgment]
      exact Bool.false_ne_true
    rw [hrows, created_append, List.filter_append, List.filter_eq_self.mpr hmeasured, List.filter_eq_nil_iff.mpr (hjudged _),
      List.append_nil, facts_created, List.map_map, h.measured_finish]
    rfl
  · rfl

end Attributed

/-- Two runs on one measurement. -/
theorem sameMeasurement {ai' : AiLayerOutcome} {f' : Findings} (h : Attributed platform options m ai f)
    (h' : Attributed platform options m ai' f') (hsecrets : ai.secrets = ai'.secrets) :
    SameMeasurement (finish options m ai f) (finish options m ai' f') := by
  have hmeasured : (finish options m ai f).measured = (finish options m ai' f').measured := by
    have hfacts := h.facts
    rw [hsecrets, h'.facts] at hfacts
    rw [h.measured_finish, h'.measured_finish, Option.some.inj hfacts]
  refine ⟨hmeasured, fun tables module => ?_, fun r hr => ?_, fun s₁ hs₁ s₂ hs₂ => ?_⟩
  · rw [h.measuredOf_persist, h'.measuredOf_persist, hmeasured]
  · rcases List.mem_pair.mp hr with rfl | rfl
    · exact h.layer_finish
    · exact h'.layer_finish
  · rw [Attributed.score_finish hs₁, Attributed.score_finish hs₂, hmeasured]

end Run

/-! ### Any two answers -/

section Answers

variable (platform : Platform) (options : RunModuleOptions) (capabilities : List Capability) (executor executor' : AiResult)

theorem secrets_aiOf (m : Measurement) : (aiOf options executor m).secrets = (aiOf options executor' m).secrets := by
  unfold aiOf runAiLayer
  split <;> rfl

/-- **The model cannot change what was measured.** Whatever it answers, a run comes to its end or does not; and two that
do measured the same, store the same and give the same score, if they give one. -/
theorem measured_whatever_model_says :
    Option.Rel SameMeasurement (runModule platform options capabilities executor) (runModule platform options capabilities executor') := by
  unfold runModule
  cases measure options capabilities with
  | none => exact Option.Rel.none
  | some m =>
    rw [Option.bind_some, Option.bind_some]
    have hsecrets := secrets_aiOf options executor executor' m
    have hsome : (attributed platform options m (aiOf options executor m)).isSome =
        (attributed platform options m (aiOf options executor' m)).isSome := by
      rw [attributed_isSome, attributed_isSome, hsecrets]
    cases h : attributed platform options m (aiOf options executor m) with
    | none =>
      rw [h] at hsome
      have h' : attributed platform options m (aiOf options executor' m) = none :=
        Option.isNone_iff_eq_none.mp (Option.isSome_eq_false_iff.mp hsome.symm)
      rw [h']
      exact Option.Rel.none
    | some f =>
      rw [h] at hsome
      obtain ⟨f', h'⟩ := Option.isSome_iff_exists.mp hsome.symm
      rw [h']
      exact Option.Rel.some (sameMeasurement (attributed_of_eq h) (attributed_of_eq h') hsecrets)

end Answers

end WebAudit.Runner
