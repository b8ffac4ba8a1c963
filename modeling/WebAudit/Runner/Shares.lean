import WebAudit.Runner.Interpretation

/-!
# What a run has of its capabilities

A run measures one capability after the other, and what it measures of some is what it measures of each
(`measure_append`). So what a result says of its capabilities is put together from their shares (`run_of_share`).
-/

namespace WebAudit.Runner

open WebAudit.Lib WebAudit.Lib.Uri WebAudit.Lib.Values WebAudit.Scans

/-! ### Measurements -/

def Measurement.append (a b : Measurement) : Measurement :=
  ⟨a.applicable ++ b.applicable, a.skipped ++ b.skipped, a.outcomes ++ b.outcomes⟩

section Measure

variable (options : RunModuleOptions)

theorem resolveApplicable_append {level : ControlLevel} {required : Text → Option ControlLevel} (xs ys : List Capability) :
    resolveApplicable level required (xs ++ ys) = (resolveApplicable level required xs).bind fun a =>
      (resolveApplicable level required ys).map fun b => ⟨a.applicable ++ b.applicable, a.skipped ++ b.skipped⟩ := by
  induction xs with
  | nil =>
    rw [List.nil_append, resolveApplicable, Option.bind_some]
    cases resolveApplicable level required ys <;> rfl
  | cons x xs ih =>
    rw [List.cons_append, resolveApplicable, ih, resolveApplicable]
    cases resolveOne level required x with
    | none => rfl
    | some resolved =>
      cases resolveApplicable level required xs with
      | none => rfl
      | some a =>
        cases resolveApplicable level required ys with
        | none => rfl
        | some b => cases resolved <;> rfl

theorem runCodeLayer_append {timeoutMs : ℕ} (xs ys : List Capability) :
    runCodeLayer timeoutMs (xs ++ ys) = (runCodeLayer timeoutMs xs).bind fun a => (runCodeLayer timeoutMs ys).map (a ++ ·) := by
  unfold runCodeLayer
  rw [List.filterMap_append, mapM_append]

/-- **Of some capabilities is measured** what is measured of each. -/
theorem measure_append (xs ys : List Capability) :
    measure options (xs ++ ys) = (measure options xs).bind fun a => (measure options ys).map a.append := by
  unfold measure
  rw [resolveApplicable_append]
  cases resolveApplicable options.targetControlLevel options.requiredControlLevels xs with
  | none => rfl
  | some a =>
    cases resolveApplicable options.targetControlLevel options.requiredControlLevels ys with
    | none => cases h : runCodeLayer options.timeoutMs a.applicable <;> simp [h]
    | some b =>
      simp only [Option.bind_some, Option.map_some, runCodeLayer_append]
      cases runCodeLayer options.timeoutMs a.applicable with
      | none => rfl
      | some outcomes => cases runCodeLayer options.timeoutMs b.applicable <;> rfl

theorem measure_singleton (capability : Capability) : measure options [capability] =
    (resolveOne options.targetControlLevel options.requiredControlLevels capability).bind fun resolved =>
      match resolved, capability.runCodeLayer with
      | .skipped skip, _ => some ⟨[], [skip], []⟩
      | .applicable, none => some ⟨[capability], [], []⟩
      | .applicable, some answer => (outcomeOf options.timeoutMs capability.id answer).map fun outcome => ⟨[capability], [], [outcome]⟩ := by
  unfold measure
  rw [resolveApplicable]
  cases resolveOne options.targetControlLevel options.requiredControlLevels capability with
  | none => rfl
  | some resolved =>
    cases resolved with
    | skipped skip => rfl
    | applicable =>
      simp only [resolveApplicable, Option.bind_some, Option.map_some, runCodeLayer, List.filterMap_cons, List.filterMap_nil]
      cases capability.runCodeLayer with
      | none => rfl
      | some answer =>
        simp only [Option.map_some, List.mapM_cons, List.mapM_nil]
        cases outcomeOf options.timeoutMs capability.id answer <;> rfl

end Measure

/-! ### Shares -/

/-- What a run has of some capabilities. -/
structure Share where
  outcomes : List ExecutionRecord
  skips : List ExecutionRecord
  measured : List MeasuredFacts

def Share.append (a b : Share) : Share := ⟨a.outcomes ++ b.outcomes, a.skips ++ b.skips, a.measured ++ b.measured⟩

section Shares

variable (platform : Platform) (options : RunModuleOptions)

def shareOf (capabilities : List Capability) : Option Share :=
  (measure options capabilities).bind fun m =>
    (m.measured.mapM (measuredFacts platform options.context)).map fun facts => ⟨executionsFor m.outcomes [], executionsFor [] m.skipped, facts⟩

theorem shareOf_append (xs ys : List Capability) :
    shareOf platform options (xs ++ ys) = (shareOf platform options xs).bind fun a => (shareOf platform options ys).map a.append := by
  unfold shareOf
  rw [measure_append]
  cases measure options xs with
  | none => rfl
  | some a =>
    cases measure options ys with
    | none => cases h : a.measured.mapM (measuredFacts platform options.context) <;> simp [h]
    | some b =>
      have hmeasured : (a.append b).measured = a.measured ++ b.measured := List.flatMap_append
      simp only [Option.bind_some, Option.map_some, hmeasured, mapM_append]
      cases a.measured.mapM (measuredFacts platform options.context) with
      | none => rfl
      | some facts =>
        cases b.measured.mapM (measuredFacts platform options.context) with
        | none => rfl
        | some facts' => simp [Share.append, Measurement.append, executionsFor]

theorem isSome_measuredFacts {context : AttributeContext} (finding : CapabilityFinding) :
    (measuredFacts platform context finding).isSome = finding.fingerprintParts.all (·.bytes.isSome) := by
  unfold measuredFacts fingerprintOf encodeParts
  rw [Option.isSome_map, Option.isSome_map, Option.isSome_map, isSome_mapM]
  rfl

theorem isSome_secretFacts {context : AttributeContext} (secrets : List Redaction.RedactedSecretRef) :
    ((secretFindingsFrom secrets).mapM (measuredFacts platform context)).isSome = true := by
  rw [isSome_mapM, List.all_eq_true]
  intro finding hfinding
  obtain ⟨secret, -, rfl⟩ := List.mem_map.mp hfinding
  rw [isSome_measuredFacts]
  rfl

/-- **A run** comes to its end if and only if its capabilities' share can be made. -/
theorem isSome_runModule (capabilities : List Capability) (executor : AiResult) :
    (runModule platform options capabilities executor).isSome = (shareOf platform options capabilities).isSome := by
  unfold runModule shareOf
  cases measure options capabilities with
  | none => rfl
  | some m =>
    rw [Option.bind_some, Option.bind_some, Option.isSome_map, Option.isSome_map, attributed_isSome]
    unfold measurementOf
    rw [mapM_append]
    obtain ⟨facts, hfacts⟩ := Option.isSome_iff_exists.mp (isSome_secretFacts platform (aiOf options executor m).secrets)
    rw [hfacts]
    cases m.measured.mapM (measuredFacts platform options.context) <;> rfl

/-- **What a run says of its capabilities** is their share, and the credentials in it. -/
theorem run_of_share {capabilities : List Capability} {executor : AiResult} {share : Share} {result : ModuleRunResult}
    (hshare : shareOf platform options capabilities = some share) (hrun : runModule platform options capabilities executor = some result) :
    result.executions = share.outcomes ++ share.skips ∧
      ∃ secrets, result.measured = share.measured ++ secrets ∧ ∀ facts ∈ secrets, facts.checkId = secretCheckId := by
  unfold runModule at hrun
  unfold shareOf at hshare
  obtain ⟨m, hm, hrun⟩ := Option.bind_eq_some_iff.mp hrun
  rw [hm, Option.bind_some] at hshare
  obtain ⟨f, hf, rfl⟩ := Option.map_eq_some_iff.mp hrun
  obtain ⟨facts, hfacts, rfl⟩ := Option.map_eq_some_iff.mp hshare
  have h := attributed_of_eq hf
  refine ⟨?_, ?_⟩
  · simp [finish, executionsFor]
  · have hall := h.facts
    rw [← h.measured_finish] at hall
    unfold measurementOf at hall
    rw [mapM_append, hfacts, Option.bind_some] at hall
    obtain ⟨secrets, hsecrets, heq⟩ := Option.map_eq_some_iff.mp hall
    refine ⟨secrets, heq.symm, fun s hs => ?_⟩
    obtain ⟨finding, hfinding, hs⟩ := mapM_mem hsecrets hs
    obtain ⟨secret, -, rfl⟩ := List.mem_map.mp hfinding
    obtain ⟨fingerprint, -, rfl⟩ := Option.map_eq_some_iff.mp hs
    rfl

end Shares

end WebAudit.Runner
