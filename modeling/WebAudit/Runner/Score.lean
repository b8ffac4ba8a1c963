import WebAudit.Runner.Shares

/-!
# What a score is backed by

`makeSandboxedCapability` of `orchestrator/capability-loader.ts`, and when a module is scored. An installed capability
always says that it applies, and its code layer is where the sandbox answers; where the sandbox says that it does not
apply, nothing is found.

`resolveModuleState` asks whether something failed. Where nothing ran, nothing did; and what the sandbox did not find
applicable succeeds.
-/

namespace WebAudit.Runner

open WebAudit.Lib WebAudit.Lib.Uri WebAudit.Lib.Values WebAudit.Scans

/-! ### Installed capabilities -/

/-- What the sandbox answers; where it fails, the call throws. -/
structure Dispatched where
  applicable : Bool
  findings : ResultView

/-- An array of no findings. -/
def ResultView.nothing : ResultView := ⟨some true, [], true⟩

def Dispatched.value (outcome : Dispatched) : ResultView := if outcome.applicable then outcome.findings else .nothing

/-- A capability, and how it came here. -/
inductive Loaded where
  | vendored (capability : Capability)
  | installed (id : Text) (answer : Contained Dispatched)

def Contained.map {α β : Type} (f : α → β) : Contained α → Contained β
  | .resolved value durationMs => .resolved (f value) durationMs
  | .rejected error durationMs => .rejected error durationMs
  | .timeout durationMs => .timeout durationMs

def makeSandboxedCapability (id : Text) (answer : Contained Dispatched) : Capability where
  id
  canRun := .resolved true 0
  runCodeLayer := some (answer.map Dispatched.value)
  getSystemPromptAddition := none
  getContextData := none

def Loaded.capability : Loaded → Capability
  | .vendored capability => capability
  | .installed id answer => makeSandboxedCapability id answer

/-! ### What a capability does -/

section Capability

variable (options : RunModuleOptions)

/-- It was asked, and said that it applies. -/
def Capability.applies (capability : Capability) : Bool :=
  !isGated options.targetControlLevel options.requiredControlLevels capability &&
    match capability.canRun with
    | .resolved value _ => value
    | _ => false

/-- It resolved with findings. -/
def Contained.succeeds : Contained ResultView → Bool
  | .resolved value _ => (asFindings value).join.isSome
  | _ => false

/-- It ran to success, whether it applied or not. -/
def Capability.succeeds (capability : Capability) : Bool := capability.applies options && capability.runCodeLayer.any Contained.succeeds

/-- It applied to the target, and ran to success. -/
def Loaded.measures (loaded : Loaded) : Bool :=
  loaded.capability.succeeds options &&
    match loaded with
    | .vendored _ => true
    | .installed _ (.resolved outcome _) => outcome.applicable
    | .installed _ _ => false

/-- `resolveModuleState` has a reason not to score. -/
def Unscored (capabilities : List Capability) (executor : AiResult) : Prop :=
  (∀ c ∈ capabilities, c.applies options = false) ∨
    ((∃ c ∈ capabilities, c.applies options = true ∧ c.runsCodeLayer = true) ∧ ∀ c ∈ capabilities, c.succeeds options = false) ∨
    (∀ c ∈ capabilities, c.applies options = true → c.runsCodeLayer = false) ∧
      (∃ c ∈ capabilities, c.applies options = true ∧ c.contributesToPrompt = true) ∧ ∃ reason invocations, executor = .refused reason invocations

end Capability

/-- A score stands for a measurement. -/
structure Backed (measured : Prop) (result : ModuleRunResult) : Prop where
  scored : result.score.isSome = true ↔ measured
  unmeasured : ¬ measured → result.state ≠ .COMPLETE ∧ result.score ≠ some 100

/-! ### One run -/

section Run

variable {options : RunModuleOptions} {capabilities : List Capability} {m : Measurement}

theorem resolveOne_applicable {capability : Capability} {resolved : Resolved}
    (h : resolveOne options.targetControlLevel options.requiredControlLevels capability = some resolved) :
    (match resolved with
      | .applicable => true
      | .skipped _ => false) = capability.applies options := by
  unfold resolveOne at h
  unfold Capability.applies
  by_cases hgated : isGated options.targetControlLevel options.requiredControlLevels capability = true
  · rw [if_pos hgated] at h
    cases h
    rw [hgated]
    rfl
  · rw [if_neg hgated] at h
    rw [Bool.not_eq_true] at hgated
    rw [hgated]
    cases hcan : capability.canRun with
    | timeout durationMs =>
      rw [hcan] at h
      cases h
      rfl
    | rejected error durationMs =>
      rw [hcan] at h
      obtain ⟨text, -, rfl⟩ := Option.map_eq_some_iff.mp h
      rfl
    | resolved value durationMs =>
      rw [hcan] at h
      cases value <;> cases h <;> rfl

theorem applicable_eq_filter {resolution : Resolution}
    (h : resolveApplicable options.targetControlLevel options.requiredControlLevels capabilities = some resolution) :
    resolution.applicable = capabilities.filter (Capability.applies options) := by
  induction capabilities generalizing resolution with
  | nil =>
    cases h
    rfl
  | cons capability rest ih =>
    rw [resolveApplicable] at h
    obtain ⟨resolved, hone, h⟩ := Option.bind_eq_some_iff.mp h
    obtain ⟨others, hothers, rfl⟩ := Option.map_eq_some_iff.mp h
    have happlies := resolveOne_applicable hone
    rw [List.filter_cons, ← happlies, ← ih hothers]
    cases resolved <;> rfl

theorem succeeded_outcomeOf {timeoutMs : ℕ} {id : Text} {answer : Contained ResultView} {outcome : CodeLayerOutcome}
    (h : outcomeOf timeoutMs id answer = some outcome) : outcome.succeeded = answer.succeeds := by
  cases answer with
  | timeout durationMs =>
    cases h
    rfl
  | rejected error durationMs =>
    obtain ⟨text, -, rfl⟩ := Option.map_eq_some_iff.mp h
    rfl
  | resolved value durationMs =>
    obtain ⟨findings, hfindings, rfl⟩ := Option.map_eq_some_iff.mp h
    unfold Contained.succeeds
    dsimp only
    rw [hfindings]
    cases findings <;> rfl

/-- **What a measurement holds**: those that apply, and how each of their code layers ended. -/
theorem measure_eq (h : measure options capabilities = some m) : m.applicable = capabilities.filter (Capability.applies options) ∧
    m.outcomes.map (·.succeeded) = (m.applicable.filterMap (·.runCodeLayer)).map Contained.succeeds := by
  unfold measure at h
  obtain ⟨resolution, hresolution, h⟩ := Option.bind_eq_some_iff.mp h
  obtain ⟨outcomes, houtcomes, rfl⟩ := Option.map_eq_some_iff.mp h
  refine ⟨applicable_eq_filter hresolution, ?_⟩
  have hmap := map_of_mapM (fun p outcome hp => succeeded_outcomeOf hp) houtcomes
  rw [hmap, List.map_filterMap, List.map_filterMap]
  congr 1
  funext capability
  cases capability.runCodeLayer <;> rfl

theorem outcomes_eq_nil_iff (h : measure options capabilities = some m) :
    m.outcomes = [] ↔ ∀ c ∈ capabilities, c.applies options = true → c.runsCodeLayer = false := by
  obtain ⟨happlicable, houtcomes⟩ := measure_eq h
  have hnil : m.outcomes = [] ↔ m.applicable.filterMap (·.runCodeLayer) = [] := by
    rw [← List.map_eq_nil_iff (f := (·.succeeded)), houtcomes, List.map_eq_nil_iff]
  rw [hnil, List.filterMap_eq_nil_iff, happlicable]
  unfold Capability.runsCodeLayer
  constructor
  · intro hall c hc happlies
    rw [hall c (List.mem_filter.mpr ⟨hc, happlies⟩)]
    rfl
  · intro hall c hc
    obtain ⟨hc, happlies⟩ := List.mem_filter.mp hc
    exact Option.not_isSome_iff_eq_none.mp (Bool.eq_false_iff.mp (hall c hc happlies))

theorem succeeded_eq_nil_iff (h : measure options capabilities = some m) :
    m.outcomes.filter (·.succeeded) = [] ↔ ∀ c ∈ capabilities, c.succeeds options = false := by
  obtain ⟨happlicable, houtcomes⟩ := measure_eq h
  rw [List.filter_eq_nil_iff]
  have hforall : (∀ o ∈ m.outcomes, ¬ o.succeeded = true) ↔ ∀ b ∈ m.outcomes.map (·.succeeded), b = false := by
    simp
  rw [hforall, houtcomes, happlicable]
  unfold Capability.succeeds
  constructor
  · intro hall c hc
    cases happlies : c.applies options with
    | false => rfl
    | true =>
      cases hcode : c.runCodeLayer with
      | none => rfl
      | some answer =>
        exact hall _ (List.mem_map.mpr ⟨answer, List.mem_filterMap.mpr ⟨c, List.mem_filter.mpr ⟨hc, happlies⟩, hcode⟩, rfl⟩)
  · intro hall b hb
    obtain ⟨answer, hanswer, rfl⟩ := List.mem_map.mp hb
    obtain ⟨c, hc, hcode⟩ := List.mem_filterMap.mp hanswer
    obtain ⟨hc, happlies⟩ := List.mem_filter.mp hc
    have hc' := hall c hc
    rw [happlies, hcode] at hc'
    exact hc'

theorem contributors_eq_nil_iff (h : measure options capabilities = some m) : (m.applicable.filter Capability.contributesToPrompt).isEmpty = true ↔
    ¬ ∃ c ∈ capabilities, c.applies options = true ∧ c.contributesToPrompt = true := by
  rw [List.isEmpty_iff, List.filter_eq_nil_iff, (measure_eq h).1]
  constructor
  · rintro hall ⟨c, hc, happlies, hcontributes⟩
    exact hall c (List.mem_filter.mpr ⟨hc, happlies⟩) hcontributes
  · intro hnone c hc hcontributes
    obtain ⟨hc, happlies⟩ := List.mem_filter.mp hc
    exact hnone ⟨c, hc, happlies, hcontributes⟩

theorem degraded_isSome {executor : AiResult} (h : measure options capabilities = some m) : (aiOf options executor m).degraded.isSome = true ↔
    (∃ c ∈ capabilities, c.applies options = true ∧ c.contributesToPrompt = true) ∧ ∃ reason invocations, executor = .refused reason invocations := by
  have hnil := contributors_eq_nil_iff h
  unfold aiOf runAiLayer
  split
  · next hempty =>
    have hnone := hnil.mp hempty
    exact ⟨fun hsome => (nomatch hsome), fun hsome => absurd hsome.1 hnone⟩
  · next hempty =>
    have hsome := not_not.mp (mt hnil.mpr hempty)
    cases executor with
    | ok value invocations => exact ⟨fun h => (nomatch h), fun h => absurd h.2 (by simp)⟩
    | refused reason invocations =>
      refine ⟨fun _ => ⟨hsome, reason, invocations, rfl⟩, fun _ => ?_⟩
      cases reason <;> rfl

theorem unscored_iff {executor : AiResult} (h : measure options capabilities = some m) : Unscored options capabilities executor ↔
    m.applicable.length = 0 ∨ (m.outcomes ≠ [] ∧ m.outcomes.filter (·.succeeded) = []) ∨
      (m.outcomes = [] ∧ (aiOf options executor m).degraded.isSome = true) := by
  have happlicable : m.applicable.length = 0 ↔ ∀ c ∈ capabilities, c.applies options = false := by
    rw [List.length_eq_zero_iff, (measure_eq h).1, List.filter_eq_nil_iff]
    simp only [Bool.not_eq_true]
  have houtcomes : m.outcomes ≠ [] ↔ ∃ c ∈ capabilities, c.applies options = true ∧ c.runsCodeLayer = true := by
    rw [ne_eq, outcomes_eq_nil_iff h]
    simp only [not_forall, exists_prop, Bool.not_eq_false]
  rw [happlicable, houtcomes, succeeded_eq_nil_iff h, outcomes_eq_nil_iff h, degraded_isSome h]
  rfl

/-- **A module is scored** if and only if it has no reason not to be; and it is not complete without a score. -/
theorem score_isSome_iff {platform : Platform} {executor : AiResult} {result : ModuleRunResult}
    (h : runModule platform options capabilities executor = some result) :
    (result.score.isSome = true ↔ ¬ Unscored options capabilities executor) ∧ (result.score.isSome = false → result.state ≠ .COMPLETE) := by
  unfold runModule at h
  obtain ⟨m, hm, h⟩ := Option.bind_eq_some_iff.mp h
  obtain ⟨f, hf, rfl⟩ := Option.map_eq_some_iff.mp h
  rw [unscored_iff hm]
  unfold finish resolveModuleState
  dsimp only
  by_cases hzero : m.applicable.length = 0
  · simp [hzero]
  by_cases hfailed : m.outcomes ≠ [] ∧ m.outcomes.filter (·.succeeded) = []
  · simp [hzero, hfailed]
  by_cases hdark : m.outcomes = [] ∧ (aiOf options executor m).degraded.isSome = true
  · simp [hzero, hdark]
  have hfailed' : ((m.outcomes.filter (·.succeeded)).isEmpty && !m.outcomes.isEmpty) = false := by
    refine Bool.eq_false_iff.mpr fun h => ?_
    obtain ⟨hempty, hsome⟩ := (Bool.and_eq_true _ _).mp h
    rw [Bool.not_eq_true', Bool.eq_false_iff, ne_eq, List.isEmpty_iff] at hsome
    exact hfailed ⟨hsome, List.isEmpty_iff.mp hempty⟩
  have hdark' : (m.outcomes.isEmpty && (aiOf options executor m).degraded.isSome) = false := by
    refine Bool.eq_false_iff.mpr fun h => ?_
    obtain ⟨hempty, hsome⟩ := (Bool.and_eq_true _ _).mp h
    exact hdark ⟨List.isEmpty_iff.mp hempty, hsome⟩
  rw [if_neg hzero, if_neg (Bool.eq_false_iff.mp hfailed'), if_neg (Bool.eq_false_iff.mp hdark')]
  simp only [hzero, hfailed, hdark, or_self, not_false_eq_true, iff_true]
  split <;> simp

/-- What measured something is no reason not to score. -/
theorem not_unscored_of_succeeds {executor : AiResult} {c : Capability} (hc : c ∈ capabilities) (h : c.succeeds options = true) :
    ¬ Unscored options capabilities executor := by
  have hparts := (Bool.and_eq_true _ _).mp h
  obtain ⟨answer, hcode, -⟩ := (Option.any_eq_true _ _).mp hparts.2
  rintro (hnone | ⟨-, hfailed⟩ | ⟨hcodeless, -⟩)
  · exact absurd ((hnone c hc).symm.trans hparts.1) Bool.false_ne_true
  · exact absurd ((hfailed c hc).symm.trans h) Bool.false_ne_true
  · have hruns := hcodeless c hc hparts.1
    rw [Capability.runsCodeLayer, hcode] at hruns
    cases hruns

/-- **A score is backed by a measurement** if and only if something was measured, or there is a reason not to score. -/
theorem backed_iff {platform : Platform} {loaded : List Loaded} {executor : AiResult} {result : ModuleRunResult}
    (h : runModule platform options (loaded.map Loaded.capability) executor = some result) :
    Backed (∃ l ∈ loaded, l.measures options = true) result ↔
      (∃ l ∈ loaded, l.measures options = true) ∨ Unscored options (loaded.map Loaded.capability) executor := by
  obtain ⟨hscore, hstate⟩ := score_isSome_iff h
  have hmeasured : (∃ l ∈ loaded, l.measures options = true) → ¬ Unscored options (loaded.map Loaded.capability) executor := by
    rintro ⟨l, hl, hmeasures⟩
    exact not_unscored_of_succeeds (List.mem_map_of_mem hl) ((Bool.and_eq_true _ _).mp hmeasures).1
  constructor
  · intro hbacked
    by_cases hunscored : Unscored options (loaded.map Loaded.capability) executor
    · exact .inr hunscored
    · exact .inl (hbacked.scored.mp (hscore.mpr hunscored))
  · intro hcases
    refine ⟨?_, fun hnothing => ?_⟩
    · rw [hscore]
      exact ⟨fun hunscored => hcases.resolve_right hunscored, hmeasured⟩
    · have hunscored := hcases.resolve_left hnothing
      have hnone : result.score.isSome = false := Bool.eq_false_iff.mpr fun hsome => hscore.mp hsome hunscored
      refine ⟨hstate hnone, fun h100 => ?_⟩
      rw [h100] at hnone
      cases hnone

end Run

/-! ### Nothing is measured -/

/-- It has notes for the model, and no code layer. -/
def adviser : Capability := ⟨ascii "adviser", .resolved true 0, none, some (some (.text (ascii "Look closely."))), none⟩

/-- The model answers, and finds nothing. -/
def content : AiResult := .ok ⟨ascii "All is well.", [], []⟩ []

/-- The sandbox says that it does not apply. -/
def inapplicable : Contained Dispatched := .resolved ⟨false, .nothing⟩ 0

theorem not_backed_of_complete {measured : Prop} {result? : Option ModuleRunResult}
    (h : result?.any (fun r => r.state = .COMPLETE && r.score = some 100) = true) (hnothing : ¬ measured) :
    ∃ result, result? = some result ∧ ¬ Backed measured result := by
  obtain ⟨result, hresult, hcomplete⟩ := (Option.any_eq_true _ _).mp h
  have hstate := of_decide_eq_true ((Bool.and_eq_true _ _).mp hcomplete).1
  exact ⟨result, hresult, fun hbacked => (hbacked.unmeasured hnothing).1 hstate⟩

/-- The area is complete and scores 100, and nothing was measured: where no capability has a code layer, and where the only
one did not apply. -/
theorem complete_without_measurement :
    (∃ result, runModule somePlatform someOptions ([Loaded.vendored adviser].map Loaded.capability) content = some result ∧
      ¬ Backed (∃ l ∈ [Loaded.vendored adviser], l.measures someOptions = true) result) ∧
    ∃ result, runModule somePlatform someOptions ([Loaded.installed (ascii "installed") inapplicable].map Loaded.capability) content = some result ∧
      ¬ Backed (∃ l ∈ [Loaded.installed (ascii "installed") inapplicable], l.measures someOptions = true) result := by
  constructor
  · refine not_backed_of_complete (by decide) ?_
    simp only [List.mem_singleton, exists_eq_left]
    decide
  · refine not_backed_of_complete (by decide) ?_
    simp only [List.mem_singleton, exists_eq_left]
    decide

/-- An installed capability that applied, and found nothing. -/
def applied : Loaded := .installed (ascii "installed") (.resolved ⟨true, .nothing⟩ 0)

theorem backed_iff_applied : ∃ result, runModule somePlatform someOptions ([applied].map Loaded.capability) content = some result ∧
    (Backed (∃ l ∈ [applied], l.measures someOptions = true) result ↔
      (∃ l ∈ [applied], l.measures someOptions = true) ∨ Unscored someOptions ([applied].map Loaded.capability) content) := by
  have hsome : (runModule somePlatform someOptions ([applied].map Loaded.capability) content).isSome = true := by
    rw [isSome_runModule]
    decide
  obtain ⟨result, hrun⟩ := Option.isSome_iff_exists.mp hsome
  exact ⟨result, hrun, backed_iff hrun⟩

end WebAudit.Runner
