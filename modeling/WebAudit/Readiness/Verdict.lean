import WebAudit.Readiness.Diff

/-!
# The verdict

`computeVerdict` of `apps/worker/src/readiness/verdict.ts`, over what `diffAgainstBaseline` found: ready when every area meets
its threshold, nothing regressed, and something was measured. An issue that was in the baseline below a blocking severity
and comes back at one is no regression to it.
-/

namespace WebAudit.Readiness

open WebAudit.Scans WebAudit.Issues
open WebAudit.Runner (Severity)

/-! ### Scores -/

structure OverallScore where
  score : Option ℤ
  scoredModules : List ModuleType
  unscoredModules : List ModuleType
  deriving DecidableEq

/-- The area carries a score, and has one. -/
def scored (area : AreaSnapshot) : Bool := area.state.isDelivered && area.score.isSome

/-- `Math.round(total / n)`. -/
def roundedMean (total : ℤ) (n : ℕ) : ℤ := (2 * total + n) / (2 * n)

def overallScore (areas : List AreaSnapshot) : OverallScore :=
  let counted := areas.filter scored
  { score := if counted = [] then none else some (roundedMean (counted.filterMap AreaSnapshot.score).sum counted.length)
    scoredModules := counted.map AreaSnapshot.module
    unscoredModules := (areas.filter fun area => !scored area).map AreaSnapshot.module }

/-! ### Verdicts -/

/-- `READINESS_THRESHOLDS`. -/
def readinessThreshold : ModuleType → ℤ
  | .PERFORMANCE => 80
  | .SECURITY => 80
  | .UI => 70
  | .TESTING => 75
  | .SEO => 70

structure ModuleOutcome where
  module : ModuleType
  score : Option ℤ
  threshold : ℤ
  pass : Bool
  deriving DecidableEq

structure ReadinessVerdictResult where
  isReady : Bool
  overallScore : ℤ
  moduleOutcomes : List ModuleOutcome
  blockers : List String

def moduleOutcome (freshAreas : List AreaSnapshot) (module : ModuleType) : ModuleOutcome :=
  let threshold := readinessThreshold module
  let score := (mapGet AreaSnapshot.module freshAreas module).bind AreaSnapshot.score
  ⟨module, score, threshold, score.any fun s => decide (threshold ≤ s)⟩

/-- What is said of an area that does not pass. -/
def outcomeBlocker (outcome : ModuleOutcome) : String :=
  match outcome.score with
  | none => moduleLabel outcome.module ++ " could not be audited this pass, so readiness cannot be confirmed for it"
  | some s => moduleLabel outcome.module ++ " scored " ++ toString s ++ " against a " ++ toString outcome.threshold ++ " threshold"

/-- A name that is not there yet. -/
def pushNew (blockers : List String) (name : String) : List String := if name ∈ blockers then blockers else blockers ++ [name]

def nothingMeasured : String := "The audit measured nothing, so a readiness verdict cannot be given"

def computeVerdict (freshAreas : List AreaSnapshot) (regressions : List Regression) : ReadinessVerdictResult :=
  let moduleOutcomes := allAreas.map (moduleOutcome freshAreas)
  let failing := (moduleOutcomes.filter fun outcome => !outcome.pass).map outcomeBlocker
  let named := (regressions.map Regression.name).foldl pushNew failing
  let computed := (overallScore freshAreas).score
  let blockers := if computed = none then named ++ [nothingMeasured] else named
  { isReady := decide (blockers = []), overallScore := computed.getD 0, moduleOutcomes, blockers }

/-- The verdict on a pass. -/
def verdict (baseline fresh : ReadinessSnapshot) : ReadinessVerdictResult :=
  computeVerdict fresh.areas (diffAgainstBaseline baseline fresh).regressions

section Blockers

variable {freshAreas : List AreaSnapshot} {regressions : List Regression} {blockers names : List String} {name : String}

theorem mem_foldl_pushNew : name ∈ names.foldl pushNew blockers ↔ name ∈ blockers ∨ name ∈ names := by
  induction names generalizing blockers with
  | nil => simp
  | cons first rest ih =>
    have hpush : name ∈ pushNew blockers first ↔ name ∈ blockers ∨ name = first := by
      unfold pushNew
      split_ifs with hmem
      · exact ⟨.inl, fun h => h.elim id fun heq => heq ▸ hmem⟩
      · rw [List.mem_append, List.mem_singleton]
    rw [List.foldl_cons, ih, hpush, List.mem_cons, or_assoc]

/-- **What blocks.** -/
theorem mem_blockers : name ∈ (computeVerdict freshAreas regressions).blockers ↔
    (∃ module, (moduleOutcome freshAreas module).pass = false ∧ outcomeBlocker (moduleOutcome freshAreas module) = name) ∨
      (∃ r ∈ regressions, r.name = name) ∨ (overallScore freshAreas).score = none ∧ name = nothingMeasured := by
  have hfailing : name ∈ ((allAreas.map (moduleOutcome freshAreas)).filter fun outcome => !outcome.pass).map outcomeBlocker ↔
      ∃ module, (moduleOutcome freshAreas module).pass = false ∧ outcomeBlocker (moduleOutcome freshAreas module) = name := by
    simp only [List.mem_map, List.mem_filter, Bool.not_eq_true']
    constructor
    · rintro ⟨_, ⟨⟨module, -, rfl⟩, hpass⟩, hname⟩
      exact ⟨module, hpass, hname⟩
    · rintro ⟨module, hpass, hname⟩
      exact ⟨_, ⟨⟨module, mem_allAreas module, rfl⟩, hpass⟩, hname⟩
  have hnamed : name ∈ (regressions.map Regression.name).foldl pushNew
      (((allAreas.map (moduleOutcome freshAreas)).filter fun outcome => !outcome.pass).map outcomeBlocker) ↔ _ :=
    mem_foldl_pushNew
  rw [hfailing, List.mem_map] at hnamed
  unfold computeVerdict
  dsimp only
  split_ifs with hnone
  · rw [List.mem_append, hnamed, List.mem_singleton, or_assoc]
    simp only [hnone, true_and]
  · rw [hnamed]
    simp only [hnone, false_and, or_false]

theorem isReady_iff : (computeVerdict freshAreas regressions).isReady = true ↔
    (∀ module, (moduleOutcome freshAreas module).pass = true) ∧ regressions = [] ∧ (overallScore freshAreas).score ≠ none := by
  have hready : (computeVerdict freshAreas regressions).isReady = true ↔ ∀ name, name ∉ (computeVerdict freshAreas regressions).blockers :=
    decide_eq_true_iff.trans List.eq_nil_iff_forall_not_mem
  rw [hready]
  constructor
  · intro h
    refine ⟨fun module => ?_, List.eq_nil_iff_forall_not_mem.mpr fun r hr => ?_, fun hnone => ?_⟩
    · by_contra hpass
      exact h _ (mem_blockers.mpr (.inl ⟨module, Bool.not_eq_true _ ▸ hpass, rfl⟩))
    · exact h _ (mem_blockers.mpr (.inr (.inl ⟨r, hr, rfl⟩)))
    · exact h _ (mem_blockers.mpr (.inr (.inr ⟨hnone, rfl⟩)))
  · rintro ⟨hpass, rfl, hmeasured⟩ name hname
    rcases mem_blockers.mp hname with ⟨module, hfail, -⟩ | ⟨r, hr, -⟩ | ⟨hnone, -⟩
    · rw [hpass module] at hfail
      cases hfail
    · cases hr
    · exact hmeasured hnone

end Blockers

/-! ### Reasons -/

/-- Why a pass may not be ready. -/
inductive Reason where
  | belowThreshold (module : ModuleType)
  | fell (module : ModuleType)
  | lostConfidence (module : ModuleType)
  | returned (fingerprint : String)
  | worse (fingerprint : String)

section Reasons

variable (baseline fresh : ReadinessSnapshot)

/-- The reason is there. -/
def Reason.Fails : Reason → Prop
  | .belowThreshold module => ∀ area ∈ fresh.areas, area.module = module → ∀ s, area.score = some s → s < readinessThreshold module
  | .fell module => ∃ before ∈ baseline.areas, ∃ area ∈ fresh.areas, before.module = module ∧ area.module = module ∧ Fell before area
  | .lostConfidence module => ∃ before ∈ baseline.areas, ∃ area ∈ fresh.areas, before.module = module ∧ area.module = module ∧
      stateRank before.state < stateRank area.state
  | .returned fingerprint => ∃ before ∈ baseline.issues, ∃ issue ∈ fresh.issues,
      before.fingerprint = fingerprint ∧ issue.fingerprint = fingerprint ∧ before.state = .RESOLVED
  | .worse fingerprint => ∃ issue ∈ fresh.issues, issue.fingerprint = fingerprint ∧ isBlocking issue.severity = true ∧
      ∀ before ∈ baseline.issues, before.fingerprint = fingerprint → isBlocking before.severity = false

/-- The blockers name it: the area, or the issue. -/
def Reason.Named : Reason → Prop
  | .belowThreshold module => ∃ outcome ∈ (verdict baseline fresh).moduleOutcomes, outcome.module = module ∧
      outcomeBlocker outcome ∈ (verdict baseline fresh).blockers
  | .fell module | .lostConfidence module => ∃ r ∈ (diffAgainstBaseline baseline fresh).regressions,
      r.kind = .area ∧ r.module = some module ∧ r.name ∈ (verdict baseline fresh).blockers
  | .returned fingerprint | .worse fingerprint => ∃ r ∈ (diffAgainstBaseline baseline fresh).regressions,
      r.fingerprint = some fingerprint ∧ r.name ∈ (verdict baseline fresh).blockers

/-- `SEVERITY_ORDER`. -/
def severityOrder : Severity → ℕ
  | .CRITICAL => 0
  | .HIGH => 1
  | .MEDIUM => 2
  | .LOW => 3
  | .INFO => 4

/-- The second pass is nowhere better: no score is higher, no state carries more confidence, and every issue is still there, as
severe or more. -/
structure Worsened (fresh fresh' : ReadinessSnapshot) : Prop where
  scores : ∀ area' ∈ fresh'.areas, ∀ s', area'.score = some s' → ∃ area ∈ fresh.areas, area.module = area'.module ∧
    ∃ s, area.score = some s ∧ s' ≤ s
  states : ∀ area ∈ fresh.areas, ∀ area' ∈ fresh'.areas, area.module = area'.module → stateRank area.state ≤ stateRank area'.state
  issues : ∀ issue ∈ fresh.issues, ∃ issue' ∈ fresh'.issues, issue'.fingerprint = issue.fingerprint ∧
    severityOrder issue'.severity ≤ severityOrder issue.severity

/-- **A verdict that can be trusted.** -/
structure Trusted : Prop where
  sound : (verdict baseline fresh).isReady = true → ∀ reason : Reason, ¬ reason.Fails baseline fresh
  named : ∀ reason : Reason, reason.Fails baseline fresh → reason.Named baseline fresh
  monotone : ∀ fresh', Worsened fresh fresh' → (verdict baseline fresh).isReady = false → (verdict baseline fresh').isReady = false

/-- No blocking issue was in the baseline below a blocking severity, unresolved. -/
def NoneEscalated : Prop :=
  ∀ issue ∈ fresh.issues, isBlocking issue.severity = true → ∀ before ∈ baseline.issues, before.fingerprint = issue.fingerprint →
    isBlocking before.severity = true ∨ before.state = .RESOLVED

end Reasons

section Trust

variable {baseline fresh fresh' : ReadinessSnapshot} {area : AreaSnapshot} {issue before : IssueSnapshot} {module : ModuleType}
  {fingerprint : String} {r : Regression}

/-- An area that passes has a score, and the score is not below the threshold. -/
theorem pass_iff : (moduleOutcome fresh.areas module).pass = true ↔ ¬ (Reason.belowThreshold module).Fails baseline fresh := by
  have hpass : (moduleOutcome fresh.areas module).pass = true ↔
      ∃ area, fresh.area module = some area ∧ ∃ s, area.score = some s ∧ readinessThreshold module ≤ s := by
    unfold moduleOutcome
    dsimp only
    rw [Option.any_eq_true]
    simp only [Option.bind_eq_some_iff, decide_eq_true_eq]
    constructor
    · rintro ⟨s, ⟨area, harea, hs⟩, hle⟩
      exact ⟨area, harea, s, hs, hle⟩
    · rintro ⟨area, harea, s, hs, hle⟩
      exact ⟨s, ⟨area, harea, hs⟩, hle⟩
  rw [hpass]
  simp only [Reason.Fails, ReadinessSnapshot.area_iff]
  push Not
  constructor
  · rintro ⟨area, ⟨hmem, hmodule⟩, s, hs, hle⟩
    exact ⟨area, hmem, hmodule, s, hs, hle⟩
  · rintro ⟨area, hmem, hmodule, s, hs, hle⟩
    exact ⟨area, ⟨hmem, hmodule⟩, s, hs, hle⟩

theorem regression_named (h : r ∈ (diffAgainstBaseline baseline fresh).regressions) : r.name ∈ (verdict baseline fresh).blockers :=
  mem_blockers.mpr (.inr (.inl ⟨r, h, rfl⟩))

/-- An area that regressed has its entry. -/
theorem area_entry {before : AreaSnapshot} (hbefore : before ∈ baseline.areas) (harea : area ∈ fresh.areas)
    (hmodule : before.module = module) (hmodule' : area.module = module)
    (h : Fell before area ∨ stateRank before.state < stateRank area.state) :
    ∃ r ∈ (diffAgainstBaseline baseline fresh).regressions, r.kind = .area ∧ r.module = some module := by
  have hsome : (areaRegression baseline area).isSome := areaRegression_isSome_iff.mpr
    ⟨before, ReadinessSnapshot.area_iff.mpr ⟨hbefore, hmodule.trans hmodule'.symm⟩, h⟩
  obtain ⟨r, hr⟩ := Option.isSome_iff_exists.mp hsome
  obtain ⟨hkind, hrmodule, -⟩ := areaRegression_module hr
  exact ⟨r, mem_regressions.mpr (.inl ⟨area, harea, hr⟩), hkind, hmodule' ▸ hrmodule⟩

theorem issue_entry (hissue : issue ∈ fresh.issues) (h : (issueRegression baseline issue).isSome) :
    ∃ r ∈ (diffAgainstBaseline baseline fresh).regressions, r.fingerprint = some issue.fingerprint := by
  obtain ⟨r, hr⟩ := Option.isSome_iff_exists.mp h
  exact ⟨r, mem_regressions.mpr (.inr ⟨issue, hissue, hr⟩), issueRegression_fingerprint hr⟩

/-- Every reason but a higher severity has its entry. -/
theorem named_of_fails (hescalated : NoneEscalated baseline fresh) {reason : Reason} (h : reason.Fails baseline fresh) :
    reason.Named baseline fresh := by
  cases reason with
  | belowThreshold module =>
    have hpass : (moduleOutcome fresh.areas module).pass = false := Bool.eq_false_iff.mpr fun hpass => pass_iff.mp hpass h
    exact ⟨moduleOutcome fresh.areas module, List.mem_map_of_mem (mem_allAreas module), rfl, mem_blockers.mpr (.inl ⟨module, hpass, rfl⟩)⟩
  | fell module =>
    obtain ⟨before, hbefore, area, harea, hb, ha, hfell⟩ := h
    obtain ⟨r, hr, hkind, hmodule⟩ := area_entry hbefore harea hb ha (.inl hfell)
    exact ⟨r, hr, hkind, hmodule, regression_named hr⟩
  | lostConfidence module =>
    obtain ⟨before, hbefore, area, harea, hb, ha, hrank⟩ := h
    obtain ⟨r, hr, hkind, hmodule⟩ := area_entry hbefore harea hb ha (.inr hrank)
    exact ⟨r, hr, hkind, hmodule, regression_named hr⟩
  | returned fingerprint =>
    obtain ⟨before, hbefore, issue, hissue, hb, rfl, hresolved⟩ := h
    obtain ⟨r, hr, hfp⟩ := issue_entry hissue
      (issueRegression_isSome_iff.mpr (.inl ⟨before, ReadinessSnapshot.issue_iff.mpr ⟨hbefore, hb⟩, hresolved⟩))
    exact ⟨r, hr, hfp, regression_named hr⟩
  | worse fingerprint =>
    obtain ⟨issue, hissue, rfl, hblocking, hlow⟩ := h
    have hsome : (issueRegression baseline issue).isSome := by
      rw [issueRegression_isSome_iff]
      cases hlook : baseline.issue issue.fingerprint with
      | none => exact .inr ⟨rfl, hblocking⟩
      | some before =>
        obtain ⟨hmem, hfp⟩ := ReadinessSnapshot.issue_iff.mp hlook
        rcases hescalated issue hissue hblocking before hmem hfp with hhigh | hresolved
        · rw [hlow before hmem hfp] at hhigh
          cases hhigh
        · exact .inl ⟨before, rfl, hresolved⟩
    obtain ⟨r, hr, hfp⟩ := issue_entry hissue hsome
    exact ⟨r, hr, hfp, regression_named hr⟩

/-- What is named blocks. -/
theorem not_ready_of_named {reason : Reason} (h : reason.Named baseline fresh) : (verdict baseline fresh).isReady = false := by
  have hblockers {name : String} (hname : name ∈ (verdict baseline fresh).blockers) : (verdict baseline fresh).isReady = false :=
    decide_eq_false (List.ne_nil_of_mem hname)
  cases reason with
  | belowThreshold module => exact hblockers h.choose_spec.2.2
  | fell module => exact hblockers h.choose_spec.2.2.2
  | lostConfidence module => exact hblockers h.choose_spec.2.2.2
  | returned fingerprint => exact hblockers h.choose_spec.2.2
  | worse fingerprint => exact hblockers h.choose_spec.2.2

/-- Something was measured where an area that carries a score has one. -/
theorem overallScore_ne_none_iff {areas : List AreaSnapshot} : (overallScore areas).score ≠ none ↔ ∃ area ∈ areas, scored area = true := by
  unfold overallScore
  dsimp only
  split_ifs with hnil
  · refine ⟨fun h => absurd rfl h, fun ⟨area, hmem, hscored⟩ => ?_⟩
    exact absurd (List.mem_filter.mpr ⟨hmem, hscored⟩) (hnil ▸ List.not_mem_nil)
  · obtain ⟨area, harea⟩ := List.exists_mem_of_ne_nil _ hnil
    exact ⟨fun _ => ⟨area, List.mem_filter.mp harea⟩, fun _ => nofun⟩

theorem isDelivered_iff (state : ModuleState) : state.isDelivered = true ↔ stateRank state < 2 := by
  cases state <;> decide

theorem isBlocking_iff (severity : Severity) : isBlocking severity = true ↔ severityOrder severity < 2 := by
  cases severity <;> decide

/-- **No pass becomes ready by becoming worse.** -/
theorem ready_of_worsened (h : Worsened fresh fresh') (hready : (verdict baseline fresh').isReady = true) :
    (verdict baseline fresh).isReady = true := by
  obtain ⟨hpass, hnone, hmeasured⟩ := isReady_iff.mp hready
  have hentry {r : Regression} : r ∉ (diffAgainstBaseline baseline fresh').regressions := hnone ▸ List.not_mem_nil
  -- every area of the worse pass has a score, and one that passes
  have hscore (module : ModuleType) : ∃ area' ∈ fresh'.areas, area'.module = module ∧ ∃ s', area'.score = some s' ∧ readinessThreshold module ≤ s' := by
    have hthreshold : ¬ (Reason.belowThreshold module).Fails baseline fresh' := pass_iff.mp (hpass module)
    simp only [Reason.Fails] at hthreshold
    push Not at hthreshold
    exact hthreshold
  refine isReady_iff.mpr ⟨fun module => ?_, List.eq_nil_iff_forall_not_mem.mpr fun r hr => ?_, ?_⟩
  · obtain ⟨area', harea', hmodule', s', hs', hle'⟩ := hscore module
    obtain ⟨area, harea, hmodule, s, hs, hle⟩ := h.scores area' harea' s' hs'
    refine pass_iff.mpr fun (hfails : (Reason.belowThreshold module).Fails baseline fresh) => ?_
    have hlt := hfails area harea (hmodule.trans hmodule') s hs
    omega
  · rcases mem_regressions.mp hr with ⟨area, harea, hr⟩ | ⟨issue, hissue, hr⟩
    · obtain ⟨before, hbefore, hworse⟩ := areaRegression_isSome_iff.mp (Option.isSome_iff_exists.mpr ⟨r, hr⟩)
      obtain ⟨hmem, hmodule⟩ := ReadinessSnapshot.area_iff.mp hbefore
      obtain ⟨area', harea', hmodule', s', hs', -⟩ := hscore area.module
      have hworse' : Fell before area' ∨ stateRank before.state < stateRank area'.state := by
        rcases hworse with ⟨b, f, hb, hf, hfell⟩ | hrank
        · obtain ⟨other, hother, hmoduleOther, s, hs, hle⟩ := h.scores area' harea' s' hs'
          obtain rfl : other = area := List.inj_on_of_nodup_map fresh.areasUnique hother harea (hmoduleOther.trans hmodule')
          obtain rfl := Option.some.inj (hs.symm.trans hf)
          exact .inl ⟨b, s', hb, hs', by omega⟩
        · exact .inr (hrank.trans_le (h.states area harea area' harea' hmodule'.symm))
      obtain ⟨r', hr', -⟩ := area_entry hmem harea' hmodule hmodule' hworse'
      exact hentry hr'
    · obtain ⟨issue', hissue', hfp, hsevere⟩ := h.issues issue hissue
      have hsome : (issueRegression baseline issue').isSome := by
        rw [issueRegression_isSome_iff, hfp]
        refine (issueRegression_isSome_iff.mp (Option.isSome_iff_exists.mpr ⟨r, hr⟩)).imp_right fun ⟨habsent, hblocking⟩ => ⟨habsent, ?_⟩
        rw [isBlocking_iff] at hblocking ⊢
        omega
      obtain ⟨r', hr', -⟩ := issue_entry hissue' hsome
      exact hentry hr'
  · obtain ⟨area', harea', hscored'⟩ := overallScore_ne_none_iff.mp hmeasured
    rw [scored, Bool.and_eq_true, isDelivered_iff] at hscored'
    obtain ⟨s', hs'⟩ := Option.isSome_iff_exists.mp hscored'.2
    obtain ⟨area, harea, hmodule, s, hs, -⟩ := h.scores area' harea' s' hs'
    refine overallScore_ne_none_iff.mpr ⟨area, harea, ?_⟩
    rw [scored, Bool.and_eq_true, isDelivered_iff]
    exact ⟨(h.states area harea area' harea' hmodule).trans_lt hscored'.1, Option.isSome_iff_exists.mpr ⟨s, hs⟩⟩

/-- **A verdict can be trusted** when no issue came back at a blocking severity that was below one. -/
theorem trusted_iff (baseline fresh : ReadinessSnapshot) : Trusted baseline fresh ↔ NoneEscalated baseline fresh := by
  constructor
  · intro h issue hissue hblocking before hbefore hfp
    by_contra hlow
    rw [not_or, Bool.not_eq_true] at hlow
    have hunique (other : IssueSnapshot) (hother : other ∈ baseline.issues) (heq : other.fingerprint = issue.fingerprint) : other = before :=
      List.inj_on_of_nodup_map baseline.issuesUnique hother hbefore (heq.trans hfp.symm)
    have hfails : (Reason.worse issue.fingerprint).Fails baseline fresh :=
      ⟨issue, hissue, rfl, hblocking, fun other hother heq => hunique other hother heq ▸ hlow.1⟩
    obtain ⟨r, hr, hrfp, -⟩ := h.named _ hfails
    rcases mem_regressions.mp hr with ⟨area, -, harea⟩ | ⟨other, hother, hregression⟩
    · rw [(areaRegression_module harea).2.2] at hrfp
      cases hrfp
    · have heq : other.fingerprint = issue.fingerprint := Option.some.inj ((issueRegression_fingerprint hregression).symm.trans hrfp)
      rcases issueRegression_isSome_iff.mp (Option.isSome_iff_exists.mpr ⟨r, hregression⟩) with ⟨seen, hseen, hresolved⟩ | ⟨habsent, -⟩
      · obtain ⟨hmem, hseenfp⟩ := ReadinessSnapshot.issue_iff.mp hseen
        rw [hunique seen hmem (hseenfp.trans heq)] at hresolved
        exact hlow.2 hresolved
      · exact ReadinessSnapshot.issue_eq_none_iff.mp habsent before hbefore (hfp.trans heq.symm)
  · intro h
    refine ⟨fun hready reason hfails => ?_, fun reason hfails => named_of_fails h hfails, fun fresh' hworse hnot => ?_⟩
    · rw [not_ready_of_named (named_of_fails h hfails)] at hready
      cases hready
    · by_contra hready
      rw [Bool.not_eq_false] at hready
      rw [ready_of_worsened hworse hready] at hnot
      cases hnot

/-- Every area at a score of 90. -/
def ninety (issues : List IssueSnapshot) (hunique : (issues.map IssueSnapshot.fingerprint).Nodup) : ReadinessSnapshot where
  areas := allAreas.map fun module => ⟨module, .COMPLETE, some 90, none⟩
  issues := issues
  areasUnique := by decide
  issuesUnique := hunique

/-- A problem that was of low severity is critical now, and the verdict is ready. -/
theorem escalation_ready : ¬ ∀ baseline fresh : ReadinessSnapshot, Trusted baseline fresh := by
  intro h
  have hsound := (h (ninety [⟨"f", .LOW, "Open redirect", .OPEN⟩] (by decide)) (ninety [⟨"f", .CRITICAL, "Open redirect", .OPEN⟩] (by decide))).sound
  exact hsound (by decide) (.worse "f") ⟨_, List.mem_singleton_self _, rfl, rfl, fun before hbefore _ => List.mem_singleton.mp hbefore ▸ rfl⟩

end Trust

end WebAudit.Readiness
