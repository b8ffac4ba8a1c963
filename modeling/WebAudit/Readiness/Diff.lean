import WebAudit.Issues.Reverify
import WebAudit.Runner.Findings
import WebAudit.Scans.States

/-!
# What became worse

`apps/worker/src/readiness/diff.ts`. A readiness pass is compared with the audit it repeats: area by area, by score and
state, and issue by issue, by fingerprint.
-/

namespace WebAudit.Readiness

open WebAudit.Scans WebAudit.Issues
open WebAudit.Runner (Severity)

/-! ### Snapshots -/

structure AreaSnapshot where
  module : ModuleType
  state : ModuleState
  score : Option ℤ
  degradedReason : Option String
  deriving DecidableEq

structure IssueSnapshot where
  fingerprint : String
  severity : Severity
  title : String
  state : IssueState
  deriving DecidableEq

/-- One result for an area and one issue for a fingerprint, as the tables have it. -/
structure ReadinessSnapshot where
  areas : List AreaSnapshot
  issues : List IssueSnapshot
  areasUnique : (areas.map AreaSnapshot.module).Nodup
  issuesUnique : (issues.map IssueSnapshot.fingerprint).Nodup

/-- `new Map(list.map((x) => [key(x), x])).get(k)`: the last one. -/
def mapGet {α κ : Type} [DecidableEq κ] (key : α → κ) (list : List α) (k : κ) : Option α := list.reverse.find? fun x => key x = k

def ReadinessSnapshot.area (s : ReadinessSnapshot) (module : ModuleType) : Option AreaSnapshot :=
  mapGet AreaSnapshot.module s.areas module

def ReadinessSnapshot.issue (s : ReadinessSnapshot) (fingerprint : String) : Option IssueSnapshot :=
  mapGet IssueSnapshot.fingerprint s.issues fingerprint

/-! ### Differences -/

inductive Direction where
  | up
  | down
  | unchanged
  | incomparable
  deriving DecidableEq

structure AreaChange where
  module : ModuleType
  baselineScore : Option ℤ
  freshScore : Option ℤ
  delta : Option ℤ
  direction : Direction
  deriving DecidableEq

inductive RegressionKind where
  | area
  | recurrence
  | newBlocker
  deriving DecidableEq

structure Regression where
  kind : RegressionKind
  name : String
  module : Option ModuleType := none
  fingerprint : Option String := none
  deriving DecidableEq

inductive ImprovementKind where
  | area
  | issueCleared
  deriving DecidableEq

structure Improvement where
  kind : ImprovementKind
  name : String
  module : Option ModuleType := none
  deriving DecidableEq

structure ReadinessDiff where
  areaChanges : List AreaChange
  regressions : List Regression
  improvements : List Improvement

def areaRegressionMin : ℤ := 3

def moduleLabel : ModuleType → String
  | .PERFORMANCE => "Performance"
  | .SECURITY => "Security"
  | .UI => "Design"
  | .TESTING => "Testing"
  | .SEO => "Search visibility"

/-- `STATE_RANK`. -/
def stateRank : ModuleState → ℕ
  | .COMPLETE => 0
  | .DEGRADED => 1
  | .RUNNING | .PENDING => 2
  | .FAILED | .NOT_APPLICABLE => 3

/-- `state.toLowerCase()`. -/
def stateLower : ModuleState → String
  | .PENDING => "pending"
  | .RUNNING => "running"
  | .COMPLETE => "complete"
  | .DEGRADED => "degraded"
  | .FAILED => "failed"
  | .NOT_APPLICABLE => "not_applicable"

/-- `severity.toLowerCase()`. -/
def severityLower : Severity → String
  | .CRITICAL => "critical"
  | .HIGH => "high"
  | .MEDIUM => "medium"
  | .LOW => "low"
  | .INFO => "info"

/-- The severity is one of `SEVERITIES_BLOCKING`. -/
def isBlocking : Severity → Bool
  | .CRITICAL | .HIGH => true
  | _ => false

/-- `String(score)`. -/
def scoreText (score : Option ℤ) : String :=
  match score with
  | none => "null"
  | some n => toString n

section Diff

variable (baseline fresh : ReadinessSnapshot)

/-- How an area moved. -/
def areaChange (area : AreaSnapshot) : AreaChange :=
  let bScore := (baseline.area area.module).bind AreaSnapshot.score
  let delta := bScore.bind fun b => area.score.map (· - b)
  let direction := match delta with
    | none => .incomparable
    | some d => if areaRegressionMin ≤ d then .up else if d ≤ -areaRegressionMin then .down else .unchanged
  ⟨area.module, bScore, area.score, delta, direction⟩

def stateDegraded (area : AreaSnapshot) : Bool :=
  (baseline.area area.module).any fun before => decide (stateRank before.state < stateRank area.state)

def areaRegression (area : AreaSnapshot) : Option Regression :=
  let change := areaChange baseline area
  let label := moduleLabel area.module
  if change.direction = .down then
    some { kind := .area, module := some area.module,
           name := label ++ " regressed: score fell from " ++ scoreText change.baselineScore ++ " to " ++ scoreText change.freshScore }
  else if stateDegraded baseline area then
    (baseline.area area.module).map fun before =>
      { kind := .area, module := some area.module,
        name := label ++ " regressed: " ++ stateLower before.state ++ " → " ++ stateLower area.state ++ " (" ++
          area.degradedReason.getD "the area could not be fully audited this pass" ++ ")" }
  else none

def areaImprovement (area : AreaSnapshot) : Option Improvement :=
  let change := areaChange baseline area
  if change.direction = .down || stateDegraded baseline area then none
  else if change.direction = .up then
    some { kind := .area, module := some area.module,
           name := moduleLabel area.module ++ " improved: score rose from " ++ scoreText change.baselineScore ++ " to " ++
             scoreText change.freshScore }
  else none

def issueRegression (issue : IssueSnapshot) : Option Regression :=
  match baseline.issue issue.fingerprint with
  | some before =>
    if before.state = .RESOLVED then
      some { kind := .recurrence, fingerprint := some issue.fingerprint,
             name := "Regressed: \"" ++ issue.title ++ "\" was verified fixed and has returned" }
    else none
  | none =>
    if isBlocking issue.severity then
      some { kind := .newBlocker, fingerprint := some issue.fingerprint,
             name := "New " ++ severityLower issue.severity ++ " issue not in the original audit: \"" ++ issue.title ++ "\"" }
    else none

def issueCleared (issue : IssueSnapshot) : Option Improvement :=
  if isBlocking issue.severity && !(fresh.issues.map IssueSnapshot.fingerprint).contains issue.fingerprint then
    some { kind := .issueCleared, name := "Cleared: \"" ++ issue.title ++ "\" (" ++ severityLower issue.severity ++ ") no longer appears" }
  else none

def diffAgainstBaseline : ReadinessDiff where
  areaChanges := fresh.areas.map (areaChange baseline)
  regressions := fresh.areas.filterMap (areaRegression baseline) ++ fresh.issues.filterMap (issueRegression baseline)
  improvements := fresh.areas.filterMap (areaImprovement baseline) ++ baseline.issues.filterMap (issueCleared fresh)

end Diff

/-! ### Looking up -/

section Lookup

variable {α κ : Type} [DecidableEq κ] {key : α → κ} {list : List α} {k : κ} {x y : α}

/-- Where keys are unique, the last one is the one. -/
theorem mapGet_iff (hunique : (list.map key).Nodup) : mapGet key list k = some x ↔ x ∈ list ∧ key x = k := by
  unfold mapGet
  constructor
  · intro h
    exact ⟨List.mem_reverse.mp (List.mem_of_find?_eq_some h), by simpa using List.find?_some h⟩
  · rintro ⟨hmem, rfl⟩
    obtain ⟨y, hy⟩ : ∃ y, list.reverse.find? (fun y => key y = key x) = some y :=
      Option.isSome_iff_exists.mp (List.find?_isSome.mpr ⟨x, List.mem_reverse.mpr hmem, by simp⟩)
    have hkey : key y = key x := by simpa using List.find?_some hy
    rw [hy, List.inj_on_of_nodup_map hunique (List.mem_reverse.mp (List.mem_of_find?_eq_some hy)) hmem hkey]

theorem mapGet_eq_none_iff : mapGet key list k = none ↔ ∀ x ∈ list, key x ≠ k := by
  unfold mapGet
  rw [List.find?_eq_none]
  simp

variable {s : ReadinessSnapshot} {area : AreaSnapshot} {issue : IssueSnapshot} {module : ModuleType} {fingerprint : String}

theorem ReadinessSnapshot.area_iff : s.area module = some area ↔ area ∈ s.areas ∧ area.module = module := mapGet_iff s.areasUnique

theorem ReadinessSnapshot.issue_iff : s.issue fingerprint = some issue ↔ issue ∈ s.issues ∧ issue.fingerprint = fingerprint :=
  mapGet_iff s.issuesUnique

theorem ReadinessSnapshot.issue_eq_none_iff : s.issue fingerprint = none ↔ ∀ issue ∈ s.issues, issue.fingerprint ≠ fingerprint :=
  mapGet_eq_none_iff

end Lookup

/-! ### What is named -/

section Named

variable {baseline fresh : ReadinessSnapshot} {area : AreaSnapshot} {issue : IssueSnapshot} {r : Regression}

/-- The score fell by the margin. -/
def Fell (before area : AreaSnapshot) : Prop := ∃ b f, before.score = some b ∧ area.score = some f ∧ f + areaRegressionMin ≤ b

theorem areaChange_down_iff : (areaChange baseline area).direction = .down ↔
    ∃ before, baseline.area area.module = some before ∧ Fell before area := by
  unfold areaChange Fell areaRegressionMin
  dsimp only
  cases hbefore : baseline.area area.module with
  | none => simp
  | some before =>
    cases hb : before.score with
    | none => simp [hb]
    | some b =>
      cases hf : area.score with
      | none => simp [hb]
      | some f =>
        simp only [Option.bind_some, hb, Option.map_some]
        split_ifs with hup hdown
        · refine ⟨nofun, ?_⟩
          rintro ⟨_, ⟨⟩, _, _, hb', ⟨⟩, hfell⟩
          obtain rfl := Option.some.inj (hb.symm.trans hb')
          omega
        · exact ⟨fun _ => ⟨before, rfl, b, f, hb, rfl, by omega⟩, fun _ => rfl⟩
        · refine ⟨nofun, ?_⟩
          rintro ⟨_, ⟨⟩, _, _, hb', ⟨⟩, hfell⟩
          obtain rfl := Option.some.inj (hb.symm.trans hb')
          omega

theorem stateDegraded_iff : stateDegraded baseline area = true ↔
    ∃ before, baseline.area area.module = some before ∧ stateRank before.state < stateRank area.state := by
  unfold stateDegraded
  rw [Option.any_eq_true]
  simp only [decide_eq_true_eq]

/-- **An area is named** when its score fell, or its state carries less confidence. -/
theorem areaRegression_isSome_iff : (areaRegression baseline area).isSome ↔
    ∃ before, baseline.area area.module = some before ∧ (Fell before area ∨ stateRank before.state < stateRank area.state) := by
  unfold areaRegression
  dsimp only
  split_ifs with hdown hstate
  · obtain ⟨before, hbefore, hfell⟩ := areaChange_down_iff.mp hdown
    exact ⟨fun _ => ⟨before, hbefore, .inl hfell⟩, fun _ => rfl⟩
  · obtain ⟨before, hbefore, hrank⟩ := stateDegraded_iff.mp hstate
    rw [hbefore]
    exact ⟨fun _ => ⟨before, rfl, .inr hrank⟩, fun _ => rfl⟩
  · refine ⟨nofun, fun ⟨before, hbefore, h⟩ => ?_⟩
    rcases h with hfell | hrank
    · exact absurd (areaChange_down_iff.mpr ⟨before, hbefore, hfell⟩) hdown
    · exact absurd (stateDegraded_iff.mpr ⟨before, hbefore, hrank⟩) hstate

theorem areaRegression_module (h : areaRegression baseline area = some r) :
    r.kind = .area ∧ r.module = some area.module ∧ r.fingerprint = none := by
  unfold areaRegression at h
  dsimp only at h
  split_ifs at h
  · cases h
    exact ⟨rfl, rfl, rfl⟩
  · obtain ⟨before, -, rfl⟩ := Option.map_eq_some_iff.mp h
    exact ⟨rfl, rfl, rfl⟩

/-- **An issue is named** when it was resolved, or was not there and is blocking. -/
theorem issueRegression_isSome_iff : (issueRegression baseline issue).isSome ↔
    (∃ before, baseline.issue issue.fingerprint = some before ∧ before.state = .RESOLVED) ∨
      baseline.issue issue.fingerprint = none ∧ isBlocking issue.severity = true := by
  unfold issueRegression
  cases baseline.issue issue.fingerprint with
  | none => simp
  | some before => simp

theorem issueRegression_fingerprint (h : issueRegression baseline issue = some r) : r.fingerprint = some issue.fingerprint := by
  unfold issueRegression at h
  split at h <;> split_ifs at h <;> cases h <;> rfl

theorem mem_regressions : r ∈ (diffAgainstBaseline baseline fresh).regressions ↔
    (∃ area ∈ fresh.areas, areaRegression baseline area = some r) ∨ ∃ issue ∈ fresh.issues, issueRegression baseline issue = some r := by
  unfold diffAgainstBaseline
  rw [List.mem_append, List.mem_filterMap, List.mem_filterMap]

end Named

end WebAudit.Readiness
