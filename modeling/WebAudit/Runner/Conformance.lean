import Mathlib.Data.List.Lex
import WebAudit.Runner.Layers

/-!
# Conformance

`conformance/suite.ts`. The suite calls a capability in containment and looks at what comes out without any; a capability is known here by what
is read of it, and `none` is a read that throws.

A field answers the same each time it is read; a function may answer each call differently. The manifest's schema is a parameter.
-/

namespace WebAudit.Runner

open WebAudit.Lib.Uri WebAudit.Lib.Values

/-! ### A capability under test -/

/-- What is read of a field, and of what is no text how it is written in a template, unless that throws. -/
inductive Field where
  | text (s : Text)
  | other (written : Option Text)
  deriving DecidableEq

/-- How a contained call ends. -/
inductive Outcome (α : Type) where
  | resolved (value : α)
  | rejected
  | timeout

def Outcome.kind {α : Type} : Outcome α → Text
  | .resolved _ => ascii "resolved"
  | .rejected => ascii "rejected"
  | .timeout => ascii "timeout"

/-- An entry of what a code layer resolved with: what the runner reads of it, and what the suite makes of a `checkId` and of
`fingerprintParts` of other types. -/
structure Entry extends EntryView where
  otherId : Option (List ℕ)
  otherParts : Option (List Part)

structure Returned where
  isArray : Option Bool
  /-- `none` is no object. -/
  entries : List (Option Entry)
  ends : Bool

/-- What the runner sees of it. -/
def Returned.view (value : Returned) : ResultView := ⟨value.isArray, value.entries.map (Option.map Entry.toEntryView), value.ends⟩

structure ReverifyView where
  outcome : Option View
  /-- The number of `Object.keys(evidence)`. -/
  evidenceKeys : Option ℕ
  /-- `reason.trim() === ''`. -/
  reasonBlank : Option Bool

/-- A capability, in one run of the suite. -/
structure Subject where
  id : Option Field
  module : Option Field
  layer : Option Field
  /-- Whether it is a function; and so on. -/
  canRun : Option Bool
  runCodeLayer : Option Bool
  getSystemPromptAddition : Option Bool
  getContextData : Option Bool
  reverify : Option Bool
  /-- What `canRun` throws, `none` for `undefined`, or whether it answers, `none` for what is no boolean. -/
  canRunCall : Except (Option Thrown) (Option Bool)
  touched : List Text
  /-- The calls of the code layer, one check after the other. -/
  contained : Outcome Returned
  quiet : Outcome Returned
  violations : List Text
  first : Outcome Returned
  second : Outcome Returned
  reverifyCall : Outcome ReverifyView
  /-- The call throws, and how that is written, or how it ends after the abort. -/
  abortCall : Except (Option Text) (Outcome Unit)

/-! ### The checks -/

inductive ConformanceCheck where
  | contractShape
  | manifestValid
  | canRunHasNoSideEffects
  | throwingIsContained
  | noLlmFromCodeLayer
  | fingerprintStable
  | reverifyReportsFailureWithEvidence
  | abortHonoured
  deriving DecidableEq

/-- `CONFORMANCE_CHECKS`. -/
def conformanceChecks : List ConformanceCheck :=
  [.contractShape, .manifestValid, .canRunHasNoSideEffects, .throwingIsContained, .noLlmFromCodeLayer, .fingerprintStable,
    .reverifyReportsFailureWithEvidence, .abortHonoured]

structure CheckResult where
  check : ConformanceCheck
  passed : Bool
  detail : Text
  skipped : Bool
  deriving DecidableEq

structure ConformanceReport where
  capabilityId : Text
  module : Text
  layer : Text
  passed : Bool
  results : List CheckResult

structure ParsedManifest where
  id : Text
  module : Text
  layer : Text

structure ConformanceDeps where
  /-- What `parseManifest` makes of the manifest: its problems, written down, or the manifest. -/
  manifest : Except Text ParsedManifest
  abortGraceMs : ℕ

def pass (check : ConformanceCheck) (detail : Text) : CheckResult := ⟨check, true, detail, false⟩

def fail (check : ConformanceCheck) (detail : Text) : CheckResult := ⟨check, false, detail, false⟩

def skip (check : ConformanceCheck) (detail : Text) : CheckResult := ⟨check, true, detail, true⟩

/-- No problems, or those. -/
def judged (check : ConformanceCheck) (problems : List Text) : CheckResult :=
  if problems = [] then pass check (ascii "ok") else fail check ((ascii "; ").intercalate problems)

def Field.isText : Field → Bool
  | .text _ => true
  | .other _ => false

def problem (c : Bool) (text : String) : List Text := if c then [ascii text] else []

def shapeProblems (id module layer : Field) (canRun hasCode hasAi : Bool) : List Text :=
  problem (!id.isText || id == .text []) "id is required" ++
    problem (!module.isText) "module is required" ++
    problem (!layer.isText) "layer is required" ++
    problem (!canRun) "canRun must be a function" ++
    problem (!hasCode && !hasAi) "implements neither a code layer nor an AI layer" ++
    problem (layer == .text (ascii "CODE") && !hasCode) "declares layer CODE with no runCodeLayer" ++
    problem (layer == .text (ascii "AI") && !hasAi) "declares layer AI with no AI-layer method" ++
    problem (layer == .text (ascii "BOTH") && !(hasCode && hasAi)) "declares layer BOTH but implements only one"

section Checks

variable (platform : Platform) (deps : ConformanceDeps) (c : Subject)

/-- The second method is looked for only without the first. -/
def hasAi : Option Bool := c.getSystemPromptAddition.bind fun first => if first then some true else c.getContextData

def problemsOf : Option (List Text) :=
  c.id.bind fun id => c.module.bind fun module => c.layer.bind fun layer => c.canRun.bind fun canRun => c.runCodeLayer.bind fun hasCode =>
    (hasAi c).map fun hasAi => shapeProblems id module layer canRun hasCode hasAi

def checkContractShape : Option CheckResult := (problemsOf c).map (judged .contractShape)

/-- The manifest and the field are compared, and both are written where they differ. -/
def mismatch (start middle : String) (declared : Text) (field : Field) : Option (List Text) :=
  match field with
  | .text s => if s = declared then some [] else some [ascii start ++ declared ++ ascii middle ++ s ++ ascii "\""]
  | .other written => written.map fun s => [ascii start ++ declared ++ ascii middle ++ s ++ ascii "\""]

def checkManifest : Option CheckResult :=
  match deps.manifest with
  | .error problems => some (fail .manifestValid problems)
  | .ok manifest =>
    (c.id.bind (mismatch "manifest id \"" "\" does not match capability id \"" manifest.id)).bind fun ids =>
      (c.module.bind (mismatch "manifest module \"" "\" does not match \"" manifest.module)).bind fun modules =>
        (c.layer.bind (mismatch "manifest layer \"" "\" does not match \"" manifest.layer)).map fun layers =>
          judged .manifestValid (ids ++ modules ++ layers)

def checkCanRunPure : Option CheckResult :=
  match c.canRunCall with
  | .error (some thrown) => (describeThrown thrown).map fun text => fail .canRunHasNoSideEffects (ascii "canRun threw: " ++ text)
  | .error none => some (fail .canRunHasNoSideEffects (ascii "canRun must return a boolean"))
  | .ok none => some (fail .canRunHasNoSideEffects (ascii "canRun must return a boolean"))
  | .ok (some answer) =>
    if c.touched = [] then
      some (pass .canRunHasNoSideEffects (ascii "returned " ++ if answer then ascii "true" else ascii "false"))
    else some (fail .canRunHasNoSideEffects (ascii "canRun reached for " ++ (ascii ", ").intercalate c.touched))

/-- A check of the code layer, if there is one. -/
def withCodeLayer (check : ConformanceCheck) (result : Option CheckResult) : Option CheckResult :=
  c.runCodeLayer.bind fun hasCode => if hasCode then result else some (skip check (ascii "no code layer"))

def checkContained : Option CheckResult :=
  withCodeLayer c .throwingIsContained <|
    match c.contained with
    | .resolved value =>
      value.isArray.map fun isArray =>
        if isArray then pass .throwingIsContained c.contained.kind
        else fail .throwingIsContained (ascii "runCodeLayer resolved with something other than an array")
    | _ => some (pass .throwingIsContained c.contained.kind)

def checkNoLlm : Option CheckResult :=
  withCodeLayer c .noLlmFromCodeLayer <| some <|
    if c.violations = [] then pass .noLlmFromCodeLayer (ascii "ok")
    else fail .noLlmFromCodeLayer (ascii "called global fetch for " ++ (ascii ", ").intercalate c.violations)

/-- The entries of the array that a run gives; `some none` is `null`. -/
def entriesOf : Outcome Returned → Option (Option (List (Option Entry)))
  | .resolved value => value.isArray.map fun isArray => if isArray then some value.entries else none
  | _ => some none

/-- What `Buffer.from` is given for a `checkId`. -/
def Entry.checkIdPart (entry : Entry) : Option Part :=
  entry.checkId.map fun
    | .text s => .text s
    | .undefined => .other none
    | .other => .other entry.otherId

/-- `[...fingerprintParts]`. -/
def Entry.spread (entry : Entry) : Option (List Part) :=
  entry.fingerprintParts.bind fun
    | some parts => parts.copied
    | none => entry.otherParts

def idOf (module : Text) (entry : Option Entry) : Option Text :=
  entry.bind fun entry => entry.checkIdPart.bind fun checkId => entry.spread.bind fun parts =>
    (encodeParts (.text (ascii "conformance") :: .text module :: checkId :: parts)).map platform.sha256

def idsOf (module : Text) (entries : List (Option Entry)) : Option (List Text) :=
  (entries.mapM (idOf platform module)).map fun ids => ids.mergeSort fun a b => decide (a ≤ b)

/-- The module of a capability of the right shape. -/
def moduleText : Text :=
  match c.module with
  | some (.text s) => s
  | _ => []

def checkFingerprintStable : Option CheckResult :=
  withCodeLayer c .fingerprintStable <|
    (entriesOf c.first).bind fun first => (entriesOf c.second).bind fun second =>
      match first, second with
      | some first, some second =>
        if first = [] ∧ second = [] then some (skip .fingerprintStable (ascii "produced no findings for the conformance input"))
        else
          (idsOf platform (moduleText c) first).bind fun a => (idsOf platform (moduleText c) second).map fun b =>
            if a.length ≠ b.length then
              fail .fingerprintStable (ascii "produced " ++ Redaction.decimalText a.length ++ ascii " findings then " ++ Redaction.decimalText b.length)
            else
              let drifted := ((a.zip b).filter fun p => p.1 ≠ p.2).length
              if drifted = 0 then pass .fingerprintStable (Redaction.decimalText a.length ++ ascii " stable")
              else fail .fingerprintStable (Redaction.decimalText drifted ++ ascii " fingerprint(s) changed between runs")
      | _, _ => some (fail .fingerprintStable (ascii "the code layer did not return an array of findings twice over identical input"))

/-- What is made of what `reverify` resolved with. -/
def reverifyResult (result : ReverifyView) : Option CheckResult :=
  result.outcome.bind fun outcome =>
    if outcome = .text (ascii "PASSED") then
      some (fail .reverifyReportsFailureWithEvidence (ascii "returned PASSED for a check that was never fixed (SC-007)"))
    else if outcome = .text (ascii "FAILED") then
      result.evidenceKeys.map fun keys =>
        if 0 < keys then pass .reverifyReportsFailureWithEvidence (ascii "FAILED with evidence")
        else fail .reverifyReportsFailureWithEvidence (ascii "FAILED with empty evidence (FR-061)")
    else
      result.reasonBlank.map fun blank =>
        if blank then fail .reverifyReportsFailureWithEvidence (ascii "UNVERIFIABLE with no reason (FR-063)")
        else pass .reverifyReportsFailureWithEvidence (ascii "UNVERIFIABLE with a reason")

def checkReverify : Option CheckResult :=
  c.reverify.bind fun isFunction =>
    if isFunction then
      match c.reverifyCall with
      | .resolved result => reverifyResult result
      | outcome => some (fail .reverifyReportsFailureWithEvidence (ascii "reverify did not complete (" ++ outcome.kind ++ ascii ")"))
    else some (skip .reverifyReportsFailureWithEvidence (ascii "no reverify; issues will be UNVERIFIABLE"))

def checkAbort : Option CheckResult :=
  withCodeLayer c .abortHonoured <|
    match c.abortCall with
    | .error written => written.map fun text => pass .abortHonoured (ascii "threw synchronously: " ++ text)
    | .ok .timeout => some (fail .abortHonoured (ascii "still running " ++ Redaction.decimalText deps.abortGraceMs ++ ascii "ms after abort"))
    | .ok outcome => some (pass .abortHonoured outcome.kind)

/-- One after the other. -/
def behaviour : Option (List CheckResult) :=
  (checkCanRunPure c).bind fun canRun => (checkContained c).bind fun contained => (checkNoLlm c).bind fun noLlm =>
    (checkFingerprintStable platform c).bind fun stable => (checkReverify c).bind fun reverify =>
      (checkAbort deps c).map fun abort => [canRun, contained, noLlm, stable, reverify, abort]

def written (field : Field) : Text :=
  match field with
  | .text s => s
  | .other _ => ascii "(unknown)"

/-- `none`: it throws. -/
def runConformanceSuite : Option ConformanceReport :=
  (checkContractShape c).bind fun shape => (checkManifest deps c).bind fun manifest =>
    let behavioural :=
      if shape.passed then behaviour platform deps c
      else some ((conformanceChecks.drop 2).map (skip · (ascii "contract shape failed; behavioural checks not attempted")))
    behavioural.bind fun rest =>
      let results := shape :: manifest :: rest
      c.id.bind fun id => c.module.bind fun module => c.layer.map fun layer =>
        ⟨written id, written module, written layer, results.all (·.passed), results⟩

end Checks

/-! ### What can be read -/

/-- The parts of a capability that the suite reads, and that are therefore not to throw. -/
structure Readable (platform : Platform) (deps : ConformanceDeps) (c : Subject) : Prop where
  fields : c.id.isSome ∧ c.module.isSome ∧ c.layer.isSome ∧ c.canRun.isSome ∧ c.runCodeLayer.isSome ∧ (hasAi c).isSome
  manifest : ∀ manifest, deps.manifest = .ok manifest → c.id ≠ some (.other none) ∧ c.module ≠ some (.other none) ∧ c.layer ≠ some (.other none)
  canRun : problemsOf c = some [] → ∀ thrown, c.canRunCall = .error (some thrown) → (describeThrown thrown).isSome
  arrays : problemsOf c = some [] → c.runCodeLayer = some true →
    ∀ call ∈ [c.contained, c.first, c.second], ∀ value, call = .resolved value → value.isArray.isSome
  ids : problemsOf c = some [] → c.runCodeLayer = some true → ∀ first, entriesOf c.first = some (some first) →
    ∀ second, entriesOf c.second = some (some second) → ∀ entry ∈ first ++ second, (idOf platform (moduleText c) entry).isSome
  reverify : problemsOf c = some [] → c.reverify.isSome ∧ (c.reverify = some true → ∀ result, c.reverifyCall = .resolved result →
    ∃ outcome, result.outcome = some outcome ∧ (outcome = .text (ascii "FAILED") → result.evidenceKeys.isSome) ∧
      (outcome ≠ .text (ascii "PASSED") → outcome ≠ .text (ascii "FAILED") → result.reasonBlank.isSome))
  abort : problemsOf c = some [] → c.runCodeLayer = some true → c.abortCall ≠ .error none

section Reading

variable {platform : Platform} {deps : ConformanceDeps} {c : Subject} {report : ConformanceReport}

/-- One read after the other, where the first does not decide whether the second throws. -/
theorem isSome_bind_iff {α β : Type} {x : Option α} {f : α → Option β} {P : Prop} (h : ∀ a, x = some a → ((f a).isSome ↔ P)) :
    (x.bind f).isSome ↔ x.isSome ∧ P := by
  cases x with
  | none => simp
  | some a => simp [h a rfl]

theorem isSome_bind_map {α β γ : Type} {x : Option α} {y : Option β} {f : α → β → γ} :
    (x.bind fun a => y.map (f a)).isSome ↔ x.isSome ∧ y.isSome := isSome_bind_iff fun _ _ => by rw [Option.isSome_map]

theorem isSome_problemsOf :
    (problemsOf c).isSome ↔ c.id.isSome ∧ c.module.isSome ∧ c.layer.isSome ∧ c.canRun.isSome ∧ c.runCodeLayer.isSome ∧ (hasAi c).isSome :=
  isSome_bind_iff fun _ _ => isSome_bind_iff fun _ _ => isSome_bind_iff fun _ _ => isSome_bind_iff fun _ _ => isSome_bind_map

theorem isSome_mismatch {start middle : String} {declared : Text} {field : Option Field} (h : field.isSome) :
    (field.bind (mismatch start middle declared)).isSome ↔ field ≠ some (.other none) := by
  obtain ⟨f, rfl⟩ := Option.isSome_iff_exists.mp h
  rw [Option.bind_some]
  unfold mismatch
  rcases f with s | _ | written
  · dsimp only
    split <;> simp
  · simp
  · simp

theorem isSome_checkManifest (h : c.id.isSome ∧ c.module.isSome ∧ c.layer.isSome) :
    (checkManifest deps c).isSome ↔ ∀ manifest, deps.manifest = .ok manifest →
      c.id ≠ some (.other none) ∧ c.module ≠ some (.other none) ∧ c.layer ≠ some (.other none) := by
  unfold checkManifest
  split
  · rename_i problems hmanifest
    rw [hmanifest]
    simp
  · rename_i manifest hmanifest
    rw [hmanifest]
    simp only [Except.ok.injEq, forall_eq']
    refine (isSome_bind_iff fun _ _ => isSome_bind_map).trans ?_
    rw [isSome_mismatch h.1, isSome_mismatch h.2.1, isSome_mismatch h.2.2]

theorem isSome_checkCanRunPure : (checkCanRunPure c).isSome ↔ ∀ thrown, c.canRunCall = .error (some thrown) → (describeThrown thrown).isSome := by
  unfold checkCanRunPure
  split
  · rename_i thrown hcall
    rw [hcall, Option.isSome_map]
    simp
  · rename_i hcall
    rw [hcall]
    simp
  · rename_i hcall
    rw [hcall]
    simp
  · rename_i answer hcall
    rw [hcall]
    split <;> simp

theorem isSome_withCodeLayer {check : ConformanceCheck} {result : Option CheckResult} (h : c.runCodeLayer.isSome) :
    (withCodeLayer c check result).isSome ↔ (c.runCodeLayer = some true → result.isSome) := by
  obtain ⟨hasCode, heq⟩ := Option.isSome_iff_exists.mp h
  unfold withCodeLayer
  rw [heq, Option.bind_some]
  cases hasCode <;> simp

theorem isSome_checkContained (h : c.runCodeLayer.isSome) :
    (checkContained c).isSome ↔ (c.runCodeLayer = some true → ∀ value, c.contained = .resolved value → value.isArray.isSome) := by
  refine (isSome_withCodeLayer h).trans (imp_congr_right fun _ => ?_)
  split
  · rename_i value hcall
    rw [hcall, Option.isSome_map]
    simp
  · rename_i hnot
    simp only [Option.isSome_some, true_iff]
    exact fun value hcall => absurd hcall (hnot value)

theorem isSome_entriesOf {call : Outcome Returned} : (entriesOf call).isSome ↔ ∀ value, call = .resolved value → value.isArray.isSome := by
  unfold entriesOf
  split
  · rename_i value
    rw [Option.isSome_map]
    simp
  · rename_i hnot
    simp only [Option.isSome_some, true_iff]
    exact fun value hcall => absurd hcall (hnot value)

theorem isSome_idsOf {module : Text} {entries : List (Option Entry)} :
    (idsOf platform module entries).isSome ↔ ∀ entry ∈ entries, (idOf platform module entry).isSome := by
  unfold idsOf
  rw [Option.isSome_map, isSome_mapM, List.all_eq_true]

theorem isSome_checkFingerprintStable (h : c.runCodeLayer.isSome) :
    (checkFingerprintStable platform c).isSome ↔ (c.runCodeLayer = some true →
      (entriesOf c.first).isSome ∧ (entriesOf c.second).isSome ∧
        ∀ first, entriesOf c.first = some (some first) → ∀ second, entriesOf c.second = some (some second) →
          ∀ entry ∈ first ++ second, (idOf platform (moduleText c) entry).isSome) := by
  refine (isSome_withCodeLayer h).trans (imp_congr_right fun _ => ?_)
  refine isSome_bind_iff fun first hfirst => isSome_bind_iff fun second hsecond => ?_
  rw [hfirst, hsecond]
  rcases first with _ | first
  · simp
  rcases second with _ | second
  · simp
  simp only [Option.some.injEq, forall_eq']
  split
  · rename_i hnil
    rw [hnil.1, hnil.2]
    simp
  · refine isSome_bind_map.trans ?_
    rw [isSome_idsOf, isSome_idsOf, List.forall_mem_append]

theorem isSome_reverifyResult {result : ReverifyView} : (reverifyResult result).isSome ↔
    ∃ outcome, result.outcome = some outcome ∧ (outcome = .text (ascii "FAILED") → result.evidenceKeys.isSome) ∧
      (outcome ≠ .text (ascii "PASSED") → outcome ≠ .text (ascii "FAILED") → result.reasonBlank.isSome) := by
  unfold reverifyResult
  rcases result.outcome with _ | outcome
  · simp
  · simp only [Option.bind_some, Option.some.injEq, exists_eq_left']
    split
    · rename_i hpassed
      subst hpassed
      simp [show ascii "PASSED" ≠ ascii "FAILED" by decide]
    · rename_i hpassed
      split
      · rename_i hfailed
        subst hfailed
        rw [Option.isSome_map]
        simp
      · rename_i hfailed
        rw [Option.isSome_map]
        simp [hpassed, hfailed]

theorem isSome_checkReverify : (checkReverify c).isSome ↔ c.reverify.isSome ∧ (c.reverify = some true → ∀ result, c.reverifyCall = .resolved result →
    ∃ outcome, result.outcome = some outcome ∧ (outcome = .text (ascii "FAILED") → result.evidenceKeys.isSome) ∧
      (outcome ≠ .text (ascii "PASSED") → outcome ≠ .text (ascii "FAILED") → result.reasonBlank.isSome)) := by
  unfold checkReverify
  rcases c.reverify with _ | isFunction
  · simp
  · rw [Option.bind_some]
    cases isFunction with
    | false => simp
    | true =>
      simp only [if_true, Option.isSome_some, true_and, forall_const]
      rcases c.reverifyCall with result | _ | _
      · dsimp only
        rw [isSome_reverifyResult]
        simp
      · simp
      · simp

theorem isSome_checkAbort (h : c.runCodeLayer.isSome) :
    (checkAbort deps c).isSome ↔ (c.runCodeLayer = some true → c.abortCall ≠ .error none) := by
  refine (isSome_withCodeLayer h).trans (imp_congr_right fun _ => ?_)
  split
  · rename_i written hcall
    rw [hcall, Option.isSome_map]
    cases written <;> simp
  · rename_i hcall
    rw [hcall]
    simp
  · rename_i outcome _ hcall
    rw [hcall]
    simp

theorem isSome_behaviour : (behaviour platform deps c).isSome ↔
    (checkCanRunPure c).isSome ∧ (checkContained c).isSome ∧ (checkNoLlm c).isSome ∧ (checkFingerprintStable platform c).isSome ∧
      (checkReverify c).isSome ∧ (checkAbort deps c).isSome :=
  isSome_bind_iff fun _ _ => isSome_bind_iff fun _ _ => isSome_bind_iff fun _ _ => isSome_bind_iff fun _ _ => isSome_bind_map

theorem passed_judged {check : ConformanceCheck} {problems : List Text} : (judged check problems).passed = decide (problems = []) := by
  unfold judged
  split
  · rename_i h
    simp [h, pass]
  · rename_i h
    simp [h, fail]

theorem check_judged {check : ConformanceCheck} {problems : List Text} : (judged check problems).check = check := by
  unfold judged
  split <;> rfl

/-- What a report is made of. -/
theorem runConformanceSuite_some (h : runConformanceSuite platform deps c = some report) :
    ∃ problems manifest rest, problemsOf c = some problems ∧ checkManifest deps c = some manifest ∧
      (if problems = [] then behaviour platform deps c
        else some ((conformanceChecks.drop 2).map (skip · (ascii "contract shape failed; behavioural checks not attempted")))) = some rest ∧
      report.results = judged .contractShape problems :: manifest :: rest ∧ report.passed = report.results.all (·.passed) := by
  obtain ⟨shape, hshape, h⟩ := Option.bind_eq_some_iff.mp h
  obtain ⟨manifest, hmanifest, h⟩ := Option.bind_eq_some_iff.mp h
  obtain ⟨rest, hrest, h⟩ := Option.bind_eq_some_iff.mp h
  obtain ⟨id, -, h⟩ := Option.bind_eq_some_iff.mp h
  obtain ⟨module, -, h⟩ := Option.bind_eq_some_iff.mp h
  obtain ⟨layer, -, rfl⟩ := Option.map_eq_some_iff.mp h
  obtain ⟨problems, hproblems, rfl⟩ := Option.map_eq_some_iff.mp hshape
  rw [passed_judged] at hrest
  exact ⟨problems, manifest, rest, hproblems, hmanifest, by simpa using hrest, rfl, rfl⟩

/-- **The suite returns a report** exactly if what it reads can be read. -/
theorem isSome_runConformanceSuite : (runConformanceSuite platform deps c).isSome ↔ Readable platform deps c := by
  constructor
  · intro h
    obtain ⟨report, hreport⟩ := Option.isSome_iff_exists.mp h
    obtain ⟨problems, manifest, rest, hproblems, hmanifest, hrest, -, -⟩ := runConformanceSuite_some hreport
    have hfields := isSome_problemsOf.mp (by rw [hproblems]; rfl)
    have hcode := hfields.2.2.2.2.1
    have hbehaviour (hshaped : problemsOf c = some []) := isSome_behaviour.mp (show (behaviour platform deps c).isSome by
      rw [hproblems] at hshaped
      rw [if_pos (Option.some.inj hshaped)] at hrest
      rw [hrest]
      rfl)
    refine ⟨hfields, (isSome_checkManifest ⟨hfields.1, hfields.2.1, hfields.2.2.1⟩).mp (by rw [hmanifest]; rfl), fun hshaped => ?_,
      fun hshaped hfunction call hcall => ?_, fun hshaped hfunction => ?_, fun hshaped => ?_, fun hshaped => ?_⟩
    · exact isSome_checkCanRunPure.mp (hbehaviour hshaped).1
    · obtain ⟨hfirst, hsecond, -⟩ := (isSome_checkFingerprintStable hcode).mp (hbehaviour hshaped).2.2.2.1 hfunction
      simp only [List.mem_cons, List.not_mem_nil, or_false] at hcall
      rcases hcall with rfl | rfl | rfl
      · exact (isSome_checkContained hcode).mp (hbehaviour hshaped).2.1 hfunction
      · exact isSome_entriesOf.mp hfirst
      · exact isSome_entriesOf.mp hsecond
    · exact ((isSome_checkFingerprintStable hcode).mp (hbehaviour hshaped).2.2.2.1 hfunction).2.2
    · exact isSome_checkReverify.mp (hbehaviour hshaped).2.2.2.2.1
    · exact (isSome_checkAbort hcode).mp (hbehaviour hshaped).2.2.2.2.2
  · intro h
    have hcode := h.fields.2.2.2.2.1
    obtain ⟨problems, hproblems⟩ := Option.isSome_iff_exists.mp (isSome_problemsOf.mpr h.fields)
    have hmanifest := (isSome_checkManifest ⟨h.fields.1, h.fields.2.1, h.fields.2.2.1⟩).mpr h.manifest
    obtain ⟨manifest, hmanifest⟩ := Option.isSome_iff_exists.mp hmanifest
    obtain ⟨id, hid⟩ := Option.isSome_iff_exists.mp h.fields.1
    obtain ⟨module, hmodule⟩ := Option.isSome_iff_exists.mp h.fields.2.1
    obtain ⟨layer, hlayer⟩ := Option.isSome_iff_exists.mp h.fields.2.2.1
    unfold runConformanceSuite checkContractShape
    rw [hproblems, hmanifest, hid, hmodule, hlayer]
    simp only [Option.map_some, Option.bind_some, passed_judged]
    refine (isSome_bind_iff (P := True) fun _ _ => by simp).mpr ⟨?_, trivial⟩
    by_cases hnil : problems = []
    · subst hnil
      simp only [decide_true, if_true]
      refine isSome_behaviour.mpr ⟨isSome_checkCanRunPure.mpr (h.canRun hproblems), (isSome_checkContained hcode).mpr fun hfunction => ?_,
        (isSome_withCodeLayer hcode).mpr fun _ => rfl, (isSome_checkFingerprintStable hcode).mpr fun hfunction => ⟨?_, ?_, ?_⟩,
        isSome_checkReverify.mpr (h.reverify hproblems), (isSome_checkAbort hcode).mpr (h.abort hproblems)⟩
      · exact h.arrays hproblems hfunction _ (by simp)
      · exact isSome_entriesOf.mpr (h.arrays hproblems hfunction _ (by simp))
      · exact isSome_entriesOf.mpr (h.arrays hproblems hfunction _ (by simp))
      · exact h.ids hproblems hfunction
    · simp [hnil]

end Reading

/-! ### What passes -/

section Passing

variable {platform : Platform} {deps : ConformanceDeps} {c : Subject} {report : ConformanceReport} {r : CheckResult} {value : Returned}

theorem mismatch_nil {start middle : String} {declared : Text} {field : Option Field} {problems : List Text}
    (h : field.bind (mismatch start middle declared) = some problems) : problems = [] ↔ field = some (.text declared) := by
  obtain ⟨f, rfl, hf⟩ := Option.bind_eq_some_iff.mp h
  rcases f with s | written
  · dsimp only [mismatch] at hf
    split at hf
    · rename_i hs
      subst hs
      obtain rfl := Option.some.inj hf
      simp
    · rename_i hs
      obtain rfl := Option.some.inj hf
      simp [hs]
  · obtain ⟨s, -, rfl⟩ := Option.map_eq_some_iff.mp hf
    simp

theorem checkManifest_spec (h : checkManifest deps c = some r) : r.check = .manifestValid ∧ (r.passed = true ↔
    ∃ manifest, deps.manifest = .ok manifest ∧ c.id = some (.text manifest.id) ∧ c.module = some (.text manifest.module) ∧
      c.layer = some (.text manifest.layer)) := by
  unfold checkManifest at h
  split at h
  · rename_i problems hmanifest
    obtain rfl := Option.some.inj h
    rw [hmanifest]
    simp [fail]
  · rename_i manifest hmanifest
    obtain ⟨ids, hids, h⟩ := Option.bind_eq_some_iff.mp h
    obtain ⟨modules, hmodules, h⟩ := Option.bind_eq_some_iff.mp h
    obtain ⟨layers, hlayers, rfl⟩ := Option.map_eq_some_iff.mp h
    refine ⟨check_judged, ?_⟩
    rw [passed_judged, decide_eq_true_eq, List.append_eq_nil_iff, List.append_eq_nil_iff, mismatch_nil hids, mismatch_nil hmodules,
      mismatch_nil hlayers, hmanifest, and_assoc]
    simp

theorem checkCanRunPure_spec (h : checkCanRunPure c = some r) : r.check = .canRunHasNoSideEffects ∧ (r.passed = true ↔
    (∃ answer, c.canRunCall = .ok (some answer)) ∧ c.touched = []) := by
  unfold checkCanRunPure at h
  split at h
  · rename_i hcall
    obtain ⟨text, -, rfl⟩ := Option.map_eq_some_iff.mp h
    simp [fail, hcall]
  · rename_i hcall
    obtain rfl := Option.some.inj h
    simp [fail, hcall]
  · rename_i hcall
    obtain rfl := Option.some.inj h
    simp [fail, hcall]
  · rename_i answer hcall
    split at h
    · rename_i htouched
      obtain rfl := Option.some.inj h
      simp [pass, hcall, htouched]
    · rename_i htouched
      obtain rfl := Option.some.inj h
      simp [fail, htouched]

/-- With a code layer the check decides, and without one it is skipped. -/
theorem withCodeLayer_spec {check : ConformanceCheck} {result : Option CheckResult} {P : Prop} (h : withCodeLayer c check result = some r)
    (hresult : c.runCodeLayer = some true → ∀ r', result = some r' → r'.check = check ∧ (r'.passed = true ↔ P)) :
    r.check = check ∧ (c.runCodeLayer = some true → (r.passed = true ↔ P)) := by
  obtain ⟨hasCode, hcode, h⟩ := Option.bind_eq_some_iff.mp h
  cases hasCode with
  | false =>
    obtain rfl := Option.some.inj h
    exact ⟨rfl, fun htrue => absurd (hcode.symm.trans htrue) (by decide)⟩
  | true =>
    obtain ⟨hcheck, hpassed⟩ := hresult hcode r h
    exact ⟨hcheck, fun _ => hpassed⟩

theorem checkContained_spec (h : checkContained c = some r) : r.check = .throwingIsContained ∧
    (c.runCodeLayer = some true → (r.passed = true ↔ ∀ value, c.contained = .resolved value → value.isArray = some true)) := by
  refine withCodeLayer_spec h fun _ r' hr' => ?_
  split at hr'
  · rename_i value hcall
    obtain ⟨isArray, harray, rfl⟩ := Option.map_eq_some_iff.mp hr'
    cases isArray <;> simp [pass, fail, hcall, harray]
  · rename_i hnot
    obtain rfl := Option.some.inj hr'
    exact ⟨rfl, fun _ value hcall => absurd hcall (hnot value), fun _ => rfl⟩

theorem checkNoLlm_spec (h : checkNoLlm c = some r) : r.check = .noLlmFromCodeLayer ∧
    (c.runCodeLayer = some true → (r.passed = true ↔ c.violations = [])) := by
  refine withCodeLayer_spec h fun _ r' hr' => ?_
  obtain rfl := Option.some.inj hr'
  split
  · rename_i hnil
    simp [pass, hnil]
  · rename_i hnil
    simp [fail, hnil]

/-- Over the same arrays the fingerprints do not drift. -/
theorem checkFingerprintStable_spec (h : checkFingerprintStable platform c = some r) : r.check = .fingerprintStable ∧
    (∀ entries, c.runCodeLayer = some true → entriesOf c.first = some (some entries) → entriesOf c.second = some (some entries) → r.passed = true) := by
  obtain ⟨hasCode, hcode, h⟩ := Option.bind_eq_some_iff.mp h
  cases hasCode with
  | false =>
    obtain rfl := Option.some.inj h
    exact ⟨rfl, fun _ _ _ _ => rfl⟩
  | true =>
    obtain ⟨first, hfirst, h⟩ := Option.bind_eq_some_iff.mp h
    obtain ⟨second, hsecond, h⟩ := Option.bind_eq_some_iff.mp h
    rw [hfirst, hsecond]
    rcases first with _ | first
    · obtain rfl := Option.some.inj h
      exact ⟨rfl, fun _ _ hnone => absurd hnone (by simp)⟩
    rcases second with _ | second
    · obtain rfl := Option.some.inj h
      exact ⟨rfl, fun _ _ _ hnone => absurd hnone (by simp)⟩
    dsimp only at h
    split at h
    · obtain rfl := Option.some.inj h
      exact ⟨rfl, fun _ _ _ _ => rfl⟩
    · obtain ⟨a, ha, h⟩ := Option.bind_eq_some_iff.mp h
      obtain ⟨b, hb, rfl⟩ := Option.map_eq_some_iff.mp h
      constructor
      · split
        · rfl
        · split <;> rfl
      · intro entries _ hentries hentries'
        obtain rfl := Option.some.inj (Option.some.inj hentries)
        obtain rfl := Option.some.inj (Option.some.inj hentries')
        obtain rfl := Option.some.inj (ha.symm.trans hb)
        have hnone : ((a.zip a).filter fun p => p.1 ≠ p.2).length = 0 := by
          rw [List.length_eq_zero_iff, List.filter_eq_nil_iff]
          intro p hp
          obtain ⟨i, hi⟩ := List.mem_iff_getElem?.mp hp
          obtain ⟨hfst, hsnd⟩ := List.getElem?_zip_eq_some.mp hi
          simpa using Option.some.inj (hfst.symm.trans hsnd)
        rw [if_neg (by simp), if_pos hnone]
        rfl

theorem checkReverify_spec (h : checkReverify c = some r) : r.check = .reverifyReportsFailureWithEvidence ∧ (r.passed = true ↔
    (c.reverify = some true → ∃ result, c.reverifyCall = .resolved result ∧ result.outcome ≠ some (.text (ascii "PASSED")) ∧
      (result.outcome = some (.text (ascii "FAILED")) → ∃ keys, result.evidenceKeys = some (keys + 1)) ∧
        (result.outcome ≠ some (.text (ascii "FAILED")) → result.reasonBlank = some false))) := by
  obtain ⟨isFunction, hfunction, h⟩ := Option.bind_eq_some_iff.mp h
  rw [hfunction]
  cases isFunction with
  | false =>
    obtain rfl := Option.some.inj h
    simp [skip]
  | true =>
    simp only [if_true, forall_const] at h ⊢
    split at h
    · rename_i result hcall
      rw [hcall]
      obtain ⟨outcome, houtcome, h⟩ := Option.bind_eq_some_iff.mp h
      simp only [Outcome.resolved.injEq, exists_eq_left', houtcome, Option.some.injEq]
      split at h
      · rename_i hpassed
        obtain rfl := Option.some.inj h
        simp [fail, hpassed]
      · rename_i hpassed
        split at h
        · rename_i hfailed
          obtain ⟨keys, hkeys, rfl⟩ := Option.map_eq_some_iff.mp h
          rw [hkeys]
          rcases keys with _ | keys
          · simp [fail, hfailed]
          · simp [pass, hfailed]
            decide
        · rename_i hfailed
          obtain ⟨blank, hblank, rfl⟩ := Option.map_eq_some_iff.mp h
          cases blank <;> simp [pass, fail, hpassed, hfailed, hblank]
    · rename_i hnot
      obtain rfl := Option.some.inj h
      exact ⟨rfl, fun hfalse => (nomatch hfalse), fun ⟨result, hcall, _⟩ => absurd hcall (hnot result)⟩

theorem checkAbort_spec (h : checkAbort deps c = some r) : r.check = .abortHonoured ∧
    (c.runCodeLayer = some true → (r.passed = true ↔ c.abortCall ≠ .ok .timeout)) := by
  refine withCodeLayer_spec h fun _ r' hr' => ?_
  split at hr'
  · rename_i hcall
    obtain ⟨text, -, rfl⟩ := Option.map_eq_some_iff.mp hr'
    simp [pass, hcall]
  · rename_i hcall
    obtain rfl := Option.some.inj hr'
    simp [fail, hcall]
  · rename_i outcome hnot hcall
    obtain rfl := Option.some.inj hr'
    refine ⟨rfl, fun _ htimeout => ?_, fun _ => rfl⟩
    rw [hcall] at htimeout
    exact hnot (Except.ok.inj htimeout)

/-- Each check is listed once. -/
theorem checks_of_report (h : runConformanceSuite platform deps c = some report) : report.results.map (·.check) = conformanceChecks := by
  obtain ⟨problems, manifest, rest, -, hmanifest, hrest, hresults, -⟩ := runConformanceSuite_some h
  rw [hresults, List.map_cons, List.map_cons, check_judged, (checkManifest_spec hmanifest).1]
  split at hrest
  · obtain ⟨canRun, hcanRun, hrest⟩ := Option.bind_eq_some_iff.mp hrest
    obtain ⟨contained, hcontained, hrest⟩ := Option.bind_eq_some_iff.mp hrest
    obtain ⟨noLlm, hnoLlm, hrest⟩ := Option.bind_eq_some_iff.mp hrest
    obtain ⟨stable, hstable, hrest⟩ := Option.bind_eq_some_iff.mp hrest
    obtain ⟨reverify, hreverify, hrest⟩ := Option.bind_eq_some_iff.mp hrest
    obtain ⟨abort, habort, rfl⟩ := Option.map_eq_some_iff.mp hrest
    simp only [List.map_cons, List.map_nil, (checkCanRunPure_spec hcanRun).1, (checkContained_spec hcontained).1, (checkNoLlm_spec hnoLlm).1,
      (checkFingerprintStable_spec hstable).1, (checkReverify_spec hreverify).1, (checkAbort_spec habort).1]
    rfl
  · obtain rfl := Option.some.inj hrest
    rfl

end Passing

/-! ### The runner -/

/-- The capability behaves the same on every call: its code layer resolves with this. -/
structure Steady (c : Subject) (value : Returned) : Prop where
  codeLayer : c.runCodeLayer = some true
  calls : ∀ call ∈ [c.contained, c.quiet, c.first, c.second], call = .resolved value

/-- What the suite looks at is in order. -/
structure Sound (deps : ConformanceDeps) (c : Subject) (value : Returned) : Prop where
  shape : problemsOf c = some []
  manifest : ∃ manifest, deps.manifest = .ok manifest ∧ c.id = some (.text manifest.id) ∧ c.module = some (.text manifest.module) ∧
    c.layer = some (.text manifest.layer)
  canRun : (∃ answer, c.canRunCall = .ok (some answer)) ∧ c.touched = []
  array : value.isArray = some true
  quiet : c.violations = []
  reverify : c.reverify = some true → ∃ result, c.reverifyCall = .resolved result ∧ result.outcome ≠ some (.text (ascii "PASSED")) ∧
    (result.outcome = some (.text (ascii "FAILED")) → ∃ keys, result.evidenceKeys = some (keys + 1)) ∧
      (result.outcome ≠ some (.text (ascii "FAILED")) → result.reasonBlank = some false)
  abort : c.abortCall ≠ .ok .timeout

/-- A finding, as the runner takes it. -/
structure IsFinding (entry : EntryView) : Prop where
  checkId : ∃ s, entry.checkId = some (.text s) ∧ s ≠ []
  parts : ∃ copied, entry.fingerprintParts = some (some ⟨some true, some copied⟩)
  severity : ∃ severity, entry.severity = some (some severity)
  title : ∃ s, entry.title = some (.text s) ∧ s ≠ []
  description : ∃ s, entry.description = some (.text s)
  location : ∃ view, entry.location = some view ∧ view ≠ .other
  consequence : ∃ view, entry.consequence = some view ∧ view ≠ .other
  evidence : entry.evidence = some .undefined ∨ ∃ tree, entry.evidence = some (.object (some (some tree)))
  fixable : entry.fixable.isSome

/-- The report is there, each check is in it once, and what passes succeeds in the runner. -/
structure Conforms (platform : Platform) (deps : ConformanceDeps) (c : Subject) : Prop where
  total : ∃ report, runConformanceSuite platform deps c = some report ∧ report.results.map (·.check) = conformanceChecks
  agrees : ∀ report, runConformanceSuite platform deps c = some report → report.passed = true → ∀ value, Steady c value →
    ∀ timeoutMs capabilityId durationMs, ∃ outcome, outcomeOf timeoutMs capabilityId (.resolved value.view durationMs) = some outcome ∧
      outcome.succeeded = true

section Agreement

variable {platform : Platform} {deps : ConformanceDeps} {c : Subject} {report : ConformanceReport} {value : Returned} {entry : EntryView}

/-- **A finding is copied**, and nothing else is. -/
theorem isSome_copy : entry.copy.isSome ↔ IsFinding entry := by
  have hfilled {view : Option View} {s : Text} (h : view.bind View.filled = some s) : ∃ s, view = some (.text s) ∧ s ≠ [] := by
    obtain ⟨v, rfl, h⟩ := Option.bind_eq_some_iff.mp h
    cases v with
    | text s =>
      refine ⟨s, rfl, ?_⟩
      rintro rfl
      cases h
    | undefined => cases h
    | other => cases h
  have hoptional {view : Option View} {s : Option Text} (h : view.bind View.optional = some s) : ∃ v, view = some v ∧ v ≠ .other := by
    obtain ⟨v, rfl, h⟩ := Option.bind_eq_some_iff.mp h
    refine ⟨v, rfl, ?_⟩
    rintro rfl
    cases h
  have hoptional' {v : View} (h : v ≠ .other) : ∃ s, v.optional = some s := by
    cases v with
    | text s => exact ⟨_, rfl⟩
    | undefined => exact ⟨_, rfl⟩
    | other => exact absurd rfl h
  constructor
  · intro h
    obtain ⟨finding, h⟩ := Option.isSome_iff_exists.mp h
    obtain ⟨checkId, hcheckId, h⟩ := Option.bind_eq_some_iff.mp h
    obtain ⟨parts, hparts, h⟩ := Option.bind_eq_some_iff.mp h
    obtain ⟨allTexts, hallTexts, h⟩ := Option.bind_eq_some_iff.mp h
    obtain ⟨severity, hseverity, h⟩ := Option.bind_eq_some_iff.mp h
    obtain ⟨title, htitle, h⟩ := Option.bind_eq_some_iff.mp h
    obtain ⟨description, hdescription, h⟩ := Option.bind_eq_some_iff.mp h
    obtain ⟨location, hlocation, h⟩ := Option.bind_eq_some_iff.mp h
    obtain ⟨consequence, hconsequence, h⟩ := Option.bind_eq_some_iff.mp h
    obtain ⟨evidence, hevidence, h⟩ := Option.bind_eq_some_iff.mp h
    obtain ⟨copied, hcopied, h⟩ := Option.bind_eq_some_iff.mp h
    obtain ⟨fixable, hfixable, h⟩ := Option.bind_eq_some_iff.mp h
    split at h
    · rename_i hall
      refine ⟨hfilled hcheckId, ⟨copied, ?_⟩, ⟨severity, Option.join_eq_some_iff.mp hseverity⟩, hfilled htitle, ?_, hoptional hlocation,
        hoptional hconsequence, ?_, by rw [hfixable]; rfl⟩
      · rw [Option.join_eq_some_iff.mp hparts]
        subst hall
        obtain ⟨a, b⟩ := parts
        dsimp only at hallTexts hcopied
        rw [hallTexts, hcopied]
      · obtain ⟨v, hv, hview⟩ := Option.bind_eq_some_iff.mp hdescription
        cases v with
        | text s => exact ⟨s, hv⟩
        | undefined => cases hview
        | other => cases hview
      · obtain ⟨v, hv, hview⟩ := Option.bind_eq_some_iff.mp hevidence
        rw [hv]
        rcases v with _ | _ | (_ | _ | tree)
        · exact .inl rfl
        · cases hview
        · cases hview
        · cases hview
        · exact .inr ⟨tree, rfl⟩
    · cases h
  · rintro ⟨⟨checkId, hcheckId, hne⟩, ⟨copied, hparts⟩, ⟨severity, hseverity⟩, ⟨title, htitle, hne'⟩, ⟨description, hdescription⟩,
      ⟨location, hlocation, hlocated⟩, ⟨consequence, hconsequence, hconsequent⟩, hevidence, hfixable⟩
    obtain ⟨fixable, hfixable⟩ := Option.isSome_iff_exists.mp hfixable
    obtain ⟨l, hl⟩ := hoptional' hlocated
    obtain ⟨q, hq⟩ := hoptional' hconsequent
    obtain ⟨e, he⟩ : ∃ e, entry.evidence.bind usableEvidence = some e := by
      rcases hevidence with h | ⟨tree, h⟩
      · exact ⟨none, by rw [h]; rfl⟩
      · exact ⟨some tree, by rw [h]; rfl⟩
    unfold EntryView.copy
    rw [he, hcheckId, hparts, hseverity, htitle, hdescription, hlocation, hconsequence, hfixable]
    simp [View.filled, View.required, hne, hne', hl, hq]

/-- **A report passes** when what the suite looks at is in order. -/
theorem passed_iff (h : runConformanceSuite platform deps c = some report) (hs : Steady c value) : report.passed = true ↔ Sound deps c value := by
  obtain ⟨problems, manifest, rest, hproblems, hmanifest, hrest, hresults, hpassed⟩ := runConformanceSuite_some h
  have hcontained := hs.calls c.contained (by simp)
  have hfirst := hs.calls c.first (by simp)
  have hsecond := hs.calls c.second (by simp)
  rw [hpassed, hresults, List.all_cons, List.all_cons, Bool.and_eq_true, Bool.and_eq_true, passed_judged, decide_eq_true_eq,
    (checkManifest_spec hmanifest).2]
  by_cases hnil : problems = []
  · rw [if_pos hnil] at hrest
    obtain ⟨canRun, hcanRun, hrest⟩ := Option.bind_eq_some_iff.mp hrest
    obtain ⟨contained, hcontain, hrest⟩ := Option.bind_eq_some_iff.mp hrest
    obtain ⟨noLlm, hnoLlm, hrest⟩ := Option.bind_eq_some_iff.mp hrest
    obtain ⟨stable, hstable, hrest⟩ := Option.bind_eq_some_iff.mp hrest
    obtain ⟨reverify, hreverify, hrest⟩ := Option.bind_eq_some_iff.mp hrest
    obtain ⟨abort, habort, rfl⟩ := Option.map_eq_some_iff.mp hrest
    simp only [List.all_cons, List.all_nil, Bool.and_true, Bool.and_eq_true]
    rw [(checkCanRunPure_spec hcanRun).2, (checkContained_spec hcontain).2 hs.codeLayer, (checkNoLlm_spec hnoLlm).2 hs.codeLayer,
      (checkReverify_spec hreverify).2, (checkAbort_spec habort).2 hs.codeLayer, hcontained]
    constructor
    · rintro ⟨-, hdeclared, hran, harray, hquiet, -, hverified, haborted⟩
      exact ⟨by rw [hproblems, hnil], hdeclared, hran, harray value rfl, hquiet, hverified, haborted⟩
    · intro hsound
      have hentries {call : Outcome Returned} (hcall : call = .resolved value) : entriesOf call = some (some value.entries) := by
        rw [hcall, entriesOf, hsound.array]
        rfl
      refine ⟨hnil, hsound.manifest, hsound.canRun, ?_, hsound.quiet, ?_, hsound.reverify, hsound.abort⟩
      · rintro v hv
        obtain rfl := Outcome.resolved.inj hv
        exact hsound.array
      · exact (checkFingerprintStable_spec hstable).2 value.entries hs.codeLayer (hentries hfirst) (hentries hsecond)
  · refine ⟨fun hall => absurd hall.1 hnil, fun hsound => absurd ?_ hnil⟩
    exact Option.some.inj (hproblems.symm.trans hsound.shape)

theorem succeeded_iff (harray : value.isArray = some true) : (∀ timeoutMs capabilityId durationMs,
    ∃ outcome, outcomeOf timeoutMs capabilityId (.resolved value.view durationMs) = some outcome ∧ outcome.succeeded = true) ↔
      value.ends = true ∧ ∀ entry ∈ value.entries, ∃ e, entry = some e ∧ IsFinding e.toEntryView := by
  have hcopies : (value.view.entries.mapM fun entry : Option EntryView => entry.bind EntryView.copy).isSome ↔
      ∀ entry ∈ value.entries, ∃ e, entry = some e ∧ IsFinding e.toEntryView := by
    rw [isSome_mapM, List.all_eq_true]
    unfold Returned.view
    rw [List.forall_mem_map]
    refine forall₂_congr fun entry _ => ?_
    cases entry with
    | none => simp
    | some e => simp [isSome_copy]
  rw [← hcopies]
  have hview : value.view.isArray = some true := harray
  have hends : value.view.ends = value.ends := rfl
  unfold outcomeOf asFindings
  dsimp only
  rw [hview, hends]
  cases value.ends with
  | false => simp [CodeLayerOutcome.failed]
  | true =>
    rcases hmap : value.view.entries.mapM (fun entry : Option EntryView => entry.bind EntryView.copy) with _ | findings
    · simp [CodeLayerOutcome.failed]
    · simp

def tested : Platform := ⟨fun _ => ascii "digest", fun _ => none, fun _ => plain_ascii rfl, noUrl_plain⟩

/-- A capability that finds nothing, and whose re-check answers `undefined`. -/
def unanswering : Subject where
  id := some (.text (ascii "headers"))
  module := some (.text (ascii "SECURITY"))
  layer := some (.text (ascii "CODE"))
  canRun := some true
  runCodeLayer := some true
  getSystemPromptAddition := some false
  getContextData := some false
  reverify := some true
  canRunCall := .ok (some true)
  touched := []
  contained := .resolved ⟨some true, [], true⟩
  quiet := .resolved ⟨some true, [], true⟩
  violations := []
  first := .resolved ⟨some true, [], true⟩
  second := .resolved ⟨some true, [], true⟩
  reverifyCall := .resolved ⟨none, none, none⟩
  abortCall := .ok (.resolved ())

end Agreement

end WebAudit.Runner
