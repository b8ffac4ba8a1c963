import WebAudit.Runner.Attribute

/-!
# The two layers of a module

`resolve.ts`, `code-layer.ts` and `ai-layer.ts`: which capabilities apply, what their code layers found, and what the
model was told and said. Each call of a capability is contained; what is made of its outcome afterwards is not, and
`none` is that this throws.

The model's answer is given. Of its prompt only the credentials that were found in it matter here. What the code layer
does to the global `fetch`, and whom it blames for using it, is left out.
-/

namespace WebAudit.Runner

open WebAudit.Lib.Uri WebAudit.Lib.Values WebAudit.Scans
open WebAudit.Redaction (PromptSegment PromptSource RedactedSecretRef DetectOptions assemblePrompt)

/-- A capability, as it behaves in one run on one input. -/
structure Capability where
  id : Text
  /-- Whether it answered `true`. -/
  canRun : Contained Bool
  /-- `none`: it has no code layer. -/
  runCodeLayer : Option (Contained ResultView)
  /-- `some none`: it throws. -/
  getSystemPromptAddition : Option (Option View)
  getContextData : Option (List CapabilityFinding → Option View)

namespace Capability

def runsCodeLayer (capability : Capability) : Bool := capability.runCodeLayer.isSome

def contributesToPrompt (capability : Capability) : Bool :=
  capability.getSystemPromptAddition.isSome || capability.getContextData.isSome

end Capability

/-! ### Resolution -/

inductive SkipReason where
  | CONTROL_LEVEL
  | PRECONDITIONS
  | CAN_RUN_FAILED
  deriving DecidableEq

structure SkippedCapability where
  capabilityId : Text
  reason : SkipReason
  detail : Text
  deriving DecidableEq

def levelName : ControlLevel → Text
  | .NONE => ascii "NONE"
  | .ATTESTED => ascii "ATTESTED"
  | .VERIFIED => ascii "VERIFIED"

/-- What `resolveApplicable` does with one capability. -/
inductive Resolved where
  | applicable
  | skipped (skip : SkippedCapability)

section Resolve

variable (targetLevel : ControlLevel) (requiredControlLevels : Text → Option ControlLevel)

def requiredLevel (capability : Capability) : ControlLevel := (requiredControlLevels capability.id).getD .NONE

/-- The capability is not asked. -/
def isGated (capability : Capability) : Bool := controlLevelRank targetLevel < controlLevelRank (requiredLevel requiredControlLevels capability)

def resolveOne (capability : Capability) : Option Resolved :=
  if isGated targetLevel requiredControlLevels capability then
    some (.skipped ⟨capability.id, .CONTROL_LEVEL,
      ascii "This check needs " ++ levelName (requiredLevel requiredControlLevels capability) ++
        ascii " control of the target and the target is " ++ levelName targetLevel ++
        ascii ". Verify control by publishing the token to unlock it."⟩)
  else
    match capability.canRun with
    | .timeout _ =>
      some (.skipped ⟨capability.id, .CAN_RUN_FAILED, ascii "The check did not answer whether it applies. Skipped rather than run."⟩)
    | .rejected error _ =>
      (describeThrown error).map fun text => .skipped ⟨capability.id, .CAN_RUN_FAILED,
        ascii "The check errored deciding whether it applies (" ++ text ++ ascii "). Skipped rather than run."⟩
    | .resolved true _ => some .applicable
    | .resolved false _ => some (.skipped ⟨capability.id, .PRECONDITIONS, ascii "This check does not apply to what was submitted."⟩)

structure Resolution where
  applicable : List Capability
  skipped : List SkippedCapability

/-- One after the other. -/
def resolveApplicable : List Capability → Option Resolution
  | [] => some ⟨[], []⟩
  | capability :: rest =>
    (resolveOne targetLevel requiredControlLevels capability).bind fun resolved =>
      (resolveApplicable rest).map fun resolution =>
        match resolved with
        | .applicable => { resolution with applicable := capability :: resolution.applicable }
        | .skipped skip => { resolution with skipped := skip :: resolution.skipped }

end Resolve

/-! ### Code layer -/

structure CodeLayerOutcome where
  capabilityId : Text
  succeeded : Bool
  findings : List CapabilityFinding
  durationMs : ℕ
  errorMessage : Option Text

def CodeLayerOutcome.failed (capabilityId : Text) (durationMs : ℕ) (errorMessage : Text) : CodeLayerOutcome :=
  ⟨capabilityId, false, [], durationMs, some errorMessage⟩

/-- What is made of a code layer's outcome. -/
def outcomeOf (timeoutMs : ℕ) (capabilityId : Text) : Contained ResultView → Option CodeLayerOutcome
  | .timeout durationMs => some (.failed capabilityId durationMs (ascii "did not finish within " ++ Redaction.decimalText timeoutMs ++ ascii "ms"))
  | .rejected error durationMs => (describeThrown error).map (.failed capabilityId durationMs)
  | .resolved value durationMs =>
    (asFindings value).map fun findings =>
      match findings with
      | none => .failed capabilityId durationMs (ascii "returned something that is not an array of findings")
      | some findings => ⟨capabilityId, true, findings, durationMs, none⟩

/-- Those that have a code layer, in the order in which they apply. -/
def runCodeLayer (timeoutMs : ℕ) (applicable : List Capability) : Option (List CodeLayerOutcome) :=
  (applicable.filterMap fun capability => capability.runCodeLayer.map (capability.id, ·)).mapM fun p => outcomeOf timeoutMs p.1 p.2

/-! ### AI layer -/

inductive AiOutcome where
  | SUCCESS
  | SCHEMA_INVALID
  | RATE_LIMITED
  | TIMEOUT
  | ERROR
  deriving DecidableEq

structure AiInvocationRecord where
  provider : Text
  model : Text
  chainPosition : ℕ
  promptTokens : ℤ
  outputTokens : ℤ
  latencyMs : ℕ
  costMicros : ℤ
  outcome : AiOutcome
  errorMessage : Option Text
  deriving DecidableEq

inductive AiRefusal where
  | CHAIN_EXHAUSTED
  | DISABLED
  deriving DecidableEq

/-- What the executor answers. -/
inductive AiResult where
  | ok (value : ModuleInsight) (invocations : List AiInvocationRecord)
  | refused (reason : AiRefusal) (invocations : List AiInvocationRecord)
  deriving DecidableEq

/-- `none`: no capability contributes. -/
structure AiLayerOutcome where
  result : Option AiResult
  /-- Credentials found in what came from the target. -/
  secrets : List RedactedSecretRef

def AiLayerOutcome.insight (ai : AiLayerOutcome) : Option ModuleInsight :=
  match ai.result with
  | some (.ok value _) => some value
  | _ => none

def AiLayerOutcome.invocations (ai : AiLayerOutcome) : List AiInvocationRecord :=
  match ai.result with
  | some (.ok _ invocations) | some (.refused _ invocations) => invocations
  | none => []

/-- `ai.detail`, where the layer was there and did not run. -/
def AiLayerOutcome.degraded (ai : AiLayerOutcome) : Option Text :=
  match ai.result with
  | some (.refused .DISABLED _) =>
    some (ascii "AI interpretation is intentionally disabled for this deployment (AI_MODE=disabled), so this area" ++ [0x2019] ++
      ascii "s findings are what was measured directly, without interpretation.")
  | some (.refused .CHAIN_EXHAUSTED _) =>
    some (ascii "No AI provider could be reached for this area, so its findings are what was measured directly, without interpretation.")
  | _ => none

/-- A capability's text, if it gives one; a throw is contained. -/
def contribution (measured : List CapabilityFinding) (capability : Capability) : Option Text :=
  let answers : Option (List View) := do
    let addition ← capability.getSystemPromptAddition.elim (some []) fun answer => answer.map ([·])
    let data ← capability.getContextData.elim (some []) fun getContextData => (getContextData measured).map ([·])
    some (addition ++ data)
  answers.bind fun parts =>
    let texts := (parts.filterMap View.required).filter fun text => trim text ≠ []
    let text := List.intercalate [0x0A, 0x0A] texts
    if text = [] then none else some text

def severityName : Severity → Text
  | .CRITICAL => ascii "CRITICAL"
  | .HIGH => ascii "HIGH"
  | .MEDIUM => ascii "MEDIUM"
  | .LOW => ascii "LOW"
  | .INFO => ascii "INFO"

/-- Findings as the model reads them. -/
def renderMeasured (findings : List CapabilityFinding) : Text :=
  if findings.isEmpty then ascii "No findings were measured in this area."
  else
    List.intercalate [0x0A, 0x0A] (findings.zipIdx.map fun p =>
      lines ([Redaction.decimalText (p.2 + 1) ++ ascii ". [" ++ severityName p.1.severity ++ ascii "] " ++ p.1.title,
          ascii "   checkId: " ++ p.1.checkId] ++
        (p.1.location.map (ascii "   location: " ++ ·)).toList ++ [ascii "   measured: " ++ p.1.description] ++
        (p.1.evidence.map fun tree => ascii "   evidence: " ++ tree.render.take 4000).toList))

def measuredPath (module : ModuleType) : Text := moduleLower module ++ ascii "/measured.txt"

def segmentsOf (module : ModuleType) (applicable : List Capability) (measured : List CapabilityFinding) : List PromptSegment :=
  ⟨ascii "measured-findings", measuredPath module, renderMeasured measured⟩ ::
    (applicable.filter Capability.contributesToPrompt).filterMap fun capability =>
      (contribution measured capability).map fun text =>
        ⟨ascii "capability-notes:" ++ capability.id, moduleLower module ++ ascii "/notes/" ++ capability.id ++ ascii ".txt", text⟩

/-- `DEFAULT_MAX_SEGMENT_CHARS`. -/
def maxSegmentChars : ℕ := 24000

/-- The model is asked once, if a capability contributes. -/
def runAiLayer (systemPrompt : ModuleType → Text) (options : DetectOptions) (executor : AiResult) (module : ModuleType)
    (applicable : List Capability) (measured : List CapabilityFinding) : AiLayerOutcome :=
  if (applicable.filter Capability.contributesToPrompt).isEmpty then ⟨none, []⟩
  else
    let assembled := assemblePrompt ⟨systemPrompt module, segmentsOf module applicable measured⟩ maxSegmentChars options
    ⟨some executor, assembled.secrets.filter fun secret => secret.path = measuredPath module⟩

end WebAudit.Runner
