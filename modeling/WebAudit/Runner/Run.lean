import Mathlib.Algebra.Order.Ring.Int
import WebAudit.Runner.Layers

/-!
# A module's run

`module-runner/index.ts` and `state.ts`: the capabilities that apply, their code layers, the model, attribution, and
the state and the score that come of it. The result is `none` where `runModule` rejects: something that was not
contained threw.
-/

namespace WebAudit.Runner

open WebAudit.Lib.Uri WebAudit.Lib.Values WebAudit.Scans
open WebAudit.Redaction (RedactedSecretRef SecretKind DetectOptions)

/-! ### Scores -/

def severityWeight : Severity → ℤ
  | .CRITICAL => 25
  | .HIGH => 12
  | .MEDIUM => 5
  | .LOW => 2
  | .INFO => 0

/-- An area's score from the severities of what was measured in it. -/
def scoreFromFindings (severities : List Severity) : ℤ := max 0 (100 - (severities.map severityWeight).sum)

/-- `MEASURED` only. -/
def measuredSeverities (findings : List AttributedFinding) : List Severity :=
  (findings.filter (·.attribution = .MEASURED)).map (·.severity)

/-! ### State -/

structure ModuleStateResult where
  state : ModuleState
  score : Option ℤ
  skippedReason : Option Text
  degradedReason : Option Text
  deriving DecidableEq

def aiUnreached : Text := ascii "The AI layer could not be reached."

def CodeLayerOutcome.reason (outcome : CodeLayerOutcome) : Text :=
  outcome.capabilityId ++ ascii ": " ++ outcome.errorMessage.getD (ascii "failed")

/-- `aiDegraded` is the detail, where an AI layer was there and could not be reached. -/
def resolveModuleState (applicableCount : ℕ) (outcomes : List CodeLayerOutcome) (skipped : List SkippedCapability)
    (findings : List AttributedFinding) (aiDegraded : Option Text) : ModuleStateResult :=
  let failed := outcomes.filter fun outcome => !outcome.succeeded
  let succeeded := outcomes.filter (·.succeeded)
  if applicableCount = 0 then
    ⟨.NOT_APPLICABLE, none,
      some (if skipped.isEmpty then ascii "No checks are enabled for this area."
        else List.intercalate (ascii " ") (skipped.map fun skip => skip.capabilityId ++ ascii ": " ++ skip.detail)), none⟩
  else if succeeded.isEmpty && !outcomes.isEmpty then
    ⟨.FAILED, none, none, some (List.intercalate (ascii "; ") (failed.map (·.reason)))⟩
  else if outcomes.isEmpty && aiDegraded.isSome then ⟨.FAILED, none, none, some (aiDegraded.getD aiUnreached)⟩
  else
    let score := scoreFromFindings (measuredSeverities findings)
    if !failed.isEmpty || aiDegraded.isSome then
      ⟨.DEGRADED, some score, none, some (List.intercalate (ascii "; ") (failed.map (·.reason) ++ aiDegraded.toList))⟩
    else ⟨.COMPLETE, some score, none, none⟩

/-! ### Credentials -/

def secretCheckId : Text := ascii "redaction.secret-in-source"

def what : SecretKind → Text
  | .PRIVATE_KEY => ascii "a private key"
  | .AWS_ACCESS_KEY_ID => ascii "an AWS access key ID"
  | .GITHUB_TOKEN => ascii "a GitHub access token"
  | .SLACK_TOKEN => ascii "a Slack API token"
  | .STRIPE_SECRET_KEY => ascii "a Stripe secret key"
  | .GOOGLE_API_KEY => ascii "a Google API key"
  | .OPENAI_API_KEY => ascii "an OpenAI API key"
  | .ANTHROPIC_API_KEY => ascii "an Anthropic API key"
  | .SENDGRID_API_KEY => ascii "a SendGrid API key"
  | .NPM_TOKEN => ascii "an npm access token"
  | .TWILIO_API_KEY => ascii "a Twilio API key"
  | .JWT => ascii "a signed JSON Web Token"
  | .CONNECTION_STRING_PASSWORD => ascii "a password inside a database connection string"
  | .AUTHORIZATION_HEADER => ascii "a credential in an Authorization header"
  | .GENERIC_SECRET_ASSIGNMENT => ascii "a value assigned to a credential-shaped name"
  | .HIGH_ENTROPY_STRING => ascii "a high-entropy string consistent with a credential"

def consequenceOf : SecretKind → Text
  | .PRIVATE_KEY => ascii "Anyone who can read this file can impersonate the holder of this key. Rotate it and treat every system that trusted it as compromised."
  | .AWS_ACCESS_KEY_ID => ascii "Paired with its secret, this grants API access to your AWS account. Deactivate the key and review CloudTrail for use you do not recognise."
  | .STRIPE_SECRET_KEY => ascii "A live secret key can move money and read customer records. Roll it in the Stripe dashboard immediately."
  | .GITHUB_TOKEN => ascii "This grants access to the repositories in its scope, including private ones. Revoke it and issue a replacement with narrower scope."
  | .SLACK_TOKEN => ascii "This can read and post to your workspace. Revoke it in the Slack app settings."
  | .GOOGLE_API_KEY => ascii "Depending on its restrictions this can be billed against your project by anyone who has it. Rotate it and add referrer or IP restrictions."
  | .OPENAI_API_KEY => ascii "Usage on this key is billed to your account. Rotate it."
  | .ANTHROPIC_API_KEY => ascii "Usage on this key is billed to your account. Rotate it."
  | .SENDGRID_API_KEY => ascii "This can send mail as your domain, which is a phishing risk carrying your reputation. Revoke it."
  | .NPM_TOKEN => ascii "A publish-scoped token lets anyone release a version of your package. Revoke it and review recent publishes."
  | .TWILIO_API_KEY => ascii "This can send messages and place calls billed to your account. Revoke it."
  | .JWT => ascii "A token committed to source is valid until it expires, and cannot be recalled. Shorten the lifetime and stop committing them."
  | .CONNECTION_STRING_PASSWORD => ascii "This is a direct route to your database for anyone who can read this file. Change the password and move the connection string to configuration."
  | .AUTHORIZATION_HEADER => ascii "A credential hard-coded into a request is shipped to every client that receives this code. Move it server-side and rotate it."
  | .GENERIC_SECRET_ASSIGNMENT => ascii "If this is a live credential, anyone who can read this file can use it. Rotate it and move it to configuration the repository does not hold."
  | .HIGH_ENTROPY_STRING => ascii "This may be a credential. If it is, rotate it and move it to configuration; if it is not, no action is needed."

def secretSeverity : Redaction.Severity → Severity
  | .CRITICAL => .CRITICAL
  | .HIGH => .HIGH
  | .MEDIUM => .MEDIUM

/-- The first letter is a capital. -/
def capitalized : Text → Text
  | [] => []
  | u :: rest => (if 0x61 ≤ u ∧ u ≤ 0x7A then u - 0x20 else u) :: rest

def secretToFinding (secret : RedactedSecretRef) : CapabilityFinding :=
  let line := Redaction.decimalText secret.line
  let column := Redaction.decimalText secret.column
  { checkId := secretCheckId
    fingerprintParts := [.text secretCheckId, .text secret.path, .text secret.kind.name, .text line, .text column]
    severity := secretSeverity secret.severity
    title := ascii "Credential in source: " ++ what secret.kind
    description := capitalized (what secret.kind) ++ ascii " appears in " ++ secret.path ++ ascii " at line " ++ line ++ ascii ", column " ++ column ++
      ascii " (" ++ Redaction.decimalText secret.length ++
      ascii " characters). The value has been withheld from this report and was replaced with " ++ secret.placeholder ++
      ascii " before any part of this file was sent to an AI provider."
    location := some (secret.path ++ ascii ":" ++ line ++ ascii ":" ++ column)
    consequence := some (consequenceOf secret.kind)
    evidence := some (.object [(ascii "kind", .string secret.kind.name), (ascii "path", .string secret.path), (ascii "segment", .string secret.label),
      (ascii "line", .number line), (ascii "column", .number column), (ascii "length", .number (Redaction.decimalText secret.length)),
      (ascii "placeholder", .string secret.placeholder)])
    fixable := true }

def secretFindingsFrom (secrets : List RedactedSecretRef) : List CapabilityFinding := secrets.map secretToFinding

/-! ### The run -/

/-- One row's worth of facts. -/
structure ExecutionRecord where
  capabilityId : Text
  succeeded : Bool
  skippedReason : Option Text
  findingCount : ℕ
  durationMs : ℕ
  costMicros : ℤ
  errorMessage : Option Text
  deriving DecidableEq

def executionsFor (outcomes : List CodeLayerOutcome) (skipped : List SkippedCapability) : List ExecutionRecord :=
  (outcomes.map fun outcome => ⟨outcome.capabilityId, outcome.succeeded, none, outcome.findings.length, outcome.durationMs, 0, outcome.errorMessage⟩) ++
    skipped.map fun skip => ⟨skip.capabilityId, false, some skip.detail, 0, 0, 0, none⟩

def totalCostMicros (invocations : List AiInvocationRecord) : ℤ := (invocations.map (·.costMicros)).sum

/-- What a run is given, but for the capabilities and the model's answer. -/
structure RunModuleOptions where
  module : ModuleType
  targetControlLevel : ControlLevel
  requiredControlLevels : Text → Option ControlLevel
  timeoutMs : ℕ
  scanId : Option Text
  targetId : Option Text
  workspaceRoot : Option Text
  systemPrompt : ModuleType → Text
  detect : DetectOptions

structure ModuleRunResult where
  module : ModuleType
  state : ModuleState
  score : Option ℤ
  summary : Option Text
  skippedReason : Option Text
  degradedReason : Option Text
  findings : List AttributedFinding
  executions : List ExecutionRecord
  skipped : List SkippedCapability
  aiCostMicros : ℤ
  aiInvocations : List AiInvocationRecord

section Run

variable (platform : Platform) (options : RunModuleOptions)

def RunModuleOptions.context : AttributeContext :=
  ⟨options.module, (options.targetId.or options.scanId).getD (ascii "unknown-target"), options.workspaceRoot⟩

/-- What the code layer measured: what applies, what does not, and what came out. -/
structure Measurement where
  applicable : List Capability
  skipped : List SkippedCapability
  outcomes : List CodeLayerOutcome

def Measurement.measured (m : Measurement) : List CapabilityFinding := m.outcomes.flatMap (·.findings)

/-- Steps 1 to 3. -/
def measure (capabilities : List Capability) : Option Measurement :=
  (resolveApplicable options.targetControlLevel options.requiredControlLevels capabilities).bind fun resolution =>
    (runCodeLayer options.timeoutMs resolution.applicable).map fun outcomes => ⟨resolution.applicable, resolution.skipped, outcomes⟩

/-- The findings, measured before judged. -/
structure Findings where
  measured : List AttributedFinding
  secret : List AttributedFinding
  judged : List AttributedFinding

def Findings.all (f : Findings) : List AttributedFinding := f.measured ++ f.secret ++ f.judged

/-- The model's own findings, if it answered. -/
def judgedOf (m : Measurement) (ai : AiLayerOutcome) : Option (List AttributedFinding) :=
  match ai.insight with
  | none => some []
  | some insight => attributeJudgment platform options.context insight (m.measured.map (·.checkId))

/-- Steps 4 and 5. -/
def attributed (m : Measurement) (ai : AiLayerOutcome) : Option Findings := do
  let measured ← attributeMeasured platform options.context m.measured ai.insight
  let secret ← attributeMeasured platform options.context (secretFindingsFrom ai.secrets) none
  let judged ← judgedOf platform options m ai
  some ⟨measured, secret, judged⟩

/-- Step 6. -/
def finish (m : Measurement) (ai : AiLayerOutcome) (findings : Findings) : ModuleRunResult :=
  let state := resolveModuleState m.applicable.length m.outcomes m.skipped findings.all ai.degraded
  { module := options.module, state := state.state, score := state.score, summary := ai.insight.map (·.summary)
    skippedReason := state.skippedReason, degradedReason := state.degradedReason, findings := findings.all
    executions := executionsFor m.outcomes m.skipped, skipped := m.skipped
    aiCostMicros := totalCostMicros ai.invocations, aiInvocations := ai.invocations }

def aiOf (executor : AiResult) (m : Measurement) : AiLayerOutcome :=
  runAiLayer options.systemPrompt options.detect executor options.module m.applicable m.measured

def runModule (capabilities : List Capability) (executor : AiResult) : Option ModuleRunResult :=
  (measure options capabilities).bind fun m =>
    (attributed platform options m (aiOf options executor m)).map (finish options m (aiOf options executor m))

end Run

/-! ### An environment -/

def somePlatform : Platform where
  sha256 _ := []
  parseUrl _ := none
  sha256_plain _ := rfl
  parseUrl_plain := noUrl_plain

def someOptions : RunModuleOptions where
  module := .SECURITY
  targetControlLevel := .NONE
  requiredControlLevels _ := none
  timeoutMs := 60000
  scanId := none
  targetId := none
  workspaceRoot := none
  systemPrompt _ := []
  detect := { lowEntropy := fun _ => true }

def silent (id : Text) (answer : Contained ResultView) : Capability := ⟨id, .resolved true 0, some answer, none, none⟩

/-- It finds nothing. -/
def quiet : Capability := silent (ascii "quiet") (.resolved ⟨some true, [], true⟩ 0)

end WebAudit.Runner
