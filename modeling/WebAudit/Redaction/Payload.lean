import WebAudit.Redaction.Assemble
import WebAudit.Lib.Values
import WebAudit.Planning.Graph

/-!
# Payloads of evidence and of audit events

A payload is redacted value by value (`redactValue`), to a depth; what is stored is what `JSON.stringify` makes
of the outcome, in the row or, when it is large, as an artifact (`recordEvidence`).

The database and the artifact store may refuse: they are parameters.
-/

namespace WebAudit.Redaction

open WebAudit.Lib.Uri WebAudit.Lib.Values WebAudit.Planning

/-! ### Redaction -/

/-- `MAX_DEPTH`. -/
def maxDepth : ℕ := 8

def truncated : Text := ascii "[[TRUNCATED]]"

/-- `left` levels may follow, `maxDepth + 1 - depth` of them. -/
def redactValue (env : Engine) (options : DetectOptions) : ℕ → Value → Option Built
  | 0, _ => some (.value (.string truncated))
  | _ + 1, .string s => some (.value (.string (redactText s options)))
  | left + 1, .object p =>
    match env.heap[p]? with
    | none => some (.value (.object p))
    | some o =>
      match o.kind with
      | .callable => some (.value (.object p))
      | .array =>
        (o.properties.mapM fun (q : Text × Option Value) => q.2.bind (redactValue env options left)).map fun items => .array items o.toJSON
      | .ordinary =>
        (o.properties.mapM fun (q : Text × Option Value) => (q.2.bind (redactValue env options left)).map fun b => (q.1, b)).map fun fields =>
          -- setting `__proto__` makes no property
          .record (fields.filter fun f => f.1 ≠ ascii "__proto__")
  | _ + 1, v => some (.value v)

/-- `typeof value === 'object'`, and it is neither `null` nor an array. -/
def isRecord (env : Engine) : Built → Bool
  | .record _ => true
  | .array _ _ => false
  | .value (.object p) => (env.heap[p]?).any (·.kind = .ordinary)
  | .value _ => false

def redactionFailed : Built := .record [(ascii "_redactionFailed", .value (.bool true))]

def redactAuditPayload (env : Engine) (redact : Value → Option Built) (payload : Value) : Option Built :=
  if payload = .undefined ∨ payload = .null then none
  else
    match redact payload with
    | none => some redactionFailed
    | some redacted => some (if isRecord env redacted then redacted else .record [(ascii "value", redacted)])

/-- The payload of an audit event, as it is written; `accepts` is what the database function says to it. -/
def recordExecutionAuditEvent (env : Engine) (options : DetectOptions) (accepts : Option Tree → Bool) (payload : Value) : Option (Option Tree) :=
  match redactAuditPayload env (redactValue env options (maxDepth + 1)) payload with
  | none => if accepts none then some none else none
  | some redacted =>
    match env.stringifyBuilt redacted with
    | some (some tree) => if accepts (some tree) then some (some tree) else none
    | _ => none

/-! ### Evidence -/

inductive EvidenceKind where
  | HTTP_TRANSACTION
  | SOURCE_LOCATION
  | SCREENSHOT
  | SCREENSHOT_DIFF
  | DOM_NODE
  | ACCESSIBILITY_NODE
  | BROWSER_TRACE
  | HAR
  | VIDEO
  | LOAD_METRICS
  | SECURITY_REPRODUCTION
  | CODE_FLOW
  | DEPENDENCY
  | TELEMETRY
  deriving DecidableEq

inductive EvidenceRefusal where
  | OBJECT_BUDGET_EXCEEDED
  | SCAN_BUDGET_EXCEEDED
  | INVALID_ARTIFACT
  | UNIT_NOT_FOUND
  | BINARY_NOT_REDACTABLE
  | UNSERIALIZABLE_PAYLOAD
  deriving DecidableEq

/-- `INLINE_EVIDENCE_MAX_BYTES`. -/
def inlineEvidenceMaxBytes : ℕ := 16 * 1024

/-- `REDACTED_CLASSES`. -/
def isRedactedClass : ExecutionUnitClass → Bool
  | .ACTIVE_SECURITY | .AUTHENTICATED_WORKFLOW | .SOURCE_EXECUTION => true
  | _ => false

structure EvidenceUnit where
  id : ℕ
  executionUnitClass : ExecutionUnitClass
  scanId : Option ℕ
  deriving DecidableEq

/-- A `Uint8Array`, or any other value. -/
inductive EvidencePayload where
  | bytes (content : List ℕ)
  | value (v : Value)

structure RecordEvidenceInput where
  kind : EvidenceKind
  payload : EvidencePayload
  contentType : Option Text

/-- What an artifact holds: bytes, or the text of a tree in UTF-8. -/
inductive Body where
  | bytes (content : List ℕ)
  | json (tree : Tree)

structure StoredArtifact where
  id : ℕ
  body : Body
  contentType : Text

/-- A row of `Evidence`. -/
structure EvidenceRow where
  executionUnitId : ℕ
  kind : EvidenceKind
  inlinePayload : Option Tree
  artifact : Option StoredArtifact
  redacted : Bool

/-- What stores an artifact, and gives it an id. -/
abbrev ArtifactStore := Body → Text → Except EvidenceRefusal ℕ

def storeArtifact (createArtifact : ArtifactStore) (scanId : Option ℕ) (body : Body) (contentType : Text) :
    Except EvidenceRefusal StoredArtifact :=
  match scanId with
  | none => .error .UNIT_NOT_FOUND
  | some _ => (createArtifact body contentType).map fun id => ⟨id, body, contentType⟩

/-- What is serialised of a payload. -/
def serialized (env : Engine) (options : DetectOptions) (mustRedact : Bool) (payload : Value) : Option (Option Tree) :=
  if mustRedact then
    match redactAuditPayload env (redactValue env options (maxDepth + 1)) payload with
    | none => env.stringify .null
    | some redacted => env.stringifyBuilt redacted
  else env.stringify (if payload = .undefined then .null else payload)

/-- `JSON.parse` of what was serialised, as the column takes it: where `null` was parsed, nothing is set. -/
def inlineOf : Tree → Option Tree
  | .null => none
  | tree => some tree

def recordEvidence (env : Engine) (options : DetectOptions) (createArtifact : ArtifactStore) (unit : Option EvidenceUnit)
    (input : RecordEvidenceInput) : Except EvidenceRefusal EvidenceRow :=
  match unit with
  | none => .error .UNIT_NOT_FOUND
  | some unit =>
    let mustRedact := isRedactedClass unit.executionUnitClass
    match input.payload with
    | .bytes content =>
      if mustRedact then .error .BINARY_NOT_REDACTABLE
      else
        match input.contentType with
        | none => .error .INVALID_ARTIFACT
        | some contentType =>
          (storeArtifact createArtifact unit.scanId (.bytes content) contentType).map fun artifact =>
            ⟨unit.id, input.kind, none, some artifact, mustRedact⟩
    | .value payload =>
      match serialized env options mustRedact payload with
      | none | some none => .error .UNSERIALIZABLE_PAYLOAD
      | some (some tree) =>
        if inlineEvidenceMaxBytes < byteLength tree.render then
          (storeArtifact createArtifact unit.scanId (.json tree) (ascii "application/json")).map fun artifact =>
            ⟨unit.id, input.kind, none, some artifact, mustRedact⟩
        else .ok ⟨unit.id, input.kind, inlineOf tree, none, mustRedact⟩

/-- What is stored of a payload that is no binary content. -/
def EvidenceRow.stored (row : EvidenceRow) : Option Tree :=
  match row.inlinePayload, row.artifact with
  | some tree, _ => some tree
  | none, some ⟨_, .json tree, _⟩ => some tree
  | none, _ => none

end WebAudit.Redaction
