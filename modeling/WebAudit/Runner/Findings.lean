import WebAudit.Lib.Values

/-!
# What a capability answers

A capability is foreign code. What it returns or throws is any value, and reading a value may throw, or tell a
different story the second time; so an answer is known by what is read of it, and `none` is a read that throws.

`containCapabilityCall` makes one of three outcomes of a call. Of what came out, `describeThrown` makes a text and
`asFindings` a copy of the findings, or `null` if it is no array of findings.
-/

namespace WebAudit.Runner

open WebAudit.Lib.Uri WebAudit.Lib.Values

/-! ### Findings -/

inductive Severity where
  | CRITICAL
  | HIGH
  | MEDIUM
  | LOW
  | INFO
  deriving DecidableEq

/-- A part of a fingerprint, as it was copied: a text, or something of which `Buffer.from` makes bytes, or throws. -/
inductive Part where
  | text (s : Text)
  | other (bytes : Option (List ℕ))
  deriving DecidableEq

structure CapabilityFinding where
  checkId : Text
  fingerprintParts : List Part
  severity : Severity
  title : Text
  description : Text
  location : Option Text
  consequence : Option Text
  evidence : Option Tree
  fixable : Bool

/-! ### Answers -/

/-- What is read where a text is expected. -/
inductive View where
  | undefined
  | text (s : Text)
  | other
  deriving DecidableEq

/-- What is read where evidence is expected. Of an object `JSON.stringify` makes a tree, or nothing, or it throws. -/
inductive EvidenceView where
  | undefined
  | scalar
  | object (json : Option (Option Tree))

/-- What `every` says of the parts, and what is copied after. -/
structure PartsView where
  allTexts : Option Bool
  copied : Option (List Part)
  deriving DecidableEq

/-- An entry that is an object. -/
structure EntryView where
  checkId : Option View
  /-- `some none` is no array. -/
  fingerprintParts : Option (Option PartsView)
  /-- `some none` is no severity. -/
  severity : Option (Option Severity)
  title : Option View
  description : Option View
  location : Option View
  consequence : Option View
  evidence : Option EvidenceView
  /-- `=== true`. -/
  fixable : Option Bool

/-- What a code layer resolved with. -/
structure ResultView where
  /-- `Array.isArray` throws of a proxy that was revoked. -/
  isArray : Option Bool
  /-- What iterating gives; `none` is no object. -/
  entries : List (Option EntryView)
  /-- Iterating comes to an end. -/
  ends : Bool

/-- What was thrown. -/
inductive Thrown where
  | text (s : Text)
  /-- What `JSON.stringify` makes of it, if it makes something and does not throw; and its tag. -/
  | object (name message : Option View) (json : Option (Option Text)) (tag : Option Text)
  | scalar (json : Option (Option Text)) (tag : Option Text)
  deriving DecidableEq

/-- How a call ended. -/
inductive Contained (α : Type) where
  | resolved (value : α) (durationMs : ℕ)
  | rejected (error : Thrown) (durationMs : ℕ)
  | timeout (durationMs : ℕ)

/-! ### Reading -/

/-- `JSON.stringify(value) ?? toString.call(value)`, and `toString.call(value)` where that throws. -/
def stringified (json : Option (Option Text)) (tag : Option Text) : Option Text :=
  match json with
  | some (some text) => some text
  | _ => tag

/-- `none`: it throws itself. -/
def describeThrown : Thrown → Option Text
  | .text s => some s
  | .object name message json tag =>
    match name, message with
    | some (.text name), some (.text message) => some (name ++ ascii ": " ++ message)
    | some _, some _ => stringified json tag
    | _, _ => none
  | .scalar json tag => stringified json tag

/-- `none` is `UNUSABLE`. -/
def usableEvidence : EvidenceView → Option (Option Tree)
  | .undefined => some none
  | .scalar => none
  | .object json =>
    match json with
    | some (some tree) => some (some tree)
    | _ => none

/-- A text that is not empty. -/
def View.filled : View → Option Text
  | .text s => if s = [] then none else some s
  | _ => none

def View.required : View → Option Text
  | .text s => some s
  | _ => none

def View.optional : View → Option (Option Text)
  | .undefined => some none
  | .text s => some (some s)
  | .other => none

/-- The copy of an entry, if it is a finding. -/
def EntryView.copy (entry : EntryView) : Option CapabilityFinding := do
  let checkId ← entry.checkId.bind View.filled
  let parts ← entry.fingerprintParts.join
  let allTexts ← parts.allTexts
  let severity ← entry.severity.join
  let title ← entry.title.bind View.filled
  let description ← entry.description.bind View.required
  let location ← entry.location.bind View.optional
  let consequence ← entry.consequence.bind View.optional
  let evidence ← entry.evidence.bind usableEvidence
  let copied ← parts.copied
  let fixable ← entry.fixable
  if allTexts then some ⟨checkId, copied, severity, title, description, location, consequence, evidence, fixable⟩ else none

/-- `none`: it throws; `some none` is `null`. -/
def asFindings (value : ResultView) : Option (Option (List CapabilityFinding)) :=
  value.isArray.map fun isArray =>
    if isArray && value.ends then value.entries.mapM fun entry => entry.bind EntryView.copy else none

end WebAudit.Runner
