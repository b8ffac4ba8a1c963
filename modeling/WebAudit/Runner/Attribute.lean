import WebAudit.Runner.Findings
import WebAudit.Lib.Storable
import WebAudit.Redaction.Assemble
import WebAudit.Scans.States

/-!
# Fingerprints, locations and attribution

`packages/scoring/src/fingerprint.ts` and `module-runner/attribute.ts`. A finding is known again by its fingerprint;
what is volatile in its location is dropped (`normalizeLocation`); and the layer that produced it says whether it was
measured or judged. A model's insight may explain a measured finding, and nothing else.

SHA-256 and the URL parser are parameters.
-/

namespace WebAudit.Runner

open WebAudit.Lib.Uri WebAudit.Lib.Values WebAudit.Scans
open WebAudit.Redaction (decimalText isDigit isAlnum)
open WebAudit.Lib.Regex (isSpace)

/-- `module`, as it is written. -/
def moduleName : ModuleType → Text
  | .PERFORMANCE => ascii "PERFORMANCE"
  | .SECURITY => ascii "SECURITY"
  | .UI => ascii "UI"
  | .TESTING => ascii "TESTING"
  | .SEO => ascii "SEO"

/-- `module.toLowerCase()`. -/
def moduleLower (module : ModuleType) : Text := (moduleName module).map asciiLower

structure Platform where
  /-- SHA-256, in hexadecimal. -/
  sha256 : List ℕ → Text
  /-- `origin` and `pathname` of `new URL(text)`, if it is one. -/
  parseUrl : Text → Option (Text × Text)
  sha256_plain : ∀ bytes, (sha256 bytes).all isPlain = true
  /-- A URL that was parsed is written in ASCII, and without U+0000. -/
  parseUrl_plain : ∀ text, ∀ p ∈ parseUrl text, p.1.all isPlain = true ∧ p.2.all isPlain = true

theorem noUrl_plain (_ : Text) (p : Text × Text) (h : p ∈ none) : p.1.all isPlain = true ∧ p.2.all isPlain = true := nomatch h

/-! ### Fingerprints -/

/-- The code point in UTF-8. -/
def utf8Of (v : ℕ) : List ℕ :=
  if v < 0x80 then [v]
  else if v < 0x800 then [0xC0 + v / 0x40, 0x80 + v % 0x40]
  else if v < 0x10000 then [0xE0 + v / 0x1000, 0x80 + v / 0x40 % 0x40, 0x80 + v % 0x40]
  else [0xF0 + v / 0x40000, 0x80 + v / 0x1000 % 0x40, 0x80 + v / 0x40 % 0x40, 0x80 + v % 0x40]

/-- `Buffer.from(text, 'utf8')`: a surrogate that stands alone is replaced. -/
def utf8 : Text → List ℕ
  | [] => []
  | [u] => if isHighSurrogate u || isLowSurrogate u then utf8Of 0xFFFD else utf8Of u
  | u :: v :: rest =>
    if isHighSurrogate u && isLowSurrogate v then utf8Of (0x10000 + (u - 0xD800) * 0x400 + (v - 0xDC00)) ++ utf8 rest
    else (if isHighSurrogate u || isLowSurrogate u then utf8Of 0xFFFD else utf8Of u) ++ utf8 (v :: rest)

def Part.bytes : Part → Option (List ℕ)
  | .text s => some (utf8 s)
  | .other bytes => bytes

/-- `<length>:<bytes>` for each part; `none` where `Buffer.from` throws. -/
def encodeParts (parts : List Part) : Option (List ℕ) :=
  (parts.mapM Part.bytes).map fun chunks => chunks.flatMap fun bytes => decimalText bytes.length ++ ascii ":" ++ bytes

def fingerprintOf (platform : Platform) (targetId : Text) (module : ModuleType) (checkId : Text) (parts : List Part) : Option Text :=
  (encodeParts (.text targetId :: .text (moduleName module) :: .text checkId :: parts)).map platform.sha256

/-! ### Locations -/

def isHexLetter (u : ℕ) : Bool := isDigit u || (0x61 ≤ asciiLower u && asciiLower u ≤ 0x66)

def isSlash (u : ℕ) : Bool := u == 0x2F || u == 0x5C

/-- Without what satisfies `p` at the end. -/
def dropTail (p : ℕ → Bool) (text : Text) : Text := (text.reverse.dropWhile p).reverse

def trim (text : Text) : Text := dropTail isSpace (text.dropWhile isSpace)

/-- `/^https?:\/\//i`. -/
def isHttp (text : Text) : Bool :=
  let lower := text.map asciiLower
  startsWith lower (ascii "http://") || startsWith lower (ascii "https://")

/-- `/^(?:\.[a-z0-9]+)+$/i`. -/
def isExtensions : ℕ → Text → Bool
  | 0, _ => false
  | fuel + 1, u :: rest =>
    u == dot &&
      (let run := rest.takeWhile isAlnum
       run ≠ [] && (rest.dropWhile isAlnum == [] || isExtensions fuel (rest.dropWhile isAlnum)))
  | _ + 1, [] => false

/-- How much a hash takes here: `/[.-][0-9a-f]{8,32}(?=(?:\.[a-z0-9]+)+$)/i`. -/
def hashLength : Text → Option ℕ
  | [] => none
  | u :: rest =>
    let run := (rest.takeWhile isHexLetter).length
    if (u == dot || u == 0x2D) && 8 ≤ run && run ≤ 32 && isExtensions rest.length (rest.drop run) then some (run + 1) else none

/-- How much a version takes here: `/[?&](?:v|_|ts|t|rev|hash)=[^&#]*/i`. -/
def versionLength : Text → Option ℕ
  | [] => none
  | u :: rest =>
    if u == 0x3F || u == 0x26 then
      ([ascii "v=", ascii "_=", ascii "ts=", ascii "t=", ascii "rev=", ascii "hash="].find? (startsWith (rest.map asciiLower))).map fun name =>
        1 + name.length + ((rest.drop name.length).takeWhile fun v => !(v == 0x26 || v == 0x23)).length
    else none

/-- `replace(pattern, '')` where the pattern takes `length` here. -/
def removeAll (length : Text → Option ℕ) : ℕ → Text → Text
  | 0, text => text
  | _ + 1, [] => []
  | fuel + 1, u :: rest =>
    match length (u :: rest) with
    | some n => removeAll length fuel (rest.drop (n - 1))
    | none => u :: removeAll length fuel rest

/-- `/^:\d+(?::\d+)?$/`. -/
def isPosition : Text → Bool
  | u :: rest =>
    u == 0x3A && rest.takeWhile isDigit ≠ [] &&
      (match rest.dropWhile isDigit with
      | [] => true
      | v :: more => v == 0x3A && more ≠ [] && more.all isDigit)
  | [] => false

/-- Without a line and a column. -/
def dropPosition : Text → Text
  | [] => []
  | u :: rest => if isPosition (u :: rest) then [] else u :: dropPosition rest

/-- An address without its query and fragment. -/
def withoutQuery (platform : Platform) (value : Text) : Text :=
  if isHttp value then
    match platform.parseUrl value with
    | some (origin, pathname) => origin ++ pathname
    | none => value
  else value

/-- A path without the workspace's. -/
def withoutRoot (workspaceRoot : Option Text) (value : Text) : Text :=
  match workspaceRoot with
  | none => value
  | some workspaceRoot =>
    if workspaceRoot = [] then value
    else
      let root := dropTail isSlash workspaceRoot
      if startsWith value root then (value.drop root.length).dropWhile isSlash else value

def withoutHash (value : Text) : Text := removeAll hashLength value.length value

def withoutVersion (value : Text) : Text := removeAll versionLength value.length value

def forwardSlashes (value : Text) : Text := value.map fun u => if u = 0x5C then slash else u

def normalizeLocation (platform : Platform) (workspaceRoot : Option Text) (location : Text) : Text :=
  let value := withoutRoot workspaceRoot (withoutQuery platform (trim location))
  let value := forwardSlashes (withoutVersion (withoutHash value))
  let value := dropTail (· == slash) (dropPosition value)
  if value = [] then [slash] else value

/-! ### Attribution -/

inductive Attribution where
  | MEASURED
  | AI_JUDGMENT
  deriving DecidableEq

inductive Layer where
  | CODE
  | AI
  deriving DecidableEq

structure AttributedFinding where
  checkId : Text
  fingerprint : Text
  severity : Severity
  title : Text
  explanation : Text
  consequence : Text
  location : Option Text
  evidence : Option Tree
  fixPrompt : Text
  attribution : Attribution
  layer : Layer
  fixable : Bool

/-- An insight of the model, as the schema takes it. -/
structure Insight where
  relatesToCheckIds : List Text
  title : Text
  explanation : Text
  consequence : Text
  severity : Severity
  deriving DecidableEq

structure ModuleInsight where
  summary : Text
  insights : List Insight
  priorityOrder : List Text
  deriving DecidableEq

structure AttributeContext where
  module : ModuleType
  targetId : Text
  workspaceRoot : Option Text
  deriving DecidableEq

def lines (texts : List Text) : Text := List.intercalate [0x0A] texts

def buildFixPrompt (module : ModuleType) (title description : Text) (location consequence : Option Text) (evidence : Option Tree) : Text :=
  lines ([ascii "Fix the following " ++ moduleLower module ++ ascii " issue.", [],
      ascii "Problem: " ++ title, ascii "What was measured: " ++ description] ++
    (location.map (ascii "Where: " ++ ·)).toList ++ (consequence.map (ascii "Why it matters: " ++ ·)).toList ++
    (evidence.map fun tree => ascii "Evidence: " ++ tree.render.take 2000).toList ++
    [[], ascii "Make the smallest change that resolves this, and do not alter unrelated behaviour.",
      ascii "When you are done, state what you changed so the fix can be re-checked."])

/-- The first insight that relates to the check. -/
def relatedTo (insight : Option ModuleInsight) (checkId : Text) : Option Insight :=
  insight.bind fun insight => insight.insights.find? fun item => item.relatesToCheckIds.contains checkId

def explanationFor (finding : CapabilityFinding) (related : Option Insight) : Text :=
  match related with
  | none => finding.description
  | some related => finding.description ++ [0x0A, 0x0A] ++ related.explanation

def consequenceFor (finding : CapabilityFinding) (related : Option Insight) : Text :=
  (finding.consequence.or (related.map (·.consequence))).getD (ascii "Left unaddressed, this remains a defect in the audited area.")

section Attribute

variable (platform : Platform) (context : AttributeContext)

def attributeFinding (insight : Option ModuleInsight) (finding : CapabilityFinding) : Option AttributedFinding :=
  let related := relatedTo insight finding.checkId
  let location := finding.location.map (normalizeLocation platform context.workspaceRoot)
  let consequence := consequenceFor finding related
  (fingerprintOf platform context.targetId context.module finding.checkId finding.fingerprintParts).map fun fingerprint =>
    { checkId := finding.checkId, fingerprint, severity := finding.severity, title := finding.title
      explanation := explanationFor finding related
      consequence, location, evidence := finding.evidence
      fixPrompt := buildFixPrompt context.module finding.title finding.description location (some consequence) finding.evidence
      attribution := .MEASURED, layer := .CODE, fixable := finding.fixable }

/-- `none`: a fingerprint throws. -/
def attributeMeasured (findings : List CapabilityFinding) (insight : Option ModuleInsight) : Option (List AttributedFinding) :=
  findings.mapM (attributeFinding platform context insight)

def judgmentCheckId (module : ModuleType) : Text := ascii "ai." ++ moduleLower module ++ ascii ".judgment"

def attributeInsight (index : ℕ) (item : Insight) : Option AttributedFinding :=
  let checkId := judgmentCheckId context.module
  (fingerprintOf platform context.targetId context.module checkId [.text item.title, .text (decimalText index)]).map fun fingerprint =>
    { checkId, fingerprint, severity := item.severity, title := item.title, explanation := item.explanation
      consequence := item.consequence, location := none, evidence := none
      fixPrompt := buildFixPrompt context.module item.title item.explanation none (some item.consequence) none
      attribution := .AI_JUDGMENT, layer := .AI, fixable := true }

/-- The insights that relate to nothing that was measured. -/
def attributeJudgment (insight : ModuleInsight) (measuredCheckIds : List Text) : Option (List AttributedFinding) :=
  (insight.insights.filter fun item => !item.relatesToCheckIds.any measuredCheckIds.contains).zipIdx.mapM fun p =>
    attributeInsight platform context p.2 p.1

end Attribute

end WebAudit.Runner
