import WebAudit.Lib.Regex

/-!
# What a credential looks like

The rules by which credentials are recognised, each with its expression, and the spans that look like
credentials and are public.
-/

namespace WebAudit.Redaction

open WebAudit.Lib.Uri WebAudit.Lib.Regex

/-! ### Kinds -/

inductive SecretKind where
  | PRIVATE_KEY
  | AWS_ACCESS_KEY_ID
  | GITHUB_TOKEN
  | SLACK_TOKEN
  | STRIPE_SECRET_KEY
  | GOOGLE_API_KEY
  | OPENAI_API_KEY
  | ANTHROPIC_API_KEY
  | SENDGRID_API_KEY
  | NPM_TOKEN
  | TWILIO_API_KEY
  | JWT
  | CONNECTION_STRING_PASSWORD
  | AUTHORIZATION_HEADER
  | GENERIC_SECRET_ASSIGNMENT
  | HIGH_ENTROPY_STRING
  deriving DecidableEq

inductive Severity where
  | CRITICAL
  | HIGH
  | MEDIUM
  deriving DecidableEq

def SecretKind.name : SecretKind → Text
  | PRIVATE_KEY => ascii "PRIVATE_KEY"
  | AWS_ACCESS_KEY_ID => ascii "AWS_ACCESS_KEY_ID"
  | GITHUB_TOKEN => ascii "GITHUB_TOKEN"
  | SLACK_TOKEN => ascii "SLACK_TOKEN"
  | STRIPE_SECRET_KEY => ascii "STRIPE_SECRET_KEY"
  | GOOGLE_API_KEY => ascii "GOOGLE_API_KEY"
  | OPENAI_API_KEY => ascii "OPENAI_API_KEY"
  | ANTHROPIC_API_KEY => ascii "ANTHROPIC_API_KEY"
  | SENDGRID_API_KEY => ascii "SENDGRID_API_KEY"
  | NPM_TOKEN => ascii "NPM_TOKEN"
  | TWILIO_API_KEY => ascii "TWILIO_API_KEY"
  | JWT => ascii "JWT"
  | CONNECTION_STRING_PASSWORD => ascii "CONNECTION_STRING_PASSWORD"
  | AUTHORIZATION_HEADER => ascii "AUTHORIZATION_HEADER"
  | GENERIC_SECRET_ASSIGNMENT => ascii "GENERIC_SECRET_ASSIGNMENT"
  | HIGH_ENTROPY_STRING => ascii "HIGH_ENTROPY_STRING"

/-- How much a match is trusted when two overlap. -/
def precedence : SecretKind → ℕ
  | .GENERIC_SECRET_ASSIGNMENT => 2
  | .HIGH_ENTROPY_STRING => 1
  | _ => 3

def severityOf : SecretKind → Severity
  | .PRIVATE_KEY | .AWS_ACCESS_KEY_ID | .STRIPE_SECRET_KEY => .CRITICAL
  | .HIGH_ENTROPY_STRING => .MEDIUM
  | _ => .HIGH

/-! ### Classes of units -/

def isDigit (u : ℕ) : Bool := 0x30 ≤ u && u ≤ 0x39

def isUpper (u : ℕ) : Bool := 0x41 ≤ u && u ≤ 0x5A

def isLower (u : ℕ) : Bool := 0x61 ≤ u && u ≤ 0x7A

def isAlnum (u : ℕ) : Bool := isDigit u || isUpper u || isLower u

/-- One of the units of an ASCII text. -/
def among (s : String) (u : ℕ) : Bool := (ascii s).contains u

/-- `[A-Za-z0-9_-]`. -/
def isUrlSafe (u : ℕ) : Bool := isAlnum u || u == 0x5F || u == 0x2D

/-- `[A-Za-z0-9+/=]`. -/
def isBase64 (u : ℕ) : Bool := isAlnum u || among "+/=" u

def isHex (u : ℕ) : Bool := isDigit u || 0x61 ≤ u && u ≤ 0x66

/-! ### Rules -/

structure Rule where
  kind : SecretKind
  pattern : Pattern
  /-- Which capture group holds the credential; the whole match, where it is not captured. -/
  captured : Bool

/-- Names that make a value a credential, whatever its shape. -/
def secretName : Pattern :=
  let named := star fun u => isAlnum u || among "_.[]'\"-" u
  let sep := opt (.unit (among "_-"))
  sequence [named,
    oneOf [litI (ascii "secret"), litI (ascii "passwd"), litI (ascii "password"), litI (ascii "token"),
      sequence [litI (ascii "api"), sep, litI (ascii "key")], litI (ascii "apikey"),
      sequence [litI (ascii "access"), sep, litI (ascii "key")], sequence [litI (ascii "private"), sep, litI (ascii "key")],
      sequence [litI (ascii "client"), sep, litI (ascii "secret")], sequence [litI (ascii "auth"), sep, litI (ascii "token")],
      litI (ascii "credential"), litI (ascii "bearer")],
    named]

def isQuote (u : ℕ) : Bool := u == 0x22 || u == 0x27 || u == 0x60

def armour : Pattern :=
  sequence [opt (oneOf ([ascii "RSA ", ascii "DSA ", ascii "EC ", ascii "OPENSSH ", ascii "PGP ", ascii "ENCRYPTED "].map lit)),
    lit (ascii "PRIVATE KEY"), opt (lit (ascii " BLOCK")), lit (ascii "-----")]

def rules : List Rule := [
  ⟨.PRIVATE_KEY, sequence [lit (ascii "-----BEGIN "), armour, .many false 0 none (.unit fun _ => true), lit (ascii "-----END "), armour], false⟩,
  ⟨.AWS_ACCESS_KEY_ID, sequence [.boundary, oneOf ([ascii "AKIA", ascii "ASIA", ascii "ABIA", ascii "ACCA"].map lit),
    exactly 16 fun u => isDigit u || isUpper u, .boundary], false⟩,
  ⟨.GITHUB_TOKEN, sequence [.boundary, oneOf [sequence [lit (ascii "gh"), .unit (among "pousr"), lit (ascii "_"), atLeast 36 isAlnum],
    sequence [lit (ascii "github_pat_"), atLeast 22 isWord]], .boundary], false⟩,
  ⟨.SLACK_TOKEN, sequence [.boundary, lit (ascii "xox"), .unit (among "baprse"), lit (ascii "-"),
    atLeast 10 fun u => isAlnum u || u == 0x2D], false⟩,
  ⟨.STRIPE_SECRET_KEY, sequence [.boundary, oneOf [lit (ascii "sk"), lit (ascii "rk")], lit (ascii "_"),
    oneOf [lit (ascii "live"), lit (ascii "test")], lit (ascii "_"), atLeast 16 isAlnum, .boundary], false⟩,
  ⟨.GOOGLE_API_KEY, sequence [.boundary, lit (ascii "AIza"), exactly 35 isUrlSafe, .boundary], false⟩,
  ⟨.ANTHROPIC_API_KEY, sequence [.boundary, lit (ascii "sk-ant-"), atLeast 20 isUrlSafe], false⟩,
  ⟨.OPENAI_API_KEY, sequence [.boundary, lit (ascii "sk-"), opt (lit (ascii "proj-")), atLeast 20 isAlnum, .boundary], false⟩,
  ⟨.SENDGRID_API_KEY, sequence [.boundary, lit (ascii "SG."), atLeast 16 isUrlSafe, lit (ascii "."), atLeast 16 isUrlSafe], false⟩,
  ⟨.NPM_TOKEN, sequence [.boundary, lit (ascii "npm_"), exactly 36 isAlnum, .boundary], false⟩,
  ⟨.TWILIO_API_KEY, sequence [.boundary, lit (ascii "SK"), exactly 32 fun u => isHex u || 0x41 ≤ u && u ≤ 0x46, .boundary], false⟩,
  ⟨.JWT, sequence [.boundary, lit (ascii "eyJ"), atLeast 8 isUrlSafe, lit (ascii "."), atLeast 8 isUrlSafe, lit (ascii "."),
    atLeast 8 isUrlSafe], false⟩,
  ⟨.CONNECTION_STRING_PASSWORD, sequence [.boundary,
    oneOf [sequence [lit (ascii "postgres"), opt (lit (ascii "ql"))], lit (ascii "mysql"), lit (ascii "mariadb"),
      sequence [lit (ascii "mongodb"), opt (lit (ascii "+srv"))], sequence [lit (ascii "redis"), opt (lit (ascii "s"))],
      sequence [lit (ascii "amqp"), opt (lit (ascii "s"))], lit (ascii "mssql"), lit (ascii "ftp"),
      sequence [lit (ascii "http"), opt (lit (ascii "s"))]],
    lit (ascii "://"), plus fun u => !(isSpace u || among ":@/" u), lit (ascii ":"),
    .group (atLeast 3 fun u => !(isSpace u || among "@/" u)), lit (ascii "@")], true⟩,
  ⟨.AUTHORIZATION_HEADER, sequence [.boundary, litI (ascii "authorization"), .boundary, star isSpace, .unit (among ":="), star isSpace,
    opt (.unit isQuote), star isSpace, oneOf [litI (ascii "Bearer"), litI (ascii "Basic"), litI (ascii "Token")], plus isSpace,
    .group (atLeast 16 fun u => isAlnum u || among "+/=_.-" u)], true⟩,
  ⟨.GENERIC_SECRET_ASSIGNMENT, sequence [secretName, star isSpace, .unit (among ":="), star isSpace, .unit isQuote,
    .group (atLeast 8 fun u => !(isQuote u || u == 0x0A)), .unit isQuote], true⟩,
  ⟨.GENERIC_SECRET_ASSIGNMENT, sequence [.lineStart, star (among " \t"), opt (sequence [litI (ascii "export"), plus (among " \t")]),
    secretName, star (among " \t"), .unit (· == 0x3D), star (among " \t"),
    .group (atLeast 8 fun u => !(isSpace u || among "\"'#" u))], true⟩]

/-- Spans that look like credentials, and are public by design. -/
def benignSpans : List Pattern := [
  sequence [.boundary, lit (ascii "sha"), oneOf [lit (ascii "1"), lit (ascii "256"), lit (ascii "384"), lit (ascii "512")],
    lit (ascii "-"), atLeast 20 isBase64],
  sequence [.boundary, lit (ascii "integrity"), star isSpace, .unit (among ":="), star isSpace, .unit (among "\"'"),
    plus fun u => !among "\"'" u, .unit (among "\"'")],
  sequence [.boundary, lit (ascii "data:"), star fun u => !(isSpace u || among ";," u), lit (ascii ";base64,"), plus isBase64],
  sequence [.boundary, .many true 32 (some 64) (.unit isHex), .boundary]]

def entropyCandidate : Pattern :=
  sequence [atLeast 20 fun u => isAlnum u || among "+/_-" u, .many true 0 (some 2) (.unit (· == 0x3D))]

end WebAudit.Redaction
