import WebAudit.Lib.ReadCommitted
import WebAudit.Lib.Runs

/-!
# Sessions and links of an account

The tokens of one account, and any number of calls on them at once: each step is one statement of one
call, a row that an update visits, or a commit. The database is at READ COMMITTED
(`Lib.ReadCommitted`), and a call may fail at any of its steps. Tokens are known by the row that holds
their hash: a raw token that is no row's is unknown.

Other accounts' rows, mails, access tokens and the key-share locks of foreign keys are left out. So are
the answers for an address that has no account. The count of password changes is not in the code: it is
what is needed to say which password a login has checked.
-/

namespace WebAudit.Auth

open WebAudit.Lib

/-! ### Rows -/

inductive Purpose where
  | verify
  | verifyPending
  | reset
  deriving DecidableEq

structure EmailToken where
  purpose : Purpose
  expiresAt : ℤ
  usedAt : Option ℤ
  createdAt : ℤ
  deriving DecidableEq

/-- Where a session comes from. -/
inductive Origin where
  /-- A password, checked when there had been so many changes of it. -/
  | login (checked : ℕ)
  | rotation (token : ℕ)
  deriving DecidableEq

structure RefreshToken where
  expiresAt : ℤ
  revokedAt : Option ℤ
  origin : Origin
  deriving DecidableEq

structure User (Hash : Type) where
  passwordHash : Option Hash
  emailVerifiedAt : Option ℤ
  deriving DecidableEq

/-- What `bcrypt` and the environment provide. -/
structure Platform (Password Hash : Type) where
  verifyPassword : Password → Hash → Bool
  hashPassword : Password → ℕ → Hash
  /-- What is checked for an account without a password. -/
  invalidHash : Hash
  refreshTtlMs : ℤ

def resetTtlMs : ℤ := 60 * 60 * 1000

def verifyTtlMs : ℤ := 24 * 60 * 60 * 1000

def resendCooldownMs : ℤ := 60 * 1000

def reuseGraceMs : ℤ := 10000

/-! ### Conditions of the updates -/

def unrevoked (row : RefreshToken) : Bool := row.revokedAt.isNone

/-- What a rotation claims. -/
def rotatable (now : ℤ) (row : RefreshToken) : Bool := unrevoked row && now < row.expiresAt

def unused (row : EmailToken) : Bool := row.usedAt.isNone

/-- What a link is claimed by. -/
def claimable (now : ℤ) (row : EmailToken) : Bool := unused row && now < row.expiresAt

/-- What `supersedeEmailTokens` retires. -/
def outstanding (purpose : Purpose) (row : EmailToken) : Bool := row.purpose == purpose && unused row

/-! ### State -/

inductive Outcome where
  | ok
  | invalidCredentials
  | emailNotVerified
  | invalidRefreshToken
  | tokenInvalid
  /-- A statement or a commit failed, and all was rolled back. -/
  | failed
  deriving DecidableEq

inductive LoginPc where
  | start
  | creating (checked : ℕ)
  | done (outcome : Outcome)
  deriving DecidableEq

inductive RefreshPc where
  | start
  | reading (now : ℤ)
  | claiming (now : ℤ)
  | waiting (now revokedAt : ℤ)
  | creating (revokedAt : ℤ)
  | committing (revokedAt expiresAt : ℤ)
  /-- A replay. -/
  | reused
  | revoking (revokedAt : ℤ) (cursor : Cursor)
  | done (outcome : Outcome)
  deriving DecidableEq

inductive LogoutPc where
  | start
  | waiting (revokedAt : ℤ)
  | committing (revokedAt : ℤ)
  | done (outcome : Outcome)
  deriving DecidableEq

/-- The links of a purpose are retired, and then one is created. -/
inductive IssuePc where
  | superseding (usedAt : ℤ) (cursor : Cursor)
  | creating (usedAt : ℤ) (seen : ℕ)
  | committing (usedAt : ℤ) (seen : ℕ) (expiresAt createdAt : ℤ)
  deriving DecidableEq

inductive RequestResetPc where
  | start
  | issuing (pc : IssuePc)
  | done (outcome : Outcome)
  deriving DecidableEq

inductive CompleteResetPc (Hash : Type) where
  | start
  | hashing
  | claiming (hash : Hash)
  | waiting (hash : Hash) (usedAt : ℤ)
  | updatingUser (hash : Hash) (usedAt : ℤ)
  | updatedUser (hash : Hash) (usedAt : ℤ)
  | revoking (hash : Hash) (usedAt revokedAt : ℤ) (cursor : Cursor)
  | done (outcome : Outcome)
  deriving DecidableEq

inductive VerifyEmailPc where
  | start
  | claiming
  | waiting (now : ℤ)
  | updatingUser (now : ℤ)
  | committing (now : ℤ)
  | done (outcome : Outcome)
  deriving DecidableEq

inductive ResendPc where
  | start
  | including (pending : EmailToken)
  | lockingUser
  | cooling
  | retiring
  | issuing (pc : IssuePc)
  | done (outcome : Outcome)
  deriving DecidableEq

/-- A call and where it is. -/
inductive Call (Password Hash : Type) where
  | login (password : Password) (pc : LoginPc)
  | refresh (raw : ℕ) (pc : RefreshPc)
  | logout (raw : ℕ) (pc : LogoutPc)
  | requestReset (pc : RequestResetPc)
  | completeReset (raw : ℕ) (newPassword : Password) (pc : CompleteResetPc Hash)
  | verifyEmail (raw : ℕ) (pc : VerifyEmailPc)
  | resendVerification (pendingToken : Option ℕ) (pc : ResendPc)
  deriving DecidableEq

structure State (Password Hash : Type) where
  now : ℤ
  user : User Hash
  userLock : Option ℕ
  passwordChanges : ℕ
  emailTokens : Table EmailToken
  refreshTokens : Table RefreshToken
  calls : List (Call Password Hash)
  deriving DecidableEq

/-! ### What a step does to the rows -/

/-- What a transaction has written. The times are written to the rows that it has locked. -/
structure Writes (Hash : Type) where
  usedAt : Option ℤ := none
  emailToken : Option EmailToken := none
  revokedAt : Option ℤ := none
  refreshToken : Option RefreshToken := none
  passwordHash : Option Hash := none
  emailVerifiedAt : Option ℤ := none

inductive Change (Hash : Type) where
  | stays
  | locksEmailToken (i : ℕ)
  | locksRefreshToken (i : ℕ)
  | locksUser
  /-- The transaction ends; it is rolled back when nothing has been written. -/
  | commits (w : Writes Hash)

def use (usedAt : Option ℤ) (row : EmailToken) : EmailToken := { row with usedAt := usedAt <|> row.usedAt }

def revoke (revokedAt : Option ℤ) (row : RefreshToken) : RefreshToken := { row with revokedAt := revokedAt <|> row.revokedAt }

def insertSome {ρ : Type} (table : Table ρ) : Option ρ → Table ρ
  | none => table
  | some row => table.insert row

variable {Password Hash : Type}

def State.change (s : State Password Hash) (me : ℕ) : Change Hash → State Password Hash
  | .stays => s
  | .locksEmailToken i => { s with emailTokens := s.emailTokens.lock me i }
  | .locksRefreshToken i => { s with refreshTokens := s.refreshTokens.lock me i }
  | .locksUser => { s with userLock := some me }
  | .commits w => { s with
      user := ⟨w.passwordHash <|> s.user.passwordHash, w.emailVerifiedAt <|> s.user.emailVerifiedAt⟩
      userLock := if s.userLock = some me then none else s.userLock
      passwordChanges := s.passwordChanges + if w.passwordHash.isSome then 1 else 0
      emailTokens := insertSome (s.emailTokens.commit me (use w.usedAt)) w.emailToken
      refreshTokens := insertSome (s.refreshTokens.commit me (revoke w.revokedAt)) w.refreshToken }

/-! ### The calls -/

section Calls

variable (p : Platform Password Hash) (s : State Password Hash)

/-- The password is checked between the read and the insert. -/
def login (password : Password) : LoginPc → Option (LoginPc × Change Hash)
  | .start =>
    if p.verifyPassword password (s.user.passwordHash.getD p.invalidHash) = false then some (.done .invalidCredentials, .stays)
    else if s.user.emailVerifiedAt.isNone then some (.done .emailNotVerified, .stays)
    else some (.creating s.passwordChanges, .stays)
  | .creating checked => some (.done .ok, .commits { refreshToken := some ⟨s.now + p.refreshTtlMs, none, .login checked⟩ })
  | .done _ => none

def refresh (raw choice : ℕ) : RefreshPc → Option (RefreshPc × Change Hash)
  | .start => some (.reading s.now, .stays)
  | .reading now =>
    match s.refreshTokens[raw]? with
    | none => some (.done .invalidRefreshToken, .stays)
    | some u =>
      match u.row.revokedAt with
      | some revokedAt =>
        if now - revokedAt > reuseGraceMs then some (.reused, .stays) else some (.done .invalidRefreshToken, .stays)
      | none => if u.row.expiresAt < now then some (.done .invalidRefreshToken, .stays) else some (.claiming now, .stays)
  | .claiming now =>
    if s.refreshTokens[raw]?.any fun u => rotatable now u.row then some (.waiting now s.now, .stays)
    else some (.done .invalidRefreshToken, .stays)
  | .waiting now revokedAt =>
    match s.refreshTokens.visit (rotatable now) raw with
    | .waits => none
    | .misses => some (.done .invalidRefreshToken, .stays)
    | .takes => some (.creating revokedAt, .locksRefreshToken raw)
  | .creating revokedAt => some (.committing revokedAt (s.now + p.refreshTtlMs), .stays)
  | .committing revokedAt expiresAt =>
    some (.done .ok, .commits { revokedAt := some revokedAt, refreshToken := some ⟨expiresAt, none, .rotation raw⟩ })
  | .reused => some (.revoking s.now (s.refreshTokens.scan unrevoked), .stays)
  | .revoking revokedAt cursor =>
    if cursor.todo = [] then some (.done .invalidRefreshToken, .commits { revokedAt := some revokedAt })
    else (s.refreshTokens.advance unrevoked cursor choice).map fun (cursor, locks) =>
      (.revoking revokedAt cursor, if locks then .locksRefreshToken choice else .stays)
  | .done _ => none

def logout (raw : ℕ) : LogoutPc → Option (LogoutPc × Change Hash)
  | .start => if s.refreshTokens[raw]?.any fun u => unrevoked u.row then some (.waiting s.now, .stays) else some (.done .ok, .stays)
  | .waiting revokedAt =>
    match s.refreshTokens.visit unrevoked raw with
    | .waits => none
    | .misses => some (.done .ok, .stays)
    | .takes => some (.committing revokedAt, .locksRefreshToken raw)
  | .committing revokedAt => some (.done .ok, .commits { revokedAt := some revokedAt })
  | .done _ => none

/-- `supersedeEmailTokens`, and then a new link; nothing is left to do after the commit. -/
def issue (purpose : Purpose) (ttlMs : ℤ) (choice : ℕ) : IssuePc → Option (Option IssuePc × Change Hash)
  | .superseding usedAt cursor =>
    if cursor.todo = [] then some (some (.creating usedAt cursor.seen), .stays)
    else (s.emailTokens.advance (outstanding purpose) cursor choice).map fun (cursor, locks) =>
      (some (.superseding usedAt cursor), if locks then .locksEmailToken choice else .stays)
  | .creating usedAt seen => some (some (.committing usedAt seen (s.now + ttlMs) s.now), .stays)
  | .committing usedAt _ expiresAt createdAt =>
    some (none, .commits { usedAt := some usedAt, emailToken := some ⟨purpose, expiresAt, none, createdAt⟩ })

def requestReset (choice : ℕ) : RequestResetPc → Option (RequestResetPc × Change Hash)
  | .start => some (.issuing (.superseding s.now (s.emailTokens.scan (outstanding .reset))), .stays)
  | .issuing pc => (issue s .reset resetTtlMs choice pc).map fun (pc, change) => (pc.elim (.done .ok) .issuing, change)
  | .done _ => none

/-- What the early refusal lets through. -/
def presentable (purpose : Purpose) (raw : ℕ) : Bool :=
  s.emailTokens[raw]?.any fun u => u.row.purpose == purpose && u.row.usedAt.isNone && !(u.row.expiresAt < s.now)

def completeReset (raw : ℕ) (newPassword : Password) (choice : ℕ) : CompleteResetPc Hash → Option (CompleteResetPc Hash × Change Hash)
  | .start => if presentable s .reset raw then some (.hashing, .stays) else some (.done .tokenInvalid, .stays)
  | .hashing => some (.claiming (p.hashPassword newPassword choice), .stays)
  | .claiming hash =>
    if s.emailTokens[raw]?.any fun u => claimable s.now u.row then some (.waiting hash s.now, .stays)
    else some (.done .tokenInvalid, .stays)
  | .waiting hash usedAt =>
    match s.emailTokens.visit (claimable usedAt) raw with
    | .waits => none
    | .misses => some (.done .tokenInvalid, .stays)
    | .takes => some (.updatingUser hash usedAt, .locksEmailToken raw)
  | .updatingUser hash usedAt => if s.userLock = none then some (.updatedUser hash usedAt, .locksUser) else none
  | .updatedUser hash usedAt => some (.revoking hash usedAt s.now (s.refreshTokens.scan unrevoked), .stays)
  | .revoking hash usedAt revokedAt cursor =>
    if cursor.todo = [] then
      some (.done .ok, .commits { usedAt := some usedAt, revokedAt := some revokedAt, passwordHash := some hash })
    else (s.refreshTokens.advance unrevoked cursor choice).map fun (cursor, locks) =>
      (.revoking hash usedAt revokedAt cursor, if locks then .locksRefreshToken choice else .stays)
  | .done _ => none

def verifyEmail (raw : ℕ) : VerifyEmailPc → Option (VerifyEmailPc × Change Hash)
  | .start => if presentable s .verify raw then some (.claiming, .stays) else some (.done .tokenInvalid, .stays)
  | .claiming =>
    if s.emailTokens[raw]?.any fun u => claimable s.now u.row then some (.waiting s.now, .stays)
    else some (.done .tokenInvalid, .stays)
  | .waiting now =>
    match s.emailTokens.visit (claimable now) raw with
    | .waits => none
    | .misses => some (.done .tokenInvalid, .stays)
    | .takes => some (.updatingUser now, .locksEmailToken raw)
  | .updatingUser now => if s.userLock = none then some (.committing now, .locksUser) else none
  | .committing now => some (.done .ok, .commits { usedAt := some now, emailVerifiedAt := some now })
  | .done _ => none

def resendVerification (pendingToken : Option ℕ) (choice : ℕ) : ResendPc → Option (ResendPc × Change Hash)
  | .start =>
    match pendingToken with
    | none => if s.user.emailVerifiedAt.isSome then some (.done .ok, .stays) else some (.lockingUser, .stays)
    | some raw =>
      match s.emailTokens[raw]? with
      | none => some (.done .ok, .stays)
      | some u => some (.including u.row, .stays)
  | .including pending =>
    if pending.purpose ≠ .verifyPending ∨ pending.usedAt.isSome ∨ pending.expiresAt < s.now ∨ s.user.emailVerifiedAt.isSome then
      some (.done .ok, .stays)
    else some (.lockingUser, .stays)
  | .lockingUser => if s.userLock = none then some (.cooling, .locksUser) else none
  | .cooling =>
    -- so for the most recent one, if for any
    if s.emailTokens.any fun u => u.row.purpose == .verify && s.now - resendCooldownMs < u.row.createdAt then
      some (.done .ok, .commits {})
    else some (.retiring, .stays)
  | .retiring => some (.issuing (.superseding s.now (s.emailTokens.scan (outstanding .verify))), .stays)
  | .issuing pc => (issue s .verify verifyTtlMs choice pc).map fun (pc, change) => (pc.elim (.done .ok) .issuing, change)
  | .done _ => none

end Calls

/-! ### Steps -/

/-- The next step of a call. -/
def Call.next (p : Platform Password Hash) (s : State Password Hash) (choice : ℕ) :
    Call Password Hash → Option (Call Password Hash × Change Hash)
  | .login password pc => (Auth.login p s password pc).map fun (pc, change) => (.login password pc, change)
  | .refresh raw pc => (Auth.refresh p s raw choice pc).map fun (pc, change) => (.refresh raw pc, change)
  | .logout raw pc => (Auth.logout s raw pc).map fun (pc, change) => (.logout raw pc, change)
  | .requestReset pc => (Auth.requestReset s choice pc).map fun (pc, change) => (.requestReset pc, change)
  | .completeReset raw newPassword pc =>
    (Auth.completeReset p s raw newPassword choice pc).map fun (pc, change) => (.completeReset raw newPassword pc, change)
  | .verifyEmail raw pc => (Auth.verifyEmail s raw pc).map fun (pc, change) => (.verifyEmail raw pc, change)
  | .resendVerification pendingToken pc =>
    (Auth.resendVerification s pendingToken choice pc).map fun (pc, change) => (.resendVerification pendingToken pc, change)

/-- A call under way fails. -/
def Call.fails : Call Password Hash → Option (Call Password Hash)
  | .login _ (.done _) | .refresh _ (.done _) | .logout _ (.done _) | .requestReset (.done _) | .completeReset _ _ (.done _)
  | .verifyEmail _ (.done _) | .resendVerification _ (.done _) => none
  | .login password _ => some (.login password (.done .failed))
  | .refresh raw _ => some (.refresh raw (.done .failed))
  | .logout raw _ => some (.logout raw (.done .failed))
  | .requestReset _ => some (.requestReset (.done .failed))
  | .completeReset raw newPassword _ => some (.completeReset raw newPassword (.done .failed))
  | .verifyEmail raw _ => some (.verifyEmail raw (.done .failed))
  | .resendVerification pendingToken _ => some (.resendVerification pendingToken (.done .failed))

inductive Request (Password : Type) where
  | login (password : Password)
  | refresh (raw : ℕ)
  | logout (raw : ℕ)
  | requestReset
  | completeReset (raw : ℕ) (newPassword : Password)
  | verifyEmail (raw : ℕ)
  | resendVerification (pendingToken : Option ℕ)
  deriving DecidableEq

def Request.call : Request Password → Call Password Hash
  | .login password => .login password .start
  | .refresh raw => .refresh raw .start
  | .logout raw => .logout raw .start
  | .requestReset => .requestReset .start
  | .completeReset raw newPassword => .completeReset raw newPassword .start
  | .verifyEmail raw => .verifyEmail raw .start
  | .resendVerification pendingToken => .resendVerification pendingToken .start

inductive Action (Password : Type) where
  | request (r : Request Password)
  /-- Call `me` goes on; an update visits row `choice` next. -/
  | step (me choice : ℕ)
  | fail (me : ℕ)
  | tick (ms : ℕ)
  deriving DecidableEq

/-- One step of the system. -/
def State.next (p : Platform Password Hash) (s : State Password Hash) : Action Password → Option (State Password Hash)
  | .request r => some { s with calls := s.calls ++ [r.call] }
  | .step me choice =>
    match s.calls[me]? with
    | none => none
    | some call => (call.next p s choice).map fun (call, change) => { s.change me change with calls := s.calls.set me call }
  | .fail me =>
    match s.calls[me]? with
    | none => none
    | some call => call.fails.map fun call => { s.change me (.commits {}) with calls := s.calls.set me call }
  | .tick ms => some { s with now := s.now + ms }

def Step (p : Platform Password Hash) (s : State Password Hash) (a : Action Password) (s' : State Password Hash) : Prop :=
  s.next p a = some s'

/-- An account with its links, and no session. -/
def initial (user : User Hash) (now : ℤ) (emailTokens : List EmailToken) : State Password Hash where
  now := now
  user := user
  userLock := none
  passwordChanges := 0
  emailTokens := emailTokens.map (⟨·, none⟩)
  refreshTokens := []
  calls := []

/-- Passwords and their hashes are numbers. -/
def numbers : Platform ℕ ℕ where
  verifyPassword password hash := password == hash
  hashPassword password _ := password
  invalidHash := 0
  refreshTtlMs := 604800000

end WebAudit.Auth
