import WebAudit.Auth.System
import WebAudit.Runner.Attribute

/-!
# Accounts and the principals that use them

Any number of principals call on the accounts of any addresses: they register, confirm addresses, reset passwords, log
in, refresh, and sign in at a provider (`services/auth`). A raw token is known by the row that holds its hash, and to
one principal: a link that is mailed to the owner of the address, what a registration or a session answers to whom it
answers. A principal types passwords of its own, and a provider says of it what is so (`Permitted`).

A step is one statement, or the commit of a transaction; what an update of several rows has seen, it has seen in its own
statement. Locks are left out: they make calls wait, and a row that a transaction has claimed is looked at when it
commits. Any call may fail at any step. Names, mails, free allocations and the notices of a second registration are left
out.
-/

namespace WebAudit.Auth.Accounts

open WebAudit.Lib WebAudit.Lib.Uri WebAudit.Runner

/-! ### Principals -/

/-- What `bcrypt` and the platform provide, and to whom passwords, addresses and provider users belong. -/
structure Parties (Principal Password Hash : Type) extends Platform Password Hash where
  toLowerCase : Text → Text
  author : Password → Principal
  owner : Text → Principal
  holder : Text → Text → Principal
  /-- A hash is verified by a password of the principal whose password it is of. -/
  author_of_verify : ∀ password password' salt, verifyPassword password' (hashPassword password salt) = true → author password' = author password
  verify_invalid : ∀ password, verifyPassword password invalidHash = false

def verifyPendingTtlMs : ℤ := 60 * 60 * 1000

variable {Principal Password Hash : Type}

/-- Emails are matched case-insensitively. -/
def normalizeEmail (p : Parties Principal Password Hash) (email : Text) : Text := p.toLowerCase (trim email)

/-! ### Rows -/

structure Account (Hash : Type) where
  email : Text
  passwordHash : Option Hash
  emailVerifiedAt : Option ℤ
  deriving DecidableEq

structure Identity where
  provider : Text
  providerUserId : Text
  userId : ℕ
  deriving DecidableEq

/-- A row of `EmailToken`, and who knows its raw token. -/
structure LinkRow (Principal : Type) where
  userId : ℕ
  knower : Principal
  row : EmailToken
  deriving DecidableEq

/-- A row of `RefreshToken`, and who was given its raw token. -/
structure SessionRow (Principal : Type) where
  userId : ℕ
  holder : Principal
  expiresAt : ℤ
  revokedAt : Option ℤ
  deriving DecidableEq

structure OAuthProfile where
  provider : Text
  providerUserId : Text
  email : Text
  emailVerified : Bool
  deriving DecidableEq

/-! ### Calls -/

inductive Ending where
  | answered (outcome : Outcome)
  | unverifiedProviderEmail
  deriving DecidableEq

inductive RegisterPc (Hash : Type) where
  | start
  | hashed (hash : Hash)
  | creating (hash : Hash)
  deriving DecidableEq

inductive VerifyPc where
  | start
  | claiming (userId : ℕ)
  | committing (userId : ℕ) (now : ℤ)
  deriving DecidableEq

inductive ResendInput where
  | email (email : Text)
  | pendingToken (raw : ℕ)
  deriving DecidableEq

inductive ResendPc where
  | start
  | including (userId : ℕ) (pending : EmailToken)
  | issuing (userId : ℕ) (email : Text)
  deriving DecidableEq

inductive RequestPc where
  | start
  | superseding (userId : ℕ)
  | creating (userId : ℕ) (superseded : List ℕ) (usedAt : ℤ)
  deriving DecidableEq

inductive CompletePc (Hash : Type) where
  | start
  | hashing (userId : ℕ)
  | claiming (userId : ℕ) (hash : Hash)
  | revoking (userId : ℕ) (hash : Hash) (usedAt : ℤ)
  | committing (userId : ℕ) (hash : Hash) (usedAt : ℤ) (sessions : List ℕ) (revokedAt : ℤ)
  deriving DecidableEq

inductive LoginPc where
  | start
  | creating (userId : ℕ)
  deriving DecidableEq

inductive RefreshPc where
  | start
  | reading (now : ℤ)
  | claiming (userId : ℕ) (now : ℤ)
  | reused (userId : ℕ)
  deriving DecidableEq

/-- `resolveOAuthIdentity`, and then `issueSessionForUser`. -/
inductive SignInPc where
  | start
  | reading
  | linking (userId : ℕ)
  | joining (userId : ℕ)
  | joined (userId : ℕ) (sessions : List ℕ)
  | creating
  | issuing (userId : ℕ)
  deriving DecidableEq

inductive Call (Password Hash : Type) where
  | register (email : Text) (password : Password) (pc : RegisterPc Hash)
  | verifyEmail (raw : ℕ) (pc : VerifyPc)
  | resendVerification (input : ResendInput) (pc : ResendPc)
  | requestReset (email : Text) (pc : RequestPc)
  | completeReset (raw : ℕ) (newPassword : Password) (pc : CompletePc Hash)
  | login (email : Text) (password : Password) (pc : LoginPc)
  | refresh (raw : ℕ) (pc : RefreshPc)
  | signIn (profile : OAuthProfile) (pc : SignInPc)
  | done (ending : Ending)
  deriving DecidableEq

def Call.isDone : Call Password Hash → Bool
  | .done _ => true
  | _ => false

structure State (Principal Password Hash : Type) where
  now : ℤ
  users : List (Account Hash)
  identities : List Identity
  emailTokens : List (LinkRow Principal)
  refreshTokens : List (SessionRow Principal)
  /-- Who calls, and where the call is. -/
  calls : List (Principal × Call Password Hash)

/-! ### What a commit writes -/

inductive Write (Principal Hash : Type) where
  | nothing
  | registers (account : Account Hash) (registrant : Principal)
  | confirms (raw userId : ℕ) (now : ℤ)
  | mails (superseded : List ℕ) (usedAt : ℤ) (link : LinkRow Principal)
  | resets (raw userId : ℕ) (hash : Hash) (usedAt : ℤ) (sessions : List ℕ) (revokedAt : ℤ)
  | issues (session : SessionRow Principal)
  | rotates (raw : ℕ) (session : SessionRow Principal)
  | revokes (sessions : List ℕ)
  | links (identity : Identity)
  | joins (identity : Identity) (sessions : List ℕ)
  | creates (account : Account Hash) (provider providerUserId : Text)
  deriving DecidableEq

/-- The rows at these positions are rewritten. -/
def markAt {ρ : Type} (ids : List ℕ) (f : ρ → ρ) (rows : List ρ) : List ρ := rows.mapIdx fun i row => if i ∈ ids then f row else row

def useLink (usedAt : ℤ) (link : LinkRow Principal) : LinkRow Principal :=
  if unused link.row then { link with row := use (some usedAt) link.row } else link

def revokeSession (revokedAt : ℤ) (session : SessionRow Principal) : SessionRow Principal :=
  if session.revokedAt.isNone then { session with revokedAt := some revokedAt } else session

namespace State

variable (p : Parties Principal Password Hash) (s : State Principal Password Hash)

def apply : Write Principal Hash → State Principal Password Hash
  | .nothing => s
  | .registers account registrant => { s with
      users := s.users ++ [account]
      emailTokens := s.emailTokens ++ [⟨s.users.length, p.owner account.email, ⟨.verify, s.now + verifyTtlMs, none, s.now⟩⟩,
        ⟨s.users.length, registrant, ⟨.verifyPending, s.now + verifyPendingTtlMs, none, s.now⟩⟩] }
  | .confirms raw userId now => { s with
      emailTokens := markAt [raw] (useLink now) s.emailTokens
      users := markAt [userId] (fun account => { account with emailVerifiedAt := some now }) s.users }
  | .mails superseded usedAt link => { s with emailTokens := markAt superseded (useLink usedAt) s.emailTokens ++ [link] }
  | .resets raw userId hash usedAt sessions revokedAt => { s with
      emailTokens := markAt [raw] (useLink usedAt) s.emailTokens
      users := markAt [userId] (fun account => { account with passwordHash := some hash }) s.users
      refreshTokens := markAt sessions (revokeSession revokedAt) s.refreshTokens }
  | .issues session => { s with refreshTokens := s.refreshTokens ++ [session] }
  | .rotates raw session => { s with refreshTokens := markAt [raw] (revokeSession s.now) s.refreshTokens ++ [session] }
  | .revokes sessions => { s with refreshTokens := markAt sessions (revokeSession s.now) s.refreshTokens }
  | .links identity => { s with identities := s.identities ++ [identity] }
  | .joins identity sessions => { s with
      users := markAt [identity.userId] (fun account => { account with passwordHash := none, emailVerifiedAt := some s.now }) s.users
      identities := s.identities ++ [identity]
      refreshTokens := markAt sessions (revokeSession s.now) s.refreshTokens }
  | .creates account provider providerUserId => { s with
      users := s.users ++ [account]
      identities := s.identities ++ [⟨provider, providerUserId, s.users.length⟩] }

/-! ### What a statement sees -/

def findUser (email : Text) : Option (ℕ × Account Hash) :=
  (s.users.findIdx? (·.email = email)).bind fun userId => s.users[userId]?.map (userId, ·)

/-- `email` is unique. -/
def emailTaken (email : Text) : Bool := s.users.any (·.email = email)

def findIdentity (profile : OAuthProfile) : Option Identity :=
  s.identities.find? fun identity => identity.provider = profile.provider ∧ identity.providerUserId = profile.providerUserId

/-- So is a provider's user. -/
def identityTaken (profile : OAuthProfile) : Bool := (s.findIdentity profile).isSome

def liveSessions (userId : ℕ) : List ℕ :=
  (List.range s.refreshTokens.length).filter fun i => s.refreshTokens[i]?.any fun session => session.userId = userId ∧ session.revokedAt.isNone

def outstandingLinks (userId : ℕ) (purpose : Purpose) : List ℕ :=
  (List.range s.emailTokens.length).filter fun i => s.emailTokens[i]?.any fun link => link.userId = userId ∧ outstanding purpose link.row

/-- The early refusal of `verifyEmail` and `completeReset`. -/
def isPresentable (purpose : Purpose) (link : LinkRow Principal) : Bool :=
  link.row.purpose == purpose && unused link.row && !(link.row.expiresAt < s.now)

end State

/-! ### The calls -/

section Calls

variable [DecidableEq Principal] (p : Parties Principal Password Hash) (s : State Principal Password Hash) (me : Principal)

def answer (outcome : Outcome) : Call Password Hash × Write Principal Hash := (.done (.answered outcome), .nothing)

/-- A principal presents a raw token that it knows. -/
def presentedLink (raw : ℕ) : Option (LinkRow Principal) := s.emailTokens[raw]?.filter (·.knower = me)

def presentedSession (raw : ℕ) : Option (SessionRow Principal) := s.refreshTokens[raw]?.filter (·.holder = me)

def newSession (userId : ℕ) : SessionRow Principal := ⟨userId, me, s.now + p.refreshTtlMs, none⟩

def register (email : Text) (password : Password) (choice : ℕ) : RegisterPc Hash → Call Password Hash × Write Principal Hash
  | .start => (.register email password (.hashed (p.hashPassword password choice)), .nothing)
  | .hashed hash => if s.emailTaken (normalizeEmail p email) then answer .ok else (.register email password (.creating hash), .nothing)
  | .creating hash =>
    if s.emailTaken (normalizeEmail p email) then answer .failed
    else (.done (.answered .ok), .registers ⟨normalizeEmail p email, some hash, none⟩ me)

def verifyEmail (raw : ℕ) : VerifyPc → Call Password Hash × Write Principal Hash
  | .start =>
    match (presentedLink s me raw).filter (s.isPresentable .verify) with
    | some link => (.verifyEmail raw (.claiming link.userId), .nothing)
    | none => answer .tokenInvalid
  | .claiming userId => (.verifyEmail raw (.committing userId s.now), .nothing)
  | .committing userId now =>
    if s.emailTokens[raw]?.any fun link => claimable now link.row then (.done (.answered .ok), .confirms raw userId now) else answer .tokenInvalid

def resendVerification (input : ResendInput) : ResendPc → Call Password Hash × Write Principal Hash
  | .start =>
    match input with
    | .email email =>
      match s.findUser (normalizeEmail p email) with
      | some (userId, account) =>
        if account.emailVerifiedAt.isSome then answer .ok else (.resendVerification input (.issuing userId account.email), .nothing)
      | none => answer .ok
    | .pendingToken raw =>
      match presentedLink s me raw with
      | some link => (.resendVerification input (.including link.userId link.row), .nothing)
      | none => answer .ok
  | .including userId pending =>
    match s.users[userId]? with
    | some account =>
      if pending.purpose ≠ .verifyPending ∨ pending.usedAt.isSome ∨ pending.expiresAt < s.now ∨ account.emailVerifiedAt.isSome then answer .ok
      else (.resendVerification input (.issuing userId account.email), .nothing)
    | none => answer .ok
  | .issuing userId email =>
    -- the user's row is locked from the first statement of the transaction, and no other call issues links of this purpose
    if s.emailTokens.any fun link => link.userId = userId ∧ link.row.purpose = .verify ∧ s.now - resendCooldownMs < link.row.createdAt then answer .ok
    else (.done (.answered .ok), .mails (s.outstandingLinks userId .verify) s.now ⟨userId, p.owner email, ⟨.verify, s.now + verifyTtlMs, none, s.now⟩⟩)

def requestReset (email : Text) : RequestPc → Call Password Hash × Write Principal Hash
  | .start =>
    match s.findUser (normalizeEmail p email) with
    | some (userId, _) => (.requestReset email (.superseding userId), .nothing)
    | none => answer .ok
  | .superseding userId => (.requestReset email (.creating userId (s.outstandingLinks userId .reset) s.now), .nothing)
  | .creating userId superseded usedAt =>
    (.done (.answered .ok), .mails superseded usedAt ⟨userId, p.owner (normalizeEmail p email), ⟨.reset, s.now + resetTtlMs, none, s.now⟩⟩)

def completeReset (raw : ℕ) (newPassword : Password) (choice : ℕ) : CompletePc Hash → Call Password Hash × Write Principal Hash
  | .start =>
    match (presentedLink s me raw).filter (s.isPresentable .reset) with
    | some link => (.completeReset raw newPassword (.hashing link.userId), .nothing)
    | none => answer .tokenInvalid
  | .hashing userId => (.completeReset raw newPassword (.claiming userId (p.hashPassword newPassword choice)), .nothing)
  | .claiming userId hash =>
    if s.emailTokens[raw]?.any fun link => claimable s.now link.row then (.completeReset raw newPassword (.revoking userId hash s.now), .nothing)
    else answer .tokenInvalid
  | .revoking userId hash usedAt => (.completeReset raw newPassword (.committing userId hash usedAt (s.liveSessions userId) s.now), .nothing)
  | .committing userId hash usedAt sessions revokedAt =>
    if s.emailTokens[raw]?.any fun link => unused link.row then (.done (.answered .ok), .resets raw userId hash usedAt sessions revokedAt)
    else answer .tokenInvalid

def login (email : Text) (password : Password) : LoginPc → Call Password Hash × Write Principal Hash
  | .start =>
    match s.findUser (normalizeEmail p email) with
    | some (userId, account) =>
      if p.verifyPassword password (account.passwordHash.getD p.invalidHash) = false then answer .invalidCredentials
      else if account.emailVerifiedAt.isNone then answer .emailNotVerified
      else (.login email password (.creating userId), .nothing)
    | none => answer .invalidCredentials
  | .creating userId => (.done (.answered .ok), .issues (newSession p s me userId))

def refresh (raw : ℕ) : RefreshPc → Call Password Hash × Write Principal Hash
  | .start => (.refresh raw (.reading s.now), .nothing)
  | .reading now =>
    match presentedSession s me raw with
    | none => answer .invalidRefreshToken
    | some session =>
      match session.revokedAt with
      | some revokedAt => if now - revokedAt > reuseGraceMs then (.refresh raw (.reused session.userId), .nothing) else answer .invalidRefreshToken
      | none => if session.expiresAt < now then answer .invalidRefreshToken else (.refresh raw (.claiming session.userId now), .nothing)
  | .claiming userId now =>
    if s.refreshTokens[raw]?.any fun session => session.revokedAt.isNone ∧ now < session.expiresAt then
      (.done (.answered .ok), .rotates raw (newSession p s me userId))
    else answer .invalidRefreshToken
  | .reused userId => (.done (.answered .invalidRefreshToken), .revokes (s.liveSessions userId))

def signIn (profile : OAuthProfile) : SignInPc → Call Password Hash × Write Principal Hash
  | .start =>
    match s.findIdentity profile with
    | some identity => (.signIn profile (.issuing identity.userId), .nothing)
    | none => if profile.emailVerified then (.signIn profile .reading, .nothing) else (.done .unverifiedProviderEmail, .nothing)
  | .reading =>
    match s.findUser (normalizeEmail p profile.email) with
    | some (userId, account) =>
      if account.emailVerifiedAt.isNone then (.signIn profile (.joining userId), .nothing) else (.signIn profile (.linking userId), .nothing)
    | none => (.signIn profile .creating, .nothing)
  | .linking userId =>
    if s.identityTaken profile then answer .failed
    else (.signIn profile (.issuing userId), .links ⟨profile.provider, profile.providerUserId, userId⟩)
  | .joining userId => (.signIn profile (.joined userId (s.liveSessions userId)), .nothing)
  | .joined userId sessions =>
    if s.identityTaken profile then answer .failed
    else (.signIn profile (.issuing userId), .joins ⟨profile.provider, profile.providerUserId, userId⟩ sessions)
  | .creating =>
    if s.emailTaken (normalizeEmail p profile.email) || s.identityTaken profile then answer .failed
    else (.signIn profile (.issuing s.users.length),
      .creates ⟨normalizeEmail p profile.email, none, some s.now⟩ profile.provider profile.providerUserId)
  | .issuing userId => (.done (.answered .ok), .issues (newSession p s me userId))

/-- The next step of a call, and what it commits. -/
def Call.next (choice : ℕ) : Call Password Hash → Option (Call Password Hash × Write Principal Hash)
  | .register email password pc => some (Accounts.register p s me email password choice pc)
  | .verifyEmail raw pc => some (Accounts.verifyEmail s me raw pc)
  | .resendVerification input pc => some (Accounts.resendVerification p s me input pc)
  | .requestReset email pc => some (Accounts.requestReset p s email pc)
  | .completeReset raw newPassword pc => some (Accounts.completeReset p s me raw newPassword choice pc)
  | .login email password pc => some (Accounts.login p s me email password pc)
  | .refresh raw pc => some (Accounts.refresh p s me raw pc)
  | .signIn profile pc => some (Accounts.signIn p s me profile pc)
  | .done _ => none

end Calls

/-! ### Steps -/

inductive Request (Password : Type) where
  | register (email : Text) (password : Password)
  | verifyEmail (raw : ℕ)
  | resendVerification (input : ResendInput)
  | requestReset (email : Text)
  | completeReset (raw : ℕ) (newPassword : Password)
  | login (email : Text) (password : Password)
  | refresh (raw : ℕ)
  | signIn (profile : OAuthProfile)
  deriving DecidableEq

def Request.call : Request Password → Call Password Hash
  | .register email password => .register email password .start
  | .verifyEmail raw => .verifyEmail raw .start
  | .resendVerification input => .resendVerification input .start
  | .requestReset email => .requestReset email .start
  | .completeReset raw newPassword => .completeReset raw newPassword .start
  | .login email password => .login email password .start
  | .refresh raw => .refresh raw .start
  | .signIn profile => .signIn profile .start

section Steps

variable [DecidableEq Principal] (p : Parties Principal Password Hash)

/-- A principal types its own passwords, and a provider vouches for it alone. -/
def permitted (me : Principal) : Request Password → Bool
  | .register _ password | .completeReset _ password | .login _ password => p.author password = me
  | .signIn profile => p.holder profile.provider profile.providerUserId = me ∧ (profile.emailVerified = true → p.owner (normalizeEmail p profile.email) = me)
  | _ => true

inductive Action (Principal Password : Type) where
  | request (me : Principal) (r : Request Password)
  | step (k choice : ℕ)
  | fail (k : ℕ)
  | tick (ms : ℕ)
  deriving DecidableEq

def State.next (s : State Principal Password Hash) : Action Principal Password → Option (State Principal Password Hash)
  | .request me r => if permitted p me r then some { s with calls := s.calls ++ [(me, r.call)] } else none
  | .step k choice => s.calls[k]?.bind fun (me, call) => (call.next p s me choice).map fun (call, write) =>
    { s.apply p write with calls := s.calls.set k (me, call) }
  | .fail k => s.calls[k]?.bind fun (me, call) =>
    if call.isDone then none else some { s with calls := s.calls.set k (me, .done (.answered .failed)) }
  | .tick ms => some { s with now := s.now + ms }

def Step (s : State Principal Password Hash) (a : Action Principal Password) (s' : State Principal Password Hash) : Prop := s.next p a = some s'

end Steps

/-- No account yet. -/
def initial (now : ℤ) : State Principal Password Hash := ⟨now, [], [], [], [], []⟩

end WebAudit.Auth.Accounts
