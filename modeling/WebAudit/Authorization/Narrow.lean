import WebAudit.Lib.Refusals
import WebAudit.Lib.Runs
import WebAudit.Authorization.Check
import WebAudit.Intake.Entitlements
import WebAudit.Scans.States

/-!
# Narrowing a grant

`create.ts`, `narrow.ts`, `revoke.ts` of `services/authorization`. `narrowAuthorization` ends a grant and writes another in its
place: with a scope of the caller's choice, with budgets that may only go down, and for what is left of its time.

A call reads the grant, validates what is asked for, and commits in a transaction of its own; any number of calls are under
way. Of a target's row, what is read here is never written again. The terms of a grant are never written again either
(`GrantTerms`); only its end is.
-/

namespace WebAudit.Authorization

open WebAudit.Lib WebAudit.Lib.Uri WebAudit.Scans
open WebAudit.Intake (InputType)

/-! ### Requests -/

/-- What is read of a target. -/
structure TargetRow where
  userId : ℕ
  inputType : InputType
  canonicalValue : Text

structure AuthorizationBudgets (α : Type) where
  requestBudget : α
  concurrencyBudget : α
  durationBudget : α

structure CreateAuthorizationInput where
  targetId : ℕ
  requestingUserId : ℕ
  executionClasses : List ExecutionClass
  scope : ScopeDefinitionInput
  environmentRestriction : List TargetEnvironmentClassification
  budgets : AuthorizationBudgets Num

inductive AuthorizationError where
  | notFound (subjectId : ℕ)
  | controlLevelRequired (targetId : ℕ) (required current : ControlLevel)
  | validation (error : AuthorizationValidationError)
  deriving DecidableEq

def refuse {α : Type} (code message : String) : Except AuthorizationError α := .error (.validation ⟨code, message⟩)

/-- `min` and `max`. -/
def AUTHORIZATION_LIMITS : AuthorizationBudgets (ℤ × ℤ) := ⟨(1, 1000000), (1, 1000), (1, 2592000)⟩

/-- The integers within a limit. -/
abbrev Limited (limit : ℤ × ℤ) := {n : ℤ // limit.1 ≤ n ∧ n ≤ limit.2}

/-- Budgets that have been validated. -/
structure GrantBudgets where
  requestBudget : Limited AUTHORIZATION_LIMITS.requestBudget
  concurrencyBudget : Limited AUTHORIZATION_LIMITS.concurrencyBudget
  durationBudget : Limited AUTHORIZATION_LIMITS.durationBudget

/-- What of a grant is written once, with its scope. -/
structure GrantTerms where
  targetId : ℕ
  userId : ℕ
  executionClasses : List ExecutionClass
  scope : ScopeDefinitionData
  environmentRestriction : List TargetEnvironmentClassification
  budgets : GrantBudgets
  grantedBy : ℕ
  grantedAt : ℤ

/-- `expiresAt = grantedAt + durationBudget seconds`. -/
def GrantTerms.expiresAt (g : GrantTerms) : ℤ := g.grantedAt + g.budgets.durationBudget * 1000

/-- A row; its `id` is its position. -/
structure TargetAuthorization extends GrantTerms where
  revokedAt : Option ℤ := none
  revokedBy : Option ℕ := none

/-! ### Validation -/

/-- `PRODUCTION_FORBIDDEN_CLASSES`. -/
def PRODUCTION_FORBIDDEN_CLASSES : List ExecutionClass := [.activeSecurity, .authenticatedWorkflow, .loadCapacity]

def validateClassesAndEnvironment (input : CreateAuthorizationInput) : Except AuthorizationError Unit :=
  if input.executionClasses.isEmpty ∨ ¬ input.executionClasses.Nodup then
    refuse "EXECUTION_CLASSES_INVALID" "executionClasses must be non-empty, unique and recognized."
  else if input.environmentRestriction.isEmpty then
    refuse "ENVIRONMENT_RESTRICTION_INVALID" "environmentRestriction must be non-empty and recognized."
  else if .production ∈ input.environmentRestriction ∧ input.executionClasses.any PRODUCTION_FORBIDDEN_CLASSES.contains then
    refuse "PRODUCTION_NOT_PERMITTED" "PRODUCTION cannot be authorized for active, authenticated or load execution classes."
  else .ok ()

/-- An integer within the limit, or a refusal with this message. -/
def inRange (limit : ℤ × ℤ) (message : String) : Num → Except AuthorizationError (Limited limit)
  | .int n => if h : limit.1 ≤ n ∧ n ≤ limit.2 then .ok ⟨n, h⟩ else refuse "BUDGET_OUT_OF_RANGE" message
  | .other => refuse "BUDGET_OUT_OF_RANGE" message

def validateBudget (key : String) (limit : ℤ × ℤ) : Num → Except AuthorizationError (Limited limit) :=
  inRange limit s!"{key} must be an integer between {limit.1} and {limit.2}."

def validateBudgets (budgets : AuthorizationBudgets Num) : Except AuthorizationError GrantBudgets := do
  let requestBudget ← validateBudget "requestBudget" AUTHORIZATION_LIMITS.requestBudget budgets.requestBudget
  let concurrencyBudget ← validateBudget "concurrencyBudget" AUTHORIZATION_LIMITS.concurrencyBudget budgets.concurrencyBudget
  let durationBudget ← validateBudget "durationBudget" AUTHORIZATION_LIMITS.durationBudget budgets.durationBudget
  return ⟨requestBudget, concurrencyBudget, durationBudget⟩

def expectedKind : InputType → TargetKind
  | .URL => .web
  | .REPOSITORY | .ARCHIVE => .repository

def validateKind (scope : ScopeDefinitionInput) (target : TargetRow) : Except AuthorizationError Unit :=
  if scope.targetKind ≠ expectedKind target.inputType then
    refuse "SCOPE_KIND_MISMATCH" "Scope kind does not match the Target input type."
  else .ok ()

def nonEmpty {α : Type} (list : Option (List α)) : Bool := !(list.getD []).isEmpty

def validateScopeShape (scope : ScopeDefinitionInput) : Except AuthorizationError Unit :=
  let portsOk := (scope.ports.getD []).all fun port => decide (1 ≤ port ∧ port ≤ 65535)
  let schemesOk := (scope.schemes.getD []).all fun scheme => scheme == ascii "http" || scheme == ascii "https"
  let kindFieldsOk :=
    match scope.targetKind with
    | .web => scope.repositoryFullName.isNone && !nonEmpty scope.includedRefs && !nonEmpty scope.excludedRefs
    | .repository =>
      scope.repositoryFullName.any (fun name => !name.isEmpty) && !nonEmpty scope.includedHosts && !nonEmpty scope.excludedHosts &&
        !nonEmpty scope.schemes && !nonEmpty scope.ports
  if !portsOk || !schemesOk || !kindFieldsOk then
    refuse "SCOPE_MALFORMED" "Scope fields are malformed or belong to the other target kind."
  else .ok ()

/-- `found` is the answer of the query for the target, and `level` that of `reconfirmControl`. -/
def validateGrantRequest (p : Platform) (found : Option TargetRow) (level : ControlLevel) (input : CreateAuthorizationInput) :
    Except AuthorizationError (TargetRow × GrantBudgets) :=
  match found with
  | none => .error (.notFound input.targetId)
  | some target =>
    if controlLevelRank level < controlLevelRank .ATTESTED then
      .error (.controlLevelRequired input.targetId .ATTESTED level)
    else do
      validateClassesAndEnvironment input
      let budgets ← validateBudgets input.budgets
      validateKind input.scope target
      validateScopeShape input.scope
      (validateBounded p input.scope target.canonicalValue).mapError .validation
      return (target, budgets)

def insertGrant (input : CreateAuthorizationInput) (budgets : GrantBudgets) (now : ℤ) : TargetAuthorization where
  targetId := input.targetId
  userId := input.requestingUserId
  executionClasses := input.executionClasses
  scope := input.scope.row
  environmentRestriction := input.environmentRestriction
  budgets := budgets
  grantedBy := input.requestingUserId
  grantedAt := now

/-! ### Narrowing -/

structure NarrowAuthorizationInput where
  originalAuthorizationId : ℕ
  actingUserId : ℕ
  narrowedScope : ScopeDefinitionInput
  /-- `none` where it is left out. -/
  narrowedBudgets : AuthorizationBudgets (Option Num)

def notActive : AuthorizationError :=
  .validation ⟨"GRANT_NOT_ACTIVE", "Only a live grant can be narrowed; this one is revoked, expired or was just replaced."⟩

def TargetAuthorization.isLive (g : TargetAuthorization) (now : ℤ) : Bool := g.revokedAt.isNone && now < g.expiresAt

def narrowedBudget (key : String) (ceiling : ℤ) : Option Num → Except AuthorizationError ℤ
  | none => .ok ceiling
  | some value =>
    (inRange (1, ceiling) s!"{key} may only be narrowed: an integer between 1 and the original's {ceiling}." value).map Subtype.val

def GrantTerms.remainingSeconds (original : GrantTerms) (now : ℤ) : ℤ :=
  max 1 (min original.budgets.durationBudget ((original.expiresAt - now) / 1000))

def narrowedBudgets (original : GrantTerms) (requested : AuthorizationBudgets (Option Num)) (now : ℤ) :
    Except AuthorizationError (AuthorizationBudgets ℤ) := do
  let requestBudget ← narrowedBudget "requestBudget" original.budgets.requestBudget requested.requestBudget
  let concurrencyBudget ← narrowedBudget "concurrencyBudget" original.budgets.concurrencyBudget requested.concurrencyBudget
  let durationBudget ← narrowedBudget "durationBudget" (original.remainingSeconds now) requested.durationBudget
  return ⟨requestBudget, concurrencyBudget, durationBudget⟩

/-- The request for the replacement. -/
def narrowRequest (original : GrantTerms) (input : NarrowAuthorizationInput) (budgets : AuthorizationBudgets ℤ) : CreateAuthorizationInput where
  targetId := original.targetId
  requestingUserId := input.actingUserId
  executionClasses := original.executionClasses
  scope := input.narrowedScope
  environmentRestriction := original.environmentRestriction
  budgets := ⟨.int budgets.requestBudget, .int budgets.concurrencyBudget, .int budgets.durationBudget⟩

/-! ### Calls -/

/-- Where a call is, after its first read. -/
inductive CallPc where
  | validating
  | committing (budgets : GrantBudgets)
  | ended
  | refused (error : AuthorizationError)

structure Call where
  /-- The grant that is to be replaced; a call of `createAuthorization` has none. -/
  original : Option ℕ
  request : CreateAuthorizationInput
  now : ℤ
  pc : CallPc

structure State where
  grants : List TargetAuthorization
  /-- The `authorization.replaced` entries: which grant, and by which. -/
  replaced : List (ℕ × ℕ)
  calls : List Call

inductive Action where
  | createAuthorization (input : CreateAuthorizationInput) (now : ℤ)
  | narrowAuthorization (input : NarrowAuthorizationInput) (now : ℤ)
  /-- A call validates its request: `isThere`, the target is; and `level` is reconfirmed. -/
  | validate (i : ℕ) (isThere : Bool) (level : ControlLevel)
  /-- A call runs its transaction. -/
  | commit (i : ℕ)
  | revokeAuthorization (authorizationId actingUserId : ℕ) (isVerifiedOperator : Bool) (now : ℤ)

namespace State

variable (s : State)

def start : State := ⟨[], [], []⟩

/-- `findFirst({ where: { id, userId } })`. -/
def findGrant (id userId : ℕ) : Option TargetAuthorization := s.grants[id]?.filter fun g => g.userId == userId

/-- What `narrowAuthorization` goes on with. -/
def beginNarrow (input : NarrowAuthorizationInput) (now : ℤ) : Except AuthorizationError CreateAuthorizationInput :=
  match s.findGrant input.originalAuthorizationId input.actingUserId with
  | none => .error (.notFound input.originalAuthorizationId)
  | some original =>
    if original.isLive now then (narrowedBudgets original.toGrantTerms input.narrowedBudgets now).map (narrowRequest original.toGrantTerms input)
    else .error notActive

def revoke (id userId : ℕ) (now : ℤ) : State :=
  { s with grants := s.grants.modify id fun g => { g with revokedAt := some now, revokedBy := some userId } }

def insert (g : TargetAuthorization) : State := { s with grants := s.grants ++ [g] }

def move (i : ℕ) (call : Call) (pc : CallPc) : State := { s with calls := s.calls.set i { call with pc } }

/-- The transaction of a call. -/
def commit (i : ℕ) (call : Call) (budgets : GrantBudgets) : State :=
  let grant := insertGrant call.request budgets call.now
  match call.original with
  | none => (s.insert grant).move i call .ended
  | some id =>
    -- The conditional write: a call that comes too late writes nothing.
    if (s.findGrant id call.request.requestingUserId).any (·.isLive call.now) then
      let s' := ((s.revoke id call.request.requestingUserId call.now).insert grant).move i call .ended
      { s' with replaced := (id, s.grants.length) :: s.replaced }
    else s.move i call (.refused notActive)

end State

section System

variable (p : Platform) (targets : ℕ → Option TargetRow)

def findTarget (id userId : ℕ) : Option TargetRow := (targets id).filter fun target => target.userId == userId

def next (s : State) : Action → Option State
  | .createAuthorization input now => some { s with calls := s.calls ++ [⟨none, input, now, .validating⟩] }
  | .narrowAuthorization input now =>
    match s.beginNarrow input now with
    | .error _ => some s
    | .ok request => some { s with calls := s.calls ++ [⟨some input.originalAuthorizationId, request, now, .validating⟩] }
  | .validate i isThere level =>
    match s.calls[i]? with
    | some ⟨original, request, now, .validating⟩ =>
      let found := if isThere then findTarget targets request.targetId request.requestingUserId else none
      match validateGrantRequest p found level request with
      | .error error => some (s.move i ⟨original, request, now, .validating⟩ (.refused error))
      | .ok (_, budgets) => some (s.move i ⟨original, request, now, .validating⟩ (.committing budgets))
    | _ => none
  | .commit i =>
    match s.calls[i]? with
    | some ⟨original, request, now, .committing budgets⟩ => some (s.commit i ⟨original, request, now, .committing budgets⟩ budgets)
    | _ => none
  | .revokeAuthorization id actingUserId isVerifiedOperator now =>
    let found := if isVerifiedOperator then s.grants[id]? else s.findGrant id actingUserId
    match found with
    | none => some s
    | some grant => if grant.isLive now then some (s.revoke id actingUserId now) else some s

def step (s : State) (a : Action) (s' : State) : Prop := next p targets s a = some s'

end System

/-! ### Within a grant -/

/-- Of the same target and user and for the same classes and environments, with budgets no larger. -/
structure GrantTerms.Within (g g' : GrantTerms) : Prop where
  targetId : g'.targetId = g.targetId
  userId : g'.userId = g.userId
  executionClasses : g'.executionClasses = g.executionClasses
  environmentRestriction : g'.environmentRestriction = g.environmentRestriction
  requestBudget : (g'.budgets.requestBudget : ℤ) ≤ g.budgets.requestBudget
  concurrencyBudget : (g'.budgets.concurrencyBudget : ℤ) ≤ g.budgets.concurrencyBudget
  durationBudget : (g'.budgets.durationBudget : ℤ) ≤ g.budgets.durationBudget

/-- The target's own host or one below it, or the target's repository. -/
def OnTarget (p : Platform) (canonicalValue : Text) : Destination → Prop
  | .web d => ∃ base host, targetHost p canonicalValue = some base ∧ normalizeHost p d.host = some host ∧ Within base host
  | .repository d => p.toLowerCase canonicalValue = p.toLowerCase d.repositoryFullName

/-- Its scope admits only what is on its target. -/
def GrantTerms.Bounded (p : Platform) (targets : ℕ → Option TargetRow) (g : GrantTerms) : Prop :=
  ∃ target, targets g.targetId = some target ∧ ∀ d, isInScope p g.scope d = true → OnTarget p target.canonicalValue d

/-- At least a second of the grant is left when the other one begins. -/
def GrantTerms.InTime (g g' : GrantTerms) : Prop := 1000 ≤ g.expiresAt - g'.grantedAt

structure Replaces (g g' : GrantTerms) : Prop where
  within : g.Within g'
  expiry : g.InTime g' → g'.expiresAt ≤ g.expiresAt

def State.terms (s : State) (i : ℕ) : Option GrantTerms := s.grants[i]?.map (·.toGrantTerms)

/-- By one replacement after the other. -/
def State.Chain (s : State) : ℕ → ℕ → Prop := Relation.ReflTransGen fun i j => (i, j) ∈ s.replaced

/-- Each of them in time. -/
def State.TimelyChain (s : State) : ℕ → ℕ → Prop :=
  Relation.ReflTransGen fun i j => (i, j) ∈ s.replaced ∧ ∃ g g', s.terms i = some g ∧ s.terms j = some g' ∧ g.InTime g'

section Terms

variable {g g' g'' : GrantTerms}

theorem GrantTerms.Within.refl (g : GrantTerms) : g.Within g := ⟨rfl, rfl, rfl, rfl, le_rfl, le_rfl, le_rfl⟩

theorem GrantTerms.Within.trans (h : g.Within g') (h' : g'.Within g'') : g.Within g'' where
  targetId := h'.targetId.trans h.targetId
  userId := h'.userId.trans h.userId
  executionClasses := h'.executionClasses.trans h.executionClasses
  environmentRestriction := h'.environmentRestriction.trans h.environmentRestriction
  requestBudget := h'.requestBudget.trans h.requestBudget
  concurrencyBudget := h'.concurrencyBudget.trans h.concurrencyBudget
  durationBudget := h'.durationBudget.trans h.durationBudget

/-- A clock that starts again is not given: never more than the budget, and while a second is left no more than that. -/
theorem GrantTerms.remainingSeconds_le (now : ℤ) : g.remainingSeconds now ≤ g.budgets.durationBudget :=
  max_le g.budgets.durationBudget.2.1 (min_le_left _ _)

theorem GrantTerms.remainingSeconds_end {now : ℤ} (h : 1000 ≤ g.expiresAt - now) :
    now + g.remainingSeconds now * 1000 ≤ g.expiresAt := by
  have hbudget := g.budgets.durationBudget.2.1
  change (1 : ℤ) ≤ g.budgets.durationBudget at hbudget
  unfold remainingSeconds
  omega

end Terms

/-! ### What a request is -/

/-- Budgets as a request has them. -/
def GrantBudgets.nums (budgets : GrantBudgets) : AuthorizationBudgets Num :=
  ⟨.int budgets.requestBudget, .int budgets.concurrencyBudget, .int budgets.durationBudget⟩

/-- A request for no more than the grant has, at this time. -/
structure Narrowing (g : GrantTerms) (request : CreateAuthorizationInput) (now : ℤ) : Prop where
  targetId : request.targetId = g.targetId
  requestingUserId : request.requestingUserId = g.userId
  executionClasses : request.executionClasses = g.executionClasses
  environmentRestriction : request.environmentRestriction = g.environmentRestriction
  budgets : ∃ n m k : ℤ, request.budgets = ⟨.int n, .int m, .int k⟩ ∧ n ≤ g.budgets.requestBudget ∧
    m ≤ g.budgets.concurrencyBudget ∧ k ≤ g.remainingSeconds now

/-- A request that has been found valid, with these budgets. -/
structure Validated (p : Platform) (targets : ℕ → Option TargetRow) (request : CreateAuthorizationInput) (budgets : GrantBudgets) : Prop where
  budgets : request.budgets = budgets.nums
  scope : ∃ target, targets request.targetId = some target ∧ validateBounded p request.scope target.canonicalValue = .ok ()

section Requests

variable {p : Platform} {targets : ℕ → Option TargetRow} {request : CreateAuthorizationInput} {now : ℤ}

theorem inRange_ok {limit : ℤ × ℤ} {message : String} {value : Num} {n : Limited limit} (h : inRange limit message value = .ok n) :
    value = .int n := by
  cases value with
  | other => cases h
  | int m =>
    unfold inRange at h
    dsimp only at h
    split at h
    · cases h
      rfl
    · cases h

theorem validateBudgets_ok {requested : AuthorizationBudgets Num} {budgets : GrantBudgets} (h : validateBudgets requested = .ok budgets) :
    requested = budgets.nums := by
  obtain ⟨n, hn, h⟩ := bind_ok_iff.mp h
  obtain ⟨m, hm, h⟩ := bind_ok_iff.mp h
  obtain ⟨k, hk, h⟩ := bind_ok_iff.mp h
  cases h
  obtain ⟨_, _, _⟩ := requested
  rw [GrantBudgets.nums, ← inRange_ok hn, ← inRange_ok hm, ← inRange_ok hk]

theorem validateGrantRequest_ok {found : Option TargetRow} {level : ControlLevel} {target : TargetRow} {budgets : GrantBudgets}
    (h : validateGrantRequest p found level request = .ok (target, budgets)) :
    found = some target ∧ request.budgets = budgets.nums ∧ validateBounded p request.scope target.canonicalValue = .ok () := by
  cases found with
  | none => cases h
  | some found =>
    unfold validateGrantRequest at h
    dsimp only at h
    split at h
    · cases h
    obtain ⟨_, -, h⟩ := bind_ok_iff.mp h
    obtain ⟨_, hbudgets, h⟩ := bind_ok_iff.mp h
    obtain ⟨_, -, h⟩ := bind_ok_iff.mp h
    obtain ⟨_, -, h⟩ := bind_ok_iff.mp h
    obtain ⟨_, hbounded, h⟩ := bind_ok_iff.mp h
    cases h
    refine ⟨rfl, validateBudgets_ok hbudgets, ?_⟩
    cases hscope : validateBounded p request.scope target.canonicalValue with
    | ok _ => rfl
    | error e =>
      rw [hscope] at hbounded
      cases hbounded

theorem narrowedBudget_le {key : String} {ceiling n : ℤ} {requested : Option Num} (h : narrowedBudget key ceiling requested = .ok n) :
    n ≤ ceiling := by
  cases requested with
  | none =>
    cases h
    exact le_rfl
  | some value =>
    unfold narrowedBudget at h
    dsimp only at h
    rcases hrange : inRange (1, ceiling) _ value with e | m
    · rw [hrange] at h
      cases h
    · rw [hrange] at h
      cases h
      exact m.2.2

theorem narrowedBudgets_narrowing {g : GrantTerms} {input : NarrowAuthorizationInput} {budgets : AuthorizationBudgets ℤ}
    (h : narrowedBudgets g input.narrowedBudgets now = .ok budgets) (huser : g.userId = input.actingUserId) :
    Narrowing g (narrowRequest g input budgets) now := by
  obtain ⟨n, hn, h⟩ := bind_ok_iff.mp h
  obtain ⟨m, hm, h⟩ := bind_ok_iff.mp h
  obtain ⟨k, hk, h⟩ := bind_ok_iff.mp h
  cases h
  exact
    { targetId := rfl
      requestingUserId := huser.symm
      executionClasses := rfl
      environmentRestriction := rfl
      budgets := ⟨n, m, k, rfl, narrowedBudget_le hn, narrowedBudget_le hm, narrowedBudget_le hk⟩ }

/-- **What is written for a narrowing request** replaces the grant. -/
theorem Narrowing.replaces {g : GrantTerms} {budgets : GrantBudgets} (h : Narrowing g request now) (hvalid : request.budgets = budgets.nums) :
    Replaces g (insertGrant request budgets now).toGrantTerms := by
  obtain ⟨n, m, k, hbudgets, hn, hm, hk⟩ := h.budgets
  rw [hvalid] at hbudgets
  cases hbudgets
  refine ⟨⟨h.targetId, h.requestingUserId, h.executionClasses, h.environmentRestriction, hn, hm, ?_⟩, ?_⟩
  · exact hk.trans (g.remainingSeconds_le now)
  · intro htime
    have hend : now + g.remainingSeconds now * 1000 ≤ g.expiresAt := g.remainingSeconds_end htime
    change now + (budgets.durationBudget : ℤ) * 1000 ≤ g.expiresAt
    omega

theorem isInScope_onTarget {scope : ScopeDefinitionInput} {canonicalValue : Text} {d : Destination}
    (h : validateBounded p scope canonicalValue = .ok ()) (hin : isInScope p scope.row d = true) : OnTarget p canonicalValue d := by
  cases d with
  | web d =>
    obtain ⟨hkind, host, path, hhost, -, hadmits⟩ := isInScope_admits hin
    obtain ⟨base, hbase, hentries⟩ := validateBounded_web hkind h
    obtain ⟨pattern, hmem, hmatch⟩ := hadmits.hosts
    exact ⟨base, host, hbase, hhost, matchesHostPattern_within (hentries pattern (List.mem_append_left _ hmem)) hmatch⟩
  | repository d =>
    rw [isInScope, Bool.and_eq_true, beq_iff_eq] at hin
    obtain ⟨hkind, hin⟩ := hin
    have hname : scope.repositoryFullName = some canonicalValue := by
      unfold validateBounded at h
      rw [show scope.targetKind = .repository from hkind] at h
      dsimp only at h
      split at h
      · assumption
      · cases h
    unfold isInRepositoryScope at hin
    rw [show scope.row.repositoryFullName = some canonicalValue from hname] at hin
    dsimp only at hin
    split at hin
    · cases hin
    · rename_i hsame
      exact not_not.mp hsame

theorem Validated.insertGrant_bounded {budgets : GrantBudgets} (h : Validated p targets request budgets) :
    (insertGrant request budgets now).Bounded p targets := by
  obtain ⟨target, htarget, hbounded⟩ := h.scope
  exact ⟨target, htarget, fun d hin => isInScope_onTarget hbounded hin⟩

end Requests

/-! ### Along a run -/

/-- A call that is under way, in a state. -/
structure Sound (p : Platform) (targets : ℕ → Option TargetRow) (s : State) (call : Call) : Prop where
  original : ∀ id, call.original = some id → ∃ g, s.terms id = some g ∧ Narrowing g call.request call.now
  validated : ∀ budgets, call.pc = .committing budgets → Validated p targets call.request budgets

structure Kept (p : Platform) (targets : ℕ → Option TargetRow) (s : State) : Prop where
  bounded : ∀ i g, s.terms i = some g → g.Bounded p targets
  sound : ∀ call ∈ s.calls, Sound p targets s call
  replaced : ∀ i j, (i, j) ∈ s.replaced → ∃ g g', s.terms i = some g ∧ s.terms j = some g' ∧ Replaces g g'

section Steps

variable {p : Platform} {targets : ℕ → Option TargetRow} {s s' : State} {call : Call} {g : TargetAuthorization} {i j id : ℕ}

theorem terms_insert_of_some {t : GrantTerms} (h : s.terms i = some t) : (s.insert g).terms i = some t := by
  obtain ⟨g', hg', rfl⟩ := Option.map_eq_some_iff.mp h
  have hlt := (List.getElem?_eq_some_iff.mp hg').1
  unfold State.terms State.insert
  rw [List.getElem?_append_left hlt, hg', Option.map_some]

theorem terms_insert_self : (s.insert g).terms s.grants.length = some g.toGrantTerms := by
  unfold State.terms State.insert
  rw [List.getElem?_concat_length, Option.map_some]

theorem terms_insert_cases {t : GrantTerms} (h : (s.insert g).terms i = some t) : s.terms i = some t ∨ t = g.toGrantTerms := by
  obtain ⟨g', hg', rfl⟩ := Option.map_eq_some_iff.mp h
  change (s.grants ++ [g])[i]? = some g' at hg'
  rw [List.getElem?_append] at hg'
  split at hg'
  · exact .inl (Option.map_eq_some_iff.mpr ⟨g', hg', rfl⟩)
  · rw [List.getElem?_singleton] at hg'
    split at hg'
    · cases hg'
      exact .inr rfl
    · cases hg'

theorem terms_revoke (id userId : ℕ) (now : ℤ) : (s.revoke id userId now).terms i = s.terms i := by
  unfold State.terms State.revoke
  rw [List.getElem?_modify]
  cases s.grants[i]? with
  | none => rfl
  | some g =>
    change some (if id = i then _ else g).toGrantTerms = some g.toGrantTerms
    split <;> rfl

theorem Sound.mono (h : Sound p targets s call) (hterms : ∀ i t, s.terms i = some t → s'.terms i = some t) : Sound p targets s' call where
  original id hid := by
    obtain ⟨g, hg, hnarrow⟩ := h.original id hid
    exact ⟨g, hterms id g hg, hnarrow⟩
  validated := h.validated

/-- Where the terms stay as they are, it is the new calls that count. -/
theorem Kept.change (h : Kept p targets s) (hterms : ∀ i, s'.terms i = s.terms i) (hreplaced : s'.replaced = s.replaced)
    (hcalls : ∀ call ∈ s'.calls, call ∈ s.calls ∨ Sound p targets s call) : Kept p targets s' where
  bounded i t ht := h.bounded i t ((hterms i).symm.trans ht)
  sound call hcall := by
    have hsound : Sound p targets s call := (hcalls call hcall).elim (h.sound call) id
    exact hsound.mono fun i t ht => (hterms i).trans ht
  replaced i j hmem := by
    rw [hreplaced] at hmem
    simpa only [hterms] using h.replaced i j hmem

theorem Kept.revoke (h : Kept p targets s) (id userId : ℕ) (now : ℤ) : Kept p targets (s.revoke id userId now) :=
  h.change (fun _ => terms_revoke id userId now) rfl fun _ hcall => .inl hcall

theorem Kept.insert (h : Kept p targets s) (hbounded : g.Bounded p targets) : Kept p targets (s.insert g) where
  bounded i t ht := by
    rcases terms_insert_cases ht with ht | rfl
    · exact h.bounded i t ht
    · exact hbounded
  sound call hcall := (h.sound call hcall).mono fun _ _ => terms_insert_of_some
  replaced i j hmem := by
    obtain ⟨g, g', hg, hg', hreplaces⟩ := h.replaced i j hmem
    exact ⟨g, g', terms_insert_of_some hg, terms_insert_of_some hg', hreplaces⟩

theorem Kept.append (h : Kept p targets s) (hsound : Sound p targets s call) : Kept p targets { s with calls := s.calls ++ [call] } :=
  h.change (fun _ => rfl) rfl fun c hc => by
    rcases List.mem_append.mp hc with hc | hc
    · exact .inl hc
    · exact .inr (List.mem_singleton.mp hc ▸ hsound)

/-- A call goes on; what it commits has been validated. -/
theorem Kept.move {pc : CallPc} (h : Kept p targets s) (hsound : Sound p targets s call)
    (hpc : ∀ budgets, pc = .committing budgets → Validated p targets call.request budgets) : Kept p targets (s.move i call pc) :=
  h.change (fun _ => rfl) rfl fun c hc => by
    rcases List.mem_or_eq_of_mem_set hc with hc | rfl
    · exact .inl hc
    · exact .inr ⟨hsound.original, hpc⟩

theorem Kept.record (h : Kept p targets s) {t t' : GrantTerms} (ht : s.terms i = some t) (ht' : s.terms j = some t')
    (hreplaces : Replaces t t') : Kept p targets { s with replaced := (i, j) :: s.replaced } where
  bounded := h.bounded
  sound call hcall := (h.sound call hcall).mono fun _ _ => id
  replaced i' j' hmem := by
    rcases List.mem_cons.mp hmem with hmem | hmem
    · cases hmem
      exact ⟨t, t', ht, ht', hreplaces⟩
    · exact h.replaced i' j' hmem

theorem Kept.commit {budgets : GrantBudgets} (h : Kept p targets s) (hsound : Sound p targets s call)
    (hvalid : Validated p targets call.request budgets) : Kept p targets (s.commit i call budgets) := by
  have hgrant : (insertGrant call.request budgets call.now).Bounded p targets := hvalid.insertGrant_bounded
  have hended : ∀ b : GrantBudgets, CallPc.ended = .committing b → Validated p targets call.request b := fun b hb => nomatch hb
  unfold State.commit
  dsimp only
  split
  · exact (h.insert hgrant).move (hsound.mono fun _ _ => terms_insert_of_some) hended
  · rename_i id hid
    split
    · obtain ⟨t, ht, hnarrow⟩ := hsound.original id hid
      have hrevoked := h.revoke id call.request.requestingUserId call.now
      have hterms : ∀ i t, s.terms i = some t →
          ((s.revoke id call.request.requestingUserId call.now).insert (insertGrant call.request budgets call.now)).terms i = some t :=
        fun i t ht => terms_insert_of_some ((terms_revoke id _ _).trans ht)
      refine ((hrevoked.insert hgrant).move (hsound.mono hterms) hended).record (hterms id t ht) ?_ (hnarrow.replaces hvalid.budgets)
      have hlength : (s.revoke id call.request.requestingUserId call.now).grants.length = s.grants.length := List.length_modify _ _ _
      rw [← hlength]
      exact terms_insert_self
    · exact h.move hsound fun b hb => nomatch hb

theorem Kept.start : Kept p targets .start where
  bounded _ _ h := nomatch h
  sound _ h := nomatch h
  replaced _ _ h := nomatch h

theorem findGrant_eq_some {userId : ℕ} (h : s.findGrant id userId = some g) : s.terms id = some g.toGrantTerms ∧ g.userId = userId := by
  obtain ⟨hg, huser⟩ := Option.filter_eq_some_iff.mp h
  exact ⟨Option.map_eq_some_iff.mpr ⟨g, hg, rfl⟩, beq_iff_eq.mp huser⟩

theorem beginNarrow_ok {input : NarrowAuthorizationInput} {now : ℤ} {request : CreateAuthorizationInput}
    (h : s.beginNarrow input now = .ok request) :
    ∃ t, s.terms input.originalAuthorizationId = some t ∧ Narrowing t request now := by
  unfold State.beginNarrow at h
  split at h
  · cases h
  · rename_i original hfind
    obtain ⟨hterms, huser⟩ := findGrant_eq_some hfind
    split at h
    · rcases hbudgets : narrowedBudgets original.toGrantTerms input.narrowedBudgets now with e | budgets
      · rw [hbudgets] at h
        cases h
      · rw [hbudgets] at h
        cases h
        exact ⟨original.toGrantTerms, hterms, narrowedBudgets_narrowing hbudgets huser⟩
    · cases h

theorem kept_next {a : Action} (h : Kept p targets s) (hnext : next p targets s a = some s') : Kept p targets s' := by
  cases a with
  | createAuthorization input now =>
    cases hnext
    exact h.append ⟨nofun, nofun⟩
  | narrowAuthorization input now =>
    unfold next at hnext
    dsimp only at hnext
    split at hnext
    · cases hnext
      exact h
    · rename_i request hrequest
      cases hnext
      obtain ⟨t, ht, hnarrow⟩ := beginNarrow_ok hrequest
      refine h.append ⟨?_, nofun⟩
      intro id hid
      cases hid
      exact ⟨t, ht, hnarrow⟩
  | validate i isThere level =>
    unfold next at hnext
    dsimp only at hnext
    split at hnext
    · rename_i original request now hcall
      have hsound := h.sound _ (List.mem_of_getElem? hcall)
      split at hnext
      · cases hnext
        exact h.move hsound nofun
      · rename_i target budgets hvalid
        cases hnext
        refine h.move hsound fun budgets' hpc => ?_
        cases hpc
        obtain ⟨hfound, hbudgets, hbounded⟩ := validateGrantRequest_ok hvalid
        refine ⟨hbudgets, target, ?_, hbounded⟩
        split at hfound
        · exact (Option.filter_eq_some_iff.mp hfound).1
        · cases hfound
    · cases hnext
  | commit i =>
    unfold next at hnext
    dsimp only at hnext
    split at hnext
    · rename_i original request now budgets hcall
      cases hnext
      have hsound := h.sound _ (List.mem_of_getElem? hcall)
      exact h.commit hsound (hsound.validated budgets rfl)
    · cases hnext
  | revokeAuthorization id actingUserId isVerifiedOperator now =>
    unfold next at hnext
    dsimp only at hnext
    split at hnext
    · cases hnext
      exact h
    · split at hnext
      · cases hnext
        exact h.revoke id actingUserId now
      · cases hnext
        exact h

theorem kept_of_run (h : Reaches (step p targets) .start s) : Kept p targets s := h.inv Kept.start fun _ _ _ hkept hstep => kept_next hkept hstep

theorem Kept.chain (h : Kept p targets s) {t : GrantTerms} (ht : s.terms i = some t) (hchain : s.Chain i j) :
    ∃ t', s.terms j = some t' ∧ t.Within t' := by
  induction hchain with
  | refl => exact ⟨t, ht, .refl t⟩
  | tail _ hmem ih =>
    obtain ⟨t', ht', hwithin⟩ := ih
    obtain ⟨u, u', hu, hu', hreplaces⟩ := h.replaced _ _ hmem
    cases ht'.symm.trans hu
    exact ⟨u', hu', hwithin.trans hreplaces.within⟩

theorem Kept.timely_chain (h : Kept p targets s) {t : GrantTerms} (ht : s.terms i = some t) (hchain : s.TimelyChain i j) :
    ∃ t', s.terms j = some t' ∧ t'.expiresAt ≤ t.expiresAt := by
  induction hchain with
  | refl => exact ⟨t, ht, le_rfl⟩
  | tail _ hlink ih =>
    obtain ⟨t', ht', hexpiry⟩ := ih
    obtain ⟨hmem, v, v', hv, hv', htime⟩ := hlink
    obtain ⟨u, u', hu, hu', hreplaces⟩ := h.replaced _ _ hmem
    cases ht'.symm.trans hu
    cases hu.symm.trans hv
    cases hu'.symm.trans hv'
    exact ⟨v', hv', (hreplaces.expiry htime).trans hexpiry⟩

end Steps

/-- **Narrowing only narrows, but for the scope**, which stays on the target. -/
theorem narrowing_narrows (p : Platform) (targets : ℕ → Option TargetRow) {s : State} (h : Reaches (step p targets) .start s) {i j : ℕ}
    {g : GrantTerms} (hg : s.terms i = some g) (hchain : s.Chain i j) :
    ∃ g', s.terms j = some g' ∧ g.Within g' ∧ g'.Bounded p targets ∧ (s.TimelyChain i j → g'.expiresAt ≤ g.expiresAt) := by
  have hkept := kept_of_run h
  obtain ⟨g', hg', hwithin⟩ := hkept.chain hg hchain
  refine ⟨g', hg', hwithin, hkept.bounded j g' hg', fun htimely => ?_⟩
  obtain ⟨u, hu, hexpiry⟩ := hkept.timely_chain hg htimely
  cases hg'.symm.trans hu
  exact hexpiry

/-- A site, of user 1. -/
def siteTargets (id : ℕ) : Option TargetRow := if id = 0 then some ⟨1, .URL, ascii "example.com"⟩ else none

/-- A part of a site. -/
def partScope (start : String) : ScopeDefinitionInput where
  targetKind := .web
  includedHosts := some [ascii "example.com"]
  includedPathPrefixes := some [ascii start]

def siteRequest : CreateAuthorizationInput where
  targetId := 0
  requestingUserId := 1
  executionClasses := [.browser, .crawler]
  scope := partScope "/a"
  environmentRestriction := [.staging]
  budgets := ⟨.int 100, .int 5, .int 60⟩

def narrowSite (id : ℕ) (start : String) (requestBudget : Option Num) : NarrowAuthorizationInput :=
  ⟨id, 1, partScope start, ⟨requestBudget, none, none⟩⟩

def GrantTerms.times (g : GrantTerms) : ℤ × ℤ := (g.grantedAt, g.expiresAt)

/-- Two replacements, the second after most of the time. -/
theorem narrowing_narrows_site : ∃ s : State, ∃ g g' : GrantTerms, s.terms 0 = some g ∧ s.terms 2 = some g' ∧ g.Within g' ∧
    g'.Bounded plain siteTargets ∧ g'.expiresAt ≤ g.expiresAt := by
  obtain ⟨s, hs, hreplaced, h₀, h₁, h₂⟩ := Reaches.exists_of_play (next plain siteTargets) (fun _ _ => true) .start
    [.createAuthorization siteRequest 0, .validate 0 true .ATTESTED, .commit 0,
      .narrowAuthorization (narrowSite 0 "/a/b" none) 10500, .validate 1 true .VERIFIED, .commit 1,
      .narrowAuthorization (narrowSite 1 "/a/b/c" (some (.int 20))) 50700, .validate 2 true .ATTESTED, .commit 2]
    (fun s => s.replaced = [(1, 2), (0, 1)] ∧ (s.terms 0).map GrantTerms.times = some (0, 60000) ∧
      (s.terms 1).map GrantTerms.times = some (10500, 59500) ∧ (s.terms 2).map GrantTerms.times = some (50700, 58700))
    (by decide)
  obtain ⟨g, hg, htimes⟩ := Option.map_eq_some_iff.mp h₀
  obtain ⟨g₁, hg₁, htimes₁⟩ := Option.map_eq_some_iff.mp h₁
  obtain ⟨g₂, hg₂, htimes₂⟩ := Option.map_eq_some_iff.mp h₂
  obtain ⟨-, hend⟩ := Prod.mk.inj htimes
  obtain ⟨hbegin₁, hend₁⟩ := Prod.mk.inj htimes₁
  obtain ⟨hbegin₂, -⟩ := Prod.mk.inj htimes₂
  have hmem : (0, 1) ∈ s.replaced ∧ (1, 2) ∈ s.replaced := by
    rw [hreplaced]
    decide
  have htimely : s.TimelyChain 0 2 := by
    refine (Relation.ReflTransGen.single ⟨hmem.1, g, g₁, hg, hg₁, ?_⟩).tail ⟨hmem.2, g₁, g₂, hg₁, hg₂, ?_⟩
    · unfold GrantTerms.InTime
      omega
    · unfold GrantTerms.InTime
      omega
  obtain ⟨g', hg', hwithin, hbounded, hexpiry⟩ := narrowing_narrows plain siteTargets hs.of_guarded hg
    ((Relation.ReflTransGen.single hmem.1).tail hmem.2)
  exact ⟨s, g, g', hg, hg', hwithin, hbounded, hexpiry htimely⟩

/-- A destination under the root of the site. -/
def outsidePage : Destination := .web ⟨ascii "example.com", ascii "/b", ascii "https", none⟩

/-- A grant for `/a` is narrowed to all of the site, a millisecond before its end; and what replaces it ends later. -/
theorem narrowed_wider : ∃ s : State, Reaches (step plain siteTargets) .start s ∧ (0, 1) ∈ s.replaced ∧ ∃ g g' : GrantTerms,
    s.terms 0 = some g ∧ s.terms 1 = some g' ∧ isInScope plain g'.scope outsidePage = true ∧ isInScope plain g.scope outsidePage = false ∧
      g.expiresAt < g'.expiresAt := by
  obtain ⟨s, hs, hreplaced, h₀, h₁⟩ := Reaches.exists_of_play (next plain siteTargets) (fun _ _ => true) .start
    [.createAuthorization siteRequest 0, .validate 0 true .ATTESTED, .commit 0,
      .narrowAuthorization (narrowSite 0 "/" none) 59999, .validate 1 true .ATTESTED, .commit 1]
    (fun s => s.replaced = [(0, 1)] ∧
      (s.terms 0).map (fun g => (isInScope plain g.scope outsidePage, g.expiresAt)) = some (false, 60000) ∧
      (s.terms 1).map (fun g => (isInScope plain g.scope outsidePage, g.expiresAt)) = some (true, 60999)) (by decide)
  obtain ⟨g, hg, hg'⟩ := Option.map_eq_some_iff.mp h₀
  obtain ⟨g₁, hg₁, hg₁'⟩ := Option.map_eq_some_iff.mp h₁
  obtain ⟨hout, hend⟩ := Prod.mk.inj hg'
  obtain ⟨hin, hend₁⟩ := Prod.mk.inj hg₁'
  refine ⟨s, hs.of_guarded, by rw [hreplaced]; exact List.mem_singleton_self _, g, g₁, hg, hg₁, hin, hout, ?_⟩
  rw [hend, hend₁]
  decide

end WebAudit.Authorization
