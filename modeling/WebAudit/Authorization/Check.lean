import Mathlib.Algebra.Order.Ring.Rat
import Mathlib.Data.List.Sort
import WebAudit.Lib.Furthest
import WebAudit.Authorization.Scope

/-!
# Is it authorized

`isAuthorized` looks through the grants of a target and a user for one that by itself permits an
execution class against a destination. When none does, it answers with the refusal of the grant that
got furthest.

## The model

The database is asked for the grants and, at most once and only when a grant gets that far, for the
classification of the environment; either may fail, with an error in `ε`. Its rows are not trusted:
`wellTyped` says whether the columns that `isUsable` looks at have their types. A date is a time in
milliseconds, `none` for one that is invalid; a count that is not finite is `none`.
-/

namespace WebAudit.Authorization

open WebAudit.Lib WebAudit.Lib.Uri

/-! ### Rows -/

inductive ExecutionClass where
  | browser
  | crawler
  | sourceExecution
  | activeSecurity
  | authenticatedWorkflow
  | loadCapacity
  deriving DecidableEq

inductive TargetEnvironmentClassification where
  | production
  | staging
  | development
  deriving DecidableEq

/-- In milliseconds; `none` is an invalid date. -/
abbrev Date := Option ℤ

/-- The grant fields that state derivation reads. -/
structure DerivableGrant where
  revokedAt : Option Date
  expiresAt : Date
  requestBudget : ℤ
  concurrencyBudget : ℤ

/-- A grant as the query returns it, with its scope. -/
structure AuthorizationGrantRow extends DerivableGrant where
  id : ℕ
  targetId : ℕ
  userId : ℕ
  executionClasses : List ExecutionClass
  environmentRestriction : List TargetEnvironmentClassification
  grantedAt : ℤ
  scope : ScopeDefinitionData
  /-- `id` is a string, the lists are arrays, the dates are dates and `scope` is an object. -/
  wellTyped : Bool := true

/-- What the caller says has been used. -/
structure BudgetConsumption where
  requestsConsumed : Option ℚ
  concurrencyInUse : Option ℚ

structure AuthorizationCheckInput where
  targetId : ℕ
  userId : ℕ
  executionClass : ExecutionClass
  destination : Destination
  now : ℤ
  /-- By grant id. -/
  consumption : ℕ → Option BudgetConsumption := fun _ => none

/-- The two queries, by target and user; the first also by class. -/
structure AuthorizationCheckDb (ε : Type) where
  targetAuthorization : ℕ → ℕ → ExecutionClass → Except ε (List AuthorizationGrantRow)
  targetEnvironment : ℕ → ℕ → Except ε (Option TargetEnvironmentClassification)

/-! ### The state of a grant -/

inductive AuthorizationState where
  | revoked
  | expired
  | budgetExhausted
  | active
  deriving DecidableEq

def isValidCount : Option ℚ → Bool
  | some value => 0 ≤ value
  | none => false

/-- `value >= budget`, for a count. -/
def reaches (value : Option ℚ) (budget : ℤ) : Bool :=
  match value with
  | some value => (budget : ℚ) ≤ value
  | none => false

def isBudgetExhausted (grant : DerivableGrant) (consumption : BudgetConsumption) : Bool :=
  if !isValidCount consumption.requestsConsumed || !isValidCount consumption.concurrencyInUse then true
  else reaches consumption.requestsConsumed grant.requestBudget || reaches consumption.concurrencyInUse grant.concurrencyBudget

def deriveState (grant : DerivableGrant) (now : ℤ) (consumption : Option BudgetConsumption) : AuthorizationState :=
  if grant.revokedAt ≠ none then .revoked
  else
    match grant.expiresAt with
    | none => .expired
    | some expiresAt =>
      if expiresAt ≤ now then .expired
      else
        match consumption with
        | some consumption => if isBudgetExhausted grant consumption then .budgetExhausted else .active
        | none => .active

/-! ### The check -/

inductive RefusalReason where
  | revoked
  | expired
  | budgetExhausted
  | outOfScope
  | environmentUnclassifiedOrNotPermitted
  deriving DecidableEq

structure GrantRefusal where
  reason : RefusalReason
  grantId : ℕ
  deriving DecidableEq

inductive AuthzResult where
  | authorized (grantId : ℕ)
  | noMatchingGrant
  | refused (refusal : GrantRefusal)
  deriving DecidableEq

/-- `REFUSAL_DEPTH`. -/
def refusalDepth : RefusalReason → ℕ
  | .revoked => 1
  | .expired => 1
  | .outOfScope => 2
  | .environmentUnclassifiedOrNotPermitted => 3
  | .budgetExhausted => 4

def GrantRefusal.depth (refusal : GrantRefusal) : ℕ := refusalDepth refusal.reason

def isUsable (grant : AuthorizationGrantRow) : Bool := grant.wellTyped && grant.expiresAt.isSome

/-- The rows that are evaluated: usable, of this target and this user, and for the class. -/
def isCandidate (input : AuthorizationCheckInput) (grant : AuthorizationGrantRow) : Bool :=
  isUsable grant && grant.targetId == input.targetId && grant.userId == input.userId &&
    grant.executionClasses.contains input.executionClass

section

variable {ε : Type}

/-- The class of the environment is read where `environment` is looked at. -/
def evaluateGrant (p : Platform) (environment : Except ε (Option TargetEnvironmentClassification))
    (input : AuthorizationCheckInput) (grant : AuthorizationGrantRow) : Except ε AuthzResult :=
  let grantId := grant.id
  let state := deriveState grant.toDerivableGrant input.now (input.consumption grantId)
  if state = .revoked then .ok (.refused ⟨.revoked, grantId⟩)
  else if state = .expired then .ok (.refused ⟨.expired, grantId⟩)
  else if !isInScope p grant.scope input.destination then .ok (.refused ⟨.outOfScope, grantId⟩)
  else
    match environment with
    | .error e => .error e
    | .ok none => .ok (.refused ⟨.environmentUnclassifiedOrNotPermitted, grantId⟩)
    | .ok (some classification) =>
      if !grant.environmentRestriction.contains classification then
        .ok (.refused ⟨.environmentUnclassifiedOrNotPermitted, grantId⟩)
      else if state = .budgetExhausted then .ok (.refused ⟨.budgetExhausted, grantId⟩)
      else .ok (.authorized grantId)

/-- The answer where no grant authorizes. -/
def answer : Option GrantRefusal → AuthzResult
  | some refusal => .refused refusal
  | none => .noMatchingGrant

/-- The loop over the rows. -/
def walk (p : Platform) (environment : Except ε (Option TargetEnvironmentClassification))
    (input : AuthorizationCheckInput) : Option GrantRefusal → List AuthorizationGrantRow → Except ε AuthzResult
  | furthest, [] => .ok (answer furthest)
  | furthest, grant :: rows =>
    if !isCandidate input grant then walk p environment input furthest rows
    else
      match evaluateGrant p environment input grant with
      | .ok (.refused refusal) => walk p environment input (further GrantRefusal.depth furthest refusal) rows
      | result => result

def isAuthorized (p : Platform) (db : AuthorizationCheckDb ε) (input : AuthorizationCheckInput) : Except ε AuthzResult := do
  let rows ← db.targetAuthorization input.targetId input.userId input.executionClass
  walk p (db.targetEnvironment input.targetId input.userId) input none rows

end

/-! ### What one grant is good for -/

section Standing

variable {ε : Type} {p : Platform} {environment : Except ε (Option TargetEnvironmentClassification)}
  {input : AuthorizationCheckInput} {grant : AuthorizationGrantRow}

/-- A usable grant of this target and this user that lists the class. -/
structure Candidate (input : AuthorizationCheckInput) (grant : AuthorizationGrantRow) : Prop where
  usable : isUsable grant = true
  target : grant.targetId = input.targetId
  user : grant.userId = input.userId
  listed : input.executionClass ∈ grant.executionClasses

/-- Not revoked and not expired at this time. -/
structure Alive (now : ℤ) (grant : DerivableGrant) : Prop where
  unrevoked : grant.revokedAt = none
  unexpired : ∃ expiresAt, grant.expiresAt = some expiresAt ∧ now < expiresAt

/-- Both counts are sound and below the budgets. -/
def WithinBudget (grant : DerivableGrant) (consumption : BudgetConsumption) : Prop :=
  ∃ requests concurrency : ℚ, consumption.requestsConsumed = some requests ∧
    consumption.concurrencyInUse = some concurrency ∧ 0 ≤ requests ∧ requests < grant.requestBudget ∧
    0 ≤ concurrency ∧ concurrency < grant.concurrencyBudget

/-- The environment is classified, as something the grant permits. -/
def Permitted (environment : Except ε (Option TargetEnvironmentClassification)) (grant : AuthorizationGrantRow) : Prop :=
  ∃ classification, environment = .ok (some classification) ∧ classification ∈ grant.environmentRestriction

/-- The grant by itself authorizes what is asked. -/
structure Authorizes (p : Platform) (environment : Except ε (Option TargetEnvironmentClassification))
    (input : AuthorizationCheckInput) (grant : AuthorizationGrantRow) : Prop where
  alive : Alive input.now grant.toDerivableGrant
  scope : isInScope p grant.scope input.destination = true
  permitted : Permitted environment grant
  budget : ∀ consumption, input.consumption grant.id = some consumption →
    WithinBudget grant.toDerivableGrant consumption

/-- The first condition that the grant fails, in the order state, scope, environment, budget. -/
inductive Refuses (p : Platform) (environment : Except ε (Option TargetEnvironmentClassification))
    (input : AuthorizationCheckInput) (grant : AuthorizationGrantRow) : RefusalReason → Prop where
  | revoked (h : grant.revokedAt ≠ none) : Refuses p environment input grant .revoked
  | expired (hrevoked : grant.revokedAt = none) (h : ∀ expiresAt, grant.expiresAt = some expiresAt → expiresAt ≤ input.now) :
      Refuses p environment input grant .expired
  | outOfScope (halive : Alive input.now grant.toDerivableGrant) (h : isInScope p grant.scope input.destination = false) :
      Refuses p environment input grant .outOfScope
  | notPermitted {found : Option TargetEnvironmentClassification} (halive : Alive input.now grant.toDerivableGrant)
      (hscope : isInScope p grant.scope input.destination = true) (henvironment : environment = .ok found)
      (h : ∀ classification, found = some classification → classification ∉ grant.environmentRestriction) :
      Refuses p environment input grant .environmentUnclassifiedOrNotPermitted
  | exhausted {consumption : BudgetConsumption} (halive : Alive input.now grant.toDerivableGrant)
      (hscope : isInScope p grant.scope input.destination = true) (hpermitted : Permitted environment grant)
      (hconsumption : input.consumption grant.id = some consumption) (h : ¬ WithinBudget grant.toDerivableGrant consumption) :
      Refuses p environment input grant .budgetExhausted

theorem isCandidate_iff : isCandidate input grant = true ↔ Candidate input grant := by
  unfold isCandidate
  simp only [Bool.and_eq_true, beq_iff_eq, List.contains_iff_mem]
  constructor
  · rintro ⟨⟨⟨husable, htarget⟩, huser⟩, hlisted⟩
    exact ⟨husable, htarget, huser, hlisted⟩
  · rintro ⟨husable, htarget, huser, hlisted⟩
    exact ⟨⟨⟨husable, htarget⟩, huser⟩, hlisted⟩

theorem isBudgetExhausted_eq_false {grant : DerivableGrant} {consumption : BudgetConsumption} :
    isBudgetExhausted grant consumption = false ↔ WithinBudget grant consumption := by
  unfold isBudgetExhausted WithinBudget
  cases consumption.requestsConsumed with
  | none => simp [isValidCount]
  | some requests =>
    cases consumption.concurrencyInUse with
    | none => simp [isValidCount]
    | some concurrency =>
      simp [isValidCount, reaches]
      grind

theorem deriveState_revoked {grant : DerivableGrant} {now : ℤ} {consumption : Option BudgetConsumption} :
    deriveState grant now consumption = .revoked ↔ grant.revokedAt ≠ none := by
  unfold deriveState
  grind

theorem deriveState_expired {grant : DerivableGrant} {now : ℤ} {consumption : Option BudgetConsumption} :
    deriveState grant now consumption = .expired ↔
      grant.revokedAt = none ∧ ∀ expiresAt, grant.expiresAt = some expiresAt → expiresAt ≤ now := by
  unfold deriveState
  grind

theorem deriveState_exhausted {grant : DerivableGrant} {now : ℤ} {consumption : Option BudgetConsumption} (h : Alive now grant) :
    deriveState grant now consumption = .budgetExhausted ↔
      ∃ c, consumption = some c ∧ ¬ WithinBudget grant c := by
  obtain ⟨expiresAt, hexpires, hlt⟩ := h.unexpired
  unfold deriveState
  rw [if_neg (not_not.mpr h.unrevoked), hexpires]
  dsimp only
  rw [if_neg (not_le.mpr hlt)]
  cases consumption with
  | none => simp
  | some c => simp [← isBudgetExhausted_eq_false]

theorem alive_iff {grant : DerivableGrant} {now : ℤ} {consumption : Option BudgetConsumption} :
    Alive now grant ↔ deriveState grant now consumption ≠ .revoked ∧ deriveState grant now consumption ≠ .expired := by
  rw [Ne, Ne, deriveState_revoked, deriveState_expired, not_not]
  constructor
  · rintro ⟨hunrevoked, expiresAt, hexpires, hlt⟩
    exact ⟨hunrevoked, fun h => absurd (h.2 expiresAt hexpires) (not_le.mpr hlt)⟩
  · rintro ⟨hunrevoked, h⟩
    simp only [hunrevoked, true_and, not_forall, not_le] at h
    obtain ⟨expiresAt, hexpires, hlt⟩ := h
    exact ⟨hunrevoked, expiresAt, hexpires, hlt⟩

/-- **What one grant comes to.** -/
inductive Evaluates (p : Platform) (environment : Except ε (Option TargetEnvironmentClassification))
    (input : AuthorizationCheckInput) (grant : AuthorizationGrantRow) : Except ε AuthzResult → Prop where
  | authorized (h : Authorizes p environment input grant) : Evaluates p environment input grant (.ok (.authorized grant.id))
  | refused {reason : RefusalReason} (h : Refuses p environment input grant reason) :
      Evaluates p environment input grant (.ok (.refused ⟨reason, grant.id⟩))
  | error {e : ε} (halive : Alive input.now grant.toDerivableGrant)
      (hscope : isInScope p grant.scope input.destination = true) (h : environment = .error e) :
      Evaluates p environment input grant (.error e)

variable (p environment input grant) in
theorem evaluateGrant_evaluates : Evaluates p environment input grant (evaluateGrant p environment input grant) := by
  unfold evaluateGrant
  dsimp only
  split
  · rename_i hstate
    exact .refused (.revoked (deriveState_revoked.mp hstate))
  rename_i hrevoked
  split
  · rename_i hstate
    obtain ⟨hunrevoked, hexpired⟩ := deriveState_expired.mp hstate
    exact .refused (.expired hunrevoked hexpired)
  rename_i hexpired
  have halive := alive_iff.mpr ⟨hrevoked, hexpired⟩
  split
  · rename_i hscope
    exact .refused (.outOfScope halive (by simpa using hscope))
  rename_i hscope
  rw [Bool.not_eq_true, Bool.not_eq_false'] at hscope
  split
  · exact .error halive hscope rfl
  · exact .refused (.notPermitted halive hscope rfl nofun)
  rename_i classification
  split
  · rename_i hrestriction
    refine .refused (.notPermitted halive hscope rfl fun _ h => ?_)
    cases h
    simpa using hrestriction
  rename_i hrestriction
  have hpermitted : Permitted (ε := ε) (.ok (some classification)) grant :=
    ⟨classification, rfl, by simpa using hrestriction⟩
  split
  · rename_i hstate
    obtain ⟨consumption, hconsumption, hover⟩ := (deriveState_exhausted halive).mp hstate
    exact .refused (.exhausted halive hscope hpermitted hconsumption hover)
  · rename_i hstate
    refine .authorized ⟨halive, hscope, hpermitted, fun consumption hconsumption => ?_⟩
    by_contra hover
    exact hstate ((deriveState_exhausted halive).mpr ⟨consumption, hconsumption, hover⟩)

end Standing

section Loop

variable {ε : Type} {p : Platform} {environment : Except ε (Option TargetEnvironmentClassification)}
  {input : AuthorizationCheckInput} {grant : AuthorizationGrantRow} {rows rows' : List AuthorizationGrantRow}
  {result result' : Except ε AuthzResult} {refusal : GrantRefusal}

theorem Alive.not_refuses_state (h : Alive input.now grant.toDerivableGrant) :
    ¬ Refuses p environment input grant .revoked ∧ ¬ Refuses p environment input grant .expired := by
  constructor
  · rintro ⟨hrevoked⟩
    exact hrevoked h.unrevoked
  · rintro (_ | ⟨-, hexpired⟩)
    obtain ⟨expiresAt, hexpires, hlt⟩ := h.unexpired
    exact absurd (hexpired expiresAt hexpires) (not_le.mpr hlt)

/-- Nor for what comes before the environment or after it, if that cannot be read. -/
theorem Alive.not_refuses_of_error {e : ε} {reason : RefusalReason} (h : Alive input.now grant.toDerivableGrant)
    (hscope : isInScope p grant.scope input.destination = true) (herror : environment = .error e) :
    ¬ Refuses p environment input grant reason := by
  intro hrefuses
  cases hrefuses with
  | revoked hrevoked => exact hrevoked h.unrevoked
  | expired hunrevoked hexpired =>
    exact h.not_refuses_state.2 (.expired hunrevoked hexpired : Refuses p environment input grant .expired)
  | outOfScope _ hout => exact Bool.false_ne_true (hout.symm.trans hscope)
  | notPermitted _ _ henvironment => cases henvironment.symm.trans herror
  | exhausted _ _ hpermitted =>
    obtain ⟨classification, hclass, -⟩ := hpermitted
    cases hclass.symm.trans herror

/-- A grant that authorizes is not refused. -/
theorem Authorizes.not_refuses (h : Authorizes p environment input grant) (reason : RefusalReason) :
    ¬ Refuses p environment input grant reason := by
  intro hrefuses
  cases hrefuses with
  | revoked hrevoked => exact h.alive.not_refuses_state.1 (.revoked hrevoked : Refuses p environment input grant .revoked)
  | expired hunrevoked hexpired =>
    exact h.alive.not_refuses_state.2 (.expired hunrevoked hexpired : Refuses p environment input grant .expired)
  | outOfScope _ hscope => exact Bool.false_ne_true (hscope.symm.trans h.scope)
  | notPermitted _ _ henvironment hout =>
    obtain ⟨classification, hclass, hmem⟩ := h.permitted
    cases henvironment.symm.trans hclass
    exact hout classification rfl hmem
  | exhausted _ _ _ hconsumption hover => exact hover (h.budget _ hconsumption)

/-- What an evaluation that is refused stands for, and nothing else does. -/
theorem evaluateGrant_refused {reason : RefusalReason} :
    evaluateGrant p environment input grant = .ok (.refused ⟨reason, grant.id⟩) ↔ Refuses p environment input grant reason := by
  constructor
  · intro h
    have hev := evaluateGrant_evaluates p environment input grant
    rw [h] at hev
    cases hev with
    | refused h => exact h
  · intro h
    unfold evaluateGrant
    dsimp only
    cases h with
    | revoked h => rw [if_pos (deriveState_revoked.mpr h)]
    | expired hunrevoked h =>
      rw [if_neg (by simp [deriveState_revoked, hunrevoked]), if_pos (deriveState_expired.mpr ⟨hunrevoked, h⟩)]
    | outOfScope halive h =>
      rw [if_neg (alive_iff.mp halive).1, if_neg (alive_iff.mp halive).2, h]
      rfl
    | @notPermitted found halive hscope henvironment h =>
      rw [if_neg (alive_iff.mp halive).1, if_neg (alive_iff.mp halive).2, hscope, henvironment]
      cases found with
      | none => rfl
      | some classification => simp [h classification rfl]
    | exhausted halive hscope hpermitted hconsumption h =>
      obtain ⟨classification, hclass, hmem⟩ := hpermitted
      rw [if_neg (alive_iff.mp halive).1, if_neg (alive_iff.mp halive).2, hscope, hclass,
        if_pos ((deriveState_exhausted halive).mpr ⟨_, hconsumption, h⟩)]
      simp [hmem]

/-- What a row is refused for, where it is. -/
def refusalOf (p : Platform) (environment : Except ε (Option TargetEnvironmentClassification))
    (input : AuthorizationCheckInput) (grant : AuthorizationGrantRow) : Option GrantRefusal :=
  if isCandidate input grant then
    match evaluateGrant p environment input grant with
    | .ok (.refused refusal) => some refusal
    | _ => none
  else none

theorem refusalOf_eq_some :
    refusalOf p environment input grant = some refusal ↔
      Candidate input grant ∧ refusal.grantId = grant.id ∧ Refuses p environment input grant refusal.reason := by
  unfold refusalOf
  rw [← isCandidate_iff]
  by_cases hc : isCandidate input grant = true
  · rw [if_pos hc]
    have hev := evaluateGrant_evaluates p environment input grant
    generalize hresult : evaluateGrant p environment input grant = result at hev
    obtain ⟨reason, id⟩ := refusal
    have hiff : evaluateGrant p environment input grant = .ok (.refused ⟨reason, grant.id⟩) ↔ Refuses p environment input grant reason :=
      evaluateGrant_refused
    rw [hresult] at hiff
    cases hev with
    | authorized h => simp [h.not_refuses]
    | refused h =>
      simp only [Option.some.injEq, GrantRefusal.mk.injEq, hc, true_and, ← hiff, Except.ok.injEq, AuthzResult.refused.injEq]
      grind
    | error _ _ herror => simp [hc, ← hiff]
  · simp [hc]

variable (p environment input) in
/-- The loop ends at the first candidate that is not refused, or has kept the first of the deepest refusals. -/
theorem walk_cases (found : Option GrantRefusal) (rows : List AuthorizationGrantRow) :
    (∀ grant ∈ rows, Candidate input grant → ∃ reason, Refuses p environment input grant reason) ∧
        walk p environment input found rows =
          .ok (answer ((rows.filterMap (refusalOf p environment input)).foldl (further GrantRefusal.depth) found)) ∨
      ∃ grant ∈ rows, Candidate input grant ∧ (∀ reason, ¬ Refuses p environment input grant reason) ∧
        walk p environment input found rows = evaluateGrant p environment input grant := by
  induction rows generalizing found with
  | nil => exact .inl ⟨fun _ h => (List.not_mem_nil h).elim, rfl⟩
  | cons grant rows ih =>
    unfold walk
    by_cases hc : isCandidate input grant = true
    · rw [if_neg (by simp [hc])]
      have hcandidate := isCandidate_iff.mp hc
      have hev := evaluateGrant_evaluates p environment input grant
      by_cases hrefuses : ∃ reason, Refuses p environment input grant reason
      · obtain ⟨reason, hreason⟩ := hrefuses
        rw [evaluateGrant_refused.mpr hreason]
        have hof : refusalOf p environment input grant = some ⟨reason, grant.id⟩ :=
          refusalOf_eq_some.mpr ⟨hcandidate, rfl, hreason⟩
        rw [List.filterMap_cons_some hof, List.foldl_cons]
        rcases ih (further GrantRefusal.depth found ⟨reason, grant.id⟩) with ⟨hall, hwalk⟩ | ⟨g, hg, hrest⟩
        · refine .inl ⟨fun g hg hgc => ?_, hwalk⟩
          rcases List.mem_cons.mp hg with rfl | hg
          · exact ⟨reason, hreason⟩
          · exact hall g hg hgc
        · exact .inr ⟨g, List.mem_cons_of_mem _ hg, hrest⟩
      · refine .inr ⟨grant, List.mem_cons_self, hcandidate, not_exists.mp hrefuses, ?_⟩
        generalize evaluateGrant p environment input grant = result at hev
        cases hev with
        | authorized => rfl
        | refused h => exact absurd ⟨_, h⟩ hrefuses
        | error => rfl
    · rw [if_pos (by simp [hc])]
      have hof : refusalOf p environment input grant = none := by simp [refusalOf, hc]
      rw [List.filterMap_cons_none hof]
      rcases ih found with ⟨hall, hwalk⟩ | ⟨g, hg, hrest⟩
      · refine .inl ⟨fun g hg hgc => ?_, hwalk⟩
        rcases List.mem_cons.mp hg with rfl | hg
        · exact absurd (isCandidate_iff.mpr hgc) hc
        · exact hall g hg hgc
      · exact .inr ⟨g, List.mem_cons_of_mem _ hg, hrest⟩

/-- The refusal of the first candidate that got as far as any. -/
def GotFurthest (p : Platform) (environment : Except ε (Option TargetEnvironmentClassification))
    (input : AuthorizationCheckInput) (rows : List AuthorizationGrantRow) (refusal : GrantRefusal) : Prop :=
  ∃ before grant after, rows = before ++ grant :: after ∧ Candidate input grant ∧ refusal.grantId = grant.id ∧
    Refuses p environment input grant refusal.reason ∧
    (∀ other ∈ before, Candidate input other → ∀ reason, Refuses p environment input other reason →
      refusalDepth reason < refusal.depth) ∧
    ∀ other ∈ after, Candidate input other → ∀ reason, Refuses p environment input other reason →
      refusalDepth reason ≤ refusal.depth

theorem gotFurthest_of_firstDeepest
    (h : FirstDeepest GrantRefusal.depth (rows.filterMap (refusalOf p environment input)) refusal) :
    GotFurthest p environment input rows refusal := by
  obtain ⟨before, after, hrows, hbefore, hafter⟩ := h
  obtain ⟨front, back, rfl, rfl, hback⟩ := List.filterMap_eq_append_iff.mp hrows
  obtain ⟨skipped, grant, rest, rfl, hskipped, hgrant, rfl⟩ := List.filterMap_eq_cons_iff.mp hback
  obtain ⟨hc, hid, hrefuses⟩ := refusalOf_eq_some.mp hgrant
  have hof {other reason} (hc : Candidate input other) (h : Refuses p environment input other reason) :
      refusalOf p environment input other = some ⟨reason, other.id⟩ := refusalOf_eq_some.mpr ⟨hc, rfl, h⟩
  refine ⟨front ++ skipped, grant, rest, by simp, hc, hid, hrefuses, fun other hother hoc reason hreason => ?_,
    fun other hother hoc reason hreason => hafter _ (List.mem_filterMap.mpr ⟨other, hother, hof hoc hreason⟩)⟩
  rcases List.mem_append.mp hother with hother | hother
  · exact hbefore _ (List.mem_filterMap.mpr ⟨other, hother, hof hoc hreason⟩)
  · exact absurd ((hskipped other hother).symm.trans (hof hoc hreason)) (by simp)

/-- **What the check comes to.** -/
inductive Outcome (p : Platform) (environment : Except ε (Option TargetEnvironmentClassification))
    (input : AuthorizationCheckInput) (rows : List AuthorizationGrantRow) : Except ε AuthzResult → Prop where
  | authorized {grant : AuthorizationGrantRow} (hmem : grant ∈ rows) (hc : Candidate input grant)
      (h : Authorizes p environment input grant) : Outcome p environment input rows (.ok (.authorized grant.id))
  | noMatchingGrant (h : ∀ grant ∈ rows, ¬ Candidate input grant) : Outcome p environment input rows (.ok .noMatchingGrant)
  | refused {refusal : GrantRefusal}
      (hall : ∀ grant ∈ rows, Candidate input grant → ∃ reason, Refuses p environment input grant reason)
      (h : GotFurthest p environment input rows refusal) : Outcome p environment input rows (.ok (.refused refusal))
  | error {grant : AuthorizationGrantRow} {e : ε} (hmem : grant ∈ rows) (hc : Candidate input grant)
      (halive : Alive input.now grant.toDerivableGrant) (hscope : isInScope p grant.scope input.destination = true)
      (h : environment = .error e) : Outcome p environment input rows (.error e)

variable (p environment input) in
theorem walk_outcome (rows : List AuthorizationGrantRow) :
    Outcome p environment input rows (walk p environment input none rows) := by
  rcases walk_cases p environment input none rows with
    ⟨hall, hwalk⟩ | ⟨grant, hmem, hc, hnot, hwalk⟩
  · rw [hwalk]
    change Outcome p environment input rows
      (.ok (answer (furthest GrantRefusal.depth (rows.filterMap (refusalOf p environment input)))))
    cases hfound : furthest GrantRefusal.depth (rows.filterMap (refusalOf p environment input)) with
    | none =>
      refine .noMatchingGrant fun grant hmem hc => ?_
      obtain ⟨reason, hreason⟩ := hall grant hmem hc
      have hnil := List.filterMap_eq_nil_iff.mp (furthest_eq_none.mp hfound) grant hmem
      cases hnil.symm.trans (refusalOf_eq_some.mpr ⟨hc, rfl, hreason⟩ : _ = some ⟨reason, grant.id⟩)
    | some refusal => exact .refused hall (gotFurthest_of_firstDeepest (furthest_eq_some hfound))
  · rw [hwalk]
    have hev := evaluateGrant_evaluates p environment input grant
    generalize evaluateGrant p environment input grant = result at hev
    cases hev with
    | authorized h => exact .authorized hmem hc h
    | refused h => exact absurd h (hnot _)
    | error halive hscope h => exact .error hmem hc halive hscope h

end Loop

/-! ### Order -/

section Order

variable {ε : Type} {p : Platform} {environment : Except ε (Option TargetEnvironmentClassification)}
  {input : AuthorizationCheckInput} {grant : AuthorizationGrantRow} {rows rows' : List AuthorizationGrantRow}
  {result result' : Except ε AuthzResult} {refusal : GrantRefusal}

theorem Refuses.unique {reason reason' : RefusalReason} (h : Refuses p environment input grant reason)
    (h' : Refuses p environment input grant reason') : reason = reason' := by
  have heq := (evaluateGrant_refused.mpr h).symm.trans (evaluateGrant_refused.mpr h')
  simpa using heq

/-- One grant that authorizes is what it takes. -/
theorem Outcome.authorized_iff (h : Outcome p environment input rows result) :
    (∃ id, result = .ok (.authorized id)) ↔ ∃ grant ∈ rows, Candidate input grant ∧ Authorizes p environment input grant := by
  constructor
  · rintro ⟨id, rfl⟩
    cases h with
    | authorized hmem hc h => exact ⟨_, hmem, hc, h⟩
  · rintro ⟨grant, hmem, hc, hauthorizes⟩
    cases h with
    | authorized => exact ⟨_, rfl⟩
    | noMatchingGrant h => exact absurd hc (h grant hmem)
    | refused hall _ =>
      obtain ⟨reason, hreason⟩ := hall grant hmem hc
      exact absurd hreason (hauthorizes.not_refuses reason)
    | error _ _ _ _ herror =>
      obtain ⟨classification, hclass, -⟩ := hauthorizes.permitted
      cases herror.symm.trans hclass

theorem GotFurthest.mem (h : GotFurthest p environment input rows refusal) :
    ∃ grant ∈ rows, Candidate input grant ∧ Refuses p environment input grant refusal.reason := by
  obtain ⟨before, grant, after, rfl, hc, -, hrefuses, -⟩ := h
  exact ⟨grant, by simp, hc, hrefuses⟩

theorem GotFurthest.le (h : GotFurthest p environment input rows refusal) (hmem : grant ∈ rows) (hc : Candidate input grant)
    {reason : RefusalReason} (hrefuses : Refuses p environment input grant reason) : refusalDepth reason ≤ refusal.depth := by
  obtain ⟨before, furthest, after, rfl, -, -, hfurthest, hbefore, hafter⟩ := h
  rcases List.mem_append.mp hmem with hmem | hmem
  · exact (hbefore grant hmem hc reason hrefuses).le
  rcases List.mem_cons.mp hmem with rfl | hmem
  · rw [hrefuses.unique hfurthest]
    exact le_rfl
  · exact hafter grant hmem hc reason hrefuses

/-- The refusals that count as equally far. -/
def RefusalReason.isState (reason : RefusalReason) : Prop := reason = .revoked ∨ reason = .expired

theorem RefusalReason.eq_or_isState {reason reason' : RefusalReason} (h : refusalDepth reason = refusalDepth reason') :
    reason = reason' ∨ reason.isState ∧ reason'.isState := by
  cases reason <;> cases reason' <;> first
    | exact .inl rfl
    | exact .inr ⟨.inl rfl, .inr rfl⟩
    | exact .inr ⟨.inr rfl, .inl rfl⟩
    | cases h

/-- Two answers that differ at most in which grant is named, and in which of the two states. -/
inductive Agree : Except ε AuthzResult → Except ε AuthzResult → Prop where
  | authorized (id id' : ℕ) : Agree (.ok (.authorized id)) (.ok (.authorized id'))
  | noMatchingGrant : Agree (.ok .noMatchingGrant) (.ok .noMatchingGrant)
  | refused {refusal refusal' : GrantRefusal}
      (h : refusal.reason = refusal'.reason ∨ refusal.reason.isState ∧ refusal'.reason.isState) :
      Agree (.ok (.refused refusal)) (.ok (.refused refusal'))
  | error (e : ε) : Agree (.error e) (.error e)

theorem Outcome.agree (h : Outcome p environment input rows result) (h' : Outcome p environment input rows' result')
    (hmem : ∀ grant, grant ∈ rows ↔ grant ∈ rows') : Agree result result' := by
  have hiff := h.authorized_iff
  have hiff' := h'.authorized_iff
  simp only [hmem] at hiff
  rw [← hiff'] at hiff
  cases h with
  | authorized =>
    obtain ⟨id, rfl⟩ := hiff.mp ⟨_, rfl⟩
    exact .authorized _ _
  | noMatchingGrant hnone =>
    cases h' with
    | authorized hmem' hc => exact absurd hc (hnone _ ((hmem _).mpr hmem'))
    | noMatchingGrant => exact .noMatchingGrant
    | refused _ hfar =>
      obtain ⟨grant, hg, hc, -⟩ := hfar.mem
      exact absurd hc (hnone grant ((hmem grant).mpr hg))
    | error hg hc => exact absurd hc (hnone _ ((hmem _).mpr hg))
  | refused hall hfar =>
    obtain ⟨grant, hg, hc, hrefuses⟩ := hfar.mem
    cases h' with
    | authorized => cases (hiff.mpr ⟨_, rfl⟩).choose_spec
    | noMatchingGrant hnone => exact absurd hc (hnone grant ((hmem grant).mp hg))
    | refused hall' hfar' =>
      obtain ⟨grant', hg', hc', hrefuses'⟩ := hfar'.mem
      refine .refused (RefusalReason.eq_or_isState (Nat.le_antisymm ?_ ?_))
      · exact hfar'.le ((hmem grant).mp hg) hc hrefuses
      · exact hfar.le ((hmem grant').mpr hg') hc' hrefuses'
    | error hg' hc' halive hscope herror =>
      obtain ⟨reason, hreason⟩ := hall _ ((hmem _).mpr hg') hc'
      exact (halive.not_refuses_of_error hscope herror hreason).elim
  | error hg hc halive hscope herror =>
    cases h' with
    | authorized => cases (hiff.mpr ⟨_, rfl⟩).choose_spec
    | noMatchingGrant hnone => exact absurd hc (hnone _ ((hmem _).mp hg))
    | refused hall' _ =>
      obtain ⟨reason, hreason⟩ := hall' _ ((hmem _).mp hg) hc
      exact (halive.not_refuses_of_error hscope herror hreason).elim
    | error _ _ _ _ herror' =>
      cases herror.symm.trans herror'
      exact .error _

end Order

/-! ### The tables -/

/-- What the queries are asked of. -/
structure Tables where
  grants : List AuthorizationGrantRow
  /-- By target and owner. -/
  classification : ℕ → ℕ → Option TargetEnvironmentClassification

/-- `grantedAt` descending, then `id`. -/
def AuthorizationGrantRow.before (grant other : AuthorizationGrantRow) : Prop :=
  other.grantedAt < grant.grantedAt ∨ grant.grantedAt = other.grantedAt ∧ grant.id ≤ other.id

instance : DecidableRel AuthorizationGrantRow.before := fun _ _ => inferInstanceAs (Decidable (_ ∨ _))

instance : Std.Total AuthorizationGrantRow.before where
  total _ _ := by
    unfold AuthorizationGrantRow.before
    omega

instance : IsTrans AuthorizationGrantRow AuthorizationGrantRow.before where
  trans _ _ _ h h' := by
    unfold AuthorizationGrantRow.before at *
    omega

def Tables.prisma (ε : Type) (tables : Tables) : AuthorizationCheckDb ε where
  targetAuthorization targetId userId executionClass :=
    .ok ((tables.grants.filter fun grant => grant.targetId == targetId && grant.userId == userId &&
      grant.executionClasses.contains executionClass).insertionSort AuthorizationGrantRow.before)
  targetEnvironment targetId userId := .ok (tables.classification targetId userId)

/-- How the rows are stored does not matter. -/
theorem Tables.prisma_perm {ε : Type} {tables tables' : Tables} (hids : (tables.grants.map (·.id)).Nodup)
    (hperm : tables.grants.Perm tables'.grants) (hclass : tables.classification = tables'.classification) :
    tables.prisma ε = tables'.prisma ε := by
  unfold Tables.prisma
  rw [hclass]
  congr 1
  funext targetId userId executionClass
  congr 1
  refine List.Perm.eq_of_pairwise ?_ (List.pairwise_insertionSort AuthorizationGrantRow.before _)
    (List.pairwise_insertionSort AuthorizationGrantRow.before _) ?_
  · intro a b ha hb hab hba
    have ha' := (List.mem_filter.mp ((List.perm_insertionSort _ _).mem_iff.mp ha)).1
    have hb' := hperm.mem_iff.mpr (List.mem_filter.mp ((List.perm_insertionSort _ _).mem_iff.mp hb)).1
    refine List.inj_on_of_nodup_map hids ha' hb' ?_
    unfold AuthorizationGrantRow.before at hab hba
    omega
  · exact (List.perm_insertionSort _ _).trans ((hperm.filter _).trans (List.perm_insertionSort _ _).symm)

/-! ### Never assembled from parts -/

section Check

variable {ε : Type} {p : Platform} {db : AuthorizationCheckDb ε} {input : AuthorizationCheckInput}
  {rows : List AuthorizationGrantRow}

theorem isAuthorized_outcome
    (hrows : db.targetAuthorization input.targetId input.userId input.executionClass = .ok rows) :
    Outcome p (db.targetEnvironment input.targetId input.userId) input rows (isAuthorized p db input) := by
  have h := walk_outcome p (db.targetEnvironment input.targetId input.userId) input rows
  unfold isAuthorized
  rw [hrows]
  exact h

/-- **One grant authorizes, or the first that got furthest says why none does.** -/
theorem one_grant_authorizes (p : Platform) (db : AuthorizationCheckDb ε) (input : AuthorizationCheckInput)
    (rows : List AuthorizationGrantRow)
    (hrows : db.targetAuthorization input.targetId input.userId input.executionClass = .ok rows) :
    ((∃ id, isAuthorized p db input = .ok (.authorized id)) ↔
      ∃ grant ∈ rows, Candidate input grant ∧
        Authorizes p (db.targetEnvironment input.targetId input.userId) input grant) ∧
    Outcome p (db.targetEnvironment input.targetId input.userId) input rows (isAuthorized p db input) ∧
    (∀ (db' : AuthorizationCheckDb ε) (rows' : List AuthorizationGrantRow),
      db'.targetAuthorization input.targetId input.userId input.executionClass = .ok rows' →
      db'.targetEnvironment input.targetId input.userId = db.targetEnvironment input.targetId input.userId →
      rows'.Perm rows → Agree (isAuthorized p db input) (isAuthorized p db' input)) ∧
    ∀ tables tables' : Tables, (tables.grants.map (·.id)).Nodup → tables.grants.Perm tables'.grants →
      tables.classification = tables'.classification →
      isAuthorized p (tables.prisma ε) input = isAuthorized p (tables'.prisma ε) input := by
  have hout := isAuthorized_outcome (p := p) hrows
  refine ⟨hout.authorized_iff, hout, fun db' rows' hrows' henvironment hperm => ?_,
    fun tables tables' hids hperm hclass => by rw [Tables.prisma_perm hids hperm hclass]⟩
  have hout' := isAuthorized_outcome (p := p) hrows'
  rw [henvironment] at hout'
  exact hout.agree hout' fun grant => hperm.mem_iff.symm

end Check

/-! ### An instance -/

/-- A grant on a site, that nothing has ended. -/
def siteGrant : AuthorizationGrantRow where
  revokedAt := none
  expiresAt := some 2000
  requestBudget := 100
  concurrencyBudget := 2
  id := 1
  targetId := 7
  userId := 3
  executionClasses := [.crawler]
  environmentRestriction := [.staging]
  grantedAt := 500
  scope := siteScope.row

def revokedGrant : AuthorizationGrantRow := { siteGrant with id := 2, revokedAt := some (some 800) }

def expiredGrant : AuthorizationGrantRow := { siteGrant with id := 3, expiresAt := some 900 }

def sitePage : WebDestination where
  host := ascii "app.Example.com."
  path := ascii "/shop"
  scheme := ascii "https"

def siteCheck : AuthorizationCheckInput where
  targetId := 7
  userId := 3
  executionClass := .crawler
  destination := .web sitePage
  now := 1000

/-- A database with these answers. -/
def answering (rows : List AuthorizationGrantRow) : AuthorizationCheckDb Unit where
  targetAuthorization _ _ _ := .ok rows
  targetEnvironment _ _ := .ok (some .staging)

theorem one_grant_authorizes_site :
    (∃ id, isAuthorized plain (answering [revokedGrant, siteGrant]) siteCheck = .ok (.authorized id)) ↔
      ∃ grant ∈ [revokedGrant, siteGrant], Candidate siteCheck grant ∧
        Authorizes plain ((answering [revokedGrant, siteGrant]).targetEnvironment 7 3) siteCheck grant :=
  (one_grant_authorizes plain (answering [revokedGrant, siteGrant]) siteCheck [revokedGrant, siteGrant] rfl).1

example : isAuthorized plain (answering [revokedGrant, siteGrant]) siteCheck = .ok (.authorized 1) := by decide

/-- Revoked and expired grants are equally far: the first of them is named. -/
theorem reason_by_order :
    [revokedGrant, expiredGrant].Perm [expiredGrant, revokedGrant] ∧
      isAuthorized plain (answering [revokedGrant, expiredGrant]) siteCheck = .ok (.refused ⟨.revoked, 2⟩) ∧
      isAuthorized plain (answering [expiredGrant, revokedGrant]) siteCheck = .ok (.refused ⟨.expired, 3⟩) :=
  ⟨.swap _ _ _, by decide, by decide⟩

end WebAudit.Authorization
