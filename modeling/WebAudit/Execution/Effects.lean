import WebAudit.Execution.Attempts

/-!
# The effect ledger

`services/execution-runtime/effects.ts` with the part of `fahes_finalize_unit` that abandons effects.
What a host is about to do outside it authorizes first and confirms afterwards; the finalizer abandons
what is then still authorized. Hosts authorize and confirm while finalizers end the unit and while
everything of `Dispatch` goes on.

## The model

* A call is at a statement of its transaction, and the statement says what the transaction has locked
  by then: the row of a unit, shared or for itself, and rows of the ledger. Nobody sees what it has
  written before it commits.
* A statement that needs what another call has locked waits: there is no step for it. A deadlock, a
  lock timeout, or a function that raises is a `throw`, which leaves nothing.
* A finalizer inside an action of `Dispatch` abandons in the same action.
* An `ordinal` is an integer; the code refuses other numbers as it refuses negative ones.
-/

namespace WebAudit.Execution.Effects

open WebAudit.Lib WebAudit.Planning
open ExecutionUnitStatus

/-! ### Rows -/

inductive EffectAuthorizationState where
  | AUTHORIZED
  | CONFIRMED
  | ABANDONED
  deriving DecidableEq

/-- `EffectAuthorization_executionUnitId_attempt_kind_ordinal_key`. -/
structure EffectKey where
  executionUnitId : ℕ
  attempt : ℕ
  kind : String
  ordinal : ℤ
  deriving DecidableEq

structure EffectAuthorization where
  key : EffectKey
  state : EffectAuthorizationState
  deriving DecidableEq

structure EffectInput extends HostIdentity where
  attempt : ℕ
  claimToken : ℕ
  kind : String
  ordinal : ℤ
  leaseClass : LeaseClass
  deriving DecidableEq

def EffectInput.key (x : EffectInput) : EffectKey := ⟨x.executionUnitId, x.attempt, x.kind, x.ordinal⟩

/-- The unit's effects that are neither confirmed nor abandoned. -/
def authorizedKeys (effects : List EffectAuthorization) (i : ℕ) : List EffectKey :=
  (effects.filter fun e => decide (e.key.executionUnitId = i) && decide (e.state = .AUTHORIZED)).map (·.key)

/-- `UPDATE "EffectAuthorization" SET state = …` of the rows that a transaction has locked. -/
def setState (effects : List EffectAuthorization) (keys : List EffectKey) (state : EffectAuthorizationState) : List EffectAuthorization :=
  effects.map fun e => if e.key ∈ keys then { e with state } else e

/-! ### Calls -/

inductive EffectRefusal where
  | INVALID_EFFECT
  | NOT_FOUND
  | STATUS (status : ExecutionUnitStatus)
  | STALE_ATTEMPT
  | CLAIM_MISMATCH
  | cause (cause : PreRunCause)
  | LEASE_LOST
  deriving DecidableEq

inductive EffectAnswer where
  | AUTHORIZED (replayed : Bool)
  | REFUSED (reason : EffectRefusal)
  | confirmed (one : Bool)
  | finalized (result : FinalizeResult)
  deriving DecidableEq

/-- The next statement of `authorizeEffect`, of `confirmEffect`, or of a finalizer. -/
inductive EffectPc where
  | unit (x : EffectInput)
  | claim (x : EffectInput) (u : ExecutionUnit)
  | cause (x : EffectInput) (u : ExecutionUnit) (r : Reading)
  | lease (x : EffectInput) (u : ExecutionUnit)
  | insert (x : EffectInput) (u : ExecutionUnit)
  /-- `COMMIT`, of a row unless it was there. -/
  | authorized (x : EffectInput) (inserted : Bool)
  | confirm (key : EffectKey)
  /-- `COMMIT` of the update. -/
  | confirmed (key : EffectKey)
  | finalize (i : ℕ) (kind : FinalizeKind)
  | abandon (i : ℕ) (kind : FinalizeKind)
  /-- The unit is ended, what depends on it is blocked, and `COMMIT`. -/
  | finalized (i : ℕ) (kind : FinalizeKind) (keys : List EffectKey)
  | returned (answer : EffectAnswer)
  | thrown
  deriving DecidableEq

namespace EffectPc

/-- The unit that is locked for itself alone. -/
def owns : EffectPc → Option ℕ
  | .abandon i _ | .finalized i _ _ => some i
  | _ => none

/-- The unit that is locked with `FOR SHARE`. -/
def shares : EffectPc → Option ℕ
  | .claim x _ | .cause x _ _ | .lease x _ | .insert x _ | .authorized x _ => some x.executionUnitId
  | _ => none

/-- The rows of the ledger that are locked. -/
def rows : EffectPc → List EffectKey
  | .confirmed key => [key]
  | .finalized _ _ keys => keys
  | _ => []

/-- The row that is inserted and not yet committed. -/
def inserts : EffectPc → Option EffectKey
  | .authorized x true => some x.key
  | _ => none

def locks (pc : EffectPc) (i : ℕ) : Bool := decide (pc.shares = some i) || decide (pc.owns = some i)

/-- Nothing more comes of it. -/
def isOver : EffectPc → Bool
  | .returned _ | .thrown => true
  | _ => false

end EffectPc

structure Ledger where
  exec : State
  effects : List EffectAuthorization
  calls : List EffectPc
  deriving DecidableEq

namespace Ledger

variable (s : Ledger)

/-- Some call other than `k` is so. -/
def elsewhere (k : ℕ) (p : EffectPc → Bool) : Bool := s.calls.zipIdx.any fun c => decide (c.2 ≠ k) && p c.1

/-- A unit that a call has locked is not as it was. -/
def disturbs (db : Tables) (pc : EffectPc) : Bool :=
  (pc.shares.toList ++ pc.owns.toList).any fun i => decide (db.units[i]? ≠ s.exec.db.units[i]?)

def commit (db : Tables) (effects : List EffectAuthorization) : Ledger := { s with exec := { s.exec with db }, effects }

/-- The steps of the calls. -/
def callStep (k : ℕ) : EffectPc → Option (Ledger × EffectPc)
  | .unit x =>
    if x.kind = "" ∨ x.ordinal < 0 then some (s, .returned (.REFUSED .INVALID_EFFECT))
    else if s.elsewhere k fun pc => decide (pc.owns = some x.executionUnitId) then none
    else
      match loadUnit s.exec.db x.toHostIdentity with
      | none => some (s, .returned (.REFUSED .NOT_FOUND))
      | some u =>
        if u.status ≠ RUNNING then some (s, .returned (.REFUSED (.STATUS u.status)))
        else if u.attempt ≠ x.attempt then some (s, .returned (.REFUSED .STALE_ATTEMPT))
        else some (s, .claim x u)
  | .claim x u =>
    if s.exec.db.claims.contains ⟨x.executionUnitId, x.attempt, x.hostInstanceId, x.claimToken⟩ then some (s, .cause x u .clock)
    else some (s, .returned (.REFUSED .CLAIM_MISMATCH))
  | .cause x u r =>
    match readCause s.exec.db u u.status ⟨.RUNNING, 0⟩ r with
    | .inl r => some (s, .cause x u r)
    | .inr (.error _) => none
    | .inr (.ok .NONE) => some (s, if x.leaseClass = .L then .lease x u else .insert x u)
    | .inr (.ok cause) => some (s, .returned (.REFUSED (.cause cause)))
  | .lease x u => some (s, if s.exec.db.hasOpenLease x.executionUnitId then .insert x u else .returned (.REFUSED .LEASE_LOST))
  | .insert x _ =>
    if s.elsewhere k fun pc => decide (pc.inserts = some x.key) then none
    else some (s, .authorized x (decide (x.key ∉ s.effects.map (·.key))))
  | .authorized x inserted =>
    some (if inserted then { s with effects := s.effects ++ [⟨x.key, .AUTHORIZED⟩] } else s, .returned (.AUTHORIZED (!inserted)))
  | .confirm key =>
    if s.elsewhere k fun pc => pc.rows.contains key then none
    else some (s, if key ∈ authorizedKeys s.effects key.executionUnitId then .confirmed key else .returned (.confirmed false))
  | .confirmed key => some ({ s with effects := setState s.effects [key] .CONFIRMED }, .returned (.confirmed true))
  | .finalize i kind =>
    if s.elsewhere k fun pc => pc.locks i then none
    else do
      let u ← s.exec.db.units[i]?
      if u.status.isTerminal then some (s, .returned (.finalized ⟨u.status, true⟩))
      else if mayFinalize kind u then some (s, .abandon i kind)
      else none
  | .abandon i kind =>
    let keys := authorizedKeys s.effects i
    if s.elsewhere k fun pc => pc.rows.any (keys.contains ·) then none else some (s, .finalized i kind keys)
  | .finalized i kind keys => do
    let (db, r) ← fahes_finalize_unit s.exec.db i kind
    if s.elsewhere k (s.disturbs db) then none
    else some (s.commit db (setState s.effects keys .ABANDONED), .returned (.finalized r))
  | .returned _ | .thrown => none

end Ledger

/-! ### The machine -/

inductive LedgerAction where
  | exec (a : Action)
  | authorizeEffect (x : EffectInput)
  | confirmEffect (key : EffectKey)
  | finalize (i : ℕ) (kind : FinalizeKind)
  | run (k : ℕ)
  | throw (k : ℕ)
  deriving DecidableEq

/-- The unit that an action of `Dispatch` finalizes. -/
def finalizes (s : State) : Action → Option ℕ
  | .event (.finalize i _) => some i
  | .run k _ => (s.dispatches[k]?).bind fun d =>
    match d.pc with
    | .refusing _ => some d.host.executionUnitId
    | _ => none
  | _ => none

/-- The effects that it abandons: none if the unit is over, which is a replay. -/
def abandons (s : Ledger) (a : Action) : List EffectKey :=
  ((finalizes s.exec a).filter fun i => (s.exec.db.units[i]?).any fun u => !u.status.isTerminal).toList.flatMap
    (authorizedKeys s.effects)

def next (s : Ledger) : LedgerAction → Option Ledger
  | .exec a => do
    let exec ← Execution.next s.exec a
    if s.calls.any fun pc => s.disturbs exec.db pc || pc.rows.any ((abandons s a).contains ·) then none
    else some { s with exec, effects := setState s.effects (abandons s a) .ABANDONED }
  | .authorizeEffect x => some { s with calls := s.calls ++ [.unit x] }
  | .confirmEffect key => some { s with calls := s.calls ++ [.confirm key] }
  | .finalize i kind => some { s with calls := s.calls ++ [.finalize i kind] }
  | .run k => do
    let pc ← s.calls[k]?
    let (s', pc') ← s.callStep k pc
    some { s' with calls := s.calls.set k pc' }
  | .throw k => do
    let pc ← s.calls[k]?
    if pc.isOver then none else some { s with calls := s.calls.set k .thrown }

def step (s : Ledger) (a : LedgerAction) (s' : Ledger) : Prop := next s a = some s'

def Ledger.init : Ledger := ⟨State.init, [], []⟩

/-! ### The rows of the ledger -/

section Rows

variable {effects : List EffectAuthorization} {keys : List EffectKey} {key : EffectKey} {state : EffectAuthorizationState} {i : ℕ}
  {e : EffectAuthorization}

theorem setState_keys : (setState effects keys state).map (·.key) = effects.map (·.key) := by
  rw [setState, List.map_map]
  refine List.map_congr_left fun e _ => ?_
  simp only [Function.comp]
  split <;> rfl

theorem mem_authorizedKeys : key ∈ authorizedKeys effects i ↔ key.executionUnitId = i ∧ ⟨key, .AUTHORIZED⟩ ∈ effects := by
  simp only [authorizedKeys, List.mem_map, List.mem_filter, Bool.and_eq_true, decide_eq_true_eq]
  constructor
  · rintro ⟨⟨key', st⟩, ⟨he, hunit, hst⟩, rfl⟩
    obtain rfl : st = .AUTHORIZED := hst
    exact ⟨hunit, he⟩
  · rintro ⟨hunit, he⟩
    exact ⟨_, ⟨he, hunit, rfl⟩, rfl⟩

/-- A row is updated or as it was. -/
theorem mem_setState (h : e ∈ setState effects keys state) :
    ∃ e₀ ∈ effects, e.key = e₀.key ∧ (e₀.key ∈ keys ∧ e.state = state ∨ e₀.key ∉ keys ∧ e = e₀) := by
  obtain ⟨e₀, he₀, rfl⟩ := List.mem_map.mp h
  refine ⟨e₀, he₀, ?_⟩
  by_cases hk : e₀.key ∈ keys
  · rw [if_pos hk]
    exact ⟨rfl, .inl ⟨hk, rfl⟩⟩
  · rw [if_neg hk]
    exact ⟨rfl, .inr ⟨hk, rfl⟩⟩

theorem mem_setState_of_not_mem (he : e ∈ effects) (hk : e.key ∉ keys) : e ∈ setState effects keys state :=
  List.mem_map.mpr ⟨e, he, if_neg hk⟩

theorem mem_setState_of_mem (he : e ∈ effects) (hk : e.key ∈ keys) : ⟨e.key, state⟩ ∈ setState effects keys state :=
  List.mem_map.mpr ⟨e, he, if_pos hk⟩

/-- Nothing becomes authorized by an update. -/
theorem authorizedKeys_setState (hstate : state ≠ .AUTHORIZED) :
    ∀ key ∈ authorizedKeys (setState effects keys state) i, key ∈ authorizedKeys effects i ∧ key ∉ keys := by
  intro key h
  obtain ⟨hunit, he⟩ := mem_authorizedKeys.mp h
  obtain ⟨e₀, he₀, hkey, ⟨-, hst⟩ | ⟨hk, rfl⟩⟩ := mem_setState he
  · exact absurd hst.symm hstate
  · exact ⟨mem_authorizedKeys.mpr ⟨hunit, he₀⟩, hk⟩

theorem row_unique (hnodup : (effects.map (·.key)).Nodup) {e' : EffectAuthorization} (he : e ∈ effects) (he' : e' ∈ effects)
    (hkey : e.key = e'.key) : e = e' := List.inj_on_of_nodup_map hnodup he he' hkey

end Rows

/-! ### What becomes of a unit with effects -/

/-- A unit that runs or is over is as it was, or it has run, is over now, and `keys` has all of its effects that were
authorized. -/
def Follows (db db' : Tables) (effects : List EffectAuthorization) (keys : List EffectKey) : Prop :=
  ∀ (i : ℕ) (u : ExecutionUnit), db.units[i]? = some u → u.status = RUNNING ∨ u.status.isTerminal = true →
    db'.units[i]? = some u ∨
      u.status = RUNNING ∧ db'.isOver i ∧ ∀ key ∈ authorizedKeys effects i, key ∈ keys

section Units

variable {db db' : Tables} {i : ℕ} {kind : FinalizeKind} {r : FinalizeResult} {effects : List EffectAuthorization}
  {keys : List EffectKey}

theorem Follows.refl (db : Tables) (effects : List EffectAuthorization) (keys : List EffectKey) : Follows db db effects keys :=
  fun _ _ hu _ => .inl hu

theorem not_planned {u : ExecutionUnit} (h : u.status = RUNNING ∨ u.status.isTerminal = true) : u.status ≠ PLANNED := by
  intro hp
  rw [hp] at h
  rcases h with h | h <;> cases h

theorem finalize_follows (h : fahes_finalize_unit db i kind = some (db', r))
    (hkeys : ∀ u : ExecutionUnit, db.units[i]? = some u → u.status.isTerminal = false → ∀ key ∈ authorizedKeys effects i, key ∈ keys) :
    Follows db db' effects keys := by
  intro j u hu hst
  obtain ⟨v, hv, ⟨-, rfl, -⟩ | ⟨hmay, -, units, hmoves, hself, rfl⟩⟩ := finalize_does h
  · exact .inl hu
  obtain ⟨st, hst', rfl | ⟨rfl, -, -⟩ | ⟨hplanned, -⟩⟩ := hmoves.2 j u hu
  · exact .inl hst'
  · obtain rfl := Option.some.inj (hv.symm.trans hu)
    have hlive := mayFinalize_live hmay
    refine .inr ⟨hst.resolve_right (by simp [hlive]), isOver_of hself (kind_terminal kind), hkeys v hu hlive⟩
  · exact absurd hplanned (not_planned hst)

theorem passive_follows (h : fahes_complete_passive_unit db i = some (db', r)) : Follows db db' effects keys := by
  intro j u hu hst
  obtain ⟨rfl, -⟩ | ⟨-, -, units, hmoves, rfl⟩ := passive_does h
  · exact .inl hu
  obtain ⟨st, hst', rfl | ⟨-, -, hplanned, -⟩⟩ := hmoves.2 j u hu
  · exact .inl hst'
  · exact absurd hplanned (not_planned hst)

theorem event_follows {e : Event} (h : db.event e = some db')
    (hkeys : ∀ j kind, e = .finalize j kind → ∀ u : ExecutionUnit, db.units[j]? = some u → u.status.isTerminal = false →
      ∀ key ∈ authorizedKeys effects j, key ∈ keys) : Follows db db' effects keys := by
  cases e with
  | tick ms | createScan scan | setScan i scan | setModule result | setStop k | closeLease n =>
    cases h
    exact .refl _ _ _
  | plan plan units edges =>
    simp only [Tables.event] at h
    split at h <;> cases h
    intro j u hu _
    exact .inl ((List.getElem?_append_left (List.getElem?_eq_some_iff.mp hu).1).trans hu)
  | renewLease n =>
    simp only [Tables.event] at h
    split at h <;> cases h
    exact .refl _ _ _
  | finalize j kind =>
    obtain ⟨⟨db₁, r⟩, hf, rfl⟩ := Option.map_eq_some_iff.mp h
    exact finalize_follows hf (hkeys j kind rfl)
  | completePassive j =>
    obtain ⟨⟨db₁, r⟩, hf, rfl⟩ := Option.map_eq_some_iff.mp h
    exact passive_follows hf

/-- A transition of a dispatch is none of a unit that runs. -/
theorem cas_follows {edge : HostEdge} {units : List ExecutionUnit} (hbefore : db.statusOf i = some edge.before)
    (h : setStatus db.units i false edge.after = some units) : Follows db { db with units } effects keys := by
  intro j u hu hst
  obtain ⟨st, hst', rfl | ⟨rfl, -, -⟩⟩ := (setStatus_moves h).2 j u hu
  · exact .inl hst'
  · rw [statusOf_eq hu] at hbefore
    rw [Option.some.inj hbefore] at hst
    cases edge <;> rcases hst with hst | hst <;> cases hst

end Units

theorem mem_abandons {s : Ledger} {a : Action} {i : ℕ} {u : ExecutionUnit} {key : EffectKey} (ha : finalizes s.exec a = some i)
    (hu : s.exec.db.units[i]? = some u) (hlive : u.status.isTerminal = false) (hkey : key ∈ authorizedKeys s.effects i) :
    key ∈ abandons s a := by
  have hfilter : (some i).filter (fun i => (s.exec.db.units[i]?).any fun u => !u.status.isTerminal) = some i := by
    simp [Option.filter, hu, hlive]
  rw [abandons, ha, hfilter]
  simpa using hkey

/-- **Whatever goes on besides**: a unit that runs is ended with its effects, or left as it is. -/
theorem exec_follows {s : Ledger} {a : Action} {exec : State} (h : Execution.step s.exec a exec) :
    Follows s.exec.db exec.db s.effects (abandons s a) := by
  cases a with
  | event e =>
    obtain ⟨db', he, rfl⟩ := Option.map_eq_some_iff.mp h
    refine event_follows he ?_
    rintro j kind rfl u hu hlive key hkey
    exact mem_abandons rfl hu hlive hkey
  | call host leaseClass margin =>
    cases h
    exact .refl _ _ _
  | run k answer =>
    obtain ⟨d, hk, h⟩ := Option.bind_eq_some_iff.mp h
    obtain ⟨⟨db', pc'⟩, hstep, h⟩ := Option.bind_eq_some_iff.mp h
    cases h
    show Follows s.exec.db db' s.effects _
    cases dispatch_does rfl hstep with
    | same _ _ | claim _ _ _ | lease _ | free _ => exact fun _ _ hu _ => .inl hu
    | cas _ hbefore hunits _ => exact cas_follows hbefore hunits
    | @finalize _ r reason outcome hpc hf _ =>
      refine finalize_follows hf fun u hu hlive key hkey => mem_abandons ?_ hu hlive hkey
      simp [finalizes, hk, hpc]
  | throw k =>
    obtain ⟨d, hk, h⟩ := Option.bind_eq_some_iff.mp h
    split at h <;> cases h
    exact .refl _ _ _

/-! ### The invariant -/

/-- Every effect is of a unit that runs, or of one that is over and then it is not authorized; and no effect is there twice. -/
structure Kept (db : Tables) (effects : List EffectAuthorization) : Prop where
  nodup : (effects.map (·.key)).Nodup
  units : ∀ e ∈ effects, db.statusOf e.key.executionUnitId = some RUNNING ∨
    db.isOver e.key.executionUnitId ∧ e.state ≠ .AUTHORIZED

/-- What a call has seen is still so, for what it has locked. -/
structure Fits (db : Tables) (effects : List EffectAuthorization) (pc : EffectPc) : Prop where
  shares : ∀ i, pc.shares = some i → db.statusOf i = some RUNNING
  rows : ∀ key ∈ pc.rows, ⟨key, .AUTHORIZED⟩ ∈ effects
  inserts : ∀ key, pc.inserts = some key → key ∉ effects.map (·.key)
  /-- The finalizer has found every effect that it has to abandon. -/
  all : ∀ i kind keys, pc = .finalized i kind keys → ∀ key ∈ authorizedKeys effects i, key ∈ keys

/-- Neither has locked what the other has locked, unless both share a unit. -/
structure Apart (pc pc' : EffectPc) : Prop where
  units : ∀ i, pc.owns = some i → pc'.locks i = false
  rows : ∀ key ∈ pc.rows, key ∉ pc'.rows
  inserts : ∀ key, pc.inserts = some key → pc'.inserts ≠ some key

structure Sound (s : Ledger) : Prop where
  kept : Kept s.exec.db s.effects
  fits : ∀ (k : ℕ) (pc : EffectPc), s.calls[k]? = some pc → Fits s.exec.db s.effects pc
  apart : ∀ (j k : ℕ) (pc pc' : EffectPc), j ≠ k → s.calls[j]? = some pc → s.calls[k]? = some pc' → Apart pc pc'

section Rows

variable {db db' : Tables} {effects : List EffectAuthorization} {keys : List EffectKey} {state : EffectAuthorizationState}
  {pc : EffectPc} {key : EffectKey}

/-- Rows are updated, and units are ended only together with their effects. -/
theorem Kept.update (h : Kept db effects) (hf : Follows db db' effects keys) (hstate : state ≠ .AUTHORIZED) :
    Kept db' (setState effects keys state) := by
  refine ⟨setState_keys.symm ▸ h.nodup, fun e he => ?_⟩
  obtain ⟨e₀, he₀, hkey, hrow⟩ := mem_setState he
  rw [hkey]
  have hdone : e₀.state ≠ .AUTHORIZED ∨ e₀.key ∈ keys → e.state ≠ .AUTHORIZED := by
    rintro hor
    rcases hrow with ⟨-, hst⟩ | ⟨hk, rfl⟩
    · exact hst ▸ hstate
    · exact hor.resolve_right hk
  rcases h.units e₀ he₀ with hrun | ⟨hover, hne⟩
  · obtain ⟨u, hu, hst⟩ := unit_of_status hrun
    rcases hf _ u hu (.inl hst) with hsame | ⟨-, hover, hkeys⟩
    · exact .inl (hst ▸ statusOf_eq hsame)
    · refine .inr ⟨hover, hdone ?_⟩
      by_cases hst₀ : e₀.state = .AUTHORIZED
      · exact .inr (hkeys _ (mem_authorizedKeys.mpr ⟨rfl, hst₀ ▸ he₀⟩))
      · exact .inl hst₀
  · obtain ⟨st, hst, hterm⟩ := hover
    obtain ⟨u, hu, rfl⟩ := unit_of_status hst
    rcases hf _ u hu (.inr hterm) with hsame | ⟨hrun, -, -⟩
    · exact .inr ⟨isOver_of hsame hterm, hdone (.inl hne)⟩
    · rw [hrun] at hterm
      cases hterm

/-- A row is inserted, of a unit that runs. -/
theorem Kept.insert (h : Kept db effects) (hrun : db.statusOf key.executionUnitId = some RUNNING)
    (hnew : key ∉ effects.map (·.key)) : Kept db (effects ++ [⟨key, .AUTHORIZED⟩]) := by
  refine ⟨?_, forall_mem_concat h.units (.inl hrun)⟩
  rw [List.map_append, List.map_singleton, ← List.concat_eq_append]
  exact h.nodup.concat hnew

/-- Others update rows that a call has not locked. -/
theorem Fits.update (h : Fits db effects pc) (hunits : ∀ i, pc.shares = some i → db'.units[i]? = db.units[i]?)
    (hrows : ∀ key ∈ pc.rows, key ∉ keys) (hstate : state ≠ .AUTHORIZED) : Fits db' (setState effects keys state) pc := by
  refine ⟨fun i hi => ?_, fun key hkey => ?_, fun key hkey => ?_, fun i kind keys' hpc key hkey => ?_⟩
  · rw [Tables.statusOf, hunits i hi]
    exact h.shares i hi
  · exact mem_setState_of_not_mem (h.rows key hkey) (hrows key hkey)
  · rw [setState_keys]
    exact h.inserts key hkey
  · exact h.all i kind keys' hpc key (authorizedKeys_setState hstate key hkey).1

/-- Others insert a row that the call does not, of a unit that it has not locked for itself. -/
theorem Fits.insert (h : Fits db effects pc) (hnew : pc.inserts ≠ some key) (hunit : pc.owns ≠ some key.executionUnitId) :
    Fits db (effects ++ [⟨key, .AUTHORIZED⟩]) pc := by
  refine ⟨h.shares, fun key' hkey => List.mem_append_left _ (h.rows key' hkey), fun key' hkey hmem => ?_, ?_⟩
  · rw [List.map_append, List.mem_append] at hmem
    rcases hmem with hmem | hmem
    · exact h.inserts key' hkey hmem
    · obtain rfl := List.mem_singleton.mp hmem
      exact hnew hkey
  · rintro i kind keys rfl key' hkey
    obtain ⟨hi, he⟩ := mem_authorizedKeys.mp hkey
    rcases List.mem_append.mp he with he | he
    · exact h.all i kind keys rfl key' (mem_authorizedKeys.mpr ⟨hi, he⟩)
    · cases List.mem_singleton.mp he
      exact absurd (congrArg some hi.symm) hunit

end Rows

/-- It has locked nothing. -/
structure EffectPc.Free (pc : EffectPc) : Prop where
  owns : pc.owns = none
  shares : pc.shares = none
  rows : pc.rows = []
  inserts : pc.inserts = none

section Calls

variable {s : Ledger} {k : ℕ} {pc pc' q : EffectPc}

theorem EffectPc.Free.fits (h : pc.Free) (db : Tables) (effects : List EffectAuthorization) : Fits db effects pc := by
  refine ⟨fun i hi => ?_, fun key hkey => ?_, fun key hkey => ?_, ?_⟩
  · rw [h.shares] at hi
    cases hi
  · rw [h.rows] at hkey
    cases hkey
  · rw [h.inserts] at hkey
    cases hkey
  · rintro i kind keys rfl
    cases h.owns

theorem EffectPc.Free.apart (h : pc.Free) (q : EffectPc) : Apart pc q ∧ Apart q pc := by
  refine ⟨⟨fun i hi => ?_, fun key hkey => ?_, fun key hkey => ?_⟩, fun i _ => ?_, fun key _ => ?_, fun key _ => ?_⟩
  · rw [h.owns] at hi
    cases hi
  · rw [h.rows] at hkey
    cases hkey
  · rw [h.inserts] at hkey
    cases hkey
  · simp [EffectPc.locks, h.owns, h.shares]
  · rw [h.rows]
    exact List.not_mem_nil
  · rw [h.inserts]
    simp

theorem Ledger.elsewhere_false {p : EffectPc → Bool} (h : s.elsewhere k p = false) {j : ℕ} (hjk : j ≠ k) (hj : s.calls[j]? = some q) :
    p q = false := by
  rw [Ledger.elsewhere, List.any_eq_false] at h
  have hmem : (q, j) ∈ s.calls.zipIdx := List.mem_zipIdx_iff_getElem?.mpr hj
  simpa [hjk] using h _ hmem

theorem Ledger.undisturbed {db : Tables} (h : s.disturbs db pc = false) {i : ℕ} (hi : pc.locks i = true) :
    db.units[i]? = s.exec.db.units[i]? := by
  rw [Ledger.disturbs, List.any_eq_false] at h
  have hmem : i ∈ pc.shares.toList ++ pc.owns.toList := by simpa [EffectPc.locks] using hi
  simpa using h i hmem

/-- A call goes on, and nothing is written. -/
theorem Sound.goes (hs : Sound s) (hfits : Fits s.exec.db s.effects pc')
    (hapart : ∀ j q, j ≠ k → s.calls[j]? = some q → Apart pc' q ∧ Apart q pc') : Sound { s with calls := s.calls.set k pc' } := by
  refine ⟨hs.kept, fun j q hj => ?_, fun i j p q hij hi hj => ?_⟩
  · by_cases e : k = j
    · subst e
      rw [List.getElem?_set_self'] at hj
      obtain ⟨-, -, rfl⟩ := Option.map_eq_some_iff.mp hj
      exact hfits
    · exact hs.fits j q ((List.getElem?_set_ne e).symm.trans hj)
  · by_cases ei : k = i
    · subst ei
      rw [List.getElem?_set_self'] at hi
      obtain ⟨-, -, rfl⟩ := Option.map_eq_some_iff.mp hi
      exact (hapart j q (Ne.symm hij) ((List.getElem?_set_ne hij).symm.trans hj)).1
    · have hi := (List.getElem?_set_ne ei).symm.trans hi
      by_cases ej : k = j
      · subst ej
        rw [List.getElem?_set_self'] at hj
        obtain ⟨-, -, rfl⟩ := Option.map_eq_some_iff.mp hj
        exact (hapart i p hij hi).2
      · exact hs.apart i j p q hij hi ((List.getElem?_set_ne ej).symm.trans hj)

/-- A call comes to its end. -/
theorem Sound.ends (hs : Sound s) (h : pc'.Free) : Sound { s with calls := s.calls.set k pc' } :=
  hs.goes (h.fits _ _) fun _ q _ _ => h.apart q

/-- A call is made. -/
theorem Sound.called (hs : Sound s) (h : pc.Free) : Sound { s with calls := s.calls ++ [pc] } := by
  refine ⟨hs.kept, fun j q hj => ?_, fun i j p q hij hi hj => ?_⟩
  · rcases getElem?_concat_cases hj with rfl | hj
    · exact h.fits _ _
    · exact hs.fits j q hj
  · rcases getElem?_concat_cases hi with rfl | hi
    · exact (h.apart q).1
    · rcases getElem?_concat_cases hj with rfl | hj
      · exact (h.apart p).2
      · exact hs.apart i j p q hij hi hj

theorem Apart.of_shares (h : Apart q pc ∧ Apart pc q) (howns : pc'.owns = none) (hshares : pc'.shares = pc.shares) (hrows : pc'.rows = [])
    (hinserts : ∀ key, pc'.inserts = some key → q.inserts ≠ some key) : Apart pc' q ∧ Apart q pc' := by
  refine ⟨⟨fun i hi => ?_, fun key hkey => ?_, hinserts⟩, fun i hi => ?_, fun key _ => ?_, fun key hkey hkey' => hinserts key hkey' hkey⟩
  · rw [howns] at hi
    cases hi
  · rw [hrows] at hkey
    cases hkey
  · have hlocks := h.1.units i hi
    simp only [EffectPc.locks, Bool.or_eq_false_iff, decide_eq_false_iff_not] at hlocks ⊢
    rw [howns, hshares]
    exact ⟨hlocks.1, by simp⟩
  · rw [hrows]
    exact List.not_mem_nil

/-- What a step writes, if anything. -/
inductive Writes (s : Ledger) : Tables → List EffectAuthorization → Prop where
  | nothing : Writes s s.exec.db s.effects
  | insert {key : EffectKey} (hrun : s.exec.db.statusOf key.executionUnitId = some RUNNING) (hnew : key ∉ s.effects.map (·.key)) :
      Writes s s.exec.db (s.effects ++ [⟨key, .AUTHORIZED⟩])
  | update {db : Tables} {keys : List EffectKey} {state : EffectAuthorizationState} (hf : Follows s.exec.db db s.effects keys)
      (hrows : ∀ key ∈ keys, ⟨key, .AUTHORIZED⟩ ∈ s.effects) (hstate : state ≠ .AUTHORIZED) :
      Writes s db (setState s.effects keys state)

theorem Writes.kept {db : Tables} {effects : List EffectAuthorization} (h : Writes s db effects) (hs : Kept s.exec.db s.effects) :
    Kept db effects := by
  cases h with
  | nothing => exact hs
  | insert hrun hnew => exact hs.insert hrun hnew
  | update hf _ hstate => exact hs.update hf hstate

/-- A call commits: what it has written leaves alone what the others have locked. -/
theorem Sound.commits (hs : Sound s) {s' : Ledger} (hcalls : s'.calls = s.calls.set k pc') (hw : Writes s s'.exec.db s'.effects)
    (hfree : pc'.Free) (hfits : ∀ (j : ℕ) q, j ≠ k → s.calls[j]? = some q → Fits s'.exec.db s'.effects q) : Sound s' := by
  have hends := hs.ends (k := k) hfree
  refine ⟨hw.kept hs.kept, fun j q hj => ?_, fun i j p q hij hi hj => ?_⟩
  · rw [hcalls] at hj
    by_cases e : k = j
    · subst e
      rw [List.getElem?_set_self'] at hj
      obtain ⟨-, -, rfl⟩ := Option.map_eq_some_iff.mp hj
      exact hfree.fits _ _
    · exact hfits j q (Ne.symm e) ((List.getElem?_set_ne e).symm.trans hj)
  · rw [hcalls] at hi hj
    exact hends.apart i j p q hij hi hj

theorem free_returned (answer : EffectAnswer) : (EffectPc.returned answer).Free := ⟨rfl, rfl, rfl, rfl⟩

/-- From one statement under the shared lock to the next. -/
theorem Sound.shares (hs : Sound s) (hk : s.calls[k]? = some pc) (howns : pc'.owns = none) (hshares : pc'.shares = pc.shares)
    (hrows : pc'.rows = []) (hinserts : pc'.inserts = none) : Sound { s with calls := s.calls.set k pc' } := by
  have hfits := hs.fits k pc hk
  refine hs.goes ⟨fun i hi => hfits.shares i (hshares ▸ hi), fun key hkey => ?_, fun key hkey => ?_, ?_⟩ fun j q hjk hj => ?_
  · rw [hrows] at hkey
    cases hkey
  · rw [hinserts] at hkey
    cases hkey
  · rintro i kind keys rfl
    cases howns
  · refine Apart.of_shares ⟨hs.apart j k q pc hjk hj hk, hs.apart k j pc q (Ne.symm hjk) hk hj⟩ howns hshares hrows fun key hkey => ?_
    rw [hinserts] at hkey
    cases hkey

theorem inserts_authorized {x : EffectInput} {b : Bool} {key : EffectKey} :
    (EffectPc.authorized x b).inserts = some key ↔ b = true ∧ x.key = key := by
  cases b <;> simp [EffectPc.inserts]

/-- The row is there, or nobody else inserts it. -/
theorem Sound.inserts (hs : Sound s) {x : EffectInput} {u : ExecutionUnit} (hk : s.calls[k]? = some (.insert x u))
    (hfree : s.elsewhere k (fun pc => decide (pc.inserts = some x.key)) = false) :
    Sound { s with calls := s.calls.set k (.authorized x (decide (x.key ∉ s.effects.map (·.key)))) } := by
  refine hs.goes ⟨(hs.fits k _ hk).shares, fun key hkey => (List.not_mem_nil hkey).elim, fun key hkey => ?_, nofun⟩ fun j q hjk hj => ?_
  · obtain ⟨hnew, rfl⟩ := inserts_authorized.mp hkey
    exact of_decide_eq_true hnew
  · refine Apart.of_shares ⟨hs.apart j k q _ hjk hj hk, hs.apart k j _ q (Ne.symm hjk) hk hj⟩ rfl rfl rfl fun key hkey => ?_
    obtain ⟨-, rfl⟩ := inserts_authorized.mp hkey
    exact of_decide_eq_false (Ledger.elsewhere_false hfree hjk hj)

/-- A call takes a lock, or more of them. -/
theorem Sound.confirms (hs : Sound s) {key : EffectKey} (hfree : s.elsewhere k (fun pc => pc.rows.contains key) = false)
    (hrow : key ∈ authorizedKeys s.effects key.executionUnitId) : Sound { s with calls := s.calls.set k (.confirmed key) } := by
  refine hs.goes ⟨nofun, fun key' hkey => ?_, nofun, nofun⟩ fun j q hjk hj => ?_
  · obtain rfl := List.mem_singleton.mp hkey
    exact (mem_authorizedKeys.mp hrow).2
  · have hq : key ∉ q.rows := by simpa using Ledger.elsewhere_false hfree hjk hj
    refine ⟨⟨nofun, fun key' hkey => ?_, nofun⟩, fun i _ => ?_, fun key' hkey hkey' => ?_, fun key' _ => nofun⟩
    · obtain rfl := List.mem_singleton.mp hkey
      exact hq
    · simp [EffectPc.locks, EffectPc.shares, EffectPc.owns]
    · obtain rfl := List.mem_singleton.mp hkey'
      exact hq hkey

theorem Sound.locks (hs : Sound s) {i : ℕ} {kind : FinalizeKind} (hfree : s.elsewhere k (fun pc => pc.locks i) = false) :
    Sound { s with calls := s.calls.set k (.abandon i kind) } := by
  refine hs.goes ⟨nofun, nofun, nofun, nofun⟩ fun j q hjk hj => ?_
  have hq := Ledger.elsewhere_false hfree hjk hj
  refine ⟨⟨fun i' hi => ?_, nofun, nofun⟩, fun i' hi => ?_, fun key _ => List.not_mem_nil, fun key _ => nofun⟩
  · obtain rfl := Option.some.inj hi
    exact hq
  · simp only [EffectPc.locks, Bool.or_eq_false_iff, decide_eq_false_iff_not] at hq
    have hne : i ≠ i' := by
      rintro rfl
      exact hq.2 hi
    simp [EffectPc.locks, EffectPc.shares, EffectPc.owns, hne]

theorem Sound.abandons (hs : Sound s) {i : ℕ} {kind : FinalizeKind} (hk : s.calls[k]? = some (.abandon i kind))
    (hfree : s.elsewhere k (fun pc => pc.rows.any ((authorizedKeys s.effects i).contains ·)) = false) :
    Sound { s with calls := s.calls.set k (.finalized i kind (authorizedKeys s.effects i)) } := by
  refine hs.goes ⟨nofun, fun key hkey => (mem_authorizedKeys.mp hkey).2, nofun, ?_⟩ fun j q hjk hj => ?_
  · rintro i' kind' keys he key hkey
    cases he
    exact hkey
  · have hq : ∀ key ∈ q.rows, key ∉ authorizedKeys s.effects i := by simpa using Ledger.elsewhere_false hfree hjk hj
    have hunits := hs.apart j k q _ hjk hj hk
    exact ⟨⟨(hs.apart k j _ q (Ne.symm hjk) hk hj).units, fun key hkey hkey' => hq key hkey' hkey, nofun⟩,
      hunits.units, hq, fun key _ => nofun⟩

/-- The unit is share-locked from here on. -/
theorem Sound.reads (hs : Sound s) {x : EffectInput} {u : ExecutionUnit}
    (hfree : s.elsewhere k (fun pc => decide (pc.owns = some x.executionUnitId)) = false)
    (hu : loadUnit s.exec.db x.toHostIdentity = some u) (hrun : u.status = RUNNING) :
    Sound { s with calls := s.calls.set k (.claim x u) } := by
  refine hs.goes ⟨fun i hi => ?_, nofun, nofun, nofun⟩ fun j q hjk hj => ?_
  · obtain rfl := Option.some.inj hi
    exact hrun ▸ statusOf_eq (loadUnit_some hu).1
  · have hq := of_decide_eq_false (Ledger.elsewhere_false hfree hjk hj)
    refine ⟨⟨nofun, nofun, nofun⟩, fun i hi => ?_, fun key _ => List.not_mem_nil, fun key _ => nofun⟩
    have hne : x.executionUnitId ≠ i := by
      rintro rfl
      exact hq hi
    simp [EffectPc.locks, EffectPc.shares, EffectPc.owns, hne]

/-- **A statement of a call.** -/
theorem Sound.call (hs : Sound s) (hk : s.calls[k]? = some pc) {s₁ : Ledger} (h : s.callStep k pc = some (s₁, pc')) :
    Sound { s₁ with calls := s.calls.set k pc' } ∧ Writes s s₁.exec.db s₁.effects := by
  have hfits := hs.fits k pc hk
  have hends {answer : EffectAnswer} : Sound { s with calls := s.calls.set k (.returned answer) } ∧ Writes s s.exec.db s.effects :=
    ⟨hs.ends (free_returned answer), .nothing⟩
  cases pc with
  | unit x =>
    simp only [Ledger.callStep] at h
    split at h
    · cases h
      exact hends
    split at h
    · cases h
    rename_i hfree
    split at h
    · cases h
      exact hends
    rename_i u hu
    split at h
    · cases h
      exact hends
    rename_i hrun
    split at h <;> cases h
    · exact hends
    · exact ⟨hs.reads (by simpa using hfree) hu (not_not.mp hrun), .nothing⟩
  | claim x u =>
    simp only [Ledger.callStep] at h
    split at h <;> cases h
    · exact ⟨hs.shares hk rfl rfl rfl rfl, .nothing⟩
    · exact hends
  | cause x u r =>
    simp only [Ledger.callStep] at h
    split at h
    · cases h
      exact ⟨hs.shares hk rfl rfl rfl rfl, .nothing⟩
    · cases h
    · cases h
      split
      · exact ⟨hs.shares hk rfl rfl rfl rfl, .nothing⟩
      · exact ⟨hs.shares hk rfl rfl rfl rfl, .nothing⟩
    · cases h
      exact hends
  | lease x u =>
    cases h
    split
    · exact ⟨hs.shares hk rfl rfl rfl rfl, .nothing⟩
    · exact hends
  | insert x u =>
    simp only [Ledger.callStep] at h
    split at h <;> cases h
    rename_i hfree
    exact ⟨hs.inserts hk (by simpa using hfree), .nothing⟩
  | authorized x inserted =>
    cases h
    cases inserted with
    | false => exact hends
    | true =>
      have hnew := hfits.inserts x.key rfl
      have hw : Writes s s.exec.db (s.effects ++ [⟨x.key, .AUTHORIZED⟩]) := .insert (hfits.shares _ rfl) hnew
      refine ⟨hs.commits rfl hw (free_returned _) fun j q hjk hj => ?_, hw⟩
      have hapart := hs.apart j k q _ hjk hj hk
      refine (hs.fits j q hj).insert (fun hq => hapart.inserts _ hq rfl) fun hq => ?_
      have hlocks := hapart.units _ hq
      simp [EffectPc.locks, EffectPc.shares, EffectInput.key] at hlocks
  | confirm key =>
    simp only [Ledger.callStep] at h
    split at h <;> cases h
    rename_i hfree
    split
    · rename_i hrow
      exact ⟨hs.confirms (by simpa using hfree) hrow, .nothing⟩
    · exact hends
  | confirmed key =>
    cases h
    have hw : Writes s s.exec.db (setState s.effects [key] .CONFIRMED) := .update (.refl _ _ _) hfits.rows nofun
    refine ⟨hs.commits rfl hw (free_returned _) fun j q hjk hj => ?_, hw⟩
    exact (hs.fits j q hj).update (fun _ _ => rfl) (hs.apart j k q _ hjk hj hk).rows nofun
  | finalize i kind =>
    simp only [Ledger.callStep] at h
    split at h
    · cases h
    rename_i hfree
    obtain ⟨u, hu, h⟩ := Option.bind_eq_some_iff.mp h
    split at h
    · cases h
      exact hends
    split at h <;> cases h
    exact ⟨hs.locks (by simpa using hfree), .nothing⟩
  | abandon i kind =>
    simp only [Ledger.callStep] at h
    split at h <;> cases h
    rename_i hfree
    exact ⟨hs.abandons hk (by simpa using hfree), .nothing⟩
  | finalized i kind keys =>
    obtain ⟨⟨db, r⟩, hf, h⟩ := Option.bind_eq_some_iff.mp h
    dsimp only at h
    split at h <;> cases h
    rename_i hfree
    replace hfree : s.elsewhere k (s.disturbs db) = false := by simpa using hfree
    have hw : Writes s db (setState s.effects keys .ABANDONED) :=
      .update (finalize_follows hf fun _ _ _ => hfits.all i kind keys rfl) hfits.rows nofun
    refine ⟨hs.commits rfl hw (free_returned _) fun j q hjk hj => ?_, hw⟩
    refine (hs.fits j q hj).update (fun i' hi => ?_) (hs.apart j k q _ hjk hj hk).rows nofun
    exact Ledger.undisturbed (Ledger.elsewhere_false hfree hjk hj) (by simp [EffectPc.locks, hi])
  | returned answer => cases h
  | thrown => cases h

end Calls

section Steps

variable {s s' : Ledger} {a : LedgerAction}

theorem abandons_rows {a : Action} {key : EffectKey} (h : key ∈ abandons s a) : ⟨key, .AUTHORIZED⟩ ∈ s.effects := by
  obtain ⟨i, -, hkey⟩ := List.mem_flatMap.mp h
  exact (mem_authorizedKeys.mp hkey).2

/-- **Every action keeps the invariant**, and writes to the ledger as `Writes` says. -/
theorem Sound.step (hs : Sound s) (h : step s a s') : Sound s' ∧ Writes s s'.exec.db s'.effects := by
  cases a with
  | exec a =>
    obtain ⟨exec, he, h⟩ := Option.bind_eq_some_iff.mp h
    split at h <;> cases h
    rename_i hfree
    have hw : Writes s exec.db (setState s.effects (Effects.abandons s a) .ABANDONED) :=
      .update (exec_follows he) (fun _ => abandons_rows) nofun
    refine ⟨⟨hw.kept hs.kept, fun k pc hk => ?_, hs.apart⟩, hw⟩
    have hpc := List.any_eq_false.mp (eq_false_of_ne_true hfree) pc (List.mem_of_getElem? hk)
    simp only [Bool.or_eq_true, not_or] at hpc
    refine (hs.fits k pc hk).update (fun i hi => ?_) (fun key hkey hmem => hpc.2 ?_) nofun
    · exact Ledger.undisturbed (eq_false_of_ne_true hpc.1) (by simp [EffectPc.locks, hi])
    · exact List.any_eq_true.mpr ⟨key, hkey, by simpa using hmem⟩
  | authorizeEffect x =>
    cases h
    exact ⟨hs.called ⟨rfl, rfl, rfl, rfl⟩, .nothing⟩
  | confirmEffect key =>
    cases h
    exact ⟨hs.called ⟨rfl, rfl, rfl, rfl⟩, .nothing⟩
  | finalize i kind =>
    cases h
    exact ⟨hs.called ⟨rfl, rfl, rfl, rfl⟩, .nothing⟩
  | run k =>
    obtain ⟨pc, hk, h⟩ := Option.bind_eq_some_iff.mp h
    obtain ⟨⟨s₁, pc'⟩, hcall, h⟩ := Option.bind_eq_some_iff.mp h
    cases h
    exact hs.call hk hcall
  | throw k =>
    obtain ⟨pc, hk, h⟩ := Option.bind_eq_some_iff.mp h
    split at h <;> cases h
    exact ⟨hs.ends ⟨rfl, rfl, rfl, rfl⟩, .nothing⟩

theorem sound_init : Sound .init := by
  refine ⟨⟨List.nodup_nil, fun e he => (List.not_mem_nil he).elim⟩, fun k pc hk => ?_, fun j k pc pc' _ hj => ?_⟩
  · cases hk
  · cases hj

theorem sound_reachable (h : Reaches step .init s) : Sound s := h.inv sound_init fun _ _ _ hs hstep => (hs.step hstep).1

/-! ### What becomes of an effect -/

/-- From one state of the ledger to a later one: no row is lost, one that is not authorized stays as it is, and a unit that is over
stays so and gets no row. -/
structure Final (s s' : Ledger) : Prop where
  kept : ∀ e ∈ s.effects, ∃ e' ∈ s'.effects, e'.key = e.key ∧ (e.state ≠ .AUTHORIZED → e' = e)
  finished : ∀ i, s.exec.db.isOver i → s'.exec.db.isOver i ∧ ∀ e ∈ s'.effects, e.key.executionUnitId = i → e ∈ s.effects

theorem Final.refl (s : Ledger) : Final s s := ⟨fun e he => ⟨e, he, rfl, fun _ => rfl⟩, fun _ h => ⟨h, fun _ he _ => he⟩⟩

theorem Final.trans {s'' : Ledger} (h : Final s s') (h' : Final s' s'') : Final s s'' := by
  refine ⟨fun e he => ?_, fun i hi => ?_⟩
  · obtain ⟨e', he', hkey, hsame⟩ := h.kept e he
    obtain ⟨e'', he'', hkey', hsame'⟩ := h'.kept e' he'
    refine ⟨e'', he'', hkey'.trans hkey, fun hne => ?_⟩
    obtain rfl := hsame hne
    exact hsame' hne
  · obtain ⟨hi', hmem⟩ := h.finished i hi
    obtain ⟨hi'', hmem'⟩ := h'.finished i hi'
    exact ⟨hi'', fun e he hunit => hmem e (hmem' e he hunit) hunit⟩

theorem Follows.isOver {db db' : Tables} {effects : List EffectAuthorization} {keys : List EffectKey}
    (h : Follows db db' effects keys) {i : ℕ} (hi : db.isOver i) : db'.isOver i := by
  obtain ⟨st, hst, hterm⟩ := hi
  obtain ⟨u, hu, rfl⟩ := unit_of_status hst
  rcases h i u hu (.inr hterm) with hsame | ⟨-, hover, -⟩
  · exact isOver_of hsame hterm
  · exact hover

theorem Writes.final {s' : Ledger} (h : Writes s s'.exec.db s'.effects) (hs : Kept s.exec.db s.effects) : Final s s' := by
  generalize hdb : s'.exec.db = db, heffects : s'.effects = effects at h
  cases h with
  | nothing =>
    refine ⟨fun e he => ⟨e, heffects ▸ he, rfl, fun _ => rfl⟩, fun i hi => ⟨hdb ▸ hi, fun e he _ => heffects ▸ he⟩⟩
  | @insert key hrun hnew =>
    refine ⟨fun e he => ⟨e, heffects ▸ List.mem_append_left _ he, rfl, fun _ => rfl⟩, fun i hi => ⟨hdb ▸ hi, fun e he hunit => ?_⟩⟩
    rw [heffects] at he
    rcases List.mem_append.mp he with he | he
    · exact he
    · obtain rfl := List.mem_singleton.mp he
      obtain rfl : key.executionUnitId = i := hunit
      obtain ⟨st, hst, hterm⟩ := hi
      rw [hrun] at hst
      cases hst
      cases hterm
  | @update db keys state hf hrows hstate =>
    refine ⟨fun e he => ?_, fun i hi => ⟨hdb ▸ hf.isOver hi, fun e he hunit => ?_⟩⟩
    · rw [heffects]
      by_cases hk : e.key ∈ keys
      · refine ⟨_, mem_setState_of_mem he hk, rfl, fun hne => ?_⟩
        exact absurd (congrArg (·.state) (row_unique hs.nodup he (hrows _ hk) rfl)) hne
      · exact ⟨e, mem_setState_of_not_mem he hk, rfl, fun _ => rfl⟩
    · rw [heffects] at he
      obtain ⟨e₀, he₀, hkey, ⟨hk, -⟩ | ⟨-, rfl⟩⟩ := mem_setState he
      · -- a row that is updated was authorized, so its unit was running
        rcases hs.units _ (hrows _ hk) with hrun | ⟨-, hne⟩
        · obtain ⟨st, hst, hterm⟩ := hi
          have hi' : e₀.key.executionUnitId = i := hkey ▸ hunit
          rw [← hi', hrun] at hst
          cases hst
          cases hterm
        · exact absurd rfl hne
      · exact he₀

/-- **The ledger is final**, whatever the order: in every state reached a unit that is over has no effect that is authorized, and
no effect is there twice; in every later state each effect is still there, one that has been confirmed or abandoned is as it was,
and a unit that is over has no effect that it had not. -/
theorem ledger_final (h : Reaches step .init s) (h' : Reaches step s s') :
    (s.effects.map (·.key)).Nodup ∧
    (∀ i, s.exec.db.isOver i → ∀ e ∈ s.effects, e.key.executionUnitId = i → e.state ≠ .AUTHORIZED) ∧
    (∀ e ∈ s.effects, ∃ e' ∈ s'.effects, e'.key = e.key) ∧
    (∀ e ∈ s.effects, ∀ e' ∈ s'.effects, e'.key = e.key → e.state ≠ .AUTHORIZED → e' = e) ∧
    ∀ i, s.exec.db.isOver i → s'.exec.db.isOver i ∧ ∀ e ∈ s'.effects, e.key.executionUnitId = i → e ∈ s.effects := by
  have hs := sound_reachable h
  obtain ⟨hs', hfinal⟩ : Sound s' ∧ Final s s' :=
    h'.inv (I := fun u => Sound u ∧ Final s u) ⟨hs, .refl s⟩ fun u a u' hu hstep =>
      ⟨(hu.1.step hstep).1, hu.2.trans ((hu.1.step hstep).2.final hu.1.kept)⟩
  refine ⟨hs.kept.nodup, fun i hi e he hunit => ?_, fun e he => ?_, fun e he e' he' hkey hne => ?_, hfinal.finished⟩
  · rcases hs.kept.units e he with hrun | ⟨-, hne⟩
    · obtain ⟨st, hst, hterm⟩ := hi
      rw [← hunit, hrun] at hst
      cases hst
      cases hterm
    · exact hne
  · obtain ⟨e', he', hkey, -⟩ := hfinal.kept e he
    exact ⟨e', he', hkey⟩
  · obtain ⟨e'', he'', hkey', hsame⟩ := hfinal.kept e he
    obtain rfl := hsame hne
    exact row_unique hs'.kept.nodup he' he'' (hkey.trans hkey'.symm)

/-- The first effect of a unit that runs, or the second. -/
def firstEffect (ordinal : ℤ) : EffectInput := ⟨⟨0, 7, "host-1"⟩, 1, 0, "http", ordinal, .L⟩

/-- Two effects are authorized and one is confirmed, while a finalizer waits for the unit and then abandons the other. -/
def twoEffects : List LedgerAction :=
  runningDispatch.map .exec ++ [.authorizeEffect (firstEffect 0)] ++ List.replicate 8 (.run 0) ++
    [.authorizeEffect (firstEffect 1), .finalize 0 .COMPLETED, .confirmEffect (firstEffect 0).key] ++ List.replicate 7 (.run 1) ++
    [.run 3, .run 3, .run 1, .run 2, .run 2, .run 2]

theorem ledger_final_finalized : ∃ s, Reaches step .init s ∧ s.exec.db.isOver 0 ∧
    s.effects = [⟨(firstEffect 0).key, .CONFIRMED⟩, ⟨(firstEffect 1).key, .ABANDONED⟩] ∧
    ∀ s', Reaches step s s' → ∀ e ∈ s'.effects, e.key.executionUnitId = 0 → e ∈ s.effects := by
  obtain ⟨s, hs, hp⟩ := Reaches.exists_of_play next (fun _ _ => true) .init twoEffects
    (fun s => s.exec.db.statusOf 0 = some COMPLETED ∧
      s.effects = [⟨(firstEffect 0).key, .CONFIRMED⟩, ⟨(firstEffect 1).key, .ABANDONED⟩]) (by decide)
  have hover : s.exec.db.isOver 0 := ⟨COMPLETED, hp.1, rfl⟩
  exact ⟨s, hs.of_guarded, hover, hp.2, fun s' h' => ((ledger_final hs.of_guarded h').2.2.2.2 0 hover).2⟩

end Steps

end WebAudit.Execution.Effects
