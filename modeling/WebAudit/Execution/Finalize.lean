import WebAudit.Execution.Units

/-!
# How units end

`fahes_finalize_unit` and `fahes_complete_passive_unit`, as the database has them. The finalizer
releases the leases of a unit in the transaction that makes it terminal, and blocks whatever
depends on it unless it is `COMPLETED`.

What either can do to the units is said by `Moves`: a row stays as it is but for its status, and
a status moves as the trigger lets it.

The failure class, the reason and the progress that a finalizer writes are left out, and so is the
order in which dependents are blocked: positions instead of ids.
-/

namespace WebAudit.Execution

open WebAudit.Safety (StopKey)
open ExecutionUnitStatus

/-! ### The finalizer -/

inductive FinalizeKind where
  | COMPLETED
  | FAILED
  | CANCELLED
  | KILLED
  | REFUSED
  deriving DecidableEq

def FinalizeKind.status : FinalizeKind → ExecutionUnitStatus
  | .COMPLETED => .COMPLETED
  | .FAILED => .FAILED
  | .CANCELLED => .CANCELLED
  | .KILLED => .KILLED
  | .REFUSED => .REFUSED

/-- The transitions that a finalizer may ask for. -/
def mayFinalize (kind : FinalizeKind) (u : ExecutionUnit) : Bool :=
  match kind, u.status with
  | .REFUSED, PLANNED | .REFUSED, ADMITTED | .REFUSED, DISPATCHED => true
  | .COMPLETED, RUNNING | .FAILED, RUNNING | .CANCELLED, RUNNING | .KILLED, RUNNING => true
  | .COMPLETED, PLANNED => u.executionUnitClass = .TELEMETRY
  | _, _ => false

/-- `f07_release_leases_by_execution`. -/
def releaseLeases (leases : List UnitLease) (i : ℕ) : List UnitLease :=
  leases.map fun l => if l.executionUnitId = i then { l with isOpen := false } else l

/-- `f07_ack_stop_by_authority`. -/
def ackStop (stops : List Safety.KillSwitchState) (id : String) : List Safety.KillSwitchState :=
  stops.map fun k => if k.key = .EXECUTION id ∧ k.state = .REQUESTED then { k with state := .ACKNOWLEDGED } else k

/-- The units that depend on this one and are not over. -/
def dependentsLeft (dependencies : List (ℕ × ℕ)) (units : List ExecutionUnit) (i : ℕ) : List ℕ :=
  (List.range units.length).filter fun j => dependencies.contains (j, i) && (units[j]?).any fun u => !u.status.isTerminal

/-- The loop that blocks the dependents of the units in the queue, and theirs. -/
def blockDependents (dependencies : List (ℕ × ℕ)) : ℕ → List ℕ → List ExecutionUnit → Option (List ExecutionUnit)
  | _, [], units => some units
  | 0, _ :: _, _ => none
  | rounds + 1, i :: queue, units => do
    let dependents := dependentsLeft dependencies units i
    let units ← dependents.foldlM (fun units j => setStatus units j false BLOCKED) units
    blockDependents dependencies rounds (queue ++ dependents) units

/-- What depends on a unit that is not completed is blocked. -/
def propagate (dependencies : List (ℕ × ℕ)) (kind : FinalizeKind) (i : ℕ) (units : List ExecutionUnit) : Option (List ExecutionUnit) :=
  if kind = .COMPLETED then some units else blockDependents dependencies (units.length + 1) [i] units

structure FinalizeResult where
  status : ExecutionUnitStatus
  replayed : Bool
  deriving DecidableEq

/-- `fahes_finalize_unit`, `none` when it raises. -/
def fahes_finalize_unit (db : Tables) (i : ℕ) (kind : FinalizeKind) : Option (Tables × FinalizeResult) := do
  let u ← db.units[i]?
  if u.status.isTerminal then some (db, ⟨u.status, true⟩)
  else if !mayFinalize kind u then none
  else
    let units ← setStatus db.units i false kind.status
    let units ← propagate db.dependencies kind i units
    some ({ db with units, leases := releaseLeases db.leases i, stops := ackStop db.stops u.id }, ⟨kind.status, false⟩)

/-! ### Passive units -/

/-- The plan is one whose passive units may be completed, and its scan is running. -/
def passiveScan (db : Tables) (u : ExecutionUnit) : Option ℕ := do
  let plan ← db.planOf u
  let scanId ← plan.scanId
  let deadlineMs ← plan.deadlineMs
  let scan ← db.scans[scanId]?
  let startedAt ← scan.startedAt
  if plan.kind = .INITIAL ∧ plan.state = .RESOLVED ∧ scan.state.isTerminal = false ∧ db.clock < startedAt + deadlineMs then
    some scanId
  else none

/-- Every unit that this one depends on is completed. -/
def prerequisitesMet (db : Tables) (i : ℕ) : Bool :=
  db.dependencies.all fun e => e.1 ≠ i || (db.units[e.2]?).all fun d => decide (d.status = COMPLETED)

/-- `fahes_complete_passive_unit`, `none` when it raises. -/
def fahes_complete_passive_unit (db : Tables) (i : ℕ) : Option (Tables × FinalizeResult) := do
  let u ← db.units[i]?
  if u.status.isTerminal then some (db, ⟨u.status, true⟩)
  else if !(u.executionUnitClass = .PASSIVE_HTTP || u.executionUnitClass = .SOURCE_STATIC) || u.status ≠ PLANNED then none
  else
    let scanId ← passiveScan db u
    if !prerequisitesMet db i then none
    else
      let domain ← u.domain
      let result ← db.moduleResults.find? fun m => m.scanId = scanId && m.module = domain
      match result.state with
      | .PENDING | .RUNNING => none
      | .COMPLETE | .DEGRADED =>
        let units ← setStatus db.units i true COMPLETED
        some ({ db with units }, ⟨COMPLETED, false⟩)
      | .FAILED | .NOT_APPLICABLE =>
        let units ← setStatus db.units i false REFUSED
        some ({ db with units }, ⟨REFUSED, false⟩)

/-! ### What they do to the units -/

/-- Only statuses have changed, each as `P` says. -/
def Moves (P : ℕ → ExecutionUnit → ExecutionUnitStatus → Prop) (units units' : List ExecutionUnit) : Prop :=
  units'.length = units.length ∧
    ∀ (i : ℕ) (u : ExecutionUnit), units[i]? = some u → ∃ st, units'[i]? = some { u with status := st } ∧ (st = u.status ∨ P i u st)

/-- A unit that is planned is blocked. -/
def Blocks (_ : ℕ) (u : ExecutionUnit) (st : ExecutionUnitStatus) : Prop := u.status = PLANNED ∧ st = BLOCKED

section Moves

variable {P Q : ℕ → ExecutionUnit → ExecutionUnitStatus → Prop} {units units' units'' : List ExecutionUnit} {i : ℕ}

theorem Moves.refl (units : List ExecutionUnit) : Moves P units units := ⟨rfl, fun _ u hu => ⟨u.status, hu, .inl rfl⟩⟩

theorem Moves.mono (h : Moves P units units') (hP : ∀ i u st, P i u st → Q i u st) : Moves Q units units' := by
  refine ⟨h.1, fun i u hu => ?_⟩
  obtain ⟨st, hst, hor⟩ := h.2 i u hu
  exact ⟨st, hst, hor.imp_right (hP i u st)⟩

/-- One move after another. -/
theorem Moves.trans (h : Moves P units units') (h' : Moves Q units' units'') {R : ℕ → ExecutionUnit → ExecutionUnitStatus → Prop}
    (hP : ∀ i u st, P i u st → R i u st) (hQ : ∀ i u st, Q i u st → R i u st)
    (hPQ : ∀ i u st st', P i u st → Q i { u with status := st } st' → R i u st') : Moves R units units'' := by
  refine ⟨h'.1.trans h.1, fun i u hu => ?_⟩
  obtain ⟨st, hst, hor⟩ := h.2 i u hu
  obtain ⟨st', hst', hor'⟩ := h'.2 i _ hst
  refine ⟨st', hst', ?_⟩
  rcases hor with rfl | hp
  · exact hor'.imp_right (hQ i u st')
  · rcases hor' with rfl | hq
    · exact .inr (hP i u _ hp)
    · exact .inr (hPQ i u st st' hp hq)

/-- An update changes the status of one unit, and the trigger has let it through. -/
theorem setStatus_moves {passive : Bool} {new : ExecutionUnitStatus} (h : setStatus units i passive new = some units') :
    Moves (fun j u st => j = i ∧ st = new ∧ fahes_unit_guard u.executionUnitClass passive u.status new = true) units units' := by
  unfold setStatus at h
  split at h
  · cases h
    exact .refl _
  · rename_i v hv
    split at h <;> cases h
    rename_i hguard
    refine ⟨List.length_set, fun j u hu => ?_⟩
    by_cases e : j = i
    · subst e
      obtain rfl := Option.some.inj (hv.symm.trans hu)
      exact ⟨new, List.getElem?_set_self (List.getElem?_eq_some_iff.mp hu).1, .inr ⟨rfl, rfl, hguard⟩⟩
    · exact ⟨u.status, by rw [List.getElem?_set_ne (Ne.symm e)]; exact hu, .inl rfl⟩

theorem guard_blocked {unitClass : Planning.ExecutionUnitClass} {passive : Bool} {old : ExecutionUnitStatus}
    (h : fahes_unit_guard unitClass passive old BLOCKED = true) : old = PLANNED := by
  have hlive := guard_not_terminal h
  rcases guard_transition h with rfl | h
  · cases hlive
  · cases old <;> first | rfl | cases h

theorem Moves.blocks_trans (h : Moves Blocks units units') (h' : Moves Blocks units' units'') : Moves Blocks units units'' := by
  refine h.trans h' (fun _ _ _ hp => hp) (fun _ _ _ hq => hq) ?_
  rintro i u st st' ⟨-, rfl⟩ ⟨hplanned, -⟩
  cases hplanned

theorem foldlM_blocks {js : List ℕ} (h : js.foldlM (fun units j => setStatus units j false BLOCKED) units = some units') :
    Moves Blocks units units' := by
  induction js generalizing units with
  | nil =>
    cases h
    exact .refl _
  | cons j js ih =>
    rw [List.foldlM_cons] at h
    obtain ⟨units₁, h₁, h⟩ := Option.bind_eq_some_iff.mp h
    refine Moves.blocks_trans ((setStatus_moves h₁).mono ?_) (ih h)
    rintro i u st ⟨-, rfl, hguard⟩
    exact ⟨guard_blocked hguard, rfl⟩

/-- Dependents that are blocked were planned. -/
theorem blockDependents_moves {dependencies : List (ℕ × ℕ)} {rounds : ℕ} {queue : List ℕ}
    (h : blockDependents dependencies rounds queue units = some units') : Moves Blocks units units' := by
  induction rounds generalizing queue units with
  | zero =>
    cases queue with
    | nil =>
      cases h
      exact .refl _
    | cons i queue => cases h
  | succ rounds ih =>
    cases queue with
    | nil =>
      cases h
      exact .refl _
    | cons i queue =>
      obtain ⟨units₁, h₁, h⟩ := Option.bind_eq_some_iff.mp h
      exact (foldlM_blocks h₁).blocks_trans (ih h)

/-- What a status has become. -/
theorem Moves.of_get (h : Moves P units units') {u : ExecutionUnit} (hu : units'[i]? = some u) :
    ∃ v, units[i]? = some v ∧ u = { v with status := u.status } ∧ (u.status = v.status ∨ P i v u.status) := by
  have hlt : i < units.length := h.1 ▸ (List.getElem?_eq_some_iff.mp hu).1
  obtain ⟨st, hst, hor⟩ := h.2 i units[i] (List.getElem?_eq_getElem hlt)
  obtain rfl := Option.some.inj (hu.symm.trans hst)
  exact ⟨units[i], List.getElem?_eq_getElem hlt, rfl, hor⟩

end Moves

/-! ### What they come to -/

/-- The unit ends as asked, and planned units that depend on it are blocked. -/
def Ends (i : ℕ) (kind : FinalizeKind) (j : ℕ) (u : ExecutionUnit) (st : ExecutionUnitStatus) : Prop :=
  j = i ∧ st = kind.status ∧ mayFinalize kind u = true ∨ Blocks j u st

section Ends

variable {db db' : Tables} {i : ℕ} {kind : FinalizeKind} {r : FinalizeResult}

theorem mayFinalize_live {u : ExecutionUnit} (h : mayFinalize kind u = true) : u.status.isTerminal = false := by
  unfold mayFinalize at h
  split at h <;> (try cases h) <;> simp [ExecutionUnitStatus.isTerminal, *]

theorem kind_terminal (kind : FinalizeKind) : kind.status.isTerminal = true := by
  cases kind <;> rfl

/-- **The finalizer**: the unit was over before, and nothing is done; or it ends, its leases are released, and what
depends on it is blocked. -/
theorem finalize_does (h : fahes_finalize_unit db i kind = some (db', r)) :
    ∃ u, db.units[i]? = some u ∧
      (u.status.isTerminal = true ∧ db' = db ∧ r = ⟨u.status, true⟩ ∨
        mayFinalize kind u = true ∧ r = ⟨kind.status, false⟩ ∧ ∃ units, Moves (Ends i kind) db.units units ∧
          units[i]? = some { u with status := kind.status } ∧
          db' = { db with units, leases := releaseLeases db.leases i, stops := ackStop db.stops u.id }) := by
  obtain ⟨u, hu, h⟩ := Option.bind_eq_some_iff.mp h
  refine ⟨u, hu, ?_⟩
  split at h
  · rename_i hover
    cases h
    exact .inl ⟨hover, rfl, rfl⟩
  split at h
  · cases h
  rename_i hmay
  have hmay : mayFinalize kind u = true := by simpa using hmay
  obtain ⟨units₁, h₁, h⟩ := Option.bind_eq_some_iff.mp h
  obtain ⟨units₂, h₂, h⟩ := Option.bind_eq_some_iff.mp h
  cases h
  have hfirst := setStatus_moves h₁
  have hset : units₁[i]? = some { u with status := kind.status } := by
    simp only [setStatus, hu] at h₁
    split at h₁ <;> cases h₁
    exact List.getElem?_set_self (List.getElem?_eq_some_iff.mp hu).1
  have hblocks : Moves Blocks units₁ units₂ := by
    unfold propagate at h₂
    split at h₂
    · cases h₂
      exact .refl _
    · exact blockDependents_moves h₂
  have hends : Moves (Ends i kind) db.units units₁ := by
    refine ⟨hfirst.1, fun j v hv => ?_⟩
    obtain ⟨st, hst, hor⟩ := hfirst.2 j v hv
    refine ⟨st, hst, hor.imp_right ?_⟩
    rintro ⟨rfl, hnew, -⟩
    obtain rfl := Option.some.inj (hu.symm.trans hv)
    exact .inl ⟨rfl, hnew, hmay⟩
  refine .inr ⟨hmay, rfl, units₂, hends.trans hblocks (fun _ _ _ hp => hp) (fun _ _ _ hq => .inr hq) ?_, ?_, rfl⟩
  · rintro j v st st' (⟨-, rfl, -⟩ | ⟨-, rfl⟩) ⟨hplanned, -⟩
    · have hterminal := kind_terminal kind
      rw [show kind.status = PLANNED from hplanned] at hterminal
      cases hterminal
    · cases hplanned
  · obtain ⟨st, hst, rfl | ⟨hplanned, -⟩⟩ := hblocks.2 i _ hset
    · exact hst
    · have hterminal := kind_terminal kind
      rw [show kind.status = PLANNED from hplanned] at hterminal
      cases hterminal

/-- A passive unit that is planned is completed or refused. -/
def EndsPassive (i : ℕ) (st : ExecutionUnitStatus) (j : ℕ) (u : ExecutionUnit) (st' : ExecutionUnitStatus) : Prop :=
  j = i ∧ st' = st ∧ u.status = PLANNED ∧ (u.executionUnitClass = .PASSIVE_HTTP ∨ u.executionUnitClass = .SOURCE_STATIC)

theorem passive_does (h : fahes_complete_passive_unit db i = some (db', r)) :
    db' = db ∧ r.replayed = true ∨
      r.replayed = false ∧ (r.status = COMPLETED ∧ prerequisitesMet db i = true ∨ r.status = REFUSED) ∧
        ∃ units, Moves (EndsPassive i r.status) db.units units ∧ db' = { db with units } := by
  obtain ⟨u, hu, h⟩ := Option.bind_eq_some_iff.mp h
  split at h
  · cases h
    exact .inl ⟨rfl, rfl⟩
  split at h
  · cases h
  rename_i hpassive
  simp only [Bool.or_eq_true, Bool.not_eq_true', decide_eq_true_eq, not_or, Bool.or_eq_false_iff,
    decide_eq_false_iff_not, ne_eq, not_and, not_not] at hpassive
  obtain ⟨scanId, -, h⟩ := Option.bind_eq_some_iff.mp h
  split at h
  · cases h
  rename_i hmet
  obtain ⟨domain, -, h⟩ := Option.bind_eq_some_iff.mp h
  obtain ⟨result, -, h⟩ := Option.bind_eq_some_iff.mp h
  have hmoves {passive : Bool} {new : ExecutionUnitStatus} {units : List ExecutionUnit}
      (h : setStatus db.units i passive new = some units) : Moves (EndsPassive i new) db.units units := by
    have hset := setStatus_moves h
    refine ⟨hset.1, fun j v hv => ?_⟩
    obtain ⟨st, hst, hor⟩ := hset.2 j v hv
    refine ⟨st, hst, hor.imp_right ?_⟩
    rintro ⟨rfl, hnew, -⟩
    obtain rfl := Option.some.inj (hu.symm.trans hv)
    exact ⟨rfl, hnew, hpassive.2, by tauto⟩
  split at h
  · cases h
  · cases h
  · obtain ⟨units, hunits, h⟩ := Option.bind_eq_some_iff.mp h
    cases h
    exact .inr ⟨rfl, .inl ⟨rfl, by simpa using hmet⟩, units, hmoves hunits, rfl⟩
  · obtain ⟨units, hunits, h⟩ := Option.bind_eq_some_iff.mp h
    cases h
    exact .inr ⟨rfl, .inl ⟨rfl, by simpa using hmet⟩, units, hmoves hunits, rfl⟩
  · obtain ⟨units, hunits, h⟩ := Option.bind_eq_some_iff.mp h
    cases h
    exact .inr ⟨rfl, .inr rfl, units, hmoves hunits, rfl⟩
  · obtain ⟨units, hunits, h⟩ := Option.bind_eq_some_iff.mp h
    cases h
    exact .inr ⟨rfl, .inr rfl, units, hmoves hunits, rfl⟩

end Ends

end WebAudit.Execution
