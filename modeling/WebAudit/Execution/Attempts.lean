import WebAudit.Execution.Dispatch

/-!
# One dispatch for an attempt

The claim makes one dispatch the owner of a unit's attempt: no other transition of the unit can be
won, and no lease is entered but by the owner. What has become of the unit and its leases at each
statement of the owner is `Holds`; whatever else happens keeps it (`Quiet`), and so does the owner,
as long as it does not throw while it has an open lease.
-/

namespace WebAudit.Execution

open WebAudit.Lib
open ExecutionUnitStatus

/-! ### What the owner finds -/

/-- The unit is over. -/
def Tables.isOver (db : Tables) (i : ℕ) : Prop := ∃ st, db.statusOf i = some st ∧ st.isTerminal = true

/-- The unit is over and has no open lease. -/
def Tables.Done (db : Tables) (i : ℕ) : Prop := db.isOver i ∧ db.hasOpenLease i = false

/-- What is known of a unit when its owner is at a statement. -/
def Holds (db : Tables) (i : ℕ) : DispatchPc → Prop
  | .pickup | .capacity _ | .claim _ | .guards .. | .pre .. | .admission .. | .terminate _ | .thrown => db.hasOpenLease i = false
  | .plannedAdmitted .. | .free _ => True
  | .proofs .. | .again .. | .dispatch _ => db.statusOf i = some ADMITTED ∨ db.Done i
  | .fork _ | .run _ => db.statusOf i = some DISPATCHED ∨ db.Done i
  | .refusing _ => db.statusOf i = some ADMITTED ∨ db.hasOpenLease i = false
  | .returned (.RUNNING _ _) => db.statusOf i = some RUNNING ∨ db.isOver i
  | .returned _ => db.hasOpenLease i = false

/-- What others do to a unit: they end it and close its leases, they end it before it is admitted, or they let its status be; and
they open no lease. -/
structure Quiet (db db' : Tables) (i : ℕ) : Prop where
  status : db'.statusOf i = db.statusOf i ∨ db.statusOf i = some PLANNED ∧ db'.isOver i ∨ db'.Done i
  leases : db'.hasOpenLease i = true → db.hasOpenLease i = true
  finished : db.isOver i → db'.statusOf i = db.statusOf i

section Quiet

variable {db db' : Tables} {i : ℕ} {pc : DispatchPc}

theorem Quiet.refl (db : Tables) (i : ℕ) : Quiet db db i := ⟨.inl rfl, fun h => h, fun _ => rfl⟩

theorem Quiet.closed (h : Quiet db db' i) (hc : db.hasOpenLease i = false) : db'.hasOpenLease i = false := by
  by_contra hopen
  rw [h.leases (by simpa using hopen)] at hc
  cases hc

theorem Quiet.isOver (h : Quiet db db' i) (ho : db.isOver i) : db'.isOver i := by
  obtain ⟨st, hst, hterm⟩ := ho
  exact ⟨st, (h.finished ⟨st, hst, hterm⟩).trans hst, hterm⟩

theorem Quiet.done (h : Quiet db db' i) (hd : db.Done i) : db'.Done i := ⟨h.isOver hd.1, h.closed hd.2⟩

/-- A status that is neither planned nor over stays, or the unit is done with. -/
theorem Quiet.at (h : Quiet db db' i) {st : ExecutionUnitStatus} (hst : db.statusOf i = some st) (hne : st ≠ PLANNED) :
    db'.statusOf i = some st ∨ db'.Done i := by
  rcases h.status with he | ⟨hplanned, -⟩ | hd
  · exact .inl (he.trans hst)
  · exact absurd (Option.some.inj (hst.symm.trans hplanned)) hne
  · exact .inr hd

theorem Holds.quiet (hp : Holds db i pc) (h : Quiet db db' i) : Holds db' i pc := by
  cases pc with
  | pickup | capacity u | claim u | guards u n | pre u n r | admission u n | terminate reason | thrown => exact h.closed hp
  | plannedAdmitted u n | free reason => exact trivial
  | proofs u n | again u n r | dispatch n | fork n | run n => exact hp.elim (fun hst => h.at hst (by decide)) fun hd => .inr (h.done hd)
  | refusing reason =>
    rcases hp with hst | hc
    · exact (h.at hst (by decide)).imp_right And.right
    · exact .inr (h.closed hc)
  | returned outcome =>
    cases outcome with
    | RUNNING n token => exact hp.elim (fun hst => (h.at hst (by decide)).imp_right And.left) fun ho => .inr (h.isOver ho)
    | REFUSED reason | DEFERRED reason | IGNORED reason => exact h.closed hp

end Quiet

/-! ### What everything else does -/

/-- The units are still there, with all their frozen columns. -/
def Keeps (db db' : Tables) : Prop :=
  ∀ (i : ℕ) (u : ExecutionUnit), db.units[i]? = some u → ∃ st, db'.units[i]? = some { u with status := st }

section Events

variable {db db' : Tables} {i j : ℕ} {kind : FinalizeKind} {r : FinalizeResult}

theorem Keeps.refl (db : Tables) : Keeps db db := fun _ u hu => ⟨u.status, hu⟩

theorem Keeps.of_moves {P : ℕ → ExecutionUnit → ExecutionUnitStatus → Prop} (h : Moves P db.units db'.units) : Keeps db db' := by
  intro i u hu
  obtain ⟨st, hst, -⟩ := h.2 i u hu
  exact ⟨st, hst⟩

theorem statusOf_eq {u : ExecutionUnit} (hu : db.units[i]? = some u) : db.statusOf i = some u.status := by
  rw [Tables.statusOf, hu]
  rfl

theorem hasOpenLease_release_self : (releaseLeases db.leases i).any (fun l => decide (l.executionUnitId = i) && l.isOpen) = false := by
  rw [List.any_eq_false]
  intro l hl
  obtain ⟨l', -, rfl⟩ := List.mem_map.mp hl
  by_cases e : l'.executionUnitId = i <;> simp [e]

theorem hasOpenLease_release_ne (h : j ≠ i) :
    (releaseLeases db.leases j).any (fun l => decide (l.executionUnitId = i) && l.isOpen) = db.hasOpenLease i := by
  unfold releaseLeases Tables.hasOpenLease
  rw [List.any_map]
  refine congrArg db.leases.any (funext fun l => ?_)
  dsimp only [Function.comp_apply]
  by_cases e : l.executionUnitId = j
  · simp [e, h]
  · simp [e]

theorem isOver_of {u : ExecutionUnit} (hu : db.units[i]? = some u) (h : u.status.isTerminal = true) : db.isOver i :=
  ⟨u.status, statusOf_eq hu, h⟩

theorem unit_of_status {st : ExecutionUnitStatus} (hs : db.statusOf i = some st) : ∃ u, db.units[i]? = some u ∧ u.status = st :=
  Option.map_eq_some_iff.mp hs

/-- Leases are changed, but none is opened. -/
theorem hasOpenLease_modify {n : ℕ} {f : UnitLease → UnitLease} (hunit : ∀ l, (f l).executionUnitId = l.executionUnitId)
    (hopen : ∀ l, (f l).isOpen = true → l.isOpen = true)
    (h : (db.leases.modify n f).any (fun l => decide (l.executionUnitId = i) && l.isOpen) = true) : db.hasOpenLease i = true := by
  obtain ⟨l, hl, hp⟩ := List.any_eq_true.mp h
  obtain ⟨m, hm⟩ := List.mem_iff_getElem?.mp hl
  rw [List.getElem?_modify] at hm
  obtain ⟨l', hl', rfl⟩ := Option.map_eq_some_iff.mp hm
  refine List.any_eq_true.mpr ⟨l', List.mem_of_getElem? hl', ?_⟩
  simp only [Bool.and_eq_true, decide_eq_true_eq] at hp ⊢
  split at hp
  · exact ⟨(hunit l').symm.trans hp.1, hopen l' hp.2⟩
  · exact hp

/-- An event makes no claim, keeps the units, and opens no lease. -/
theorem event_keeps {e : Event} (h : db.event e = some db') :
    db'.claims = db.claims ∧ Keeps db db' ∧ ∀ i, db'.hasOpenLease i = true → db.hasOpenLease i = true := by
  cases e with
  | tick ms | createScan scan | setScan i scan | setModule result | setStop k =>
    cases h
    exact ⟨rfl, .refl _, fun _ h => h⟩
  | plan plan units edges =>
    simp only [Tables.event] at h
    split at h <;> cases h
    refine ⟨rfl, fun i u hu => ⟨u.status, ?_⟩, fun _ h => h⟩
    exact (List.getElem?_append_left (List.getElem?_eq_some_iff.mp hu).1).trans hu
  | closeLease n =>
    cases h
    exact ⟨rfl, .refl _, fun i hi =>
      hasOpenLease_modify (f := fun l => { l with isOpen := false }) (fun _ => rfl) (fun _ h => absurd h Bool.false_ne_true) hi⟩
  | renewLease n =>
    simp only [Tables.event] at h
    split at h <;> cases h
    exact ⟨rfl, .refl _, fun i hi =>
      hasOpenLease_modify (f := fun l => { l with expiresAt := db.clock + leaseMs }) (fun _ => rfl) (fun _ h => h) hi⟩
  | finalize j kind =>
    obtain ⟨⟨db₁, r⟩, hf, rfl⟩ := Option.map_eq_some_iff.mp h
    obtain ⟨u, hu, ⟨-, rfl, -⟩ | ⟨-, -, units, hmoves, -, rfl⟩⟩ := finalize_does hf
    · exact ⟨rfl, .refl _, fun _ h => h⟩
    · refine ⟨rfl, .of_moves hmoves, fun i hi => ?_⟩
      by_cases e : j = i
      · subst e
        exact absurd (hasOpenLease_release_self.symm.trans hi) Bool.false_ne_true
      · rw [← hasOpenLease_release_ne e]
        exact hi
  | completePassive j =>
    obtain ⟨⟨db₁, r⟩, hf, rfl⟩ := Option.map_eq_some_iff.mp h
    obtain ⟨rfl, -⟩ | ⟨-, -, units, hmoves, rfl⟩ := passive_does hf
    · exact ⟨rfl, .refl _, fun _ h => h⟩
    · exact ⟨rfl, .of_moves hmoves, fun _ h => h⟩

/-- A finalizer is quiet, whichever unit it ends. -/
theorem finalize_quiet (h : fahes_finalize_unit db j kind = some (db', r)) (hi : i < db.units.length) : Quiet db db' i := by
  have hleases := (event_keeps (e := .finalize j kind) (by rw [Tables.event, h]; rfl)).2.2 i
  obtain ⟨u, hu, ⟨-, rfl, -⟩ | ⟨hmay, -, units, hmoves, hself, rfl⟩⟩ := finalize_does h
  · exact .refl _ _
  by_cases e : j = i
  · subst e
    have hover : Tables.isOver { db with units, leases := releaseLeases db.leases j, stops := ackStop db.stops u.id } j :=
      isOver_of hself (kind_terminal kind)
    refine ⟨.inr (.inr ⟨hover, hasOpenLease_release_self⟩), hleases, ?_⟩
    rintro ⟨st, hst, hterm⟩
    rw [statusOf_eq hu] at hst
    obtain rfl := Option.some.inj hst
    rw [mayFinalize_live hmay] at hterm
    cases hterm
  · obtain ⟨st, hst, hor⟩ := hmoves.2 i db.units[i] (List.getElem?_eq_getElem hi)
    have hold := statusOf_eq (List.getElem?_eq_getElem hi)
    refine ⟨?_, hleases, ?_⟩
    · rcases hor with rfl | ⟨he, -⟩ | ⟨hplanned, rfl⟩
      · exact .inl ((statusOf_eq hst).trans hold.symm)
      · exact absurd he.symm e
      · exact .inr (.inl ⟨hplanned ▸ hold, isOver_of hst rfl⟩)
    · rintro ⟨st', hst', hterm⟩
      rw [hold] at hst'
      obtain rfl := Option.some.inj hst'
      rcases hor with rfl | ⟨he, -⟩ | ⟨hplanned, -⟩
      · exact (statusOf_eq hst).trans hold.symm
      · exact absurd he.symm e
      · rw [hplanned] at hterm
        cases hterm

theorem passive_quiet (h : fahes_complete_passive_unit db j = some (db', r)) (hi : i < db.units.length) : Quiet db db' i := by
  obtain ⟨rfl, -⟩ | ⟨-, hr, units, hmoves, rfl⟩ := passive_does h
  · exact .refl _ _
  obtain ⟨st, hst, hor⟩ := hmoves.2 i db.units[i] (List.getElem?_eq_getElem hi)
  have hold := statusOf_eq (List.getElem?_eq_getElem hi)
  refine ⟨?_, fun hopen => hopen, ?_⟩
  · rcases hor with rfl | ⟨-, rfl, hplanned, -⟩
    · exact .inl ((statusOf_eq hst).trans hold.symm)
    · refine .inr (.inl ⟨hplanned ▸ hold, isOver_of hst ?_⟩)
      rcases hr with ⟨hr, -⟩ | hr <;> rw [hr] <;> rfl
  · rintro ⟨st', hst', hterm⟩
    rw [hold] at hst'
    obtain rfl := Option.some.inj hst'
    rcases hor with rfl | ⟨-, -, hplanned, -⟩
    · exact (statusOf_eq hst).trans hold.symm
    · rw [hplanned] at hterm
      cases hterm

/-- **Nothing that the rest of the platform does** makes an open lease or takes a unit to where its owner takes it. -/
theorem event_quiet {e : Event} (h : db.event e = some db') (hi : i < db.units.length) : Quiet db db' i := by
  have hleases := (event_keeps h).2.2 i
  cases e with
  | tick ms | createScan scan | setScan i scan | setModule result | setStop k | closeLease n =>
    cases h
    exact ⟨.inl rfl, hleases, fun _ => rfl⟩
  | plan plan units edges =>
    simp only [Tables.event] at h
    split at h <;> cases h
    have hsame : ∀ us : List ExecutionUnit, (db.units ++ us)[i]? = db.units[i]? := fun us => List.getElem?_append_left hi
    refine ⟨.inl ?_, hleases, fun _ => ?_⟩ <;> simp only [Tables.statusOf, hsame]
  | renewLease n =>
    simp only [Tables.event] at h
    split at h <;> cases h
    exact ⟨.inl rfl, hleases, fun _ => rfl⟩
  | finalize j kind =>
    obtain ⟨⟨db₁, r⟩, hf, rfl⟩ := Option.map_eq_some_iff.mp h
    exact finalize_quiet hf hi
  | completePassive j =>
    obtain ⟨⟨db₁, r⟩, hf, rfl⟩ := Option.map_eq_some_iff.mp h
    exact passive_quiet hf hi

end Events

/-! ### What a dispatch does -/

/-- The attempt that a dispatch has claimed. -/
def DispatchPc.attempt : DispatchPc → Option ℕ
  | .guards _ n | .pre _ n _ | .admission _ n | .plannedAdmitted _ n | .proofs _ n | .again _ n _ | .dispatch n | .fork n | .run n
  | .returned (.RUNNING n _) => some n
  | _ => none

/-- The unit is the tenant's, and the attempt is claimed by this token. -/
structure Owned (db : Tables) (token : ℕ) (host : HostIdentity) (attempt : ℕ) : Prop where
  unit : ∃ u, loadUnit db host = some u ∧ u.attempt = attempt
  claim : ⟨host.executionUnitId, attempt, host.hostInstanceId, token⟩ ∈ db.claims

/-- The statement at which a transition is won. -/
inductive Won (token n : ℕ) : HostEdge → DispatchPc → Prop where
  | admitted (u : ExecutionUnit) : Won token n .PLANNED_ADMITTED (.proofs u n)
  | dispatched : Won token n .ADMITTED_DISPATCHED (.fork n)
  | running : Won token n .DISPATCHED_RUNNING (.returned (.RUNNING n token))

/-- What a step of a dispatch can do. -/
inductive DispatchEffect (db : Tables) (token : ℕ) (d : Dispatch) : Tables → DispatchPc → Prop where
  | same {pc' : DispatchPc} (hattempt : ∀ n, pc'.attempt = some n → d.pc.attempt = some n)
      (hholds : (∀ n, d.pc.attempt = some n → Owned db token d.host n) → Holds db d.host.executionUnitId d.pc →
        Holds db d.host.executionUnitId pc') : DispatchEffect db token d db pc'
  | claim {u u' : ExecutionUnit} (hu : loadUnit db d.host = some u)
      (hfree : ∀ c ∈ db.claims, c.executionUnitId = d.host.executionUnitId → c.attempt ≠ u.attempt)
      (hholds : Holds db d.host.executionUnitId d.pc → db.hasOpenLease d.host.executionUnitId = false) :
      DispatchEffect db token d
        { db with claims := db.claims ++ [⟨d.host.executionUnitId, u.attempt, d.host.hostInstanceId, token⟩] } (.guards u' u.attempt)
  | lease {u : ExecutionUnit} {n : ℕ} (hpc : d.pc.attempt = some n) :
      DispatchEffect db token d
        { db with leases := db.leases ++ [⟨d.host.executionUnitId, true, db.clock + leaseMs⟩] } (.plannedAdmitted u n)
  | cas {n : ℕ} {edge : HostEdge} {units : List ExecutionUnit} {pc' : DispatchPc} (hpc : d.pc.attempt = some n)
      (hbefore : db.statusOf d.host.executionUnitId = some edge.before)
      (hunits : setStatus db.units d.host.executionUnitId false edge.after = some units) (hwon : Won token n edge pc') :
      DispatchEffect db token d { db with units } pc'
  | free (reason : DispatchReason) :
      DispatchEffect db token d { db with leases := releaseLeases db.leases d.host.executionUnitId } (.returned (.IGNORED reason))
  | finalize {db' : Tables} {r : FinalizeResult} {reason : DispatchReason} {outcome : DispatchOutcome} (hpc : d.pc = .refusing reason)
      (hf : fahes_finalize_unit db d.host.executionUnitId .REFUSED = some (db', r)) (houtcome : ∀ n t, outcome ≠ .RUNNING n t) :
      DispatchEffect db token d db' (.returned outcome)

section Dispatch

variable {db db' : Tables} {token : ℕ} {d : Dispatch}

theorem loadUnit_some {host : HostIdentity} {u : ExecutionUnit} (h : loadUnit db host = some u) :
    db.units[host.executionUnitId]? = some u ∧ u.userId = host.userId := by
  obtain ⟨hu, huser⟩ := Option.filter_eq_some_iff.mp h
  exact ⟨hu, by simpa using huser⟩

/-- A transition is won, or nothing is done; the owner of a unit that is where it should be loses only when the lease is lost. -/
theorem cas_does {host : HostIdentity} {n : ℕ} {leaseClass : LeaseClass} {edge : HostEdge} {result : CasResult}
    (h : casHostTransition db host n token leaseClass edge = (db', result)) :
    (result = .OK ∧ db.statusOf host.executionUnitId = some edge.before ∧
      ∃ units, setStatus db.units host.executionUnitId false edge.after = some units ∧ db' = { db with units }) ∨
    result ≠ .OK ∧ db' = db ∧ (Owned db token host n → db.statusOf host.executionUnitId = some edge.before →
      db.hasOpenLease host.executionUnitId = false) := by
  unfold casHostTransition at h
  split at h
  · rename_i hnone
    cases h
    refine .inr ⟨by simp, rfl, fun ho => ?_⟩
    obtain ⟨u, hu, -⟩ := ho.unit
    rw [hnone] at hu
    cases hu
  rename_i u hu
  have hrow := (loadUnit_some hu).1
  split at h
  · rename_i hlost
    cases h
    refine .inr ⟨by simp, rfl, fun ho hst => ?_⟩
    obtain ⟨u', hu', hattempt⟩ := ho.unit
    obtain rfl := Option.some.inj (hu.symm.trans hu')
    rw [statusOf_eq hrow] at hst
    simp [Option.some.inj hst, hattempt, ho.claim] at hlost
  rename_i hmatch
  have hbefore : u.status = edge.before := by
    simp only [ne_eq, Bool.or_eq_true, decide_eq_true_eq, not_or, not_not] at hmatch
    exact hmatch.1.1
  split at h
  · rename_i hnone
    exfalso
    simp only [setStatus, hrow] at hnone
    split at hnone
    · cases hnone
    · rename_i hguard
      apply hguard
      rw [hbefore]
      cases edge <;> simp [fahes_unit_guard, HostEdge.before, HostEdge.after, unitTransition, ExecutionUnitStatus.isTerminal]
  rename_i units hunits
  split at h <;> cases h
  · rename_i hlease
    refine .inr ⟨by simp, rfl, fun _ _ => ?_⟩
    simpa using (Bool.and_eq_true_iff.mp hlease).2
  · exact .inl ⟨rfl, hbefore ▸ statusOf_eq hrow, units, hunits, rfl⟩

theorem deadlineCause_not_terminal {plan : Option ScanPlan} {scan : Option Scan} {u : ExecutionUnit} {options : CauseOptions}
    {now : ℤ} {st : ExecutionUnitStatus} : deadlineCause plan scan u options now ≠ .ok (.TERMINAL st) := by
  intro h
  obtain ⟨deadline, -, h⟩ := bind_ok_iff.mp h
  have hcause := Except.ok.inj h
  unfold causeOf at hcause
  split at hcause
  · cases hcause
  · split at hcause <;> cases hcause
  · cases hcause

theorem readCause_not_terminal {u : ExecutionUnit} {status st : ExecutionUnitStatus} {options : CauseOptions} {r : Reading}
    (hlive : status.isTerminal = false) : readCause db u status options r ≠ .inr (.ok (.TERMINAL st)) := by
  intro h
  unfold readCause at h
  split at h
  · rw [hlive] at h
    cases h
  · cases h
  · split at h
    · cases h
    · exact deadlineCause_not_terminal (Sum.inr.inj h)

theorem loadUnit_of_claim {margin : ℤ} {n : ℕ} (h : claimUnitHost db d.host token margin = .ok (db', .CLAIMED n)) :
    ∃ u, loadUnit db d.host = some u ∧ u.attempt = n ∧
      (∀ c ∈ db.claims, c.executionUnitId = d.host.executionUnitId → c.attempt ≠ u.attempt) ∧
      db' = { db with claims := db.claims ++ [⟨d.host.executionUnitId, u.attempt, d.host.hostInstanceId, token⟩] } := by
  unfold claimUnitHost at h
  split at h
  · cases h
  split at h
  · cases h
  rename_i u hu
  split at h
  · cases h
  split at h
  · cases h
  split at h <;> try cases h
  unfold insertClaim at h
  split at h <;> cases h
  rename_i hfree
  refine ⟨u, hu, rfl, fun c hc hunit hattempt => hfree ?_, rfl⟩
  exact List.any_eq_true.mpr ⟨c, hc, by simp [hunit, hattempt]⟩

theorem claim_unchanged {margin : ℤ} {result : ClaimResult} (h : claimUnitHost db d.host token margin = .ok (db', result))
    (hr : ∀ n, result ≠ .CLAIMED n) : db' = db := by
  unfold claimUnitHost at h
  split at h
  · cases h
    rfl
  split at h
  · cases h
    rfl
  split at h
  · cases h
    rfl
  split at h
  · cases h
    rfl
  split at h
  · cases h
  · cases h
    rfl
  · cases h
    rfl
  · unfold insertClaim at h
    split at h <;> cases h
    · rfl
    · exact absurd rfl (hr _)

/-- A lost transition of the owner leaves no open lease. -/
theorem lost_closed {host : HostIdentity} {n : ℕ} {st : ExecutionUnitStatus} (ho : Owned db token host n)
    (hlost : Owned db token host n → db.statusOf host.executionUnitId = some st → db.hasOpenLease host.executionUnitId = false)
    (h : db.statusOf host.executionUnitId = some st ∨ db.Done host.executionUnitId) : db.hasOpenLease host.executionUnitId = false :=
  h.elim (hlost ho) And.right

/-- **What a step of a dispatch can do.** -/
theorem dispatch_does {answer : Answer} {pc pc' : DispatchPc} (hpc : d.pc = pc) (h : dispatchStep db token d pc answer = some (db', pc')) :
    DispatchEffect db token d db' pc' := by
  unfold dispatchStep at h
  split at h
  · -- pickup
    split at h
    · cases h
      exact .same nofun fun _ hp => by rw [hpc] at hp; exact hp
    · split at h
      · cases h
        exact .same nofun fun _ hp => by rw [hpc] at hp; exact hp
      · split at h <;> cases h <;> exact .same nofun fun _ hp => by rw [hpc] at hp; exact hp
  · -- capacity
    cases h
    split <;> exact .same nofun fun _ hp => by rw [hpc] at hp; exact hp
  · -- claim
    split at h
    · cases h
    rename_i result hclaim
    cases h
    cases result with
    | CLAIMED n =>
      obtain ⟨u, hu, rfl, hfree, rfl⟩ := loadUnit_of_claim hclaim
      exact .claim hu hfree fun hp => by rw [hpc] at hp; exact hp
    | REFUSE reason =>
      obtain rfl := claim_unchanged hclaim (by simp)
      exact .same nofun fun _ hp => by rw [hpc] at hp; exact .inr hp
    | ALREADY_CLAIMED =>
      obtain rfl := claim_unchanged hclaim (by simp)
      exact .same nofun fun _ hp => by rw [hpc] at hp; exact hp
    | NOT_CLAIMABLE reason =>
      obtain rfl := claim_unchanged hclaim (by simp)
      cases reason <;> exact .same nofun fun _ hp => by rw [hpc] at hp; exact hp
  · -- guards
    split at h <;> cases h
    · exact .same nofun fun _ hp => by rw [hpc] at hp; exact .inr hp
    · exact .same (fun _ h => by rw [hpc]; exact h) fun _ hp => by rw [hpc] at hp; exact hp
  · -- the re-read before the admission
    split at h
    · cases h
      exact .same (fun _ h => by rw [hpc]; exact h) fun _ hp => by rw [hpc] at hp; exact hp
    · cases h
    · rename_i cause _
      cases h
      cases cause with
      | NONE => exact .same (fun _ h => by rw [hpc]; exact h) fun _ hp => by rw [hpc] at hp; exact hp
      | KILL_SWITCH_PENDING key => exact .same (fun _ h => by rw [hpc]; exact h) fun _ hp => by rw [hpc] at hp; exact hp
      | TERMINAL status => exact .same nofun fun _ hp => by rw [hpc] at hp; exact hp
      | SCAN_NOT_STARTED => exact .same nofun fun _ hp => by rw [hpc] at hp; exact hp
      | REFUSE reason => exact .same nofun fun _ hp => by rw [hpc] at hp; exact .inr hp
  · -- admission
    split at h <;> cases h
    · exact .same nofun fun _ hp => by rw [hpc] at hp; exact .inr hp
    · exact .same (fun _ h => by rw [hpc]; exact h) fun _ _ => trivial
    · exact .lease (by rw [hpc]; rfl)
  · -- the transition to `ADMITTED`
    rename_i u n
    rcases hcas : casHostTransition db d.host n token d.leaseClass .PLANNED_ADMITTED with ⟨db₁, result⟩
    rw [hcas] at h
    cases h
    obtain ⟨rfl, hbefore, units, hunits, rfl⟩ | ⟨hne, rfl, -⟩ := cas_does hcas
    · exact .cas (by rw [hpc]; rfl) hbefore hunits (.admitted u)
    · cases result with
      | OK => exact absurd rfl hne
      | LOST => exact .same nofun fun _ _ => trivial
      | LEASE_LOST => exact .same nofun fun _ _ => trivial
  · cases h
    exact .free _
  · -- proofs
    split at h <;> cases h
    · exact .same nofun fun _ hp => by rw [hpc] at hp; exact hp.imp_right And.right
    · exact .same (fun _ h => by rw [hpc]; exact h) fun _ hp => by rw [hpc] at hp; exact hp
  · -- the second evaluation
    split at h
    · cases h
      exact .same (fun _ h => by rw [hpc]; exact h) fun _ hp => by rw [hpc] at hp; exact hp
    · cases h
    · rename_i cause hcause
      cases h
      cases cause with
      | TERMINAL status => exact absurd hcause (readCause_not_terminal rfl)
      | NONE => exact .same (fun _ h => by rw [hpc]; exact h) fun _ hp => by rw [hpc] at hp; exact hp
      | KILL_SWITCH_PENDING key => exact .same nofun fun _ hp => by rw [hpc] at hp; exact hp.imp_right And.right
      | SCAN_NOT_STARTED => exact .same nofun fun _ hp => by rw [hpc] at hp; exact hp.imp_right And.right
      | REFUSE reason => exact .same nofun fun _ hp => by rw [hpc] at hp; exact hp.imp_right And.right
  · -- the transition to `DISPATCHED`
    rename_i n
    rcases hcas : casHostTransition db d.host n token d.leaseClass .ADMITTED_DISPATCHED with ⟨db₁, result⟩
    rw [hcas] at h
    cases h
    obtain ⟨rfl, hbefore, units, hunits, rfl⟩ | ⟨hne, rfl, hlost⟩ := cas_does hcas
    · exact .cas (by rw [hpc]; rfl) hbefore hunits .dispatched
    · rw [if_neg hne]
      refine .same nofun fun ho hp => ?_
      rw [hpc] at ho hp
      exact lost_closed (ho n rfl) hlost hp
  · cases h
    exact .same (fun _ h => by rw [hpc]; exact h) fun _ hp => by rw [hpc] at hp; exact hp
  · -- the transition to `RUNNING`
    rename_i n
    rcases hcas : casHostTransition db d.host n token d.leaseClass .DISPATCHED_RUNNING with ⟨db₁, result⟩
    rw [hcas] at h
    cases h
    obtain ⟨rfl, hbefore, units, hunits, rfl⟩ | ⟨hne, rfl, hlost⟩ := cas_does hcas
    · exact .cas (by rw [hpc]; rfl) hbefore hunits .running
    · cases result with
      | OK => exact absurd rfl hne
      | LOST =>
        refine .same nofun fun ho hp => ?_
        rw [hpc] at ho hp
        exact lost_closed (ho n rfl) hlost hp
      | LEASE_LOST =>
        refine .same nofun fun ho hp => ?_
        rw [hpc] at ho hp
        exact lost_closed (ho n rfl) hlost hp
  · cases h
    exact .same nofun fun _ hp => by rw [hpc] at hp; exact hp
  · -- the finalizer
    obtain ⟨⟨db₁, r⟩, hf, h⟩ := Option.bind_eq_some_iff.mp h
    cases h
    refine .finalize hpc hf fun n t he => ?_
    split at he <;> cases he
  · cases h

end Dispatch

/-! ### The invariant -/

/-- A claim's dispatch is at a statement that fits what has become of the unit, and nobody has a lease without a claim. -/
structure Owners (s : State) : Prop where
  claims : ∀ c ∈ s.db.claims, ∃ d, s.dispatches[c.claimTokenHash]? = some d ∧ d.host.executionUnitId = c.executionUnitId ∧
    Holds s.db c.executionUnitId d.pc
  units : ∀ c ∈ s.db.claims, ∃ u, s.db.units[c.executionUnitId]? = some u ∧ u.attempt = c.attempt
  one : ∀ c ∈ s.db.claims, ∀ c' ∈ s.db.claims, c.executionUnitId = c'.executionUnitId → c.claimTokenHash = c'.claimTokenHash
  owned : ∀ (k : ℕ) (d : Dispatch) n, s.dispatches[k]? = some d → d.pc.attempt = some n → Owned s.db k d.host n
  leases : ∀ i, s.db.hasOpenLease i = true → ∃ c ∈ s.db.claims, c.executionUnitId = i

section Owners

variable {s : State} {db' : Tables} {k : ℕ} {d : Dispatch} {pc' : DispatchPc}

theorem Owned.keeps {db : Tables} {token n : ℕ} {host : HostIdentity} (ho : Owned db token host n) (hkeeps : Keeps db db')
    (hclaims : ∀ c ∈ db.claims, c ∈ db'.claims) : Owned db' token host n := by
  obtain ⟨⟨u, hu, rfl⟩, hclaim⟩ := ho
  obtain ⟨hrow, huser⟩ := loadUnit_some hu
  obtain ⟨st, hst⟩ := hkeeps _ u hrow
  exact ⟨⟨{ u with status := st }, by simp [loadUnit, hst, huser], rfl⟩, hclaims _ hclaim⟩

/-- An event. -/
theorem Owners.event (hs : Owners s) {e : Event} (he : s.db.event e = some db') : Owners { s with db := db' } := by
  obtain ⟨hclaims, hkeeps, hleases⟩ := event_keeps he
  refine ⟨fun c hc => ?_, fun c hc => ?_, fun c hc c' hc' => ?_, fun k d n hk hn => ?_, fun i hi => ?_⟩
  · obtain ⟨d, hd, hunit, hp⟩ := hs.claims c (hclaims ▸ hc)
    obtain ⟨u, hu, -⟩ := hs.units c (hclaims ▸ hc)
    exact ⟨d, hd, hunit, hp.quiet (event_quiet he (List.getElem?_eq_some_iff.mp hu).1)⟩
  · obtain ⟨u, hu, hattempt⟩ := hs.units c (hclaims ▸ hc)
    obtain ⟨st, hst⟩ := hkeeps _ u hu
    exact ⟨_, hst, hattempt⟩
  · exact hs.one c (hclaims ▸ hc) c' (hclaims ▸ hc')
  · exact (hs.owned k d n hk hn).keeps hkeeps fun c hc => hclaims.symm ▸ hc
  · obtain ⟨c, hc, hunit⟩ := hs.leases i (hleases i hi)
    exact ⟨c, hclaims.symm ▸ hc, hunit⟩

theorem setPc_self (hk : s.dispatches[k]? = some d) : (s.setPc db' k pc').dispatches[k]? = some { d with pc := pc' } := by
  simp [State.setPc, hk]

theorem setPc_ne {j : ℕ} (h : k ≠ j) : (s.setPc db' k pc').dispatches[j]? = s.dispatches[j]? := by
  simp [State.setPc, h]

/-- A dispatch goes on: what it does to units that others own is quiet. -/
theorem Owners.advance (hs : Owners s) (hk : s.dispatches[k]? = some d) (hclaims : db'.claims = s.db.claims) (hkeeps : Keeps s.db db')
    (hleases : ∀ i, db'.hasOpenLease i = true → s.db.hasOpenLease i = true ∨ ∃ c ∈ s.db.claims, c.executionUnitId = i)
    (hquiet : ∀ c ∈ s.db.claims, c.claimTokenHash ≠ k → c.executionUnitId < s.db.units.length → Quiet s.db db' c.executionUnitId)
    (hattempt : ∀ n, pc'.attempt = some n → Owned s.db k d.host n)
    (hholds : (∃ c ∈ s.db.claims, c.claimTokenHash = k) → Holds s.db d.host.executionUnitId d.pc → Holds db' d.host.executionUnitId pc') :
    Owners (s.setPc db' k pc') := by
  refine ⟨fun c hc => ?_, fun c hc => ?_, fun c hc c' hc' => ?_, fun j u n hj hn => ?_, fun i hi => ?_⟩
  · replace hc : c ∈ s.db.claims := hclaims ▸ hc
    obtain ⟨d', hd', hunit, hp⟩ := hs.claims c hc
    by_cases e : k = c.claimTokenHash
    · subst e
      obtain rfl := Option.some.inj (hk.symm.trans hd')
      refine ⟨_, setPc_self hk, hunit, ?_⟩
      rw [← hunit] at hp ⊢
      exact hholds ⟨c, hc, rfl⟩ hp
    · obtain ⟨u, hu, -⟩ := hs.units c hc
      exact ⟨d', (setPc_ne e).trans hd', hunit, hp.quiet (hquiet c hc (Ne.symm e) (List.getElem?_eq_some_iff.mp hu).1)⟩
  · obtain ⟨u, hu, he⟩ := hs.units c (hclaims ▸ hc)
    obtain ⟨st, hst⟩ := hkeeps _ u hu
    exact ⟨_, hst, he⟩
  · exact hs.one c (hclaims ▸ hc) c' (hclaims ▸ hc')
  · have hmem : ∀ c ∈ s.db.claims, c ∈ db'.claims := fun c hc => hclaims.symm ▸ hc
    by_cases e : k = j
    · subst e
      obtain rfl := Option.some.inj ((setPc_self hk).symm.trans hj)
      exact (hattempt n hn).keeps hkeeps hmem
    · exact (hs.owned j u n ((setPc_ne e).symm.trans hj) hn).keeps hkeeps hmem
  · rcases hleases i hi with hopen | ⟨c, hc, hunit⟩
    · obtain ⟨c, hc, hunit⟩ := hs.leases i hopen
      exact ⟨c, hclaims.symm ▸ hc, hunit⟩
    · exact ⟨c, hclaims.symm ▸ hc, hunit⟩

/-- Whose claim it is not, owns another unit. -/
theorem Owners.other_unit (hs : Owners s) {n : ℕ} (ho : Owned s.db k d.host n) {c : ExecutionUnitHostClaim} (hc : c ∈ s.db.claims)
    (hne : c.claimTokenHash ≠ k) : c.executionUnitId ≠ d.host.executionUnitId := by
  intro he
  exact hne (hs.one c hc _ ho.claim he)

/-- **A step of a dispatch.** -/
theorem Owners.dispatch (hs : Owners s) (hk : s.dispatches[k]? = some d) (h : DispatchEffect s.db k d db' pc') :
    Owners (s.setPc db' k pc') := by
  cases h with
  | same hattempt hholds =>
    exact hs.advance hk rfl (.refl _) (fun _ h => .inl h) (fun c _ _ _ => .refl _ _)
      (fun n hn => hs.owned k d n hk (hattempt n hn)) fun _ hp => hholds (fun n => hs.owned k d n hk) hp
  | @claim u u' hu hfree hholds =>
    have hrow := (loadUnit_some hu).1
    -- nobody has claimed the unit, so it has no open lease
    have hunclaimed : ∀ c ∈ s.db.claims, c.executionUnitId ≠ d.host.executionUnitId := by
      intro c hc he
      obtain ⟨v, hv, hattempt⟩ := hs.units c hc
      rw [he, hrow] at hv
      obtain rfl := Option.some.inj hv
      exact hfree c hc he hattempt.symm
    have hclosed : s.db.hasOpenLease d.host.executionUnitId = false := by
      by_contra hopen
      obtain ⟨c, hc, he⟩ := hs.leases _ (by simpa using hopen)
      exact hunclaimed c hc he
    have hmem : ∀ {c : ExecutionUnitHostClaim} {new : ExecutionUnitHostClaim}, c ∈ s.db.claims ++ [new] → c ∈ s.db.claims ∨ c = new :=
      fun hc => (List.mem_append.mp hc).imp_right List.mem_singleton.mp
    refine ⟨fun c hc => ?_, fun c hc => ?_, fun c hc c' hc' he => ?_, fun j v n hj hn => ?_, fun i hi => ?_⟩
    · rcases hmem hc with hold | rfl
      · obtain ⟨d', hd', hunit, hp⟩ := hs.claims c hold
        have hne : k ≠ c.claimTokenHash := by
          rintro rfl
          obtain rfl := Option.some.inj (hk.symm.trans hd')
          exact hunclaimed c hold hunit.symm
        exact ⟨d', (setPc_ne hne).trans hd', hunit, hp.quiet ⟨.inl rfl, fun h => h, fun _ => rfl⟩⟩
      · exact ⟨_, setPc_self hk, rfl, hclosed⟩
    · rcases hmem hc with hc | rfl
      · exact hs.units c hc
      · exact ⟨u, hrow, rfl⟩
    · rcases hmem hc with hc | rfl <;> rcases hmem hc' with hc' | rfl
      · exact hs.one c hc c' hc' he
      · exact absurd he (hunclaimed c hc)
      · exact absurd he.symm (hunclaimed c' hc')
      · rfl
    · by_cases e : k = j
      · subst e
        obtain rfl := Option.some.inj ((setPc_self hk).symm.trans hj)
        cases hn
        exact ⟨⟨u, hu, rfl⟩, List.mem_append_right _ (List.mem_singleton.mpr rfl)⟩
      · exact (hs.owned j v n ((setPc_ne e).symm.trans hj) hn).keeps (.refl _) fun c hc => List.mem_append_left _ hc
    · obtain ⟨c, hc, he⟩ := hs.leases i hi
      exact ⟨c, List.mem_append_left _ hc, he⟩
  | @lease u n hpc =>
    have ho := hs.owned k d n hk hpc
    have hleases : ∀ i, (s.db.leases ++ [(⟨d.host.executionUnitId, true, s.db.clock + leaseMs⟩ : UnitLease)]).any
        (fun l => decide (l.executionUnitId = i) && l.isOpen) = (s.db.hasOpenLease i || decide (d.host.executionUnitId = i)) := by
      intro i
      simp [Tables.hasOpenLease]
    refine hs.advance hk rfl (.refl _) (fun i hi => ?_) (fun c hc hne _ => ⟨.inl rfl, fun hi => ?_, fun _ => rfl⟩)
      (fun n' hn => by cases hn; exact ho) fun _ _ => trivial
    · have hor := (hleases i).symm.trans hi
      simp only [Bool.or_eq_true, decide_eq_true_eq] at hor
      exact hor.imp_right fun he => ⟨_, ho.claim, he⟩
    · have hor := (hleases _).symm.trans hi
      simp only [Bool.or_eq_true, decide_eq_true_eq] at hor
      exact hor.resolve_right (Ne.symm (hs.other_unit ho hc hne))
  | @cas n edge units _ hpc hbefore hunits hwon =>
    have ho := hs.owned k d n hk hpc
    have hmoves := setStatus_moves hunits
    have hafter : Tables.statusOf { s.db with units } d.host.executionUnitId = some edge.after := by
      obtain ⟨u, hu, hst⟩ := unit_of_status hbefore
      simp only [setStatus, hu] at hunits
      split at hunits <;> cases hunits
      simp [Tables.statusOf, (List.getElem?_eq_some_iff.mp hu).1]
    refine hs.advance hk rfl (.of_moves hmoves) (fun i hi => .inl hi) (fun c hc hne hlt => ?_)
      (fun n' hn => by cases hwon <;> cases hn <;> exact ho) fun _ _ => ?_
    · obtain ⟨st, hst, hor⟩ := hmoves.2 _ _ (List.getElem?_eq_getElem hlt)
      have hsame : st = s.db.units[c.executionUnitId].status := hor.resolve_right fun h => hs.other_unit ho hc hne h.1
      have heq : Tables.statusOf { s.db with units } c.executionUnitId = s.db.statusOf c.executionUnitId := by
        rw [statusOf_eq (List.getElem?_eq_getElem hlt), statusOf_eq hst, hsame]
      exact ⟨.inl heq, fun h => h, fun _ => heq⟩
    · cases hwon with
      | admitted u => exact .inl hafter
      | dispatched => exact .inl hafter
      | running => exact .inl hafter
  | free reason =>
    refine hs.advance hk rfl (.refl _) (fun i hi => .inl ?_) (fun c hc _ _ => ⟨.inl rfl, fun hi => ?_, fun _ => rfl⟩)
      (fun _ hn => by cases hn) fun _ _ => hasOpenLease_release_self
    · by_cases e : d.host.executionUnitId = i
      · subst e
        exact absurd (hasOpenLease_release_self.symm.trans hi) Bool.false_ne_true
      · exact (hasOpenLease_release_ne e).symm.trans hi
    · by_cases e : d.host.executionUnitId = c.executionUnitId
      · rw [← e] at hi
        exact absurd (hasOpenLease_release_self.symm.trans hi) Bool.false_ne_true
      · exact (hasOpenLease_release_ne e).symm.trans hi
  | @finalize _ r reason outcome hpc hf houtcome =>
    have hevent : s.db.event (.finalize d.host.executionUnitId .REFUSED) = some db' := by
      rw [Tables.event, hf]
      rfl
    obtain ⟨hclaims, hkeeps, hleases⟩ := event_keeps hevent
    refine hs.advance hk hclaims hkeeps (fun i hi => .inl (hleases i hi)) (fun c _ _ hlt => event_quiet hevent hlt)
      (fun n hn => ?_) fun _ hp => ?_
    · cases outcome with
      | RUNNING n t => exact absurd rfl (houtcome n t)
      | REFUSED reason | DEFERRED reason | IGNORED reason => cases hn
    · have hclosed : db'.hasOpenLease d.host.executionUnitId = false := by
        rw [hpc] at hp
        obtain ⟨u, hu, ⟨hover, rfl, -⟩ | ⟨-, -, units, -, -, rfl⟩⟩ := finalize_does hf
        · rcases hp with hst | hc
          · rw [statusOf_eq hu] at hst
            rw [Option.some.inj hst] at hover
            cases hover
          · exact hc
        · exact hasOpenLease_release_self
      cases outcome with
      | RUNNING n t => exact absurd rfl (houtcome n t)
      | REFUSED reason | DEFERRED reason | IGNORED reason => exact hclosed

end Owners

/-! ### Runs -/

/-- The dispatch that throws has no claim, or its unit has no open lease. -/
def smooth (s : State) : Action → Bool
  | .throw k => (s.dispatches[k]?).all fun d =>
      !(s.db.claims.any (·.claimTokenHash = k) && s.db.hasOpenLease d.host.executionUnitId)
  | _ => true

section Runs

variable {s s' : State} {a : Action}

/-- **Every action keeps it**, unless an owner throws while it has a lease. -/
theorem Owners.step (hs : Owners s) (h : step s a s') (hsmooth : smooth s a = true) : Owners s' := by
  cases a with
  | event e =>
    obtain ⟨db', he, rfl⟩ := Option.map_eq_some_iff.mp h
    exact hs.event he
  | call host leaseClass margin =>
    cases h
    have hold : ∀ {j : ℕ} {d : Dispatch}, s.dispatches[j]? = some d → (s.dispatches ++ [⟨host, leaseClass, margin, .pickup⟩])[j]? = some d :=
      fun hj => (List.getElem?_append_left (List.getElem?_eq_some_iff.mp hj).1).trans hj
    refine ⟨fun c hc => ?_, hs.units, hs.one, fun j d n hj hn => ?_, hs.leases⟩
    · obtain ⟨d, hd, hrest⟩ := hs.claims c hc
      exact ⟨d, hold hd, hrest⟩
    · rcases getElem?_concat_cases hj with rfl | hj
      · cases hn
      · exact hs.owned j d n hj hn
  | run k answer =>
    obtain ⟨d, hk, h⟩ := Option.bind_eq_some_iff.mp h
    obtain ⟨⟨db', pc'⟩, hstep, h⟩ := Option.bind_eq_some_iff.mp h
    cases h
    exact hs.dispatch hk (dispatch_does rfl hstep)
  | throw k =>
    obtain ⟨d, hk, h⟩ := Option.bind_eq_some_iff.mp h
    split at h <;> cases h
    refine hs.advance hk rfl (.refl _) (fun _ h => .inl h) (fun c _ _ _ => .refl _ _) nofun ?_
    rintro ⟨c, hc, htoken⟩ -
    have hclaimed : s.db.claims.any (·.claimTokenHash = k) = true := List.any_eq_true.mpr ⟨c, hc, by simpa using htoken⟩
    have hclosed : s.db.hasOpenLease d.host.executionUnitId = false := by simpa [smooth, hk, hclaimed] using hsmooth
    exact hclosed

theorem owners_reachable (h : Reaches (Guarded step fun s a _ => smooth s a = true) .init s) : Owners s := by
  refine h.inv ⟨?_, ?_, ?_, ?_, ?_⟩ fun _ _ _ hs hstep => hs.step hstep.1 hstep.2
  · exact fun c hc => nomatch hc
  · exact fun c hc => nomatch hc
  · exact fun c hc => nomatch hc
  · exact fun k d n hk => nomatch hk
  · exact fun i hi => nomatch hi

/-- A unit that is over stays as it is. -/
theorem over_stays (h : step s a s') {i : ℕ} (ho : s.db.isOver i) : s'.db.statusOf i = s.db.statusOf i := by
  obtain ⟨st, hst, hterm⟩ := ho
  obtain ⟨u, hu, rfl⟩ := unit_of_status hst
  have hlt := (List.getElem?_eq_some_iff.mp hu).1
  cases a with
  | event e =>
    obtain ⟨db', he, rfl⟩ := Option.map_eq_some_iff.mp h
    exact (event_quiet he hlt).finished ⟨_, hst, hterm⟩
  | call host leaseClass margin =>
    cases h
    rfl
  | run k answer =>
    obtain ⟨d, hk, h⟩ := Option.bind_eq_some_iff.mp h
    obtain ⟨⟨db', pc'⟩, hstep, h⟩ := Option.bind_eq_some_iff.mp h
    cases h
    show db'.statusOf i = _
    cases dispatch_does rfl hstep with
    | same _ _ | claim _ _ _ | lease _ | free _ => rfl
    | @cas n edge units _ _ hbefore hunits _ =>
      obtain ⟨st, hst', rfl | ⟨rfl, -, hguard⟩⟩ := (setStatus_moves hunits).2 i u hu
      · exact (statusOf_eq hst').trans hst.symm
      · rw [guard_not_terminal hguard] at hterm
        cases hterm
    | @finalize _ r reason outcome _ hf _ => exact (finalize_quiet hf hlt).finished ⟨_, hst, hterm⟩
  | throw k =>
    obtain ⟨d, hk, h⟩ := Option.bind_eq_some_iff.mp h
    split at h <;> cases h
    rfl

/-- It has ended, and not in `RUNNING`. -/
def DispatchPc.isVain : DispatchPc → Bool
  | .returned (.RUNNING _ _) => false
  | .returned _ | .thrown => true
  | _ => false

theorem Holds.vain {db : Tables} {i : ℕ} {pc : DispatchPc} (hp : Holds db i pc) (hvain : pc.isVain = true) :
    db.hasOpenLease i = false := by
  cases pc with
  | returned outcome =>
    cases outcome with
    | RUNNING n t => cases hvain
    | REFUSED reason | DEFERRED reason | IGNORED reason => exact hp
  | thrown => exact hp
  | _ => cases hvain

/-- **One dispatch for an attempt**, in every run in which no owner throws while its unit has an open lease: at most one dispatch
of a unit returns `RUNNING`; a unit that is over stays as it is; a dispatch that has claimed an attempt and ends otherwise leaves no
open lease of the unit, and an open lease is always the unit's owner's. -/
theorem one_dispatch (h : Reaches (Guarded step fun s a _ => smooth s a = true) .init s) :
    (∀ (j k : ℕ) (d d' : Dispatch) n n' t t', s.dispatches[j]? = some d → s.dispatches[k]? = some d' →
      d.pc = .returned (.RUNNING n t) → d'.pc = .returned (.RUNNING n' t') → d.host.executionUnitId = d'.host.executionUnitId →
      j = k) ∧
    (∀ a s', step s a s' → ∀ (i : ℕ) (u : ExecutionUnit), s.db.units[i]? = some u → u.status.isTerminal = true →
      ∃ u', s'.db.units[i]? = some u' ∧ u'.status = u.status) ∧
    (∀ (k : ℕ) (d : Dispatch), s.dispatches[k]? = some d → d.pc.isVain = true → (∃ c ∈ s.db.claims, c.claimTokenHash = k) →
      s.db.hasOpenLease d.host.executionUnitId = false) ∧
    ∀ i, s.db.hasOpenLease i = true → ∃ c ∈ s.db.claims, c.executionUnitId = i ∧ ∃ d, s.dispatches[c.claimTokenHash]? = some d ∧
      d.host.executionUnitId = i ∧ d.pc.isVain = false := by
  have hs := owners_reachable h
  refine ⟨fun j k d d' n n' t t' hj hk hd hd' hunit => ?_, fun a s' hstep i u hu hterm => ?_, fun k d hk hvain hclaimed => ?_,
    fun i hi => ?_⟩
  · have ho := (hs.owned j d n hj (by rw [hd]; rfl)).claim
    have ho' := (hs.owned k d' n' hk (by rw [hd']; rfl)).claim
    exact hs.one _ ho _ ho' hunit
  · exact unit_of_status ((over_stays hstep (isOver_of hu hterm)).trans (statusOf_eq hu))
  · obtain ⟨c, hc, rfl⟩ := hclaimed
    obtain ⟨d', hd', hunit, hp⟩ := hs.claims c hc
    obtain rfl := Option.some.inj (hk.symm.trans hd')
    exact hunit ▸ hp.vain hvain
  · obtain ⟨c, hc, rfl⟩ := hs.leases i hi
    obtain ⟨d, hd, hunit, hp⟩ := hs.claims c hc
    refine ⟨c, hc, rfl, d, hd, hunit, ?_⟩
    by_contra hvain
    rw [hp.vain (by simpa using hvain)] at hi
    cases hi

/-- A scan that runs, and a plan of one unit. -/
def onePlan : List Event :=
  [.createScan ⟨.RUNNING_PHASE_3, some 0⟩,
    .plan ⟨⟨.INITIAL, .RESOLVED, some 3600000, 0⟩, some 0⟩
      [⟨"unit-1", 7, 0, 3, some 5, .BROWSER, 60000, 1, none, PLANNED⟩] []]

/-- Its dispatch, until it is admitted with a lease. -/
def admittedDispatch : List Action :=
  onePlan.map .event ++ [.call ⟨0, 7, "host-1"⟩ .L 60000, .run 0 .database, .run 0 (.hasCapacity true), .run 0 .database,
    .run 0 (.guards none), .run 0 .database, .run 0 .database, .run 0 .database, .run 0 (.requestAdmission (.GRANTED true)),
    .run 0 .database]

/-- And to its end. -/
def runningDispatch : List Action :=
  admittedDispatch ++ [.run 0 (.proofs none), .run 0 .database, .run 0 .database, .run 0 .database, .run 0 .database,
    .run 0 .forkInertChild, .run 0 .database]

theorem one_dispatch_running : ∃ s, Reaches (Guarded step fun s a _ => smooth s a = true) .init s ∧
    s.db.hasOpenLease 0 = true ∧ ∃ c ∈ s.db.claims, c.executionUnitId = 0 ∧ ∃ d, s.dispatches[c.claimTokenHash]? = some d ∧
      d.host.executionUnitId = 0 ∧ d.pc.isVain = false := by
  obtain ⟨s, hs, hp⟩ := Reaches.exists_of_play next smooth .init runningDispatch
    (fun s => s.db.hasOpenLease 0 = true ∧ s.dispatches.map (·.pc) = [.returned (.RUNNING 1 0)]) (by decide)
  exact ⟨s, hs, hp.1, (one_dispatch hs).2.2.2 0 hp.1⟩

/-- The engine's proofs throw, and the lease is left. -/
theorem thrown_with_lease : ¬ ∀ s, Reaches step .init s → ∀ (k : ℕ) (d : Dispatch), s.dispatches[k]? = some d → d.pc.isVain = true →
    (∃ c ∈ s.db.claims, c.claimTokenHash = k) → s.db.hasOpenLease d.host.executionUnitId = false := by
  intro hall
  obtain ⟨s, hs, hp⟩ := Reaches.exists_of_play next (fun _ _ => true) .init (admittedDispatch ++ ([.throw 0] : List Action))
    (fun s => (s.dispatches[0]?).any (fun d => d.pc.isVain && s.db.hasOpenLease d.host.executionUnitId) = true ∧
      s.db.claims.any (·.claimTokenHash = 0) = true) (by decide)
  obtain ⟨d, hd, hopen⟩ := (Option.any_eq_true _ _).mp hp.1
  obtain ⟨hvain, hopen⟩ := Bool.and_eq_true_iff.mp hopen
  obtain ⟨c, hc, htoken⟩ := List.any_eq_true.mp hp.2
  rw [hall s hs.of_guarded 0 d hd hvain ⟨c, hc, by simpa using htoken⟩] at hopen
  cases hopen

end Runs

end WebAudit.Execution
