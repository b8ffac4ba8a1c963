import WebAudit.Execution.Propagation

/-!
# The passive units of a plan, in one pass

`completePassiveUnits` of `passive-completion.ts`, as the gate runs it when nothing comes in between: it goes once
through the passive units that are planned, in the order of their ids, and `fahes_complete_passive_unit` completes each
whose prerequisites hold when it is its turn.

A unit that waits for one with a later id has had its turn when that one is completed. It is left, and `deferred` says
that its prerequisites do not hold yet. `completePassiveUnits_fixpoint_iff` says when this happens to none.

## The model

* The position of a unit is its place in the order of the ids.
* The time of the database stands still during the pass.
-/

namespace WebAudit.Execution

open WebAudit.Planning
open ExecutionUnitStatus

/-! ### The pass -/

/-- The passive units of a plan that are planned, by their ids. -/
def passiveUnits (db : Tables) (planId : ℕ) : List ℕ :=
  (List.range db.units.length).filter fun i => (db.units[i]?).any fun u =>
    decide (u.scanPlanId = planId) && decide (u.status = PLANNED) &&
      (decide (u.executionUnitClass = .PASSIVE_HTTP) || decide (u.executionUnitClass = .SOURCE_STATIC))

/-- `NOT_YET`: what `fahes_complete_passive_unit` raises when a unit has still to wait. -/
def notYet (db : Tables) (i : ℕ) : Bool :=
  (db.units[i]?).any fun u =>
    !u.status.isTerminal && decide (u.status = PLANNED) &&
      (decide (u.executionUnitClass = .PASSIVE_HTTP) || decide (u.executionUnitClass = .SOURCE_STATIC)) &&
      ((db.planOf u).any fun plan => decide (plan.kind = .INITIAL) && decide (plan.state = .RESOLVED) && plan.scanId.isSome && plan.deadlineMs.isSome) &&
      ((passiveScan db u).isNone || !prerequisitesMet db i || u.domain.isSome)

structure PassiveCompletionResult where
  completed : List ℕ
  refused : List ℕ
  deferred : List ℕ
  deriving DecidableEq

def PassiveCompletionResult.add (out : PassiveCompletionResult) (i : ℕ) : ExecutionUnitStatus → PassiveCompletionResult
  | COMPLETED => { out with completed := out.completed ++ [i] }
  | REFUSED => { out with refused := out.refused ++ [i] }
  | _ => out

/-- The loop, `none` when an error is thrown that does not say that the unit has to wait. -/
def completeLoop : List ℕ → Tables → PassiveCompletionResult → Option (Tables × PassiveCompletionResult)
  | [], db, out => some (db, out)
  | i :: todo, db, out =>
    match fahes_complete_passive_unit db i with
    | some (db', r) => completeLoop todo db' (out.add i r.status)
    | none => if notYet db i then completeLoop todo db { out with deferred := out.deferred ++ [i] } else none

def completePassiveUnits (db : Tables) (scanPlanId : ℕ) : Option (Tables × PassiveCompletionResult) :=
  completeLoop (passiveUnits db scanPlanId) db ⟨[], [], []⟩

/-! ### A turn -/

/-- The classes of the units that the orchestrator completes. -/
def IsCompletable (u : ExecutionUnit) : Prop := u.executionUnitClass = .PASSIVE_HTTP ∨ u.executionUnitClass = .SOURCE_STATIC

/-- What a unit becomes as far as its scan and its module go. -/
def passiveEnd (db : Tables) (u : ExecutionUnit) : Option ExecutionUnitStatus := do
  let scanId ← passiveScan db u
  let domain ← u.domain
  let result ← db.moduleResults.find? fun m => m.scanId = scanId && m.module = domain
  match result.state with
  | .PENDING | .RUNNING => none
  | .COMPLETE | .DEGRADED => some COMPLETED
  | .FAILED | .NOT_APPLICABLE => some REFUSED

section Turn

variable {db cur : Tables} {planId i : ℕ} {u : ExecutionUnit}

theorem passiveEnd_terminal {st : ExecutionUnitStatus} (h : passiveEnd db u = some st) : st.isTerminal = true := by
  obtain ⟨scanId, -, h⟩ := Option.bind_eq_some_iff.mp h
  obtain ⟨domain, -, h⟩ := Option.bind_eq_some_iff.mp h
  obtain ⟨result, -, h⟩ := Option.bind_eq_some_iff.mp h
  split at h <;> cases h <;> rfl

/-- One call for a unit that is planned. -/
theorem complete_planned (hu : db.units[i]? = some u) (hplanned : u.status = PLANNED) (hclass : IsCompletable u) :
    fahes_complete_passive_unit db i =
      if prerequisitesMet db i then
        (passiveEnd db u).map fun st => ({ db with units := db.units.set i { u with status := st } }, ⟨st, false⟩)
      else none := by
  have hset : ∀ passive new, fahes_unit_guard u.executionUnitClass passive u.status new = true →
      setStatus db.units i passive new = some (db.units.set i { u with status := new }) := by
    intro passive new hguard
    simp only [setStatus, hu, hguard, if_true]
  have hcompleted := hset true COMPLETED (by rw [hplanned]; rcases hclass with h | h <;> rw [h] <;> rfl)
  have hrefused := hset false REFUSED (by rw [hplanned]; rcases hclass with h | h <;> rw [h] <;> rfl)
  have hlive : u.status.isTerminal = false := by rw [hplanned]; rfl
  have hpassive : (!(decide (u.executionUnitClass = .PASSIVE_HTTP) || decide (u.executionUnitClass = .SOURCE_STATIC)) ||
      decide (u.status ≠ PLANNED)) = false := by
    rcases hclass with h | h <;> simp [h, hplanned]
  unfold fahes_complete_passive_unit passiveEnd
  simp only [hu, Option.bind_eq_bind, Option.bind_some, hlive, hpassive, Bool.false_eq_true, if_false]
  cases passiveScan db u with
  | none => simp
  | some scanId =>
    by_cases hmet : prerequisitesMet db i = true
    · simp only [Option.bind_some, hmet, Bool.not_true, Bool.false_eq_true, if_false, if_true]
      cases hdomain : u.domain with
      | none => rfl
      | some domain =>
        simp only [Option.bind_some]
        cases db.moduleResults.find? fun m => m.scanId = scanId && m.module = domain with
        | none => rfl
        | some result =>
          simp only [Option.bind_some]
          cases result.state <;> simp [hcompleted, hrefused, hdomain]
    · simp [hmet]

theorem mem_passiveUnits : i ∈ passiveUnits db planId ↔
    ∃ u, db.units[i]? = some u ∧ u.scanPlanId = planId ∧ u.status = PLANNED ∧ IsCompletable u := by
  simp only [passiveUnits, List.mem_filter, List.mem_range, Option.any_eq_true, Bool.and_eq_true, Bool.or_eq_true,
    decide_eq_true_eq, and_assoc, IsCompletable]
  constructor
  · rintro ⟨-, h⟩
    exact h
  · rintro ⟨u, hu, h⟩
    exact ⟨(List.getElem?_eq_some_iff.mp hu).1, u, hu, h⟩

theorem prerequisitesMet_iff : prerequisitesMet db i = true ↔
    ∀ p d, (i, p) ∈ db.dependencies → db.units[p]? = some d → d.status = COMPLETED := by
  simp only [prerequisitesMet, List.all_eq_true, Bool.or_eq_true, decide_eq_true_eq, Option.all_eq_true]
  constructor
  · intro h p d hdep hd
    exact (h (i, p) hdep).resolve_left (fun hne => hne rfl) d hd
  · rintro h ⟨j, p⟩ hdep
    by_cases hj : j = i
    · subst hj
      exact .inr fun d hd => h p d hdep hd
    · exact .inl hj

/-! ### Which units are completed -/

/-- The pass completes the unit: what it waits for is completed, or comes before it and is completed in the pass. -/
inductive InTurn (db : Tables) (planId : ℕ) : ℕ → Prop where
  | intro {i : ℕ} {u : ExecutionUnit} (hmem : i ∈ passiveUnits db planId) (hu : db.units[i]? = some u)
      (hend : passiveEnd db u = some COMPLETED)
      (hless : ∀ p d, (i, p) ∈ db.dependencies → db.units[p]? = some d → d.status ≠ COMPLETED → p < i)
      (hbefore : ∀ p d, (i, p) ∈ db.dependencies → db.units[p]? = some d → d.status ≠ COMPLETED → InTurn db planId p) :
      InTurn db planId i

/-- When it is the unit's turn, all that it waits for is completed. -/
def ReadyInTurn (db : Tables) (planId i : ℕ) : Prop :=
  ∀ p d, (i, p) ∈ db.dependencies → db.units[p]? = some d → d.status ≠ COMPLETED → p < i ∧ InTurn db planId p

theorem inTurn_iff (hu : db.units[i]? = some u) : InTurn db planId i ↔
    i ∈ passiveUnits db planId ∧ passiveEnd db u = some COMPLETED ∧ ReadyInTurn db planId i := by
  constructor
  · rintro ⟨hmem, hu', hend, hless, hbefore⟩
    obtain rfl := Option.some.inj (hu.symm.trans hu')
    exact ⟨hmem, hend, fun p d hdep hd hne => ⟨hless p d hdep hd hne, hbefore p d hdep hd hne⟩⟩
  · rintro ⟨hmem, hend, hready⟩
    exact ⟨hmem, hu, hend, fun p d hdep hd hne => (hready p d hdep hd hne).1, fun p d hdep hd hne => (hready p d hdep hd hne).2⟩

/-- The tables when the units of `done` have had their turn. -/
structure Passed (db : Tables) (planId : ℕ) (done : List ℕ) (cur : Tables) : Prop where
  frame : cur = { db with units := cur.units }
  length : cur.units.length = db.units.length
  unit : ∀ j u, db.units[j]? = some u → ∃ st, cur.units[j]? = some { u with status := st } ∧ (j ∉ done → st = u.status) ∧
    (j ∈ done → (ReadyInTurn db planId j → st = (passiveEnd db u).getD PLANNED) ∧ (¬ ReadyInTurn db planId j → st = PLANNED))

theorem Passed.completed_iff {done : List ℕ} (h : Passed db planId done cur) (hdone : done ⊆ passiveUnits db planId) {p : ℕ}
    {d : ExecutionUnit} (hd : db.units[p]? = some d) :
    (∃ d', cur.units[p]? = some d' ∧ d'.status = COMPLETED) ↔ d.status = COMPLETED ∨ p ∈ done ∧ InTurn db planId p := by
  obtain ⟨st, hst, hout, hin⟩ := h.unit p d hd
  have hcur : (∃ d', cur.units[p]? = some d' ∧ d'.status = COMPLETED) ↔ st = COMPLETED := by
    rw [hst]
    constructor
    · rintro ⟨d', e, hcompleted⟩
      cases e
      exact hcompleted
    · rintro rfl
      exact ⟨_, rfl, rfl⟩
  rw [hcur]
  by_cases hmem : p ∈ done
  · have hplanned : d.status = PLANNED := by
      obtain ⟨d', hd', -, hplanned, -⟩ := mem_passiveUnits.mp (hdone hmem)
      obtain rfl := Option.some.inj (hd.symm.trans hd')
      exact hplanned
    rw [hplanned, inTurn_iff hd]
    simp only [reduceCtorEq, false_or, hmem, true_and, hdone hmem]
    by_cases hready : ReadyInTurn db planId p
    · rw [(hin hmem).1 hready]
      cases passiveEnd db d with
      | none => simp
      | some st => simp [hready]
    · rw [(hin hmem).2 hready]
      simp [hready]
  · rw [hout hmem]
    simp [hmem]

/-- Nobody's prerequisites hold in their turn but those of `ReadyInTurn`. -/
theorem Passed.met_iff {done todo : List ℕ} (h : Passed db planId done cur)
    (hsplit : passiveUnits db planId = done ++ i :: todo) : prerequisitesMet cur i = true ↔ ReadyInTurn db planId i := by
  have hsorted : (passiveUnits db planId).Pairwise (· < ·) := List.pairwise_lt_range.filter _
  have hdone : done ⊆ passiveUnits db planId := fun x hx => hsplit ▸ List.mem_append_left _ hx
  rw [hsplit, List.pairwise_append, List.pairwise_cons] at hsorted
  have hbefore : ∀ p, InTurn db planId p → (p ∈ done ↔ p < i) := by
    rintro p ⟨hmem, -, -, -, -⟩
    constructor
    · exact fun hp => hsorted.2.2 p hp i (List.mem_cons_self ..)
    · intro hlt
      rw [hsplit, List.mem_append, List.mem_cons] at hmem
      rcases hmem with hmem | rfl | hmem
      · exact hmem
      · exact absurd hlt (lt_irrefl _)
      · exact absurd hlt (lt_asymm (hsorted.2.1.1 p hmem))
  rw [prerequisitesMet_iff, h.frame]
  constructor
  · intro hmet p d hdep hd hne
    obtain ⟨st, hst, -⟩ := h.unit p d hd
    obtain hcompleted | ⟨hp, hturn⟩ := (h.completed_iff hdone hd).mp ⟨_, hst, hmet p _ hdep hst⟩
    · exact absurd hcompleted hne
    · exact ⟨(hbefore p hturn).mp hp, hturn⟩
  · intro hready p d' hdep hd'
    have hlt : p < db.units.length := h.length ▸ (List.getElem?_eq_some_iff.mp hd').1
    have hd := List.getElem?_eq_getElem hlt
    obtain ⟨d'', hd'', hcompleted⟩ := (h.completed_iff hdone hd).mpr (by
      by_cases hne : db.units[p].status = COMPLETED
      · exact .inl hne
      · obtain ⟨hp, hturn⟩ := hready p _ hdep hd hne
        exact .inr ⟨(hbefore p hturn).mpr hp, hturn⟩)
    obtain rfl := Option.some.inj (hd'.symm.trans hd'')
    exact hcompleted

/-- A turn. -/
theorem Passed.turn {done todo : List ℕ} (h : Passed db planId done cur) (hsplit : passiveUnits db planId = done ++ i :: todo) :
    match fahes_complete_passive_unit cur i with
    | some (cur', _) => Passed db planId (done ++ [i]) cur'
    | none => Passed db planId (done ++ [i]) cur := by
  have hnd : (passiveUnits db planId).Nodup := List.nodup_range.filter _
  have hnew : i ∉ done := by
    rw [hsplit, List.nodup_append] at hnd
    exact fun hi => hnd.2.2 i hi i (List.mem_cons_self ..) rfl
  obtain ⟨u, hu, -, hplanned, hclass⟩ := mem_passiveUnits.mp (hsplit ▸ List.mem_append_right done (List.mem_cons_self ..) :
    i ∈ passiveUnits db planId)
  have hst : cur.units[i]? = some u := by
    obtain ⟨st, hst, hout, -⟩ := h.unit i u hu
    rw [hout hnew] at hst
    exact hst
  have hend : passiveEnd cur u = passiveEnd db u := by rw [h.frame]; rfl
  -- what is left to say of the unit itself, once the others are settled
  have hpassed : ∀ st units, units = cur.units.set i { u with status := st } →
      (ReadyInTurn db planId i → st = (passiveEnd db u).getD PLANNED) → (¬ ReadyInTurn db planId i → st = PLANNED) →
      Passed db planId (done ++ [i]) { cur with units } := by
    rintro st units rfl hready hnot
    refine ⟨by rw [h.frame], by rw [List.length_set, h.length], fun j v hv => ?_⟩
    by_cases hj : j = i
    · subst hj
      obtain rfl := Option.some.inj (hu.symm.trans hv)
      refine ⟨st, List.getElem?_set_self (List.getElem?_eq_some_iff.mp hst).1, fun hmem => ?_, fun _ => ⟨hready, hnot⟩⟩
      exact absurd (List.mem_append_right _ (List.mem_singleton_self _)) hmem
    · obtain ⟨st', hst', hout', hin'⟩ := h.unit j v hv
      have hmem : j ∈ done ++ [i] ↔ j ∈ done := by simp [hj]
      rw [hmem]
      exact ⟨st', by rw [List.getElem?_set_ne (Ne.symm hj)]; exact hst', hout', hin'⟩
  have hsame : cur.units = cur.units.set i { u with status := u.status } := by
    obtain ⟨hi, he⟩ := List.getElem?_eq_some_iff.mp hst
    rw [← he, List.set_getElem_self]
  rw [complete_planned hst hplanned hclass, hend]
  by_cases hready : ReadyInTurn db planId i
  · rw [if_pos ((h.met_iff hsplit).mpr hready)]
    cases hst' : passiveEnd db u with
    | none =>
      refine hpassed u.status cur.units hsame (fun _ => ?_) fun hno => absurd hready hno
      rw [hst', hplanned]
      rfl
    | some st =>
      refine hpassed st _ rfl (fun _ => ?_) fun hno => absurd hready hno
      rw [hst']
      rfl
  · rw [if_neg fun hmet => hready ((h.met_iff hsplit).mp hmet)]
    exact hpassed u.status cur.units hsame (fun hyes => absurd hyes hready) fun _ => hplanned

/-- The turns of all. -/
theorem Passed.run {done todo : List ℕ} {out out' : PassiveCompletionResult} {db' : Tables} (h : Passed db planId done cur)
    (hsplit : passiveUnits db planId = done ++ todo) (hrun : completeLoop todo cur out = some (db', out')) :
    Passed db planId (passiveUnits db planId) db' := by
  induction todo generalizing done cur out with
  | nil =>
    cases hrun
    rwa [hsplit, List.append_nil]
  | cons i todo ih =>
    have hsplit' : passiveUnits db planId = (done ++ [i]) ++ todo := by rw [hsplit, List.append_assoc, List.singleton_append]
    have hturn := h.turn hsplit
    unfold completeLoop at hrun
    split at hrun
    · rename_i cur' r hcall
      rw [hcall] at hturn
      exact ih hturn hsplit' hrun
    · rename_i hcall
      rw [hcall] at hturn
      split at hrun
      · exact ih hturn hsplit' hrun
      · exact nomatch hrun

end Turn

/-! ### Who is left behind -/

/-- A passive unit of the plan that is not over, though all that it depends on is completed. -/
def LeftBehind (db : Tables) (planId i : ℕ) : Prop :=
  ∃ u, db.units[i]? = some u ∧ u.scanPlanId = planId ∧ IsCompletable u ∧ u.status.isTerminal = false ∧ prerequisitesMet db i = true

/-- **When nobody is left behind**: a unit that waits only for completed units and for units that are completed in turn is
planned, its scan is running and its module over, and those that are completed in turn come before it. -/
theorem completePassiveUnits_fixpoint_iff {db db' : Tables} {planId : ℕ} {out : PassiveCompletionResult}
    (h : completePassiveUnits db planId = some (db', out)) :
    (∀ i, ¬ LeftBehind db' planId i) ↔
      ∀ i u, db.units[i]? = some u → u.scanPlanId = planId → IsCompletable u → u.status.isTerminal = false →
        (∀ p d, (i, p) ∈ db.dependencies → db.units[p]? = some d → d.status = COMPLETED ∨ InTurn db planId p) →
        u.status = PLANNED ∧ (passiveEnd db u).isSome ∧
          ∀ p d, (i, p) ∈ db.dependencies → db.units[p]? = some d → d.status ≠ COMPLETED → p < i := by
  have hstart : Passed db planId [] db :=
    ⟨rfl, rfl, fun j u hu => ⟨u.status, hu, fun _ => rfl, nofun⟩⟩
  have hpassed := hstart.run rfl h
  have hcompleted : ∀ {p d}, db.units[p]? = some d →
      ((∃ d', db'.units[p]? = some d' ∧ d'.status = COMPLETED) ↔ d.status = COMPLETED ∨ InTurn db planId p) := by
    intro p d hd
    rw [hpassed.completed_iff (List.Subset.refl _) hd]
    exact or_congr_right (and_iff_right_of_imp fun hturn => ((inTurn_iff hd).mp hturn).1)
  have hmet : ∀ i, prerequisitesMet db' i = true ↔
      ∀ p d, (i, p) ∈ db.dependencies → db.units[p]? = some d → d.status = COMPLETED ∨ InTurn db planId p := by
    intro i
    rw [prerequisitesMet_iff, hpassed.frame]
    constructor
    · intro hall p d hdep hd
      obtain ⟨st, hst, -⟩ := hpassed.unit p d hd
      exact (hcompleted hd).mp ⟨_, hst, hall p _ hdep hst⟩
    · intro hall p d' hdep hd'
      have hd := List.getElem?_eq_getElem (hpassed.length ▸ (List.getElem?_eq_some_iff.mp hd').1 : p < db.units.length)
      obtain ⟨d'', hd'', hst⟩ := (hcompleted hd).mpr (hall p _ hdep hd)
      obtain rfl := Option.some.inj (hd'.symm.trans hd'')
      exact hst
  constructor
  · intro hnone i u hu hplan hclass hlive hall
    obtain ⟨st, hst, hout, hin⟩ := hpassed.unit i u hu
    have hover : st.isTerminal = true := by
      by_contra hno
      exact hnone i ⟨_, hst, hplan, hclass, by simpa using hno, (hmet i).mpr hall⟩
    have hmem : i ∈ passiveUnits db planId := by
      by_contra hno
      rw [hout hno, hlive] at hover
      exact nomatch hover
    obtain ⟨u', hu', -, hplanned, -⟩ := mem_passiveUnits.mp hmem
    obtain rfl := Option.some.inj (hu.symm.trans hu')
    have hready : ReadyInTurn db planId i := by
      by_contra hno
      rw [(hin hmem).2 hno] at hover
      exact nomatch hover
    refine ⟨hplanned, ?_, fun p d hdep hd hne => (hready p d hdep hd hne).1⟩
    rw [(hin hmem).1 hready] at hover
    cases hend : passiveEnd db u with
    | none =>
      rw [hend] at hover
      exact nomatch hover
    | some st => rfl
  · rintro hcond i ⟨u', hu', hplan, hclass, hlive, hmet'⟩
    obtain ⟨u, hu⟩ : ∃ u, db.units[i]? = some u :=
      ⟨_, List.getElem?_eq_getElem (hpassed.length ▸ (List.getElem?_eq_some_iff.mp hu').1)⟩
    obtain ⟨st, hst, hout, hin⟩ := hpassed.unit i u hu
    obtain rfl := Option.some.inj (hu'.symm.trans hst)
    have hall := (hmet i).mp hmet'
    have hbefore : u.status.isTerminal = false := by
      by_cases hmem : i ∈ passiveUnits db planId
      · obtain ⟨v, hv, -, hplanned, -⟩ := mem_passiveUnits.mp hmem
        obtain rfl := Option.some.inj (hu.symm.trans hv)
        rw [hplanned]
        rfl
      · rw [← hout hmem]
        exact hlive
    obtain ⟨hplanned, hend, hless⟩ := hcond i _ hu hplan hclass hbefore hall
    have hmem : i ∈ passiveUnits db planId := mem_passiveUnits.mpr ⟨_, hu, hplan, hplanned, hclass⟩
    have hready : ReadyInTurn db planId i := fun p d hdep hd hne =>
      ⟨hless p d hdep hd hne, (hall p d hdep hd).resolve_left hne⟩
    obtain ⟨st', hst'⟩ := Option.isSome_iff_exists.mp hend
    have hover := passiveEnd_terminal hst'
    rw [(hin hmem).1 hready, hst'] at hlive
    exact nomatch hover.symm.trans hlive

/-! ### A unit that waits for a later one -/

/-- A plan at the gate: two passive units, of which the first waits for the second. -/
def laterFirst : Tables where
  units := [⟨"unit-1", 7, 0, 3, none, .PASSIVE_HTTP, 900000, 1, some "SEO", PLANNED⟩,
    ⟨"unit-2", 7, 0, 3, none, .PASSIVE_HTTP, 900000, 1, some "SEO", PLANNED⟩]
  dependencies := [(0, 1)]
  claims := []
  leases := []
  plans := [⟨⟨.INITIAL, .RESOLVED, some 3600000, 0⟩, some 0⟩]
  scans := [⟨.RUNNING_PHASE_3, some 0⟩]
  moduleResults := [⟨0, "SEO", .COMPLETE⟩]
  stops := []
  clock := 60000

/-- The same tables with other statuses. -/
def laterFirstAs (first second : ExecutionUnitStatus) : Tables :=
  { laterFirst with
    units := [⟨"unit-1", 7, 0, 3, none, .PASSIVE_HTTP, 900000, 1, some "SEO", first⟩,
      ⟨"unit-2", 7, 0, 3, none, .PASSIVE_HTTP, 900000, 1, some "SEO", second⟩] }

/-- The one that is deferred is left planned. -/
theorem first_left_behind : ∃ db' out, completePassiveUnits laterFirst 0 = some (db', out) ∧ out.deferred = [0] ∧ LeftBehind db' 0 0 :=
  ⟨laterFirstAs PLANNED COMPLETED, ⟨[1], [], [0]⟩, by decide, rfl, _, rfl, rfl, .inl rfl, rfl, by decide⟩

/-- A pass over the tables that the first has left. -/
theorem completePassiveUnits_fixpoint_again :
    (∀ i, ¬ LeftBehind (laterFirstAs COMPLETED COMPLETED) 0 i) ↔
      ∀ i u, (laterFirstAs PLANNED COMPLETED).units[i]? = some u → u.scanPlanId = 0 → IsCompletable u → u.status.isTerminal = false →
        (∀ p d, (i, p) ∈ laterFirst.dependencies → (laterFirstAs PLANNED COMPLETED).units[p]? = some d →
          d.status = COMPLETED ∨ InTurn (laterFirstAs PLANNED COMPLETED) 0 p) →
        u.status = PLANNED ∧ (passiveEnd (laterFirstAs PLANNED COMPLETED) u).isSome ∧
          ∀ p d, (i, p) ∈ laterFirst.dependencies → (laterFirstAs PLANNED COMPLETED).units[p]? = some d →
            d.status ≠ COMPLETED → p < i :=
  @completePassiveUnits_fixpoint_iff (laterFirstAs PLANNED COMPLETED) _ 0 ⟨[0], [], []⟩ (by decide)

end WebAudit.Execution
