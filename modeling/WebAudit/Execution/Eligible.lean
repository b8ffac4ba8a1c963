import WebAudit.Execution.Propagation

/-!
# Which units are dispatched

`enqueueEligibleUnits` of `execution-runtime/queues.ts` adds a job for every planned unit whose
prerequisites are completed, and a unit is dispatched by its job only. So a unit that has left
`PLANNED` had everything it depends on completed, and no finalizer ever runs into one that has.

## The model

* The reads of `enqueueEligibleUnits` are one after the other: the planned units, then the statuses of
  what they depend on. Then it adds one job after another.
* A job may be delivered at any time, and again. Any number of producers and hosts are at work.
* Everything else is as in `Dispatch`.
-/

namespace WebAudit.Execution

open WebAudit.Lib WebAudit.Planning
open ExecutionUnitStatus

/-! ### The queues -/

/-- There is a queue for the class: `queueNameForUnitClass`. -/
def hasQueue : ExecutionUnitClass → Bool
  | .BROWSER | .CRAWLER | .SOURCE_EXECUTION | .ACTIVE_SECURITY | .AUTHENTICATED_WORKFLOW | .LOAD_CAPACITY => true
  | .PASSIVE_HTTP | .SOURCE_STATIC | .TELEMETRY => false

/-- The next statement of `enqueueEligibleUnits`. -/
inductive Producer where
  | units (plan : ℕ)
  | statuses (ids : List ℕ)
  | add (ids : List ℕ)
  deriving DecidableEq

structure QueueState where
  exec : State
  /-- The units that jobs have been added for. -/
  jobs : List ℕ
  producers : List Producer
  deriving DecidableEq

/-- The planned units of a plan. -/
def plannedUnits (db : Tables) (plan : ℕ) : List ℕ :=
  (List.range db.units.length).filter fun i => (db.units[i]?).any fun u => decide (u.scanPlanId = plan) && decide (u.status = PLANNED)

/-- What is to be added, of the units that have been read. -/
def eligible (db : Tables) (ids : List ℕ) : List ℕ :=
  ids.filter fun i => prerequisitesMet db i && (db.units[i]?).any fun u => hasQueue u.executionUnitClass

/-- The next statement of a producer, and whether it adds a job. -/
def produce (db : Tables) : Producer → Option (Producer × Option ℕ)
  | .units plan => some (.statuses (plannedUnits db plan), none)
  | .statuses ids => some (.add (eligible db ids), none)
  | .add [] => none
  | .add (i :: ids) => some (.add ids, some i)

inductive QueueAction where
  /-- Anything else than a call of `dispatchExecutionUnit`. -/
  | exec (a : Action)
  | enqueueEligibleUnits (plan : ℕ)
  | produce (k : ℕ)
  /-- A job is delivered, and its unit dispatched. -/
  | deliver (n : ℕ) (userId : ℕ) (hostInstanceId : String) (leaseClass : LeaseClass) (hardStopMarginMs : ℤ)
  deriving DecidableEq

def Action.isCall : Action → Bool
  | .call .. => true
  | _ => false

def queueNext (s : QueueState) : QueueAction → Option QueueState
  | .exec a => if a.isCall then none else (next s.exec a).map fun exec => { s with exec }
  | .enqueueEligibleUnits plan => some { s with producers := s.producers ++ [.units plan] }
  | .produce k => do
    let p ← s.producers[k]?
    let (p', job) ← produce s.exec.db p
    some { s with producers := s.producers.set k p', jobs := s.jobs ++ job.toList }
  | .deliver n userId hostInstanceId leaseClass hardStopMarginMs => do
    let i ← s.jobs[n]?
    let exec ← next s.exec (.call ⟨i, userId, hostInstanceId⟩ leaseClass hardStopMarginMs)
    some { s with exec }

def queueStep (s : QueueState) (a : QueueAction) (s' : QueueState) : Prop := queueNext s a = some s'

def QueueState.init : QueueState := ⟨.init, [], []⟩

/-! ### What is ready stays ready -/

/-- The unit is there, and what it depends on is completed. -/
def Tables.Ready (db : Tables) (i : ℕ) : Prop := i < db.units.length ∧ db.Met i

/-- A unit is completed after what it depends on, unless it is one of the class that completes straight from `PLANNED`. -/
def Tables.Earned (db : Tables) : Prop :=
  ∀ e ∈ db.dependencies, ∀ u : ExecutionUnit, db.units[e.1]? = some u → u.status = COMPLETED → u.executionUnitClass ≠ .TELEMETRY →
    db.statusOf e.2 = some COMPLETED

section Ready

variable {may passes : ℕ → Prop} {db db' : Tables} {i j : ℕ}

theorem Tables.Ready.turn (hr : db.Ready i) (h : Turn may passes db db') : db'.Ready i :=
  ⟨hr.1.trans_le h.keeps.2, hr.2.turn h hr.1⟩

theorem met_of_prerequisites (hw : db.Wired) (h : prerequisitesMet db i = true) : db.Met i := by
  intro e he hei
  have hall := List.all_eq_true.mp h e he
  have hd := List.getElem?_eq_getElem (hw e he).2
  simp only [hei, ne_eq, not_true_eq_false, decide_false, Bool.false_or, hd, Option.all_some, decide_eq_true_eq] at hall
  rw [statusOf_eq hd, hall]

/-- What is completed stays so. -/
theorem Turn.completed (h : Turn may passes db db') (hi : db.statusOf i = some COMPLETED) : db'.statusOf i = some COMPLETED := by
  obtain ⟨u, hu, hdone⟩ := unit_of_status hi
  rw [← hdone]
  exact statusOf_eq (h.terminal hu (by rw [hdone]; rfl))

theorem Fed.turn (hf : Fed db.dependencies db.units) (h : Turn may passes db db') (hmet : ∀ i, may i → db.Met i) :
    Fed db'.dependencies db'.units := by
  intro e he u hu hlive hne
  have hdone (hdone : db.statusOf e.2 = some COMPLETED) : ∃ v : ExecutionUnit, db'.units[e.2]? = some v ∧ v.status = COMPLETED :=
    unit_of_status (h.completed hdone)
  rcases h.get hu with ⟨v, hv, -, hchange⟩ | ⟨-, -, hplanned | hskipped⟩
  · have hlt := (List.getElem?_eq_some_iff.mp hv).1
    rcases h.edges he with he | ⟨hle, -⟩
    · rcases hchange with hsame | hbecomes
      · obtain ⟨d, hd, hdone'⟩ := hf e he v hv (hsame ▸ hlive) (hsame ▸ hne)
        exact hdone (hdone' ▸ statusOf_eq hd)
      · generalize u.status = st at hlive hbecomes
        cases hbecomes with
        | ended _ => rw [kind_terminal] at hlive; cases hlive
        | blocked _ | passed _ _ | refused _ => cases hlive
        | hosted hmay _ => exact hdone (hmet _ hmay e he rfl)
    · exact absurd hlt (Nat.not_lt.mpr hle)
  · exact absurd hplanned hne
  · rw [hskipped] at hlive
    cases hlive

theorem Tables.Earned.turn (hearned : db.Earned) (hw : db.Wired) (hf : Fed db.dependencies db.units) (h : Turn may passes db db') :
    db'.Earned := by
  intro e he u hu hdone hclass
  refine h.completed ?_
  rcases h.get hu with ⟨v, hv, hrow, hchange⟩ | ⟨-, -, hplanned | hskipped⟩
  · have hlt := (List.getElem?_eq_some_iff.mp hv).1
    have hclass : v.executionUnitClass ≠ .TELEMETRY := by rw [hrow] at hclass; exact hclass
    rcases h.edges he with he | ⟨hle, -⟩
    · rcases hchange with hsame | hbecomes
      · exact hearned e he v hv (hsame ▸ hdone) hclass
      · rw [hdone] at hbecomes
        generalize hst : COMPLETED = st at hbecomes
        cases hbecomes with
        | @ended kind hmay =>
          obtain rfl : kind = .COMPLETED := by cases kind <;> first | rfl | cases hst
          have hlive := mayFinalize_live hmay
          by_cases hplanned : v.status = PLANNED
          · simp only [mayFinalize, hplanned, decide_eq_true_eq] at hmay
            exact absurd hmay hclass
          · obtain ⟨d, hd, hdone'⟩ := hf e he v hv hlive hplanned
            exact (statusOf_eq hd).trans (congrArg some hdone')
        | blocked _ | refused _ => cases hst
        | passed _ hmet => exact met_of_prerequisites hw hmet e he rfl
        | @hosted edge _ _ => cases edge <;> cases hst
    · exact absurd hlt (Nat.not_lt.mpr hle)
  · rw [hplanned] at hdone
    cases hdone
  · rw [hskipped] at hdone
    cases hdone

end Ready

/-! ### What is true of the queues -/

/-- What a producer has read. -/
def Producer.Sound (db : Tables) : Producer → Prop
  | .units _ => True
  | .statuses ids => ∀ i ∈ ids, i < db.units.length
  | .add ids => ∀ i ∈ ids, db.Ready i

/-- Only units that are ready have jobs and dispatches. -/
structure Served (s : QueueState) : Prop where
  wired : s.exec.db.Wired
  fed : Fed s.exec.db.dependencies s.exec.db.units
  earned : s.exec.db.Earned
  jobs : ∀ i ∈ s.jobs, s.exec.db.Ready i
  producers : ∀ p ∈ s.producers, p.Sound s.exec.db
  dispatches : ∀ d ∈ s.exec.dispatches, s.exec.db.Ready d.host.executionUnitId

section Served

variable {s s' : QueueState} {a : QueueAction}

theorem Producer.Sound.turn {may passes : ℕ → Prop} {db db' : Tables} {p : Producer} (hp : p.Sound db) (h : Turn may passes db db') :
    p.Sound db' := by
  cases p with
  | units plan => trivial
  | statuses ids => exact fun i hi => (hp i hi).trans_le h.keeps.2
  | add ids => exact fun i hi => (hp i hi).turn h

/-- What the hosts, the finalizers and everybody else do keeps it. -/
theorem Served.turn (hs : Served s) {exec : State} {may passes : ℕ → Prop} (h : Turn may passes s.exec.db exec.db)
    (hmay : ∀ i, may i → s.exec.db.Met i)
    (hdispatches : ∀ d ∈ exec.dispatches, exec.db.Ready d.host.executionUnitId) : Served { s with exec } where
  wired := hs.wired.turn h
  fed := hs.fed.turn h hmay
  earned := hs.earned.turn hs.wired hs.fed h
  jobs := fun i hi => (hs.jobs i hi).turn h
  producers := fun p hp => (hs.producers p hp).turn h
  dispatches := hdispatches

/-- A dispatch keeps its unit. -/
theorem dispatches_step {u u' : State} {a : Action} (h : step u a u') (hcall : a.isCall = false) {d : Dispatch} (hd : d ∈ u'.dispatches) :
    ∃ d₀ ∈ u.dispatches, d₀.host = d.host := by
  have hmodify {k : ℕ} {pc : DispatchPc} (hd : d ∈ u.dispatches.modify k fun d => { d with pc }) : ∃ d₀ ∈ u.dispatches, d₀.host = d.host := by
    obtain ⟨j, hj⟩ := List.mem_iff_getElem?.mp hd
    rw [List.getElem?_modify] at hj
    obtain ⟨d₀, hd₀, rfl⟩ := Option.map_eq_some_iff.mp hj
    refine ⟨d₀, List.mem_of_getElem? hd₀, ?_⟩
    split <;> rfl
  cases a with
  | event e =>
    obtain ⟨db', -, rfl⟩ := Option.map_eq_some_iff.mp h
    exact ⟨d, hd, rfl⟩
  | call host leaseClass margin => cases hcall
  | run k answer =>
    obtain ⟨d₁, -, h⟩ := Option.bind_eq_some_iff.mp h
    obtain ⟨⟨db', pc'⟩, -, h⟩ := Option.bind_eq_some_iff.mp h
    cases h
    exact hmodify hd
  | throw k =>
    obtain ⟨d₁, -, h⟩ := Option.bind_eq_some_iff.mp h
    split at h <;> cases h
    exact hmodify hd

theorem Served.step (hs : Served s) (h : queueStep s a s') : Served s' := by
  cases a with
  | exec a =>
    simp only [queueStep, queueNext] at h
    split at h
    · cases h
    rename_i hcall
    obtain ⟨exec, hexec, rfl⟩ := Option.map_eq_some_iff.mp h
    have hturn := step_turn hexec
    refine hs.turn hturn ?_ fun d hd => ?_
    · rintro i ⟨d, hd, rfl⟩
      exact (hs.dispatches d hd).2
    · obtain ⟨d₀, hd₀, he⟩ := dispatches_step hexec (by simpa using hcall) hd
      exact he ▸ (hs.dispatches d₀ hd₀).turn hturn
  | enqueueEligibleUnits plan =>
    cases h
    refine ⟨hs.wired, hs.fed, hs.earned, hs.jobs, ?_, hs.dispatches⟩
    exact forall_mem_concat hs.producers trivial
  | produce k =>
    obtain ⟨p, hk, h⟩ := Option.bind_eq_some_iff.mp h
    obtain ⟨⟨p', job⟩, hp, h⟩ := Option.bind_eq_some_iff.mp h
    cases h
    have hsound := hs.producers p (List.mem_of_getElem? hk)
    have hnext : p'.Sound s.exec.db ∧ ∀ i ∈ job.toList, s.exec.db.Ready i := by
      cases p with
      | units plan =>
        cases hp
        exact ⟨fun i hi => List.mem_range.mp (List.mem_filter.mp hi).1, nofun⟩
      | statuses ids =>
        cases hp
        refine ⟨fun i hi => ?_, nofun⟩
        obtain ⟨hi, helig⟩ := List.mem_filter.mp hi
        exact ⟨hsound i hi, met_of_prerequisites hs.wired (Bool.and_eq_true_iff.mp helig).1⟩
      | add ids =>
        cases ids with
        | nil => cases hp
        | cons i ids =>
          cases hp
          refine ⟨fun j hj => hsound j (.tail _ hj), fun j hj => ?_⟩
          obtain rfl : j = i := by simpa using hj
          exact hsound j (.head _)
    refine ⟨hs.wired, hs.fed, hs.earned, fun i hi => ?_, forall_mem_set hs.producers hnext.1, hs.dispatches⟩
    exact (List.mem_append.mp hi).elim (hs.jobs i) (hnext.2 i)
  | deliver n userId hostInstanceId leaseClass margin =>
    obtain ⟨i, hi, h⟩ := Option.bind_eq_some_iff.mp h
    obtain ⟨exec, hexec, h⟩ := Option.bind_eq_some_iff.mp h
    cases hexec
    cases h
    refine ⟨hs.wired, hs.fed, hs.earned, hs.jobs, hs.producers, ?_⟩
    exact forall_mem_concat hs.dispatches (hs.jobs i (List.mem_of_getElem? hi))

theorem served_init : Served .init where
  wired := fun _ he => nomatch he
  fed := fun _ he => nomatch he
  earned := fun _ he => nomatch he
  jobs := fun _ hi => nomatch hi
  producers := fun _ hp => nomatch hp
  dispatches := fun _ hd => nomatch hd

theorem served_reachable (h : Reaches queueStep .init s) : Served s :=
  h.inv (I := Served) served_init fun _ _ _ hu hstep => hu.step hstep

end Served

/-! ### The propagation -/

/-- A unit of the class that completes straight from `PLANNED` has done so. -/
def Tables.Passed (db : Tables) (i : ℕ) : Prop :=
  ∃ u : ExecutionUnit, db.units[i]? = some u ∧ u.executionUnitClass = .TELEMETRY ∧ u.status = COMPLETED

/-- The unit depends on another one, through units that are not of that class and completed. -/
inductive DependsOn (db : Tables) : ℕ → ℕ → Prop where
  | direct {j i : ℕ} (h : (j, i) ∈ db.dependencies) : DependsOn db j i
  | through {j m i : ℕ} (h : (j, m) ∈ db.dependencies) (hm : ¬ db.Passed m) (hrest : DependsOn db m i) : DependsOn db j i

section Propagation

variable {s : QueueState} {db : Tables} {i j : ℕ}

/-- Who has been completed, or has left `PLANNED`, depends on completed units only. -/
theorem DependsOn.completed (h : DependsOn db j i) (hf : Fed db.dependencies db.units) (hearned : db.Earned) {v : ExecutionUnit}
    (hv : db.units[j]? = some v) (hpast : v.status.isTerminal = false ∧ v.status ≠ PLANNED ∨
      v.status = COMPLETED ∧ v.executionUnitClass ≠ .TELEMETRY) : db.statusOf i = some COMPLETED := by
  have hnext {e : ℕ × ℕ} (he : e ∈ db.dependencies) {v : ExecutionUnit} (hv : db.units[e.1]? = some v)
      (hpast : v.status.isTerminal = false ∧ v.status ≠ PLANNED ∨ v.status = COMPLETED ∧ v.executionUnitClass ≠ .TELEMETRY) :
      db.statusOf e.2 = some COMPLETED := by
    rcases hpast with ⟨hlive, hne⟩ | ⟨hdone, hclass⟩
    · obtain ⟨d, hd, hdone⟩ := hf e he v hv hlive hne
      exact hdone ▸ statusOf_eq hd
    · exact hearned e he v hv hdone hclass
  induction h generalizing v with
  | direct he => exact hnext he hv hpast
  | through he hm _ ih =>
    obtain ⟨d, hd, hdone⟩ := unit_of_status (hnext he hv hpast)
    exact ih hd (.inr ⟨hdone, fun hclass => hm ⟨d, hd, hclass, hdone⟩⟩)

/-- **The propagation never aborts a finalization.** Whenever a unit may be finalized, the finalizer does not raise; and every unit that
is not over and depends on it, but for what depends on it through a completed unit of the class that completes straight from `PLANNED`, is
still planned. -/
theorem propagation_never_aborts (h : Reaches queueStep .init s) {u : ExecutionUnit} (hu : s.exec.db.units[i]? = some u)
    {kind : FinalizeKind} (hmay : mayFinalize kind u = true) :
    (fahes_finalize_unit s.exec.db i kind).isSome = true ∧
      ∀ (j : ℕ) (v : ExecutionUnit), DependsOn s.exec.db j i → s.exec.db.units[j]? = some v → v.status.isTerminal = false →
        v.status = PLANNED := by
  have hs := served_reachable h
  refine ⟨finalize_isSome hs.fed hu hmay, fun j v hdep hv hlive => ?_⟩
  by_contra hne
  have hdone := hdep.completed hs.fed hs.earned hv (.inl ⟨hlive, hne⟩)
  have hmust := mayFinalize_live hmay
  rw [Option.some.inj ((statusOf_eq hu).symm.trans hdone)] at hmust
  cases hmust

/-- A unit, one of the class that completes straight from `PLANNED` that depends on it, and one that depends on that. -/
def telemetryPlan : List Event :=
  [.createScan ⟨.RUNNING_PHASE_3, some 0⟩,
    .plan ⟨⟨.INITIAL, .RESOLVED, some 3600000, 0⟩, some 0⟩
      [⟨"unit-1", 7, 0, 3, some 5, .BROWSER, 60000, 1, none, PLANNED⟩, ⟨"unit-2", 7, 0, 3, none, .TELEMETRY, 60000, 1, none, PLANNED⟩,
        ⟨"unit-3", 7, 0, 3, some 5, .CRAWLER, 60000, 1, none, PLANNED⟩] [(1, 0), (2, 1)]]

theorem propagation_never_aborts_refused : ∃ s, Reaches queueStep .init s ∧ s.exec.db.units.map (·.status) = [PLANNED, PLANNED, PLANNED] ∧
    (fahes_finalize_unit s.exec.db 0 .REFUSED).isSome = true := by
  obtain ⟨s, hs, hp⟩ := Reaches.exists_of_play queueNext (fun _ _ => true) .init
    (telemetryPlan.map (.exec ∘ .event))
    (fun s => s.exec.db.units.map (·.status) = [PLANNED, PLANNED, PLANNED]) (by decide)
  obtain ⟨u, hu, hplanned⟩ := unit_of_map hp (i := 0) rfl
  have hmay : mayFinalize .REFUSED u = true := by simp [mayFinalize, hplanned]
  exact ⟨s, hs.of_guarded, hp, (propagation_never_aborts hs.of_guarded hu hmay).1⟩

/-- The middle one completes before what it depends on, and the last one is dispatched. -/
theorem passed_over : ¬ ∀ s, Reaches queueStep .init s → ∀ (i : ℕ) (u : ExecutionUnit) (kind : FinalizeKind),
    s.exec.db.units[i]? = some u → mayFinalize kind u = true → kind ≠ .COMPLETED → ∀ (j : ℕ) (v : ExecutionUnit),
      Relation.TransGen (fun j i => (j, i) ∈ s.exec.db.dependencies) j i → s.exec.db.units[j]? = some v →
        v.status.isTerminal = false → v.status = PLANNED := by
  intro hall
  obtain ⟨s, hs, hdep₁, hdep₂, hp⟩ := Reaches.exists_of_play queueNext (fun _ _ => true) .init
    (telemetryPlan.map (.exec ∘ .event) ++ ([.exec (.event (.finalize 1 .COMPLETED)), .enqueueEligibleUnits 0, .produce 0, .produce 0,
      .produce 0, .produce 0, .deliver 1 7 "host-1" .L 60000] : List QueueAction) ++
      ([.run 0 .database, .run 0 (.hasCapacity true), .run 0 .database, .run 0 (.guards none), .run 0 .database, .run 0 .database,
        .run 0 .database, .run 0 (.requestAdmission (.GRANTED true)), .run 0 .database] : List Action).map .exec)
    (fun s => (1, 0) ∈ s.exec.db.dependencies ∧ (2, 1) ∈ s.exec.db.dependencies ∧
      s.exec.db.units.map (·.status) = [PLANNED, COMPLETED, ADMITTED]) (by decide)
  obtain ⟨u, hu, hplanned⟩ := unit_of_map hp (i := 0) rfl
  obtain ⟨v, hv, hadmitted⟩ := unit_of_map hp (i := 2) rfl
  have hmay : mayFinalize .REFUSED u = true := by simp [mayFinalize, hplanned]
  have hno := hall s hs.of_guarded 0 u .REFUSED hu hmay nofun 2 v (.tail (.single hdep₂) hdep₁) hv (by rw [hadmitted]; rfl)
  rw [hadmitted] at hno
  cases hno

end Propagation

end WebAudit.Execution
