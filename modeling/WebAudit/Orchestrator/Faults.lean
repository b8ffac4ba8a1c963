import WebAudit.Lib.Rows
import WebAudit.Orchestrator.Phases

/-!
# When a phase job throws

`failScan` moves the scan to `FAILED` from the phase that the job names. As long as the job has not
moved the scan on, it is still there, or somebody else has moved it and goes on with it. A job that
throws after it has walked on, paused or passed the gate is not handled: the scan stays where it is.

Who goes on with a scan is the run that has brought it where it is (`Carried`), or what that run has
handed it on to.
-/

namespace WebAudit.Orchestrator

open WebAudit.Lib WebAudit.Scans

/-! ### Who goes on -/

/-- The job goes on with a scan in this state. -/
def PhaseJobData.continues (job : PhaseJobData) (state : ScanState) : Bool :=
  if job.alreadyTransitioned then job.phase = state else canTransition state job.phase && !job.phase.isTerminal

/-- The scan has been handed on: to a job, to the delayed job of the questionnaire, or to the hosts of its plan's units, who come
to the gate. -/
def State.HandedOn (s : State) (state : ScanState) : Prop :=
  (∃ job ∈ s.jobs, job.continues state = true) ∨ state = .AWAITING_QUESTIONNAIRE ∧ s.deadlineScheduled = true ∨
    state = .RUNNING_PHASE_3 ∧ s.plan.isSome = true

def Pc.isOver : Pc → Bool
  | .finished _ => true
  | _ => false

/-- The transaction of the sweep is open, and has updated the row. -/
def Pc.holds : Pc → Bool
  | .refund .commit | .teardown .commit | .clear .commit | .commit => true
  | _ => false

/-- Somebody goes on with the scan, other than this run. -/
def State.Continued (s : State) (k : ℕ) : Prop :=
  s.HandedOn s.scan.state ∨ ∃ (j : ℕ) (d : Run), j ≠ k ∧ s.runs[j]? = some d ∧ d.current = some s.scan.state ∧ d.pc.isOver = false

/-- No run throws that has moved the scan on and not yet handed it on, and no failure handler throws. -/
def smoothFault (s : State) : Action → Bool
  | .run k .throws | .run k .throwsAdded => (s.runs[k]?).all fun d =>
      match d.current, d.work with
      | none, _ => true
      | some current, .phase data => decide (current = data.phase) && decide (d.pc ≠ .fail)
      | some _, _ => decide (d.pc = .share)
  | _ => true

/-! ### Where a run is -/

/-- The phases that a job names. -/
def PhaseJobData.Names (job : PhaseJobData) : Prop :=
  moduleRunning job.phase = true ∨ job.phase = .RUNNING_MASTER ∨ job.phase = .RUNNING_DOCS

/-- What is known of the scan's state and of where a run has brought it, at the run's next statement. -/
def Run.Placed (s : State) (d : Run) : Prop :=
  match d.pc with
  | .read | .entry _ | .resume | .fresh | .expire | .cancel | .refund .commit | .teardown .commit | .clear .commit | .commit =>
    d.current = none
  | .modules | .walk => (∃ data, d.work = .phase data) ∧ ∃ c, d.current = some c ∧ moduleRunning c = true
  | .pause => d.current = some .RUNNING_PHASE_1
  | .schedule => d.current = some .AWAITING_QUESTIONNAIRE
  | .gate =>
    match d.work with
    | .phase _ => d.current = some .RUNNING_PHASE_3
    | _ => d.current = none
  | .ready _ | .claim _ => s.plan.isSome = true ∧ (d.current = none ∨ d.current = some .RUNNING_PHASE_3)
  | .enqueue job => job.Names ∧ ∃ c, d.current = some c ∧ job.continues c = true
  | .synthesis => d.current = some .RUNNING_MASTER
  | .docs | .complete => d.current = some .RUNNING_DOCS
  | .intent => d.current = some .RUNNING_PHASE_2
  | .fail => ∃ data, d.work = .phase data ∧ (d.current = none ∨ d.current = some data.phase)
  | .refund (.finished _) | .teardown (.finished _) | .clear (.finished _) | .enqueueTeardown => ∃ c, d.current = some c ∧ c.isTerminal = true
  | .share | .finished .thrown => ∀ c, d.current = some c → c.isTerminal = true
  | .finished .handled => ∀ c, d.current = some c → c.rank < s.scan.state.rank ∨ c.isTerminal = true
  | .finished .returned => ∀ c, d.current = some c → c.rank < s.scan.state.rank ∨ c.isTerminal = true ∨ s.HandedOn c

/-- The scan only goes up, and what has been added stays. -/
structure State.Grows (s s' : State) : Prop where
  rank : s.scan.state.rank ≤ s'.scan.state.rank
  jobs : ∀ job ∈ s.jobs, job ∈ s'.jobs
  scheduled : s.deadlineScheduled = true → s'.deadlineScheduled = true
  plan : s'.plan = s.plan

section Placed

variable {s s' : State} {k : ℕ} {d d' : Run}

theorem State.HandedOn.grows {state : ScanState} (h : s.HandedOn state) (hg : s.Grows s') : s'.HandedOn state := by
  rcases h with ⟨job, hjob, hcont⟩ | ⟨hstate, hscheduled⟩ | ⟨hstate, hplan⟩
  · exact .inl ⟨job, hg.jobs job hjob, hcont⟩
  · exact .inr (.inl ⟨hstate, hg.scheduled hscheduled⟩)
  · exact .inr (.inr ⟨hstate, hg.plan ▸ hplan⟩)

/-- What others do leaves a run where it is. -/
theorem Run.Placed.grows (h : d.Placed s) (hg : s.Grows s') : d.Placed s' := by
  unfold Run.Placed at h ⊢
  split at h <;> first
    | exact h
    | exact ⟨hg.plan ▸ h.1, h.2⟩
    | exact fun c hc => (h c hc).imp_left fun hlt => lt_of_lt_of_le hlt hg.rank
    | exact fun c hc => (h c hc).imp (fun hlt => lt_of_lt_of_le hlt hg.rank) fun hr => hr.imp_right fun hh => hh.grows hg

/-- **What is true of the runs**: the scan has been brought where it is by a run, or is at one of the two ends. -/
structure Carried (s : State) : Prop where
  carrier : s.scan.state = .QUEUED ∨ s.scan.state.isTerminal = true ∨ ∃ (k : ℕ) (d : Run), s.runs[k]? = some d ∧ d.current = some s.scan.state
  below : ∀ (k : ℕ) (d : Run), s.runs[k]? = some d → ∀ c, d.current = some c → c.rank ≤ s.scan.state.rank
  placed : ∀ (k : ℕ) (d : Run), s.runs[k]? = some d → d.Placed s
  works : ∀ (k : ℕ) (d : Run), s.runs[k]? = some d → ∀ data, d.work = .phase data → data.Names
  jobs : ∀ job ∈ s.jobs, job.Names
  held : ∀ (holder : ℕ) (row : Scan), s.pending = some (holder, row) →
    row.state = .TIMED_OUT ∧ ∃ d : Run, s.runs[holder]? = some d ∧ d.pc.holds = true

/-- What one statement of a run comes to. -/
structure Advance (s : State) (k : ℕ) (d : Run) (s' : State) (d' : Run) : Prop where
  runs : s'.runs = s.runs.set k d'
  work : d'.work = d.work
  placed : d'.Placed s'
  grows : s.Grows s'
  current : d'.current = d.current ∧ (s'.scan.state = s.scan.state ∨ s'.scan.state.isTerminal = true) ∨ d'.current = some s'.scan.state
  jobs : ∀ job ∈ s'.jobs, job ∈ s.jobs ∨ job.Names
  held : s'.pending = none ∨ s'.pending = s.pending ∧ (d.pc.holds = true → d'.pc.holds = true) ∨
    ∃ row : Scan, s'.pending = some (k, row) ∧ row.state = .TIMED_OUT ∧ d'.pc.holds = true

theorem Carried.advance (hs : Carried s) (hk : s.runs[k]? = some d) (h : Advance s k d s' d') : Carried s' := by
  have hold {j : ℕ} {c : Run} (hj : s'.runs[j]? = some c) : j = k ∧ c = d' ∨ j ≠ k ∧ s.runs[j]? = some c := by
    rw [h.runs] at hj
    exact getElem?_set_cases hk hj
  have hself : s'.runs[k]? = some d' := by
    rw [h.runs]
    exact List.getElem?_set_self (List.getElem?_eq_some_iff.mp hk).1
  refine ⟨?_, fun j c hj st hst => ?_, fun j c hj => ?_, fun j c hj data hdata => ?_, fun job hjob => ?_, fun holder row hheld => ?_⟩
  · rcases h.current with ⟨hsame, hstate | hterm⟩ | hcur
    · rw [hstate]
      rcases hs.carrier with hq | hterm | ⟨j, c, hj, hc⟩
      · exact .inl hq
      · exact .inr (.inl hterm)
      · refine .inr (.inr ?_)
        by_cases e : k = j
        · subst e
          obtain rfl := Option.some.inj (hk.symm.trans hj)
          exact ⟨k, d', hself, hsame.trans hc⟩
        · refine ⟨j, c, ?_, hc⟩
          rw [h.runs, List.getElem?_set_ne e]
          exact hj
    · exact .inr (.inl hterm)
    · exact .inr (.inr ⟨k, d', hself, hcur⟩)
  · rcases hold hj with ⟨-, rfl⟩ | ⟨-, hj⟩
    · rcases h.current with ⟨hsame, -⟩ | hcur
      · exact (hs.below k d hk st (hsame ▸ hst)).trans h.grows.rank
      · rw [hcur] at hst
        cases hst
        exact le_rfl
    · exact (hs.below j c hj st hst).trans h.grows.rank
  · rcases hold hj with ⟨-, rfl⟩ | ⟨-, hj⟩
    · exact h.placed
    · exact (hs.placed j c hj).grows h.grows
  · rcases hold hj with ⟨-, rfl⟩ | ⟨-, hj⟩
    · exact hs.works k d hk data (h.work ▸ hdata)
    · exact hs.works j c hj data hdata
  · exact (h.jobs job hjob).elim (hs.jobs job) id
  · rcases h.held with hfree | ⟨hsame, hkeep⟩ | ⟨row', hnew, hstate, hholds⟩
    · rw [hfree] at hheld
      cases hheld
    · obtain ⟨hstate, c, hc, hholds⟩ := hs.held holder row (hsame ▸ hheld)
      refine ⟨hstate, ?_⟩
      by_cases e : k = holder
      · subst e
        obtain rfl := Option.some.inj (hk.symm.trans hc)
        exact ⟨d', hself, hkeep hholds⟩
      · refine ⟨c, ?_, hholds⟩
        rw [h.runs, List.getElem?_set_ne e]
        exact hc
    · rw [hnew] at hheld
      cases hheld
      exact ⟨hstate, d', hself, hholds⟩

end Placed

/-! ### One statement -/

/-- A scan that has moved on is further along. -/
theorem rank_lt_of_ne {before state : ScanState} (hlive : before.isTerminal = false) (hle : before.rank ≤ state.rank)
    (hne : state ≠ before) : before.rank < state.rank := by
  revert hlive hle hne
  cases before <;> cases state <;> decide

theorem moduleRunning_live {phase : ScanState} (h : moduleRunning phase = true) : phase.isTerminal = false := by
  cases phase <;> first | rfl | cases h

theorem PhaseJobData.Names.live {job : PhaseJobData} (h : job.Names) : job.phase.isTerminal = false := by
  rcases h with h | h | h
  · exact moduleRunning_live h
  · rw [h]; rfl
  · rw [h]; rfl

theorem canTransition_failed {phase : ScanState} (h : phase.isTerminal = false) : canTransition phase .FAILED = true := by
  cases phase <;> first | rfl | cases h

section Advances

variable {s s' : State} {k : ℕ} {d : Run}

theorem Advance.goes {pc : Pc} (hplaced : Run.Placed s { d with pc }) (hholds : d.pc.holds = true → pc.holds = true) :
    Advance s k d (s.goes k d pc) { d with pc } :=
  ⟨rfl, rfl, hplaced, ⟨le_rfl, fun _ h => h, id, rfl⟩, .inl ⟨rfl, .inl rfl⟩, fun _ h => .inl h, .inr (.inl ⟨rfl, hholds⟩)⟩

/-- The scan is moved: the observers come first if that is its end. -/
theorem Advance.moves {before after : ScanState} {won : Pc} {e : Ending} (hedge : canTransition before after = true)
    (hfree : s.pending = none) (hstate : s.scan.state = before)
    (hwon : after.isTerminal = false →
      Run.Placed (s.moves k d before after won) ⟨d.work, won, some after, (before, after) :: d.won, d.triggered⟩) :
    ∃ d', Advance s k d (s.moves k d before after (afterMove after won (.finished e))) d' := by
  refine ⟨_, rfl, rfl, ?_, ⟨?_, fun _ h => h, id, rfl⟩, .inr rfl, fun _ h => .inl h, .inl hfree⟩
  · unfold afterMove
    split
    · exact ⟨after, rfl, ‹_›⟩
    · exact hwon (by simpa using ‹¬after.isTerminal = true›)
  · rw [hstate]
    exact (rank_lt_of_canTransition hedge).le

/-- `transition`, won or lost. -/
theorem advance_transition {before after : ScanState} {won lost : Pc} {e : Ending} (hpc : d.pc.holds = false)
    (h : s.transition k d before after won (.finished e) lost = some s')
    (hlost : canTransition before after = false ∨ s.scan.state ≠ before → Run.Placed s { d with pc := lost })
    (hwon : after.isTerminal = false →
      Run.Placed (s.moves k d before after won) ⟨d.work, won, some after, (before, after) :: d.won, d.triggered⟩) :
    ∃ d', Advance s k d s' d' := by
  obtain ⟨rfl, hno⟩ | ⟨hedge, hfree, hstate, rfl⟩ := transition_does h
  · exact ⟨_, .goes (hlost hno) fun hh => by rw [hpc] at hh; cases hh⟩
  · exact Advance.moves hedge hfree hstate hwon

/-- A run whose transition is lost because the scan has moved on. -/
theorem Carried.lost (hs : Carried s) (hk : s.runs[k]? = some d) {before : ScanState} (hcurrent : d.current = some before)
    (hlive : before.isTerminal = false) (hne : s.scan.state ≠ before) :
    ∀ c, d.current = some c → c.rank < s.scan.state.rank := by
  intro c hc
  obtain rfl := Option.some.inj (hcurrent.symm.trans hc)
  exact rank_lt_of_ne hlive (hs.below k d hk before hcurrent) hne

theorem placed_body {u : State} {c : Run} {data : PhaseJobData} (hnames : data.Names) (hwork : c.work = .phase data)
    (hcurrent : c.current = some data.phase) (hpc : c.pc = body data.phase) : c.Placed u := by
  rcases hnames with h | h | h
  · rw [Run.Placed, hpc, body, if_pos h]
    exact ⟨⟨data, hwork⟩, data.phase, hcurrent, h⟩
  · rw [Run.Placed, hpc, h]
    exact hcurrent.trans (by rw [h])
  · rw [Run.Placed, hpc, h]
    exact hcurrent.trans (by rw [h])

/-- The sweep has not brought the scan anywhere before it commits. -/
theorem Run.Placed.holds (h : d.Placed s) (hholds : d.pc.holds = true) : d.current = none := by
  rw [Run.Placed] at h
  cases hpc : d.pc with
  | refund rest | teardown rest | clear rest =>
    rw [hpc] at h hholds
    cases rest with
    | commit => exact h
    | finished e => cases hholds
  | commit =>
    rw [hpc] at h
    exact h
  | _ => rw [hpc] at hholds; cases hholds

/-- A run that is through with the end of the scan. -/
theorem placed_ended {e : Ending} (h : ∃ c, d.current = some c ∧ c.isTerminal = true) : Run.Placed s { d with pc := .finished e } := by
  obtain ⟨c, hcurrent, hterm⟩ := h
  have hterm : ∀ c, d.current = some c → c.isTerminal = true := by
    intro c' hc
    cases hcurrent.symm.trans hc
    exact hterm
  cases e with
  | returned => exact fun c hc => .inr (.inl (hterm c hc))
  | handled => exact fun c hc => .inr (hterm c hc)
  | thrown => exact hterm

/-- A run that only goes on. -/
theorem advance_goes {pc : Pc} (hpc : d.pc.holds = false) (hplaced : Run.Placed s { d with pc }) :
    ∃ d', Advance s k d (s.goes k d pc) d' :=
  ⟨_, .goes hplaced fun hh => by rw [hpc] at hh; cases hh⟩

/-- A job throws before it has moved the scan on, or what is left to do has nothing to do with where the scan is. -/
theorem advance_throws (hs : Carried s) (hk : s.runs[k]? = some d) (hsmooth : smoothFault s (.run k .throws) = true) {pc : Pc}
    (hto : thrownTo d.work d.pc = some pc) : Run.Placed s { d with pc } := by
  have hplaced := hs.placed k d hk
  obtain ⟨work, at_, current, won, triggered⟩ := d
  cases current with
  | none =>
    rcases thrownTo_goes hto with rfl | ⟨e, rfl⟩
    · cases work with
      | phase data => exact ⟨data, rfl, .inl rfl⟩
      | resume | unit | timeout seen | cancel => cases at_ <;> cases hto
    · cases e <;> exact fun c hc => nomatch hc
  | some current =>
    by_cases hshare : at_ = .share
    · subst hshare
      cases work with
      | cancel =>
        cases hto
        rintro c ⟨⟩
        exact .inr (.inl (hplaced current rfl))
      | phase data | resume | unit | timeout seen =>
        cases hto
        rintro c ⟨⟩
        exact hplaced current rfl
    · cases work with
      | phase data =>
        simp only [smoothFault, hk, Option.all_some, Bool.and_eq_true, decide_eq_true_eq] at hsmooth
        obtain ⟨rfl, hfail⟩ := hsmooth
        cases at_ with
        | read => cases hplaced
        | fail => exact absurd rfl hfail
        | share => exact absurd rfl hshare
        | refund rest | teardown rest | clear rest | commit | enqueueTeardown | finished e => cases hto
        | _ =>
          cases hto
          exact ⟨data, rfl, .inr rfl⟩
      | resume | unit | timeout seen | cancel =>
        simp only [smoothFault, hk, Option.all_some, decide_eq_true_eq] at hsmooth
        exact absurd hsmooth hshare

/-- The walk through phases that have nothing to run. -/
theorem advance_walk (hs : Carried s) (hk : s.runs[k]? = some d) (hpc : d.pc = .walk) {current : ScanState}
    (hcurrent : d.current = some current) (h : s.walk k d current = some s') : ∃ d', Advance s k d s' d' := by
  have hplaced := hs.placed k d hk
  rw [Run.Placed, hpc] at hplaced
  obtain ⟨hwork, c, hc, hrunning⟩ := hplaced
  obtain rfl := Option.some.inj (hcurrent.symm.trans hc)
  have hfree : d.pc.holds = false := by rw [hpc]; rfl
  have hmove {after : ScanState} (hafter : moduleRunning after = true) (hedge : canTransition current after = true)
      (h : s.transition k d current after .walk (.finished .returned) (.finished .returned) = some s') : ∃ d', Advance s k d s' d' := by
    refine advance_transition hfree h (fun hno c hc => .inl ?_) fun _ => ⟨hwork, after, rfl, hafter⟩
    rcases hno with hno | hno
    · rw [hedge] at hno
      cases hno
    · exact hs.lost hk hcurrent (moduleRunning_live hrunning) hno c hc
  cases current with
  | RUNNING_PHASE_1 =>
    simp only [State.walk, show nextPhase .RUNNING_PHASE_1 = some .RUNNING_PHASE_2 from rfl,
      show moduleRunning .RUNNING_PHASE_2 = true from rfl, Bool.true_and, if_true] at h
    split at h
    · exact hmove rfl rfl h
    · cases h
      refine advance_goes hfree ?_
      split
      · exact hcurrent
      · exact ⟨.inl rfl, .RUNNING_PHASE_1, hcurrent, rfl⟩
  | RUNNING_PHASE_2 => exact @hmove .RUNNING_PHASE_3 rfl rfl h
  | RUNNING_PHASE_3 =>
    cases h
    obtain ⟨data, hwork⟩ := hwork
    refine advance_goes hfree ?_
    rw [Run.Placed]
    simp only [hwork]
    exact hcurrent
  | _ => cases hrunning

/-- The gate's own update. -/
theorem advance_claim (hs : Carried s) (hk : s.runs[k]? = some d) {deadlineMs : ℤ} (hpc : d.pc = .claim deadlineMs)
    (h : s.claim k d deadlineMs = some s') : ∃ d', Advance s k d s' d' := by
  have hplaced := hs.placed k d hk
  rw [Run.Placed, hpc] at hplaced
  obtain ⟨hplan, hcurrent⟩ := hplaced
  unfold State.claim at h
  split at h
  · cases h
  rename_i hfree
  split at h <;> cases h
  · rename_i hstate
    refine Advance.moves (e := .returned) rfl (by simpa using hfree) hstate.1 fun _ => ?_
    exact ⟨.inr (.inl rfl), .RUNNING_MASTER, rfl, rfl⟩
  · refine advance_goes (by rw [hpc]; rfl) fun c hc => .inr (.inr (.inr (.inr ⟨?_, hplan⟩)))
    rcases hcurrent with hnone | hthree
    · cases hnone.symm.trans hc
    · exact (Option.some.inj (hthree.symm.trans hc)).symm

/-- The update of the sweep. -/
theorem advance_expire (hs : Carried s) (hk : s.runs[k]? = some d) (hpc : d.pc = .expire)
    (h : runStep s k d .expire .go = some s') : ∃ d', Advance s k d s' d' := by
  have hcurrent := hs.placed k d hk
  rw [Run.Placed, hpc] at hcurrent
  have hover : Run.Placed s { d with pc := .finished .returned } := fun c hc => nomatch hcurrent.symm.trans hc
  obtain ⟨work, at_, current, won, triggered⟩ := d
  obtain rfl : at_ = .expire := hpc
  cases work with
  | timeout seen =>
    simp only [runStep] at h
    split at h
    · cases h
      exact advance_goes rfl hover
    split at h
    · cases h
    split at h <;> cases h
    · exact ⟨_, rfl, rfl, hcurrent, ⟨le_rfl, fun _ h => h, id, rfl⟩, .inl ⟨rfl, .inl rfl⟩, fun _ h => .inl h,
        .inr (.inr ⟨_, rfl, rfl, rfl⟩)⟩
    · exact advance_goes rfl hover
  | phase data | resume | unit | cancel => cases h

/-- A statement that succeeds. -/
theorem advance_go (hs : Carried s) (hk : s.runs[k]? = some d) {pc : Pc} (hpc : d.pc = pc)
    (h : runStep s k d pc .go = some s') : ∃ d', Advance s k d s' d' := by
  have hplaced := hs.placed k d hk
  rw [Run.Placed, hpc] at hplaced
  have hfree (hh : pc.holds = false) : d.pc.holds = false := hpc ▸ hh
  have hnothing {e : Ending} (hcurrent : d.current = none) : Run.Placed s { d with pc := .finished e } := by
    cases e <;> exact fun c (hc : d.current = some c) => nomatch hcurrent.symm.trans hc
  cases pc with
  | read =>
    simp only [runStep] at h
    split at h
    · rename_i data hwork
      have hnames := hs.works k d hk data hwork
      split at h
      · cases h
        exact advance_goes (hfree rfl) hplaced
      split at h <;> cases h
      · rename_i hstate
        refine ⟨_, rfl, rfl, placed_body hnames hwork rfl rfl, ⟨le_rfl, fun _ h => h, id, rfl⟩, .inr (by rw [hstate]),
          fun _ h => .inl h, .inr (.inl ⟨rfl, fun hh => ?_⟩)⟩
        rw [hpc] at hh
        cases hh
      · exact advance_goes (hfree rfl) (hnothing hplaced)
    · cases h
  | entry before =>
    simp only [runStep] at h
    split at h
    · rename_i data hwork
      exact advance_transition (hfree rfl) h (fun _ => hnothing hplaced) fun _ =>
        placed_body (hs.works k d hk data hwork) hwork rfl rfl
    · cases h
  | modules | docs | fresh =>
    cases h
    exact advance_goes (hfree rfl) hplaced
  | walk =>
    obtain ⟨current, hcurrent, h⟩ := Option.bind_eq_some_iff.mp h
    exact advance_walk hs hk hpc hcurrent h
  | pause =>
    refine advance_transition (hfree rfl) h (fun hno c hc => .inl ?_) fun _ => rfl
    exact hs.lost hk hplaced rfl (hno.resolve_left Bool.noConfusion) c hc
  | schedule =>
    cases h
    refine ⟨_, rfl, rfl, fun c hc => .inr (.inr (.inr (.inl ⟨?_, rfl⟩))), ⟨le_rfl, fun _ h => h, fun _ => rfl, rfl⟩,
      .inl ⟨rfl, .inl rfl⟩, fun _ h => .inl h, .inr (.inl ⟨rfl, fun hh => ?_⟩)⟩
    · exact (Option.some.inj (hplaced.symm.trans hc)).symm
    · rw [hpc] at hh
      cases hh
  | gate =>
    dsimp only at hplaced
    simp only [runStep] at h
    split at h <;> cases h
    · rename_i data hplan hwork
      simp only [hwork] at hplaced
      exact advance_goes (hfree rfl) ⟨.inr (.inl rfl), .RUNNING_PHASE_3, hplaced, rfl⟩
    · rename_i hplan hwork
      refine advance_goes (hfree rfl) (hnothing ?_)
      split at hplaced
      · exact absurd ‹_› (hwork _)
      · exact hplaced
    · rename_i deadlineMs hplan
      refine advance_goes (hfree rfl) ⟨by rw [hplan]; rfl, ?_⟩
      split at hplaced
      · exact .inr hplaced
      · exact .inl hplaced
  | ready deadlineMs => cases h
  | claim deadlineMs => exact advance_claim hs hk hpc h
  | enqueue job =>
    cases h
    obtain ⟨hnames, c, hcurrent, hcont⟩ := hplaced
    refine ⟨_, rfl, rfl, fun c' hc => .inr (.inr (.inl ⟨job, List.mem_append_right _ (.head _), ?_⟩)),
      ⟨le_rfl, fun _ h => List.mem_append_left _ h, id, rfl⟩, .inl ⟨rfl, .inl rfl⟩, fun job' hjob => ?_, .inr (.inl ⟨rfl, fun hh => ?_⟩)⟩
    · obtain rfl := Option.some.inj (hcurrent.symm.trans hc)
      exact hcont
    · rcases List.mem_append.mp hjob with hjob | hjob
      · exact .inl hjob
      · obtain rfl := List.mem_singleton.mp hjob
        exact .inr hnames
    · rw [hpc] at hh
      cases hh
  | synthesis =>
    cases h
    exact advance_goes (hfree rfl) ⟨.inr (.inr rfl), .RUNNING_MASTER, hplaced, rfl⟩
  | complete =>
    refine advance_transition (hfree rfl) h (fun hno c hc => .inl ?_) fun hlive => by cases hlive
    exact hs.lost hk hplaced rfl (hno.resolve_left Bool.noConfusion) c hc
  | fail =>
    obtain ⟨data, hwork, hcurrent⟩ := hplaced
    simp only [runStep, hwork] at h
    have hlive := (hs.works k d hk data hwork).live
    refine advance_transition (hfree rfl) h (fun hno c hc => .inl ?_) fun hlive => by cases hlive
    rcases hcurrent with hcurrent | hcurrent
    · cases hcurrent.symm.trans hc
    · rcases hno with hno | hno
      · rw [canTransition_failed hlive] at hno
        cases hno
      · exact hs.lost hk hcurrent hlive hno c hc
  | refund rest =>
    cases rest with
    | commit =>
      cases h
      exact ⟨_, .goes hplaced fun _ => rfl⟩
    | finished e =>
      cases h
      exact ⟨_, rfl, rfl, hplaced, ⟨le_rfl, fun _ h => h, id, rfl⟩, .inl ⟨rfl, .inl rfl⟩, fun _ h => .inl h,
        .inr (.inl ⟨rfl, fun hh => by rw [hpc] at hh; cases hh⟩)⟩
  | teardown rest => cases h
  | clear rest =>
    simp only [runStep] at h
    split at h <;> cases h
    cases rest with
    | commit => exact ⟨_, .goes hplaced fun _ => rfl⟩
    | finished e => exact advance_goes (hfree rfl) (placed_ended hplaced)
  | resume => exact advance_transition (hfree rfl) h (fun _ => hnothing hplaced) fun _ => rfl
  | intent =>
    cases h
    exact advance_goes (hfree rfl) ⟨.inl rfl, .RUNNING_PHASE_2, hplaced, rfl⟩
  | expire => exact advance_expire hs hk hpc h
  | commit =>
    simp only [runStep] at h
    split at h
    · rename_i holder row hpending
      split at h <;> cases h
      have hterm : row.state.isTerminal = true := by rw [(hs.held holder row hpending).1]; rfl
      refine ⟨_, rfl, rfl, (fun c (hc : d.current = some c) => nomatch hplaced.symm.trans hc), ⟨?_, fun _ h => h, id, rfl⟩,
        .inl ⟨rfl, .inr hterm⟩, fun _ h => .inl h, .inl rfl⟩
      change s.scan.state.rank ≤ row.state.rank
      rw [(hs.held holder row hpending).1]
      cases s.scan.state <;> decide
    · cases h
  | cancel =>
    simp only [runStep] at h
    split at h
    · cases h
    rename_i hpending
    split at h <;> cases h
    · exact advance_goes (hfree rfl) (hnothing hplaced)
    · refine ⟨_, rfl, rfl, ⟨.CANCELLED, rfl, rfl⟩, ⟨?_, fun _ h => h, id, rfl⟩, .inr rfl, fun _ h => .inl h,
        .inl (by simpa using hpending)⟩
      change s.scan.state.rank ≤ 7
      cases s.scan.state <;> decide
  | enqueueTeardown =>
    cases h
    obtain ⟨c, hcurrent, hterm⟩ := hplaced
    refine ⟨_, rfl, rfl, fun c' hc => ?_, ⟨le_rfl, fun _ h => h, id, rfl⟩, .inl ⟨rfl, .inl rfl⟩, fun _ h => .inl h,
      .inr (.inl ⟨rfl, fun hh => by rw [hpc] at hh; cases hh⟩)⟩
    cases hcurrent.symm.trans hc
    exact hterm
  | share =>
    cases h
    exact ⟨_, rfl, rfl, fun c hc => .inr (.inl (hplaced c hc)), ⟨le_rfl, fun _ h => h, id, rfl⟩, .inl ⟨rfl, .inl rfl⟩, fun _ h => .inl h,
      .inr (.inl ⟨rfl, fun hh => by rw [hpc] at hh; cases hh⟩)⟩
  | finished e => cases h

/-- **One statement of a run** that does not throw where nobody takes over. -/
theorem run_advances (hs : Carried s) (hk : s.runs[k]? = some d) {input : Input} (hsmooth : smoothFault s (.run k input) = true)
    (h : runStep s k d d.pc input = some s') : ∃ d', Advance s k d s' d' := by
  have hthrow {pc : Pc} (hto : thrownTo d.work d.pc = some pc) : d.pc.holds = true → pc.holds = true := by
    intro hh
    cases hpc : d.pc with
    | refund rest | teardown rest | clear rest | commit => rw [hpc] at hto; cases hto
    | _ => rw [hpc] at hh; cases hh
  cases input with
  | go => exact advance_go hs hk rfl h
  | throws =>
    by_cases hshare : d.pc = .share
    · rw [hshare] at h
      obtain ⟨pc, hto, rfl⟩ := Option.map_eq_some_iff.mp h
      rw [← hshare] at hto
      exact ⟨_, rfl, rfl, advance_throws hs hk hsmooth hto, ⟨le_rfl, fun _ h => h, id, rfl⟩, .inl ⟨rfl, .inl rfl⟩, fun _ h => .inl h,
        .inr (.inl ⟨rfl, hthrow hto⟩)⟩
    · have h : s.throws k d = some s' := by
        cases hpc : d.pc with
        | share => exact absurd hpc hshare
        | _ => rw [hpc] at h; exact h
      obtain ⟨pc, hto, rfl⟩ := Option.map_eq_some_iff.mp h
      exact ⟨_, .goes (advance_throws hs hk hsmooth hto) (hthrow hto)⟩
  | throwsAdded =>
    have hsmooth : smoothFault s (.run k .throws) = true := hsmooth
    cases hpc : d.pc with
    | schedule =>
      rw [hpc] at h
      obtain ⟨s₁, h₁, rfl⟩ := Option.map_eq_some_iff.mp h
      obtain ⟨pc, hto, rfl⟩ := Option.map_eq_some_iff.mp h₁
      refine ⟨_, rfl, rfl, (advance_throws hs hk hsmooth hto).grows (d := { d with pc }) ?_, ⟨le_rfl, fun _ h => h, fun _ => rfl, rfl⟩,
        .inl ⟨rfl, .inl rfl⟩, fun _ h => .inl h, .inr (.inl ⟨rfl, hthrow hto⟩)⟩
      exact ⟨le_rfl, fun _ h => h, fun _ => rfl, rfl⟩
    | enqueue job =>
      have hplaced := hs.placed k d hk
      rw [Run.Placed, hpc] at hplaced
      rw [hpc] at h
      obtain ⟨s₁, h₁, rfl⟩ := Option.map_eq_some_iff.mp h
      obtain ⟨pc, hto, rfl⟩ := Option.map_eq_some_iff.mp h₁
      refine ⟨_, rfl, rfl, (advance_throws hs hk hsmooth hto).grows (d := { d with pc }) ?_,
        ⟨le_rfl, fun _ h => List.mem_append_left _ h, id, rfl⟩, .inl ⟨rfl, .inl rfl⟩, fun job' hjob => ?_, .inr (.inl ⟨rfl, hthrow hto⟩)⟩
      · exact ⟨le_rfl, fun _ h => List.mem_append_left _ h, id, rfl⟩
      · rcases List.mem_append.mp hjob with hjob | hjob
        · exact .inl hjob
        · obtain rfl := List.mem_singleton.mp hjob
          exact .inr hplaced.1
    | _ => rw [hpc] at h; cases h
  | ready ready =>
    cases hpc : d.pc with
    | ready deadlineMs =>
      have hplaced := hs.placed k d hk
      rw [Run.Placed, hpc] at hplaced
      obtain ⟨hplan, hcurrent⟩ := hplaced
      rw [hpc] at h
      cases h
      refine advance_goes (by rw [hpc]; rfl) ?_
      have hover : Run.Placed s { d with pc := .finished .returned } := by
        intro c hc
        refine .inr (.inr (.inr (.inr ⟨?_, hplan⟩)))
        rcases hcurrent with hnone | hthree
        · cases hnone.symm.trans hc
        · exact (Option.some.inj (hthree.symm.trans hc)).symm
      unfold State.gateReady
      split
      · split
        · exact ⟨hplan, hcurrent⟩
        · exact hover
      · exact hover
    | _ => rw [hpc] at h; cases h
  | teardown destroyed =>
    cases hpc : d.pc with
    | teardown rest =>
      have hplaced := hs.placed k d hk
      rw [Run.Placed, hpc] at hplaced
      rw [hpc] at h
      cases h
      refine ⟨_, rfl, rfl, ?_, ⟨le_rfl, fun _ h => h, id, rfl⟩, .inl ⟨rfl, .inl rfl⟩, fun _ h => .inl h, .inr (.inl ⟨rfl, fun hh => ?_⟩)⟩
      · cases rest with
        | commit => cases destroyed <;> exact hplaced
        | finished e =>
          cases destroyed with
          | true => exact hplaced
          | false => exact placed_ended (d := { d with triggered := .teardown :: d.triggered }) hplaced
      · rw [hpc] at hh
        cases rest with
        | commit => cases destroyed <;> rfl
        | finished e => cases hh
    | _ => rw [hpc] at h; cases h
  | rollback =>
    obtain ⟨⟨row, hpending⟩, rfl⟩ := rollback_does h
    obtain ⟨-, d₀, hd₀, hholds⟩ := hs.held k row hpending
    obtain rfl := Option.some.inj (hk.symm.trans hd₀)
    have hcurrent := (hs.placed k d hk).holds hholds
    exact ⟨_, rfl, rfl, (fun c (hc : d.current = some c) => nomatch hcurrent.symm.trans hc), ⟨le_rfl, fun _ h => h, id, rfl⟩,
      .inl ⟨rfl, .inl rfl⟩, fun _ h => .inl h, .inl rfl⟩

/-- A run that starts. -/
theorem Carried.start (hs : Carried s) {work : Work} {pc : Pc} (hplaced : Run.Placed s ⟨work, pc, none, [], []⟩)
    (hwork : ∀ data, work = .phase data → data.Names) : Carried (s.start work pc) := by
  have hold {j : ℕ} {c : Run} (hj : s.runs[j]? = some c) : (s.start work pc).runs[j]? = some c :=
    (List.getElem?_append_left (List.getElem?_eq_some_iff.mp hj).1).trans hj
  have hnew {j : ℕ} {c : Run} (hj : (s.start work pc).runs[j]? = some c) : s.runs[j]? = some c ∨ c = ⟨work, pc, none, [], []⟩ :=
    (getElem?_concat_cases hj).symm
  refine ⟨?_, fun j c hj st hst => ?_, fun j c hj => ?_, fun j c hj data hdata => ?_, hs.jobs, fun holder row hheld => ?_⟩
  · refine hs.carrier.imp_right fun hrest => hrest.imp_right ?_
    rintro ⟨j, c, hj, hc⟩
    exact ⟨j, c, hold hj, hc⟩
  · rcases hnew hj with hj | rfl
    · exact hs.below j c hj st hst
    · cases hst
  · rcases hnew hj with hj | rfl
    · exact hs.placed j c hj
    · exact hplaced
  · rcases hnew hj with hj | rfl
    · exact hs.works j c hj data hdata
    · exact hwork data hdata
  · obtain ⟨hstate, c, hc, hholds⟩ := hs.held holder row hheld
    exact ⟨hstate, c, hold hc, hholds⟩

/-- **Every action keeps it.** -/
theorem Carried.step {a : Action} (hs : Carried s) (h : Orchestrator.step s a s') (hsmooth : smoothFault s a = true) : Carried s' := by
  cases a with
  | tick ms =>
    cases h
    exact ⟨hs.carrier, hs.below, hs.placed, hs.works, hs.jobs, hs.held⟩
  | deliver i =>
    obtain ⟨data, hdata, rfl⟩ := Option.map_eq_some_iff.mp h
    refine hs.start rfl fun data' he => ?_
    cases he
    exact hs.jobs data (List.mem_of_getElem? hdata)
  | deadline =>
    simp only [Orchestrator.step, next] at h
    split at h <;> cases h
    exact hs.start rfl nofun
  | answer | unitFinalized | cancel =>
    cases h
    exact hs.start rfl nofun
  | sweep =>
    simp only [Orchestrator.step, next] at h
    split at h <;> cases h
    exact hs.start rfl nofun
  | run k input =>
    obtain ⟨d, hk, h⟩ := Option.bind_eq_some_iff.mp h
    obtain ⟨d', hadvance⟩ := run_advances hs hk hsmooth h
    exact hs.advance hk hadvance

end Advances

/-! ### The failure handler -/

section Faults

variable {s s' : State} {k : ℕ} {d : Run} {requestedModules : List ModuleType} {plan : Option (Option ℤ)}

theorem carried_init : Carried (.init requestedModules plan) := by
  refine ⟨.inl rfl, (fun _ _ hk => nomatch hk), (fun _ _ hk => nomatch hk), (fun _ _ hk => nomatch hk), fun job hjob => ?_, nofun⟩
  obtain rfl := List.mem_singleton.mp hjob
  exact .inl rfl

theorem carried_reachable (h : Reaches (Guarded step fun s a _ => smoothFault s a = true) (.init requestedModules plan) s) :
    Carried s :=
  h.inv carried_init fun _ _ _ hu hstep => hu.step hstep.1 hstep.2

/-- Who has left the phase it names finds the scan at its end, or with somebody who goes on with it. -/
theorem Carried.continued (hs : Carried s) (hk : s.runs[k]? = some d) (hmoved : d.current ≠ some s.scan.state)
    (hentered : s.scan.state ≠ .QUEUED) : s.scan.state.isTerminal = true ∨ s.Continued k := by
  rcases hs.carrier with hqueued | hterm | ⟨j, c, hj, hc⟩
  · exact absurd hqueued hentered
  · exact .inl hterm
  by_cases hlive : s.scan.state.isTerminal = true
  · exact .inl hlive
  have hjk : j ≠ k := by
    rintro rfl
    obtain rfl := Option.some.inj (hj.symm.trans hk)
    exact hmoved hc
  cases hover : c.pc.isOver with
  | false => exact .inr (.inr ⟨j, c, hjk, hj, hc, hover⟩)
  | true =>
    have hplaced := hs.placed j c hj
    cases hpc : c.pc with
    | finished e =>
      rw [Run.Placed, hpc] at hplaced
      cases e with
      | returned =>
        rcases hplaced _ hc with hlt | hterm | hhanded
        · exact absurd hlt (lt_irrefl _)
        · exact absurd hterm hlive
        · exact .inr (.inl hhanded)
      | handled => exact ((hplaced _ hc).elim (absurd · (lt_irrefl _)) (absurd · hlive))
      | thrown => exact absurd (hplaced _ hc) hlive
    | _ => rw [hpc] at hover; cases hover

/-- **A fault while handling a phase ends the scan**, in every run in which nobody throws between moving the scan on and handing it
on, and no failure handler throws: once the handler of a job that has entered its phase has run, the scan is over or goes on. -/
theorem fault_ends_scan (h : Reaches (Guarded step fun s a _ => smoothFault s a = true) (.init requestedModules plan) s)
    {data : PhaseJobData} (hk : s.runs[k]? = some d) (hwork : d.work = .phase data) (hpc : d.pc = .fail) (hentered : d.current ≠ none)
    (hstep : step s (.run k .go) s') : s'.scan.state.isTerminal = true ∨ s'.Continued k := by
  have hs := carried_reachable h
  have hs' := hs.step hstep rfl
  have hplaced := hs.placed k d hk
  rw [Run.Placed, hpc] at hplaced
  obtain ⟨data', hwork', hcurrent⟩ := hplaced
  obtain rfl : data = data' := by rw [hwork] at hwork'; cases hwork'; rfl
  have hcurrent := hcurrent.resolve_left hentered
  have hlive := (hs.works k d hk data hwork).live
  obtain ⟨d₀, hd₀, hrun⟩ := Option.bind_eq_some_iff.mp hstep
  obtain rfl := Option.some.inj (hk.symm.trans hd₀)
  rw [hpc] at hrun
  simp only [runStep, hwork] at hrun
  obtain ⟨rfl, hno⟩ | ⟨-, -, -, rfl⟩ := transition_does hrun
  · have hne : s.scan.state ≠ data.phase := hno.resolve_left (by rw [canTransition_failed hlive]; nofun)
    have hlt := rank_lt_of_ne hlive (hs.below k d hk _ hcurrent) hne
    refine hs'.continued (List.getElem?_set_self (List.getElem?_eq_some_iff.mp hk).1) (fun he => ?_) fun hqueued => ?_
    · exact hne (Option.some.inj (hcurrent.symm.trans he)).symm
    · rw [show s.scan.state = .QUEUED from hqueued] at hlt
      exact absurd hlt (Nat.not_lt_zero _)
  · exact .inl rfl

/-- A module of the first phase throws. -/
theorem fault_ends_scan_failed : ∃ s, Reaches (Guarded step fun s a _ => smoothFault s a = true) (.init [.SEO] none) s ∧
    ∃ s', step s (.run 0 .go) s' ∧ (s'.scan.state.isTerminal = true ∨ s'.Continued 0) := by
  obtain ⟨s, hs, hp⟩ := Reaches.exists_of_play next smoothFault (.init [.SEO] none)
    [.deliver 0, .run 0 .go, .run 0 .go, .run 0 .throws]
    (fun s => (s.runs[0]?).any (fun d : Run => decide (d.work = .phase ⟨.RUNNING_PHASE_1, [.SEO], false⟩) && decide (d.pc = .fail) &&
      d.current.isSome) = true ∧ (next s (.run 0 .go)).isSome = true) (by decide)
  obtain ⟨hrun, hnext⟩ := hp
  obtain ⟨d, hd, hp⟩ := (Option.any_eq_true _ _).mp hrun
  simp only [Bool.and_eq_true, decide_eq_true_eq] at hp
  obtain ⟨⟨hwork, hpc⟩, hcurrent⟩ := hp
  obtain ⟨s', hs'⟩ := Option.isSome_iff_exists.mp hnext
  exact ⟨s, hs, s', hs', fault_ends_scan hs hd hwork hpc (Option.isSome_iff_ne_none.mp hcurrent) hs'⟩

/-- The job has walked through the phases that have nothing to run, and the queue refuses the next one. -/
theorem stranded : ¬ ∀ s, Reaches step (.init [.SEO] none) s → ∀ s', step s (.run 0 .go) s' → ∀ d : Run, s.runs[0]? = some d →
    d.pc = .fail → d.current ≠ none → s'.scan.state.isTerminal = true ∨ s'.Continued 0 := by
  intro hall
  obtain ⟨s, hs, hrun, hnext⟩ := Reaches.exists_of_play next (fun _ _ => true) (.init [.SEO] none)
    [.deliver 0, .run 0 .go, .run 0 .go, .run 0 .go, .run 0 .go, .run 0 .go, .run 0 .go, .run 0 .go, .run 0 .throws]
    (fun s => (s.runs[0]?).any (fun d : Run => decide (d.pc = .fail) && d.current.isSome) = true ∧
      (next s (.run 0 .go)).any (fun s' : State => decide (s'.scan.state = .RUNNING_PHASE_3) &&
        decide (s'.jobs = [⟨.RUNNING_PHASE_1, [.SEO], false⟩]) && decide (s'.plan = none) && decide (s'.runs.length = 1)) = true)
    (by decide)
  obtain ⟨d, hd, hp⟩ := (Option.any_eq_true _ _).mp hrun
  obtain ⟨s', hs', hp'⟩ := (Option.any_eq_true _ _).mp hnext
  simp only [Bool.and_eq_true, decide_eq_true_eq] at hp hp'
  obtain ⟨hpc, hcurrent⟩ := hp
  obtain ⟨⟨⟨hstate, hjobs⟩, hplan⟩, hone⟩ := hp'
  rcases hall s hs.of_guarded s' hs' d hd hpc (Option.isSome_iff_ne_none.mp hcurrent) with hterm | hhanded | ⟨j, c, hj, hc, -⟩
  · rw [hstate] at hterm
    cases hterm
  · rw [hstate] at hhanded
    rcases hhanded with ⟨job, hjob, hcont⟩ | ⟨hno, -⟩ | ⟨-, hsome⟩
    · rw [hjobs] at hjob
      obtain rfl := List.mem_singleton.mp hjob
      cases hcont
    · cases hno
    · rw [hplan] at hsome
      cases hsome
  · have hlt := (List.getElem?_eq_some_iff.mp hc).1
    omega

end Faults

end WebAudit.Orchestrator
