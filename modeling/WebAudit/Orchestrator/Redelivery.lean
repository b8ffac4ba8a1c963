import WebAudit.Lib.Rows
import WebAudit.Orchestrator.Phases

/-!
# A phase job that is delivered again

What stops a phase job from running twice is its entry: the scan is moved into the phase, and the
table leads nowhere back. A job that says `alreadyTransitioned` has no entry; a delivery of it goes on
whenever it finds the scan in its phase. Once the scan has left the phase, no delivery of either kind
does anything.
-/

namespace WebAudit.Orchestrator

open WebAudit.Lib WebAudit.Scans

/-! ### One statement of a run -/

/-- At its work: of a phase job, what comes after the entry. -/
def Pc.inBody : Pc → Bool
  | .read | .entry _ | .fail | .refund _ | .teardown _ | .clear _ | .commit | .share | .finished _ => false
  | _ => true

/-- It has moved the scan into the phase. -/
def Run.Entered (d : Run) (phase : ScanState) : Prop := ∃ before, (before, phase) ∈ d.won

/-- The row of an open transaction is an ended scan. -/
def State.Ends (s : State) : Prop := ∀ (holder : ℕ) (row : Scan), s.pending = some (holder, row) → row.state.isTerminal = true

/-- What a statement does to the scan, and to where its run is. -/
structure Goes (s : State) (k : ℕ) (d d' : Run) (s' : State) : Prop where
  runs : s'.runs = s.runs.set k d'
  work : d'.work = d.work
  won : d'.won = d.won ∧ (s'.scan = s.scan ∨ s'.scan.state.isTerminal = true) ∨
    ∃ e, d'.won = e :: d.won ∧ canTransition e.1 e.2 = true ∧ (e.2.isTerminal = true ∧ s'.scan = s.scan ∨
      s.scan.state = e.1 ∧ s'.scan.state = e.2)
  ends : s'.Ends
  entry : d'.pc.inBody = true → d.pc.inBody = true ∨ ∀ data, d.work = .phase data →
    data.alreadyTransitioned = true ∧ s.scan.state = data.phase ∨ d'.Entered data.phase

section Goes

variable {s s' : State} {k : ℕ} {d : Run}

/-- The run only goes on. -/
theorem goes_on {d' : Run} (hs : s.Ends) (hruns : s'.runs = s.runs.set k d') (hwork : d'.work = d.work) (hwon : d'.won = d.won)
    (hscan : s'.scan = s.scan) (hpending : s'.pending = s.pending) (hentry : d'.pc.inBody = true → d.pc.inBody = true) :
    Goes s k d d' s' :=
  ⟨hruns, hwork, .inl ⟨hwon, .inl hscan⟩, fun holder row h => hs holder row (hpending ▸ h), fun h => .inl (hentry h)⟩

theorem goes_goes {pc : Pc} (hs : s.Ends) (hentry : pc.inBody = true → d.pc.inBody = true) : Goes s k d { d with pc } (s.goes k d pc) :=
  goes_on hs rfl rfl rfl rfl rfl hentry

theorem inBody_finished (e : Ending) : (Pc.finished e).inBody = true → d.pc.inBody = true := nofun

theorem goes_transition {before after : ScanState} {won : Pc} {e e' : Ending} (hs : s.Ends)
    (hentry : after.isTerminal = false → won.inBody = true → d.pc.inBody = true ∨
      ∀ data, d.work = .phase data → data.phase = after)
    (h : s.transition k d before after won (.finished e) (.finished e') = some s') : ∃ d', Goes s k d d' s' := by
  obtain ⟨rfl, -⟩ | ⟨hedge, hfree, hstate, rfl⟩ := transition_does h
  · exact ⟨_, goes_goes hs (inBody_finished e')⟩
  · refine ⟨_, rfl, rfl, .inr ⟨(before, after), rfl, hedge, .inr ⟨hstate, rfl⟩⟩, hs, fun hbody => ?_⟩
    unfold afterMove at hbody
    split at hbody
    · cases hbody
    rename_i hlive
    refine (hentry (by simpa using hlive) hbody).imp_right fun hnames data hdata => .inr ⟨before, ?_⟩
    rw [hnames data hdata]
    exact List.mem_cons_self

theorem thrownTo_inBody {work : Work} {pc pc' : Pc} (h : thrownTo work pc = some pc') : pc'.inBody = false := by
  obtain rfl | ⟨e, rfl⟩ := thrownTo_goes h <;> rfl

theorem goes_throws (hs : s.Ends) (h : s.throws k d = some s') : ∃ d', Goes s k d d' s' := by
  obtain ⟨pc, hto, rfl⟩ := Option.map_eq_some_iff.mp h
  exact ⟨_, goes_goes hs (by rw [thrownTo_inBody hto]; nofun)⟩

theorem goes_walk {current : ScanState} (hs : s.Ends) (hpc : d.pc = .walk) (h : s.walk k d current = some s') :
    ∃ d', Goes s k d d' s' := by
  have hbody : d.pc.inBody = true := by rw [hpc]; rfl
  unfold State.walk at h
  split at h
  · cases h
    exact ⟨_, goes_goes hs fun _ => hbody⟩
  dsimp only at h
  split at h
  · exact goes_transition hs (fun _ _ => .inl hbody) h
  split at h <;> cases h <;> exact ⟨_, goes_goes hs fun _ => hbody⟩

/-- A statement that succeeds. -/
theorem goes_go {pc : Pc} (hs : s.Ends) (hpc : d.pc = pc) (h : runStep s k d pc .go = some s') : ∃ d', Goes s k d d' s' := by
  have hbody (hp : pc.inBody = true) : d.pc.inBody = true := hpc ▸ hp
  cases pc with
  | read =>
    simp only [runStep] at h
    split at h
    · rename_i data hwork
      split at h
      · cases h
        exact ⟨_, goes_goes hs nofun⟩
      rename_i hflag
      split at h <;> cases h
      · rename_i hstate
        refine ⟨_, rfl, rfl, .inl ⟨rfl, .inl rfl⟩, hs, fun _ => .inr fun data' hdata => .inl ?_⟩
        obtain rfl := Work.phase.inj (hwork.symm.trans hdata)
        exact ⟨by simpa using hflag, hstate⟩
      · exact ⟨_, goes_goes hs nofun⟩
    · cases h
  | entry before =>
    simp only [runStep] at h
    split at h
    · rename_i data hwork
      refine goes_transition hs (fun _ _ => .inr fun data' hdata => ?_) h
      obtain rfl := Work.phase.inj (hwork.symm.trans hdata)
      rfl
    · cases h
  | modules | docs | synthesis | fresh | intent =>
    cases h
    exact ⟨_, goes_goes hs fun _ => hbody rfl⟩
  | walk =>
    obtain ⟨current, -, h⟩ := Option.bind_eq_some_iff.mp h
    exact goes_walk hs hpc h
  | pause | complete | resume => exact goes_transition hs (fun _ _ => .inl (hbody rfl)) h
  | schedule | enqueue _ =>
    cases h
    exact ⟨_, goes_on hs rfl rfl rfl rfl rfl nofun⟩
  | gate =>
    simp only [runStep] at h
    split at h <;> cases h <;> exact ⟨_, goes_goes hs fun _ => hbody rfl⟩
  | ready deadlineMs => cases h
  | claim deadlineMs =>
    simp only [runStep, State.claim] at h
    split at h
    · cases h
    split at h <;> cases h
    · rename_i hstate
      exact ⟨_, rfl, rfl, .inr ⟨(.RUNNING_PHASE_3, .RUNNING_MASTER), rfl, rfl, .inr ⟨hstate.1, rfl⟩⟩, hs, fun _ => .inl (hbody rfl)⟩
    · exact ⟨_, goes_goes hs nofun⟩
  | fail =>
    simp only [runStep] at h
    split at h
    · exact goes_transition hs (fun _ hfinished => absurd hfinished (by decide)) h
    · cases h
  | refund rest =>
    cases rest with
    | commit =>
      cases h
      exact ⟨_, goes_goes hs nofun⟩
    | finished e =>
      cases h
      exact ⟨_, goes_on hs rfl rfl rfl rfl rfl nofun⟩
  | teardown rest => cases h
  | clear rest =>
    simp only [runStep] at h
    split at h <;> cases h
    refine ⟨_, goes_goes hs ?_⟩
    cases rest <;> nofun
  | expire =>
    simp only [runStep] at h
    split at h
    · rename_i seen hwork
      split at h
      · cases h
        exact ⟨_, goes_goes hs nofun⟩
      rename_i hedge
      split at h
      · cases h
      split at h <;> cases h
      · refine ⟨_, rfl, rfl, .inr ⟨(seen, .TIMED_OUT), rfl, by simpa using hedge, .inl ⟨rfl, rfl⟩⟩, fun holder row hrow => ?_, nofun⟩
        cases hrow
        rfl
      · exact ⟨_, goes_goes hs nofun⟩
    · cases h
  | commit =>
    simp only [runStep] at h
    split at h
    · rename_i holder row hpending
      split at h <;> cases h
      exact ⟨_, rfl, rfl, .inl ⟨rfl, .inr (hs holder row hpending)⟩, nofun, nofun⟩
    · cases h
  | cancel =>
    simp only [runStep] at h
    split at h
    · cases h
    split at h <;> cases h
    · exact ⟨_, goes_goes hs nofun⟩
    · rename_i hlive
      refine ⟨_, rfl, rfl, .inr ⟨(s.scan.state, .CANCELLED), rfl, ?_, .inr ⟨rfl, rfl⟩⟩, hs, fun _ => .inl (hbody rfl)⟩
      cases hstate : s.scan.state <;> first | rfl | (rw [hstate] at hlive; exact absurd rfl hlive)
  | enqueueTeardown | share =>
    cases h
    exact ⟨_, goes_on hs rfl rfl rfl rfl rfl nofun⟩
  | finished e => cases h

/-- **One statement of a run.** -/
theorem run_goes {pc : Pc} {input : Input} (hs : s.Ends) (hpc : d.pc = pc) (h : runStep s k d pc input = some s') :
    ∃ d', Goes s k d d' s' := by
  cases input with
  | go => exact goes_go hs hpc h
  | rollback =>
    obtain ⟨-, rfl⟩ := rollback_does h
    exact ⟨_, rfl, rfl, .inl ⟨rfl, .inl rfl⟩, nofun, nofun⟩
  | throws =>
    cases pc with
    | share =>
      obtain ⟨pc, hto, rfl⟩ := Option.map_eq_some_iff.mp h
      exact ⟨_, goes_on hs rfl rfl rfl rfl rfl (by rw [thrownTo_inBody hto]; nofun)⟩
    | _ => exact goes_throws hs h
  | throwsAdded =>
    cases pc with
    | schedule | enqueue job =>
      obtain ⟨s₁, h₁, rfl⟩ := Option.map_eq_some_iff.mp h
      obtain ⟨pc, hto, rfl⟩ := Option.map_eq_some_iff.mp h₁
      exact ⟨_, goes_on hs rfl rfl rfl rfl rfl (by rw [thrownTo_inBody hto]; nofun)⟩
    | _ => cases h
  | ready ready =>
    cases pc with
    | ready deadlineMs =>
      cases h
      exact ⟨_, goes_goes hs fun _ => by rw [hpc]; rfl⟩
    | _ => cases h
  | teardown destroyed =>
    cases pc with
    | teardown rest =>
      cases h
      refine ⟨_, goes_on hs rfl rfl rfl rfl rfl ?_⟩
      cases destroyed <;> cases rest <;> nofun
    | _ => cases h

end Goes

/-! ### One entry -/

/-- A phase is entered by one run. -/
structure Once (s : State) : Prop where
  ends : s.Ends
  past : ∀ (k : ℕ) (d : Run), s.runs[k]? = some d → ∀ e ∈ d.won, e.2.isTerminal = false → e.2.rank ≤ s.scan.state.rank
  one : ∀ (j k : ℕ) (d d' : Run), s.runs[j]? = some d → s.runs[k]? = some d' → ∀ e ∈ d.won, ∀ e' ∈ d'.won, e.2 = e'.2 →
    e.2.isTerminal = false → j = k
  body : ∀ (k : ℕ) (d : Run) data, s.runs[k]? = some d → d.work = .phase data → d.pc.inBody = true →
    data.alreadyTransitioned = false → d.Entered data.phase

section Once

variable {s s' : State} {k : ℕ} {d d' : Run}

theorem rank_le_of_terminal {state state' : ScanState} (h : state'.isTerminal = true) : state.rank ≤ state'.rank := by
  cases state' <;> cases h <;> cases state <;> decide

/-- The scan goes on, or stays. -/
theorem Goes.rank_le (h : Goes s k d d' s') : s.scan.state.rank ≤ s'.scan.state.rank := by
  obtain ⟨-, hscan | hterm⟩ | ⟨e, -, hedge, ⟨-, hscan⟩ | ⟨hbefore, hafter⟩⟩ := h.won
  · rw [hscan]
  · exact rank_le_of_terminal hterm
  · rw [hscan]
  · rw [hbefore, hafter]
    exact (rank_lt_of_canTransition hedge).le

/-- What a run has won before it still has, and what it wins of the phases it has just brought the scan to. -/
theorem Goes.mem_won (h : Goes s k d d' s') {e : ScanState × ScanState} (he : e ∈ d'.won) (hlive : e.2.isTerminal = false) :
    e ∈ d.won ∨ s.scan.state.rank < e.2.rank ∧ e.2.rank ≤ s'.scan.state.rank := by
  obtain ⟨hwon, -⟩ | ⟨e', hwon, hedge, hor⟩ := h.won
  · exact .inl (hwon ▸ he)
  · rw [hwon] at he
    rcases List.mem_cons.mp he with rfl | he
    · obtain ⟨hterm, -⟩ | ⟨hbefore, hafter⟩ := hor
      · rw [hterm] at hlive
        cases hlive
      · exact .inr ⟨hbefore ▸ rank_lt_of_canTransition hedge, hafter ▸ le_rfl⟩
    · exact .inl he

theorem Goes.entered (h : Goes s k d d' s') {phase : ScanState} (hd : d.Entered phase) : d'.Entered phase := by
  obtain ⟨before, hmem⟩ := hd
  obtain ⟨hwon, -⟩ | ⟨e, hwon, -⟩ := h.won
  · exact ⟨before, hwon ▸ hmem⟩
  · exact ⟨before, hwon ▸ List.mem_cons_of_mem _ hmem⟩

theorem Once.goes (hs : Once s) (hk : s.runs[k]? = some d) (h : Goes s k d d' s') : Once s' := by
  have hcases {j : ℕ} {c : Run} (hj : s'.runs[j]? = some c) : j = k ∧ c = d' ∨ j ≠ k ∧ s.runs[j]? = some c :=
    getElem?_set_cases hk (h.runs ▸ hj)
  -- who has won a phase that has just been won has not won it before
  have hnew {j : ℕ} {c : Run} (hj : s.runs[j]? = some c) {e e' : ScanState × ScanState} (he : e ∈ c.won) (he' : e' ∈ d'.won)
      (hsame : e.2 = e'.2) (hlive : e.2.isTerminal = false) : e' ∈ d.won := by
    refine (h.mem_won he' (hsame ▸ hlive)).resolve_right fun hlt => ?_
    have hpast := hs.past j c hj e he hlive
    rw [hsame] at hpast
    omega
  refine ⟨h.ends, fun j c hj e he hlive => ?_, fun i j c c' hi hj e he e' he' hsame hlive => ?_, fun j c data hj hwork hbody hflag => ?_⟩
  · rcases hcases hj with ⟨-, rfl⟩ | ⟨-, hj⟩
    · rcases h.mem_won he hlive with he | ⟨-, hle⟩
      · exact (hs.past k d hk e he hlive).trans h.rank_le
      · exact hle
    · exact (hs.past j c hj e he hlive).trans h.rank_le
  · rcases hcases hi with ⟨rfl, rfl⟩ | ⟨-, hi⟩ <;> rcases hcases hj with ⟨rfl, rfl⟩ | ⟨-, hj⟩
    · rfl
    · exact hs.one _ j d c' hk hj e (hnew hj he' he hsame.symm (hsame ▸ hlive)) e' he' hsame hlive
    · exact hs.one i _ c d hi hk e he e' (hnew hi he he' hsame hlive) hsame hlive
    · exact hs.one i j c c' hi hj e he e' he' hsame hlive
  · rcases hcases hj with ⟨-, rfl⟩ | ⟨-, hj⟩
    · rcases h.entry hbody with hbefore | hentry
      · exact h.entered (hs.body k d data hk (h.work ▸ hwork) hbefore hflag)
      · refine (hentry data (h.work ▸ hwork)).resolve_left fun hflagged => ?_
        rw [hflagged.1] at hflag
        cases hflag
    · exact hs.body j c data hj hwork hbody hflag

/-- A new run. -/
theorem Once.start {work : Work} {pc : Pc} (hs : Once s) (hpc : ∀ data, work = .phase data → pc.inBody = false) :
    Once (s.start work pc) := by
  refine ⟨hs.ends, fun j c hj e he hlive => ?_, fun i j c c' hi hj e he e' he' hsame hlive => ?_, fun j c data hj hwork hbody hflag => ?_⟩
  · rcases getElem?_concat_cases hj with rfl | hj
    · exact (List.not_mem_nil he).elim
    · exact hs.past j c hj e he hlive
  · rcases getElem?_concat_cases hi with rfl | hi
    · exact (List.not_mem_nil he).elim
    rcases getElem?_concat_cases hj with rfl | hj
    · exact (List.not_mem_nil he').elim
    · exact hs.one i j c c' hi hj e he e' he' hsame hlive
  · rcases getElem?_concat_cases hj with rfl | hj
    · rw [hpc data hwork] at hbody
      cases hbody
    · exact hs.body j c data hj hwork hbody hflag

theorem Once.step {a : Action} (hs : Once s) (h : step s a s') : Once s' := by
  cases a with
  | tick ms =>
    cases h
    exact ⟨hs.ends, hs.past, hs.one, hs.body⟩
  | deliver i =>
    obtain ⟨data, -, rfl⟩ := Option.map_eq_some_iff.mp h
    exact hs.start fun _ _ => rfl
  | deadline | sweep =>
    simp only [Orchestrator.step, next] at h
    split at h <;> cases h
    exact hs.start nofun
  | answer | unitFinalized | cancel =>
    cases h
    exact hs.start nofun
  | run k input =>
    obtain ⟨d, hk, h⟩ := Option.bind_eq_some_iff.mp h
    obtain ⟨d', hgoes⟩ := run_goes hs.ends rfl h
    exact hs.goes hk hgoes

theorem once_init (requestedModules : List ModuleType) (plan : Option (Option ℤ)) : Once (.init requestedModules plan) where
  ends := fun _ _ h => (nomatch h)
  past := fun _ _ h => (nomatch h)
  one := fun _ _ _ _ h => (nomatch h)
  body := fun _ _ _ h => (nomatch h)

end Once

/-! ### Once the phase is over -/

/-- It has done nothing and will not. -/
def Run.Idle (d : Run) (phase : ScanState) : Prop :=
  d.won = [] ∧ (d.pc = .read ∨ d.pc = .fail ∨ (∃ e, d.pc = .finished e) ∨ ∃ before, d.pc = .entry before ∧ phase.rank < before.rank)

/-- The scan has left the phase, and the runs of its jobs from the `n`th on are idle. -/
structure Left (n : ℕ) (phase : ScanState) (s : State) : Prop where
  ends : s.Ends
  rank : phase.rank < s.scan.state.rank
  idle : ∀ (k : ℕ) (d : Run) data, n ≤ k → s.runs[k]? = some d → d.work = .phase data → data.phase = phase → d.Idle phase

section Left

variable {s s' : State} {k : ℕ} {d : Run} {data : PhaseJobData}

theorem Run.Idle.thrown (h : d.Idle data.phase) (hthrown : s.throws k d = some s') :
    ∃ pc, s' = s.goes k d pc ∧ ({ d with pc } : Run).Idle data.phase := by
  obtain ⟨pc, hto, rfl⟩ := Option.map_eq_some_iff.mp hthrown
  obtain rfl | ⟨e, rfl⟩ := thrownTo_goes hto
  · exact ⟨_, rfl, h.1, .inr (.inl rfl)⟩
  · exact ⟨_, rfl, h.1, .inr (.inr (.inl ⟨e, rfl⟩))⟩

/-- A delivery that comes after the phase does nothing. -/
theorem Run.Idle.step {input : Input} (hd : d.Idle data.phase) (hwork : d.work = .phase data)
    (hrank : data.phase.rank < s.scan.state.rank) (h : runStep s k d d.pc input = some s') :
    s'.scan = s.scan ∧ s'.jobs = s.jobs ∧ s'.deadlineScheduled = s.deadlineScheduled ∧
      ∃ d', s'.runs = s.runs.set k d' ∧ d'.work = d.work ∧ d'.Idle data.phase := by
  have hgoes {pc : Pc} (hidle : ({ d with pc } : Run).Idle data.phase) :
      (s.goes k d pc).scan = s.scan ∧ (s.goes k d pc).jobs = s.jobs ∧ (s.goes k d pc).deadlineScheduled = s.deadlineScheduled ∧
        ∃ d', (s.goes k d pc).runs = s.runs.set k d' ∧ d'.work = d.work ∧ d'.Idle data.phase := ⟨rfl, rfl, rfl, _, rfl, rfl, hidle⟩
  have hover (e : Ending) : ({ d with pc := .finished e } : Run).Idle data.phase := ⟨hd.1, .inr (.inr (.inl ⟨e, rfl⟩))⟩
  have hlost {before after : ScanState} {won : Pc} {e e' : Ending} (hillegal : canTransition before after = false ∨ s.scan.state ≠ before)
      (h : s.transition k d before after won (.finished e) (.finished e') = some s') : s' = s.goes k d (.finished e') := by
    obtain ⟨rfl, -⟩ | ⟨hedge, -, hstate, -⟩ := transition_does h
    · rfl
    · obtain hillegal | hne := hillegal
      · rw [hillegal] at hedge
        cases hedge
      · exact absurd hstate hne
  cases input with
  | go =>
    rcases hd.2 with hpc | hpc | ⟨e, hpc⟩ | ⟨before, hpc, hbefore⟩ <;> rw [hpc] at h
    · simp only [runStep, hwork] at h
      split at h
      · cases h
        exact hgoes ⟨hd.1, .inr (.inr (.inr ⟨_, rfl, hrank⟩))⟩
      split at h <;> cases h
      · rename_i hstate
        rw [hstate] at hrank
        exact absurd hrank (lt_irrefl _)
      · exact hgoes (hover .returned)
    · simp only [runStep, hwork] at h
      rw [hlost (.inr fun hstate => by rw [hstate] at hrank; exact lt_irrefl _ hrank) h]
      exact hgoes (hover .handled)
    · cases h
    · simp only [runStep, hwork] at h
      have hillegal : canTransition before data.phase = false := by
        by_contra hedge
        have hlt := rank_lt_of_canTransition (by simpa using hedge : canTransition before data.phase = true)
        omega
      rw [hlost (.inl hillegal) h]
      exact hgoes (hover .returned)
  | throws =>
    have h : s.throws k d = some s' := by
      rcases hd.2 with hpc | hpc | ⟨e, hpc⟩ | ⟨before, hpc, -⟩ <;> rw [hpc] at h <;> exact h
    obtain ⟨pc, rfl, hidle⟩ := hd.thrown h
    exact hgoes hidle
  | rollback =>
    obtain ⟨-, rfl⟩ := rollback_does h
    exact ⟨rfl, rfl, rfl, _, rfl, rfl, hover .thrown⟩
  | throwsAdded | ready _ | teardown _ =>
    rcases hd.2 with hpc | hpc | ⟨e, hpc⟩ | ⟨before, hpc, -⟩ <;> rw [hpc] at h <;> cases h

theorem Left.start {n : ℕ} {phase : ScanState} {work : Work} {pc : Pc} (hs : Left n phase s)
    (hpc : ∀ data, work = .phase data → pc = .read) : Left n phase (s.start work pc) := by
  refine ⟨hs.ends, hs.rank, fun j c data hj hc hwork hphase => ?_⟩
  rcases getElem?_concat_cases hc with rfl | hc
  · exact ⟨rfl, .inl (hpc data hwork)⟩
  · exact hs.idle j c data hj hc hwork hphase

theorem Left.step {n : ℕ} {phase : ScanState} {a : Action} (hs : Left n phase s) (h : step s a s') : Left n phase s' := by
  cases a with
  | tick ms =>
    cases h
    exact ⟨hs.ends, hs.rank, hs.idle⟩
  | deliver i =>
    obtain ⟨data, -, rfl⟩ := Option.map_eq_some_iff.mp h
    exact hs.start fun _ _ => rfl
  | deadline | sweep =>
    simp only [Orchestrator.step, next] at h
    split at h <;> cases h
    exact hs.start nofun
  | answer | unitFinalized | cancel =>
    cases h
    exact hs.start nofun
  | run k input =>
    obtain ⟨d, hk, h⟩ := Option.bind_eq_some_iff.mp h
    obtain ⟨d', hgoes⟩ := run_goes hs.ends rfl h
    refine ⟨hgoes.ends, hs.rank.trans_le hgoes.rank_le, fun j c data hj hc hwork hphase => ?_⟩
    rcases getElem?_set_cases hk (hgoes.runs ▸ hc) with ⟨rfl, rfl⟩ | ⟨-, hc⟩
    · have hwork' : d.work = .phase data := hgoes.work ▸ hwork
      obtain ⟨-, -, -, d₁, hruns, -, hidle⟩ := (hphase ▸ hs.idle j d data hj hk hwork' hphase).step hwork' (hphase ▸ hs.rank) h
      have hsame : c = d₁ := by
        have hset := hgoes.runs.symm.trans hruns
        have hlt := (List.getElem?_eq_some_iff.mp hk).1
        have hget := congrArg (·[j]?) hset
        simpa [List.getElem?_set_self hlt] using hget
      exact hphase ▸ hsame ▸ hidle
    · exact hs.idle j c data hj hc hwork hphase

end Left

/-! ### Redelivery -/

section Runs

variable {s : State} {requestedModules : List ModuleType} {plan : Option (Option ℤ)}

theorem phaseOrder_live : ∀ phase ∈ phaseOrder, phase.isTerminal = false := by decide

theorem once_reachable (h : Reaches step (.init requestedModules plan) s) : Once s :=
  h.inv (once_init requestedModules plan) fun _ _ _ hs => hs.step

/-- The scan is in its second phase. -/
def firstPhaseOver : List Action :=
  [.deliver 0, .run 0 .go, .run 0 .go, .run 0 .go, .run 0 .go, .run 0 .go, .run 0 .go, .answer, .run 1 .go, .run 1 .go, .run 1 .go]

/-- The third run has read, and returned. -/
def returnsAtOnce (s : State) : Bool := (s.runs[2]?).any fun d =>
  decide (d.pc = .finished .returned) && decide (d.work = .phase ⟨.RUNNING_PHASE_1, [.SEO], false⟩)

end Runs

end WebAudit.Orchestrator
