import WebAudit.Lib.Rows
import WebAudit.Orchestrator.Phases

/-!
# One winner for an edge

Every change of the row is an edge of the table, and the table leads nowhere back: so each edge is won
once, and the run that wins the last one is the one that triggers what a terminal state asks for.
That holds as long as no transaction of the sweep is rolled back after its update: its observers run
before it commits.

What a run can do to the row and to what it has won and triggered is `Does`.
-/

namespace WebAudit.Orchestrator

open WebAudit.Lib WebAudit.Scans

/-! ### What a run does -/

/-- It has won nothing terminal, or there is nothing left for it to trigger. -/
def Pc.plain : Pc → Bool
  | .refund _ | .teardown _ | .clear _ | .commit | .enqueueTeardown | .share | .finished _ => false
  | _ => true

/-- Only jobs, and where a run is. -/
def State.Stays (s s' : State) : Prop := s'.scan = s.scan ∧ s'.pending = s.pending ∧ s'.plan = s.plan ∧ s'.clock = s.clock

inductive Does (s : State) (k : ℕ) (d : Run) : State → Prop where
  | goes {s' : State} {d' : Run} (hpc : d.pc.plain = true) (hstays : s.Stays s') (hruns : s'.runs = s.runs.set k d')
      (hwon : d'.won = d.won) (htriggered : d'.triggered = d.triggered) (hpc' : d'.pc.plain = true ∨ ∃ e, d'.pc = .finished e) : Does s k d s'
  | moves {before after : ScanState} {pc : Pc} {e : Ending} (hpc : d.pc.plain = true) (hedge : canTransition before after = true)
      (hfree : s.pending = none) (hstate : s.scan.state = before)
      (hwon : after.isTerminal = false → pc.plain = true ∨ ∃ e, pc = .finished e) :
      Does s k d (s.moves k d before after (afterMove after pc (.finished e)))
  | cancels (hpc : d.pc.plain = true) (hfree : s.pending = none) (hstate : s.scan.state.isTerminal = false) :
      Does s k d { s with
        scan := s.scan.cancelled s.clock
        runs := s.runs.set k
          { d with pc := .enqueueTeardown, current := some .CANCELLED, won := (s.scan.state, .CANCELLED) :: d.won } }
  | expires (hpc : d.pc.plain = true) (hfree : s.pending = none) (hedge : canTransition s.scan.state .TIMED_OUT = true) :
      Does s k d { s with
        pending := some (k, s.scan.moved s.scan.state .TIMED_OUT s.clock)
        runs := s.runs.set k { d with pc := .refund .commit, won := (s.scan.state, .TIMED_OUT) :: d.won } }
  | refunds {r : Rest} (hpc : d.pc = .refund r) :
      Does s k d { s with runs := s.runs.set k { d with
        pc := .teardown r
        triggered := if r = .commit then d.triggered else .refund :: d.triggered } }
  | tearsDown {rest : Rest} {pc : Pc} (hpc : d.pc = .teardown rest) (hpc' : pc = .clear rest ∨ pc = rest.pc) :
      Does s k d { s with runs := s.runs.set k { d with pc, triggered := .teardown :: d.triggered } }
  | clears {rest : Rest} (hpc : d.pc = .clear rest) (hfree : s.pending = none) : Does s k d (s.goes k d rest.pc)
  | commits {row : Scan} (hpc : d.pc = .commit) (hheld : s.pending = some (k, row)) :
      Does s k d { s.goes k d .share with scan := row, pending := none }
  | enqueuesTeardown (hpc : d.pc = .enqueueTeardown) :
      Does s k d { s with runs := s.runs.set k { d with pc := .share, triggered := .teardown :: d.triggered } }
  | shares {e : Ending} (hpc : d.pc = .share) :
      Does s k d { s with runs := s.runs.set k { d with pc := .finished e, triggered := .refund :: d.triggered } }

section Does

variable {s s' : State} {k : ℕ} {d : Run}

theorem stays_goes (pc : Pc) : s.Stays (s.goes k d pc) := ⟨rfl, rfl, rfl, rfl⟩

/-- A run that only goes on. -/
theorem does_goes {pc : Pc} (hpc : d.pc.plain = true) (hpc' : pc.plain = true ∨ ∃ e, pc = .finished e) : Does s k d (s.goes k d pc) :=
  .goes hpc (stays_goes pc) rfl rfl rfl hpc'

/-- A transition outside a transaction. -/
theorem does_transition {before after : ScanState} {won : Pc} {e e' : Ending} (hpc : d.pc.plain = true)
    (hwon : after.isTerminal = false → won.plain = true ∨ ∃ e, won = .finished e)
    (h : s.transition k d before after won (.finished e) (.finished e') = some s') : Does s k d s' := by
  obtain ⟨rfl, -⟩ | ⟨hedge, hfree, hstate, rfl⟩ := transition_does h
  · exact does_goes hpc (.inr ⟨e', rfl⟩)
  · exact .moves hpc hedge hfree hstate hwon

theorem body_goes (phase : ScanState) : (body phase).plain = true ∨ ∃ e, body phase = .finished e := by
  cases phase <;> first | exact .inl rfl | exact .inr ⟨_, rfl⟩

theorem does_throws (hpc : d.pc.plain = true) (h : s.throws k d = some s') : Does s k d s' := by
  obtain ⟨pc, hto, rfl⟩ := Option.map_eq_some_iff.mp h
  exact does_goes hpc ((thrownTo_goes hto).imp_left fun he => by rw [he]; rfl)

/-- A statement that throws. -/
theorem does_thrown {pc : Pc} (hd : d.pc = pc) (h : runStep s k d pc .throws = some s') : Does s k d s' := by
  cases pc with
  | share =>
    obtain ⟨pc, hto, rfl⟩ := Option.map_eq_some_iff.mp h
    obtain rfl | ⟨e, rfl⟩ := thrownTo_goes hto
    · cases hw : d.work <;> rw [hw] at hto <;> cases hto
    · exact .shares hd
  | refund rest | teardown rest | clear rest | commit | enqueueTeardown | finished e =>
    have h : s.throws k d = some s' := h
    simp [State.throws, hd, thrownTo] at h
  | _ => exact does_throws (by rw [hd]; rfl) h

/-- The gate. -/
theorem does_claim {deadlineMs : ℤ} (hd : d.pc = .claim deadlineMs) (h : s.claim k d deadlineMs = some s') : Does s k d s' := by
  unfold State.claim at h
  split at h
  · cases h
  rename_i hfree
  split at h <;> cases h
  · rename_i hstate
    exact .moves (e := .returned) (by rw [hd]; rfl) rfl (by simpa using hfree) hstate.1 fun _ => .inl rfl
  · exact does_goes (by rw [hd]; rfl) (.inr ⟨_, rfl⟩)

/-- The walk. -/
theorem does_walk {current : ScanState} (hd : d.pc = .walk) (h : s.walk k d current = some s') : Does s k d s' := by
  have hplain : d.pc.plain = true := by rw [hd]; rfl
  unfold State.walk at h
  split at h
  · cases h
    exact does_goes hplain (.inr ⟨_, rfl⟩)
  dsimp only at h
  split at h
  · exact does_transition hplain (fun _ => .inl rfl) h
  split at h <;> cases h
  · refine does_goes hplain (.inl ?_)
    split <;> rfl
  · exact does_goes hplain (.inl rfl)

/-- The sweep's update. -/
theorem does_expire {seen : ScanState} (hd : d.pc = .expire) (hwork : d.work = .timeout seen)
    (h : runStep s k d .expire .go = some s') : Does s k d s' := by
  have hplain : d.pc.plain = true := by rw [hd]; rfl
  obtain ⟨work, pc, current, won, triggered⟩ := d
  obtain rfl : work = .timeout seen := hwork
  simp only [runStep] at h
  split at h
  · cases h
    exact does_goes hplain (.inr ⟨_, rfl⟩)
  rename_i hedge
  split at h
  · cases h
  rename_i hfree
  split at h <;> cases h
  · rename_i hstate
    subst hstate
    exact .expires hplain (by simpa using hfree) (by simpa using hedge)
  · exact does_goes hplain (.inr ⟨_, rfl⟩)

/-- A statement that succeeds. -/
theorem does_go {pc : Pc} (hd : d.pc = pc) (h : runStep s k d pc .go = some s') : Does s k d s' := by
  have hplain (hp : pc.plain = true) : d.pc.plain = true := hd ▸ hp
  cases pc with
  | read =>
    simp only [runStep] at h
    split at h
    · split at h
      · cases h
        exact does_goes (hplain rfl) (.inl rfl)
      split at h <;> cases h
      · exact .goes (hplain rfl) ⟨rfl, rfl, rfl, rfl⟩ rfl rfl rfl (body_goes _)
      · exact does_goes (hplain rfl) (.inr ⟨_, rfl⟩)
    · cases h
  | entry before =>
    simp only [runStep] at h
    split at h
    · exact does_transition (hplain rfl) (fun _ => body_goes _) h
    · cases h
  | modules | docs | fresh =>
    cases h
    exact does_goes (hplain rfl) (.inl rfl)
  | intent | synthesis =>
    cases h
    exact does_goes (hplain rfl) (.inl rfl)
  | walk =>
    obtain ⟨current, -, h⟩ := Option.bind_eq_some_iff.mp h
    exact does_walk hd h
  | pause | resume => exact does_transition (hplain rfl) (fun _ => .inl rfl) h
  | complete => exact does_transition (hplain rfl) (fun _ => .inr ⟨_, rfl⟩) h
  | schedule =>
    cases h
    exact .goes (hplain rfl) ⟨rfl, rfl, rfl, rfl⟩ rfl rfl rfl (.inr ⟨_, rfl⟩)
  | gate =>
    simp only [runStep] at h
    split at h <;> cases h
    · exact does_goes (hplain rfl) (.inl rfl)
    · exact does_goes (hplain rfl) (.inr ⟨_, rfl⟩)
    · exact does_goes (hplain rfl) (.inl rfl)
  | ready deadlineMs => cases h
  | claim deadlineMs => exact does_claim hd h
  | enqueue job =>
    cases h
    exact .goes (hplain rfl) ⟨rfl, rfl, rfl, rfl⟩ rfl rfl rfl (.inr ⟨_, rfl⟩)
  | fail =>
    simp only [runStep] at h
    split at h
    · exact does_transition (hplain rfl) (fun hlive => absurd hlive (by decide)) h
    · cases h
  | refund rest =>
    cases rest with
    | commit =>
      cases h
      exact .refunds (r := .commit) hd
    | finished e =>
      cases h
      exact .refunds (r := .finished e) hd
  | teardown rest => cases h
  | clear rest =>
    simp only [runStep] at h
    split at h <;> cases h
    rename_i hfree
    exact .clears hd (by simpa using hfree)
  | expire =>
    cases hwork : d.work with
    | timeout seen => exact does_expire hd hwork h
    | phase data | resume | unit | cancel => simp [runStep, hwork] at h
  | commit =>
    simp only [runStep] at h
    split at h
    · rename_i hpending
      split at h <;> cases h
      rename_i he
      exact .commits hd (he ▸ hpending)
    · cases h
  | cancel =>
    simp only [runStep] at h
    split at h
    · cases h
    rename_i hfree
    split at h <;> cases h
    · exact does_goes (hplain rfl) (.inr ⟨_, rfl⟩)
    · rename_i hlive
      exact .cancels (hplain rfl) (by simpa using hfree) (by simpa using hlive)
  | enqueueTeardown =>
    cases h
    exact .enqueuesTeardown hd
  | share =>
    cases h
    exact .shares hd
  | finished e => cases h

/-- **One statement of a run**, if it is not rolled back. -/
theorem run_does {pc : Pc} {input : Input} (hd : d.pc = pc) (h : runStep s k d pc input = some s') (hne : input ≠ .rollback) :
    Does s k d s' := by
  cases input with
  | go => exact does_go hd h
  | rollback => exact absurd rfl hne
  | throws => exact does_thrown hd h
  | throwsAdded =>
    cases pc with
    | schedule | enqueue job =>
      obtain ⟨s₁, h₁, rfl⟩ := Option.map_eq_some_iff.mp h
      obtain ⟨pc, hto, rfl⟩ := Option.map_eq_some_iff.mp h₁
      exact .goes (by rw [hd]; rfl) ⟨rfl, rfl, rfl, rfl⟩ rfl rfl rfl ((thrownTo_goes hto).imp_left fun he => by rw [he]; rfl)
    | _ => cases h
  | ready ready =>
    cases pc with
    | ready deadlineMs =>
      cases h
      refine does_goes (by rw [hd]; rfl) ?_
      unfold State.gateReady
      split
      · split
        · exact .inl rfl
        · exact .inr ⟨_, rfl⟩
      · exact .inr ⟨_, rfl⟩
    | _ => cases h
  | teardown destroyed =>
    cases pc with
    | teardown rest =>
      cases h
      exact .tearsDown hd (by cases destroyed <;> simp)
    | _ => cases h

end Does

/-! ### What is true of the runs -/

/-- The row, as far as it has been updated. -/
def State.latest (s : State) : Scan := (s.pending.map (·.2)).getD s.scan

/-- It has won an edge to a terminal state. -/
def Run.ended (d : Run) : Bool := d.won.any (·.2.isTerminal)

/-- What a run has triggered at its next statement. -/
def Run.Fits (d : Run) : Prop :=
  match d.pc with
  | .refund _ | .teardown .commit | .enqueueTeardown => d.ended = true ∧ d.triggered = []
  | .teardown (.finished _) => d.ended = true ∧ d.triggered = [.refund]
  | .clear .commit | .commit | .share => d.ended = true ∧ d.triggered = [.teardown]
  | .clear (.finished _) => d.ended = true ∧ d.triggered = [.teardown, .refund]
  | .finished _ => d.ended = false ∧ d.triggered = [] ∨
      d.ended = true ∧ (d.triggered = [.teardown, .refund] ∨ d.triggered = [.refund, .teardown])
  | _ => d.ended = false ∧ d.triggered = []

/-- The edges that have been won form one way up the table, and who has won the last one triggers what comes with it. -/
structure Ordered (s : State) : Prop where
  fits : ∀ (k : ℕ) (d : Run), s.runs[k]? = some d → d.Fits
  held : ∀ (holder : ℕ) (row : Scan), s.pending = some (holder, row) →
    canTransition s.scan.state .TIMED_OUT = true ∧ ∃ t, row = s.scan.moved s.scan.state .TIMED_OUT t
  edges : ∀ (k : ℕ) (d : Run), s.runs[k]? = some d → ∀ e ∈ d.won, canTransition e.1 e.2 = true ∧
    e.2.rank ≤ s.latest.state.rank ∧ (e.2.isTerminal = true → s.latest.state = e.2)
  one : ∀ (j k : ℕ) (d d' : Run), s.runs[j]? = some d → s.runs[k]? = some d' → ∀ e ∈ d.won, e ∈ d'.won → j = k
  nodup : ∀ (k : ℕ) (d : Run), s.runs[k]? = some d → d.won.Nodup
  last : ∀ (j k : ℕ) (d d' : Run), s.runs[j]? = some d → s.runs[k]? = some d' → d.ended = true → d'.ended = true → j = k
  winner : s.latest.state.isTerminal = true → ∃ (k : ℕ) (d : Run), s.runs[k]? = some d ∧ ∃ e ∈ d.won, e.2 = s.latest.state
  queued : s.scan.state = .QUEUED → s.scan.startedAt = none

section Ordered

variable {s s' : State} {k : ℕ} {d d' : Run}

theorem fits_plain (hpc : d.pc.plain = true) : d.Fits ↔ d.ended = false ∧ d.triggered = [] := by
  unfold Run.Fits
  cases hd : d.pc <;> first | rfl | (rw [hd] at hpc; cases hpc)

theorem ended_mem (h : d.ended = true) : ∃ e ∈ d.won, e.2.isTerminal = true := List.any_eq_true.mp h

theorem Ordered.live_of_latest (hs : Ordered s) (hlive : s.latest.state.isTerminal = false) (hk : s.runs[k]? = some d) :
    d.ended = false := by
  by_contra hended
  obtain ⟨e, he, hterm⟩ := ended_mem (by simpa using hended)
  rw [(hs.edges k d hk e he).2.2 hterm, hterm] at hlive
  cases hlive

/-- No edge is won. -/
theorem Ordered.same (hs : Ordered s) (hk : s.runs[k]? = some d) (hruns : s'.runs = s.runs.set k d') (hwon : d'.won = d.won)
    (hfits : d'.Fits) (hlatest : s'.latest.state = s.latest.state)
    (hheld : ∀ (holder : ℕ) (row : Scan), s'.pending = some (holder, row) →
      canTransition s'.scan.state .TIMED_OUT = true ∧ ∃ t, row = s'.scan.moved s'.scan.state .TIMED_OUT t)
    (hqueued : s'.scan.state = .QUEUED → s'.scan.startedAt = none) : Ordered s' := by
  have hold {j : ℕ} {c : Run} (hj : s'.runs[j]? = some c) : ∃ c₀, s.runs[j]? = some c₀ ∧ c.won = c₀.won := by
    rw [hruns] at hj
    rcases getElem?_set_cases hk hj with ⟨rfl, rfl⟩ | ⟨-, hj⟩
    · exact ⟨d, hk, hwon⟩
    · exact ⟨c, hj, rfl⟩
  refine ⟨fun j c hj => ?_, hheld, fun j c hj e he => ?_, fun i j c c' hi hj e he he' => ?_, fun j c hj => ?_,
    fun i j c c' hi hj hc hc' => ?_, fun hterm => ?_, hqueued⟩
  · rw [hruns] at hj
    rcases getElem?_set_cases hk hj with ⟨-, rfl⟩ | ⟨-, hj⟩
    · exact hfits
    · exact hs.fits j c hj
  · obtain ⟨c₀, hj, hsame⟩ := hold hj
    rw [hlatest]
    exact hs.edges j c₀ hj e (hsame ▸ he)
  · obtain ⟨c₀, hi, hsame⟩ := hold hi
    obtain ⟨c₁, hj, hsame'⟩ := hold hj
    exact hs.one i j c₀ c₁ hi hj e (hsame ▸ he) (hsame' ▸ he')
  · obtain ⟨c₀, hj, hsame⟩ := hold hj
    exact hsame ▸ hs.nodup j c₀ hj
  · obtain ⟨c₀, hi, hsame⟩ := hold hi
    obtain ⟨c₁, hj, hsame'⟩ := hold hj
    rw [Run.ended, hsame] at hc
    rw [Run.ended, hsame'] at hc'
    exact hs.last i j c₀ c₁ hi hj hc hc'
  · rw [hlatest] at hterm ⊢
    obtain ⟨j, c, hj, e, he, hstate⟩ := hs.winner hterm
    by_cases hjk : k = j
    · subst hjk
      obtain rfl := Option.some.inj (hk.symm.trans hj)
      refine ⟨k, d', ?_, e, hwon ▸ he, hstate⟩
      rw [hruns]
      exact List.getElem?_set_self (List.getElem?_eq_some_iff.mp hk).1
    · refine ⟨j, c, ?_, e, he, hstate⟩
      rw [hruns, List.getElem?_set_ne hjk]
      exact hj

/-- An edge is won. -/
theorem Ordered.wins (hs : Ordered s) (hk : s.runs[k]? = some d) (hruns : s'.runs = s.runs.set k d') {before after : ScanState}
    (hwon : d'.won = (before, after) :: d.won) (hedge : canTransition before after = true) (hbefore : s.latest.state = before)
    (hafter : s'.latest.state = after) (hfits : d'.Fits)
    (hheld : ∀ (holder : ℕ) (row : Scan), s'.pending = some (holder, row) →
      canTransition s'.scan.state .TIMED_OUT = true ∧ ∃ t, row = s'.scan.moved s'.scan.state .TIMED_OUT t)
    (hqueued : s'.scan.state = .QUEUED → s'.scan.startedAt = none) : Ordered s' := by
  have hrank := rank_lt_of_canTransition hedge
  have hlive : s.latest.state.isTerminal = false := by
    by_contra hterm
    rw [hbefore] at hterm
    rw [canTransition_terminal (by simpa using hterm)] at hedge
    cases hedge
  -- the new edge is higher than every one that has been won
  have hnew {j : ℕ} {c : Run} (hj : s.runs[j]? = some c) : (before, after) ∉ c.won := by
    intro hmem
    have := (hs.edges j c hj _ hmem).2.1
    rw [hbefore] at this
    exact absurd hrank (Nat.not_lt.mpr this)
  have hold {j : ℕ} {c : Run} (hj : s'.runs[j]? = some c) : j = k ∧ c = d' ∨ j ≠ k ∧ s.runs[j]? = some c := by
    rw [hruns] at hj
    exact getElem?_set_cases hk hj
  have hup {j : ℕ} {c : Run} (hj : s.runs[j]? = some c) {e : ScanState × ScanState} (he : e ∈ c.won) :
      canTransition e.1 e.2 = true ∧ e.2.rank ≤ after.rank ∧ (e.2.isTerminal = true → after = e.2) := by
    obtain ⟨hcan, hle, hterm⟩ := hs.edges j c hj e he
    rw [hbefore] at hle
    refine ⟨hcan, by omega, fun ht => ?_⟩
    rw [hterm ht, ht] at hlive
    cases hlive
  refine ⟨fun j c hj => ?_, hheld, fun j c hj e he => ?_, fun i j c c' hi hj e he he' => ?_, fun j c hj => ?_,
    fun i j c c' hi hj hc hc' => ?_, fun hterm => ?_, hqueued⟩
  · rcases hold hj with ⟨-, rfl⟩ | ⟨-, hj⟩
    · exact hfits
    · exact hs.fits j c hj
  · rw [hafter]
    rcases hold hj with ⟨-, rfl⟩ | ⟨-, hj⟩
    · rw [hwon] at he
      rcases List.mem_cons.mp he with rfl | he
      · exact ⟨hedge, le_rfl, fun _ => rfl⟩
      · exact hup hk he
    · exact hup hj he
  · rcases hold hi with ⟨hik, rfl⟩ | ⟨hik, hi⟩ <;> rcases hold hj with ⟨hjk, rfl⟩ | ⟨hjk, hj⟩
    · exact hik.trans hjk.symm
    · rw [hwon] at he
      rcases List.mem_cons.mp he with rfl | he
      · exact absurd he' (hnew hj)
      · exact hik.trans (hs.one k j d c' hk hj e he he')
    · rw [hwon] at he'
      rcases List.mem_cons.mp he' with rfl | he'
      · exact absurd he (hnew hi)
      · exact (hs.one i k c d hi hk e he he').trans hjk.symm
    · exact hs.one i j c c' hi hj e he he'
  · rcases hold hj with ⟨-, rfl⟩ | ⟨-, hj⟩
    · rw [hwon]
      exact List.nodup_cons.mpr ⟨hnew hk, hs.nodup k d hk⟩
    · exact hs.nodup j c hj
  · rcases hold hi with ⟨hik, rfl⟩ | ⟨-, hi⟩ <;> rcases hold hj with ⟨hjk, rfl⟩ | ⟨-, hj⟩
    · exact hik.trans hjk.symm
    · exact absurd hc' (by simp [hs.live_of_latest hlive hj])
    · exact absurd hc (by simp [hs.live_of_latest hlive hi])
    · exact hs.last i j c c' hi hj hc hc'
  · refine ⟨k, d', ?_, (before, after), by rw [hwon]; exact List.mem_cons_self, hafter.symm⟩
    rw [hruns]
    exact List.getElem?_set_self (List.getElem?_eq_some_iff.mp hk).1

/-- A run starts. -/
theorem Ordered.start (hs : Ordered s) {work : Work} {pc : Pc} (hpc : pc.plain = true) : Ordered (s.start work pc) := by
  have hnew : ∀ {j : ℕ} {c : Run}, (s.start work pc).runs[j]? = some c → c = ⟨work, pc, none, [], []⟩ ∨ s.runs[j]? = some c :=
    fun hj => getElem?_concat_cases hj
  refine ⟨fun j c hj => ?_, hs.held, fun j c hj e he => ?_, fun i j c c' hi hj e he he' => ?_, fun j c hj => ?_,
    fun i j c c' hi hj hc hc' => ?_, fun hterm => ?_, hs.queued⟩
  · rcases hnew hj with rfl | hj
    · exact (fits_plain hpc).mpr ⟨rfl, rfl⟩
    · exact hs.fits j c hj
  · rcases hnew hj with rfl | hj
    · cases he
    · exact hs.edges j c hj e he
  · rcases hnew hi with rfl | hi
    · cases he
    rcases hnew hj with rfl | hj
    · cases he'
    · exact hs.one i j c c' hi hj e he he'
  · rcases hnew hj with rfl | hj
    · exact List.nodup_nil
    · exact hs.nodup j c hj
  · rcases hnew hi with rfl | hi
    · cases hc
    rcases hnew hj with rfl | hj
    · cases hc'
    · exact hs.last i j c c' hi hj hc hc'
  · obtain ⟨k, d, hk, hrest⟩ := hs.winner hterm
    exact ⟨k, d, (List.getElem?_append_left (List.getElem?_eq_some_iff.mp hk).1).trans hk, hrest⟩

theorem canTransition_queued (before : ScanState) : canTransition before .QUEUED = false := by
  cases before <;> rfl

theorem canTransition_cancelled {before : ScanState} (h : before.isTerminal = false) : canTransition before .CANCELLED = true := by
  cases before <;> first | rfl | cases h

theorem Ordered.plain (hs : Ordered s) (hk : s.runs[k]? = some d) (hpc : d.pc.plain = true) : d.ended = false ∧ d.triggered = [] :=
  (fits_plain hpc).mp (hs.fits k d hk)

theorem latest_free (h : s.pending = none) : s.latest = s.scan := by
  rw [State.latest, h]
  rfl

/-- The row has been updated, and nobody else is about to. -/
theorem latest_of_free {row : Scan} {state : ScanState} (h : s.pending = none) (hrow : row.state = state) :
    ((s.pending.map (·.2)).getD row).state = state := by
  rw [h]
  exact hrow

/-- A run that has triggered everything is over. -/
theorem fits_over {r : Rest} (he : d.ended = true) (ht : d.triggered = match r with
    | .finished _ => [.teardown, .refund]
    | .commit => [.teardown]) : Run.Fits { d with pc := r.pc } := by
  cases r with
  | finished e => exact .inr ⟨he, .inl ht⟩
  | commit => exact ⟨he, ht⟩

/-- **What a run does** keeps it. -/
theorem Ordered.does (hs : Ordered s) (hk : s.runs[k]? = some d) (h : Does s k d s') : Ordered s' := by
  cases h with
  | @goes _ d' hpc hstays hruns hwon htriggered hpc' =>
    obtain ⟨hended, htrig⟩ := hs.plain hk hpc
    obtain ⟨hscan, hpending, -, -⟩ := hstays
    have hended' : d'.ended = false := by rw [Run.ended, hwon]; exact hended
    refine hs.same hk hruns hwon ?_ ?_ ?_ ?_
    · rcases hpc' with hpc' | ⟨e, he⟩
      · exact (fits_plain hpc').mpr ⟨hended', htriggered.trans htrig⟩
      · rw [Run.Fits, he]
        exact .inl ⟨hended', htriggered.trans htrig⟩
    · rw [State.latest, State.latest, hpending, hscan]
    · rw [hpending, hscan]
      exact hs.held
    · rw [hscan]
      exact hs.queued
  | @moves before after pc e hpc hedge hfree hstate hwon =>
    obtain ⟨hended, htrig⟩ := hs.plain hk hpc
    refine hs.wins hk rfl rfl hedge (by rw [latest_free hfree, hstate]) (latest_of_free hfree rfl) ?_ ?_ ?_
    · unfold afterMove
      split
      · rename_i hterm
        exact ⟨by simp [Run.ended, hterm], htrig⟩
      · rename_i hlive
        have hended' : Run.ended { d with pc, current := some after, won := (before, after) :: d.won } = false := by
          simpa [Run.ended, hlive] using hended
        rcases hwon (by simpa using hlive) with hpc' | ⟨e, rfl⟩
        · exact (fits_plain hpc').mpr ⟨hended', htrig⟩
        · exact .inl ⟨hended', htrig⟩
    · intro holder row hheld
      rw [show (s.moves k d before after _).pending = s.pending from rfl, hfree] at hheld
      cases hheld
    · intro hqueued
      rw [show after = .QUEUED from hqueued, canTransition_queued] at hedge
      cases hedge
  | cancels hpc hfree hstate =>
    obtain ⟨hended, htrig⟩ := hs.plain hk hpc
    refine hs.wins hk rfl rfl (canTransition_cancelled hstate) (by rw [latest_free hfree])
      (latest_of_free hfree rfl) ⟨rfl, htrig⟩ ?_ nofun
    intro holder row hheld
    rw [show _ = s.pending from rfl, hfree] at hheld
    cases hheld
  | expires hpc hfree hedge =>
    obtain ⟨hended, htrig⟩ := hs.plain hk hpc
    refine hs.wins hk rfl rfl hedge (by rw [latest_free hfree]) rfl ⟨rfl, htrig⟩ ?_ hs.queued
    rintro holder row hheld
    cases hheld
    exact ⟨hedge, _, rfl⟩
  | @refunds rest hpc =>
    have hfits := hs.fits k d hk
    rw [Run.Fits, hpc] at hfits
    refine hs.same hk rfl rfl ?_ rfl hs.held hs.queued
    cases rest with
    | commit => exact hfits
    | finished e => exact ⟨hfits.1, by simp [hfits.2]⟩
  | @tearsDown rest pc hpc hpc' =>
    have hfits := hs.fits k d hk
    rw [Run.Fits, hpc] at hfits
    refine hs.same hk rfl rfl ?_ rfl hs.held hs.queued
    cases rest with
    | commit => rcases hpc' with rfl | rfl <;> exact ⟨hfits.1, by simp [hfits.2]⟩
    | finished e =>
      rcases hpc' with rfl | rfl
      · exact ⟨hfits.1, by simp [hfits.2]⟩
      · exact .inr ⟨hfits.1, .inl (by simp [hfits.2])⟩
  | @clears rest hpc hfree =>
    have hfits := hs.fits k d hk
    rw [Run.Fits, hpc] at hfits
    refine hs.same hk rfl rfl ?_ rfl hs.held hs.queued
    cases rest with
    | commit => exact fits_over (r := .commit) hfits.1 hfits.2
    | finished e => exact fits_over (r := .finished e) hfits.1 hfits.2
  | @commits row hpc hheld =>
    have hfits := hs.fits k d hk
    rw [Run.Fits, hpc] at hfits
    obtain ⟨hedge, t, rfl⟩ := hs.held k row hheld
    refine hs.same hk rfl rfl hfits ?_ nofun nofun
    rw [State.latest, State.latest, hheld]
    rfl
  | enqueuesTeardown hpc =>
    have hfits := hs.fits k d hk
    rw [Run.Fits, hpc] at hfits
    exact hs.same hk rfl rfl ⟨hfits.1, by simp [hfits.2]⟩ rfl hs.held hs.queued
  | shares hpc =>
    have hfits := hs.fits k d hk
    rw [Run.Fits, hpc] at hfits
    exact hs.same hk rfl rfl (.inr ⟨hfits.1, .inr (by simp [hfits.2])⟩) rfl hs.held hs.queued

/-- **Every action keeps it**, if it is not a rollback. -/
theorem Ordered.step {a : Action} (hs : Ordered s) (h : step s a s') (hne : ∀ k, a ≠ .run k .rollback) : Ordered s' := by
  cases a with
  | tick ms =>
    cases h
    exact ⟨hs.fits, hs.held, hs.edges, hs.one, hs.nodup, hs.last, hs.winner, hs.queued⟩
  | deliver i =>
    obtain ⟨data, -, rfl⟩ := Option.map_eq_some_iff.mp h
    exact hs.start rfl
  | deadline =>
    simp only [Orchestrator.step, next] at h
    split at h <;> cases h
    exact hs.start rfl
  | answer | unitFinalized | cancel =>
    cases h
    exact hs.start rfl
  | sweep =>
    simp only [Orchestrator.step, next] at h
    split at h <;> cases h
    exact hs.start rfl
  | run k input =>
    obtain ⟨d, hk, h⟩ := Option.bind_eq_some_iff.mp h
    exact hs.does hk (run_does rfl h fun he => hne k (he ▸ rfl))

end Ordered

/-! ### Runs -/

/-- No transaction of the sweep is rolled back once its update has matched. -/
def smooth : Action → Bool
  | .run _ .rollback => false
  | _ => true

section Runs

variable {s s' : State} {a : Action} {requestedModules : List ModuleType} {plan : Option (Option ℤ)}

theorem ordered_init : Ordered (.init requestedModules plan) :=
  ⟨(fun _ _ hk => nomatch hk), nofun, (fun _ _ hk => nomatch hk), (fun _ _ _ _ hj => nomatch hj), (fun _ _ hk => nomatch hk),
    (fun _ _ _ _ hj => nomatch hj), (fun hterm => nomatch hterm), fun _ => rfl⟩

theorem ordered_reachable (h : Reaches (Guarded step fun _ a _ => smooth a = true) (.init requestedModules plan) s) : Ordered s := by
  refine h.inv ordered_init fun u a u' hu hstep => hu.step hstep.1 ?_
  rintro k rfl
  exact absurd hstep.2 Bool.false_ne_true

/-- The start of a scan is written when it leaves the queue. -/
theorem moved_startedAt {r : Scan} {before after : ScanState} {now t : ℤ} (hqueued : before = .QUEUED → r.startedAt = none)
    (h : r.startedAt = some t) : (r.moved before after now).startedAt = some t := by
  unfold Scan.moved
  dsimp only
  split
  · rename_i he
    rw [hqueued he.2] at h
    cases h
  · exact h

/-- **A change of the row** is an edge of the table, and the start stays as it was written. -/
theorem Ordered.change (hs : Ordered s) (h : Orchestrator.step s a s') :
    (s'.scan.state = s.scan.state ∨ canTransition s.scan.state s'.scan.state = true) ∧
      ∀ t, s.scan.startedAt = some t → s'.scan.startedAt = some t := by
  cases a with
  | tick ms | answer | unitFinalized | cancel =>
    cases h
    exact ⟨.inl rfl, fun _ h => h⟩
  | deliver i =>
    obtain ⟨data, -, rfl⟩ := Option.map_eq_some_iff.mp h
    exact ⟨.inl rfl, fun _ h => h⟩
  | deadline | sweep =>
    simp only [Orchestrator.step, next] at h
    split at h <;> cases h
    exact ⟨.inl rfl, fun _ h => h⟩
  | run k input =>
    obtain ⟨d, hk, h⟩ := Option.bind_eq_some_iff.mp h
    by_cases hne : input = .rollback
    · subst hne
      rw [(rollback_does h).2]
      exact ⟨.inl rfl, fun _ h => h⟩
    cases run_does rfl h hne with
    | goes _ hstays _ _ _ _ =>
      rw [hstays.1]
      exact ⟨.inl rfl, fun _ h => h⟩
    | moves _ hedge _ hstate _ =>
      subst hstate
      exact ⟨.inr hedge, fun t ht => moved_startedAt hs.queued ht⟩
    | cancels _ _ hlive => exact ⟨.inr (canTransition_cancelled hlive), fun _ h => h⟩
    | commits _ hheld =>
      obtain ⟨hedge, t, rfl⟩ := hs.held k _ hheld
      exact ⟨.inr hedge, fun t ht => moved_startedAt hs.queued ht⟩
    | expires _ _ _ | refunds _ | tearsDown _ _ | clears _ _ | enqueuesTeardown _ | shares _ => exact ⟨.inl rfl, fun _ h => h⟩

theorem Run.Fits.triggered {d : Run} (h : d.Fits) : d.triggered.Nodup ∧ (d.triggered ≠ [] → d.ended = true) := by
  have hnone (h : d.triggered = []) : d.triggered.Nodup ∧ (d.triggered ≠ [] → d.ended = true) :=
    ⟨h ▸ List.nodup_nil, fun hne => absurd h hne⟩
  have hsome {actions : List TerminalAction} (hended : d.ended = true) (h : d.triggered = actions) (hnodup : actions.Nodup) :
      d.triggered.Nodup ∧ (d.triggered ≠ [] → d.ended = true) := ⟨h ▸ hnodup, fun _ => hended⟩
  unfold Run.Fits at h
  split at h
  case h_9 =>
    rcases h with ⟨-, h⟩ | ⟨hended, h | h⟩
    · exact hnone h
    · exact hsome hended h (by decide)
    · exact hsome hended h (by decide)
  all_goals first | exact hnone h.2 | exact hsome h.1 h.2 (by decide)

/-- A row that an open transaction has updated is not yet terminal. -/
theorem Ordered.latest_of_terminal (hs : Ordered s) (hterm : s.scan.state.isTerminal = true) : s.latest = s.scan := by
  cases hpending : s.pending with
  | none => exact latest_free hpending
  | some held =>
    obtain ⟨holder, row⟩ := held
    have hedge := (hs.held holder row hpending).1
    rw [canTransition_terminal hterm] at hedge
    cases hedge

/-- **One winner for an edge**, in every run in which no transaction of the sweep is rolled back after its update. Every change of
the row is an edge of the table, a terminal state never changes, and the start is written once. An edge is won by one run, once.
What a terminal state triggers is triggered once, by one run, which has won the edge into it; a run that has won such an edge and
is over has triggered both; and if the scan is over, there is one that has. -/
theorem one_winner (h : Reaches (Guarded step fun _ a _ => smooth a = true) (.init requestedModules plan) s) :
    (∀ a s', step s a s' → (s'.scan.state = s.scan.state ∨ canTransition s.scan.state s'.scan.state = true) ∧
      (s.scan.state.isTerminal = true → s'.scan.state = s.scan.state) ∧
      ∀ t, s.scan.startedAt = some t → s'.scan.startedAt = some t) ∧
    (∀ (j k : ℕ) (d d' : Run), s.runs[j]? = some d → s.runs[k]? = some d' → ∀ e ∈ d.won, e ∈ d'.won → j = k) ∧
    (∀ (k : ℕ) (d : Run), s.runs[k]? = some d → d.won.Nodup ∧ d.triggered.Nodup ∧
      (d.triggered ≠ [] → ∃ e ∈ d.won, e.2.isTerminal = true)) ∧
    (∀ (j k : ℕ) (d d' : Run), s.runs[j]? = some d → s.runs[k]? = some d' → (∃ e ∈ d.won, e.2.isTerminal = true) →
      (∃ e ∈ d'.won, e.2.isTerminal = true) → j = k) ∧
    (∀ (k : ℕ) (d : Run) (e : Ending), s.runs[k]? = some d → d.pc = .finished e → (∃ e ∈ d.won, e.2.isTerminal = true) →
      .refund ∈ d.triggered ∧ .teardown ∈ d.triggered) ∧
    (s.scan.state.isTerminal = true → ∃ (k : ℕ) (d : Run), s.runs[k]? = some d ∧ ∃ e ∈ d.won, e.2 = s.scan.state) := by
  have hs := ordered_reachable h
  refine ⟨fun a s' hstep => ?_, hs.one, fun k d hk => ?_, fun j k d d' hj hk hd hd' => ?_, fun k d e hk hover hd => ?_,
    fun hterm => ?_⟩
  · obtain ⟨hedge, hstart⟩ := hs.change hstep
    refine ⟨hedge, fun hterm => hedge.resolve_right fun hcan => ?_, hstart⟩
    rw [canTransition_terminal hterm] at hcan
    cases hcan
  · obtain ⟨hnodup, hended⟩ := (hs.fits k d hk).triggered
    exact ⟨hs.nodup k d hk, hnodup, fun hne => ended_mem (hended hne)⟩
  · exact hs.last j k d d' hj hk (List.any_eq_true.mpr hd) (List.any_eq_true.mpr hd')
  · have hfits := hs.fits k d hk
    rw [Run.Fits, hover] at hfits
    rcases hfits with ⟨hnot, -⟩ | ⟨-, htrig | htrig⟩
    · rw [show d.ended = true from List.any_eq_true.mpr hd] at hnot
      cases hnot
    · simp [htrig]
    · simp [htrig]
  · have hlatest := hs.latest_of_terminal hterm
    rw [← hlatest] at hterm ⊢
    exact hs.winner hterm

/-- A scan in its first phase that the sweep has taken for timed out. -/
def expiring : List Action :=
  [.deliver 0, .run 0 .go, .run 0 .go, .tick 900001, .sweep, .run 1 .go, .run 1 .go, .run 1 .go]

theorem one_winner_expired : ∃ s, Reaches (Guarded step fun _ a _ => smooth a = true) (.init [.SEO] none) s ∧
    s.scan.state = .TIMED_OUT ∧ ∃ (k : ℕ) (d : Run), s.runs[k]? = some d ∧ ∃ e ∈ d.won, e.2 = s.scan.state := by
  obtain ⟨s, hs, hp⟩ := Reaches.exists_of_play next (fun _ a => smooth a) (.init [.SEO] none)
    (expiring ++ ([.run 1 (.teardown false), .run 1 .go, .run 1 .go] : List Action)) (fun s => s.scan.state = .TIMED_OUT) (by decide)
  exact ⟨s, hs, hp, (one_winner hs).2.2.2.2.2 (by rw [hp]; rfl)⟩

/-- The workspace is destroyed, and the scan goes on. -/
theorem torn_down_alive : ¬ ∀ s, Reaches step (.init [.SEO] none) s → ∀ (k : ℕ) (d : Run) (e : Ending), s.runs[k]? = some d →
    d.pc = .finished e → d.triggered ≠ [] → s.scan.state.isTerminal = true := by
  intro hall
  obtain ⟨s, hs, hstate, hp⟩ := Reaches.exists_of_play next (fun _ _ => true) (.init [.SEO] none)
    (expiring ++ ([.run 1 (.teardown true), .run 1 .rollback] : List Action))
    (fun s => s.scan.state = .RUNNING_PHASE_1 ∧ (s.runs[1]?).any (fun d : Run => decide (d.pc = .finished .thrown) &&
      decide (d.triggered = [.teardown])) = true) (by decide)
  obtain ⟨d, hd, hp⟩ := (Option.any_eq_true _ _).mp hp
  obtain ⟨hpc, htrig⟩ := Bool.and_eq_true_iff.mp hp
  have hterm := hall s hs.of_guarded 1 d .thrown hd (of_decide_eq_true hpc) (by rw [of_decide_eq_true htrig]; nofun)
  rw [hstate] at hterm
  cases hterm

end Runs

end WebAudit.Orchestrator
