import WebAudit.Scans.Order

/-!
# Results that come late

A module is run and its result stored while someone ends the scan and computes what is to be
refunded. Nothing that stores a result looks at the state of the scan: a run stops only if it has
been told of the cancellation at one of its two checkpoints (`runAndPersistModule`), and the telling
(`cancellation.ts`) may get lost.

## The model

* One scan. Deliveries of its phase jobs, the module runs of each, and those who end the scan (the
  cancel route, the sweep, the worker with its terminal observer) go on in any order; one that goes
  no further has crashed.
* A phase job is here from its entry on. What a module run comes to is up to the run.
* The sweep reads and updates in one transaction, whose statements see what is committed; a
  transaction that is rolled back has not updated.
* That the refund is paid, and to whom, is in `WebAudit.Scans.Refunds`.
-/

namespace WebAudit.Scans.Late

open WebAudit.Lib

/-! ### The refund -/

/-- What a refund is computed from, and its size. -/
structure Refund where
  undelivered : List ModuleType
  credits : ℤ
  deriving DecidableEq

/-- The refund of the scan as it is. -/
def refundOf (r : ScanRow) : Refund where
  undelivered := r.requestedModules.filter fun m => !r.moduleResults.delivered.contains m
  credits := r.creditsRefunded

/-! ### The machine -/

/-- A delivery of a phase job. -/
structure PhaseJob where
  phase : ScanState
  /-- `isCancelled`. -/
  cancelled : Bool
  deriving DecidableEq

inductive RunPc where
  /-- In `runModule`. -/
  | running
  /-- At the second checkpoint, with what the module has come to. -/
  | checkpoint (state : ModuleState)
  | persist (state : ModuleState)
  | persisted (state : ModuleState)
  | stopped
  deriving DecidableEq

structure ModuleRun where
  job : ℕ
  module : ModuleType
  pc : RunPc
  /-- What `isCancelled` has said at its last checkpoint. -/
  discovered : Bool
  deriving DecidableEq

inductive EndPc where
  /-- The sweep reads before it writes. -/
  | read
  | update
  | publish
  /-- The others read after. -/
  | assess
  | finished
  deriving DecidableEq

/-- Someone about to end the scan. -/
structure Ending where
  before : ScanState
  after : ScanState
  pc : EndPc
  /-- The refund it has computed. -/
  refund : Option Refund
  won : Bool
  deriving DecidableEq

structure State where
  row : ScanRow
  /-- A cancellation has been published. -/
  published : Bool
  jobs : List PhaseJob
  runs : List ModuleRun
  endings : List Ending
  deriving DecidableEq

inductive Action where
  /-- A transition that does not end the scan. -/
  | move (before after : ScanState) (now : ℤ)
  /-- A phase job has entered its phase. -/
  | deliver (phase : ScanState)
  /-- It is told of the cancellation. -/
  | signal (j : ℕ)
  /-- The first checkpoint. -/
  | start (j : ℕ) (module : ModuleType)
  | ran (k : ℕ) (state : ModuleState)
  /-- The second. -/
  | check (k : ℕ)
  | persist (k : ℕ)
  | begin (before after : ScanState)
  | advance (i : ℕ) (now : ℤ)
  | fail (i : ℕ)
  deriving DecidableEq

/-- `isCancelled`. -/
def State.isCancelled (s : State) (j : ℕ) : Bool := (s.jobs[j]?).any (·.cancelled)

section Step

variable (s : State)

def State.setRun (k : ℕ) (r : ModuleRun) : State := { s with runs := s.runs.set k r }

def State.setEnding (i : ℕ) (e : Ending) : State := { s with endings := s.endings.set i e }

/-- What the winner of the update does next. -/
def afterUpdate : ScanState → EndPc
  | .TIMED_OUT => .finished
  | .CANCELLED => .publish
  | _ => .assess

/-- The next statement of who ends the scan. -/
def State.advance (i : ℕ) (now : ℤ) (e : Ending) : Option State :=
  match e.pc with
  | .read => some (s.setEnding i { e with pc := .update, refund := some (refundOf s.row) })
  | .update =>
    match if e.after = .CANCELLED then s.row.cancel else s.row.transition e.before e.after now with
    | none => some (s.setEnding i { e with pc := .finished, refund := none })
    | some row => some { s.setEnding i { e with pc := afterUpdate e.after, won := true } with row }
  | .publish => some { s.setEnding i { e with pc := .assess } with published := true }
  | .assess => some (s.setEnding i { e with pc := .finished, refund := some (refundOf s.row) })
  | .finished => none

/-- It fails: nothing has been published, or updated. -/
def State.fail (i : ℕ) (e : Ending) : State :=
  s.setEnding i { e with
    pc := if e.pc = .publish then .assess else .finished
    refund := if e.won then e.refund else none }

/-- Where who ends the scan begins. -/
def State.begin (before : ScanState) : ScanState → Option Ending
  | .TIMED_OUT => if s.row.startedAt.isSome then some ⟨before, .TIMED_OUT, .read, none, false⟩ else none
  | .CANCELLED => some ⟨before, .CANCELLED, .update, none, false⟩
  | .COMPLETED => some ⟨before, .COMPLETED, .update, none, false⟩
  | .FAILED => some ⟨before, .FAILED, .update, none, false⟩
  | _ => none

end Step

def next (s : State) : Action → Option State
  | .move before after now =>
    if after.isTerminal then none else (s.row.transition before after now).map fun row => { s with row }
  | .deliver phase => if s.row.state = phase then some { s with jobs := s.jobs ++ [⟨phase, false⟩] } else none
  | .signal j =>
    if s.published then (s.jobs[j]?).map fun job => { s with jobs := s.jobs.set j { job with cancelled := true } } else none
  | .start j module =>
    (s.jobs[j]?).bind fun job =>
      if (modulesForPhase job.phase s.row.requestedModules).contains module then
        some { s with runs := s.runs ++ [⟨j, module, if job.cancelled then .stopped else .running, job.cancelled⟩] }
      else none
  | .ran k state =>
    (s.runs[k]?).bind fun r =>
      match r.pc with
      | .running => some (s.setRun k { r with pc := .checkpoint state })
      | _ => none
  | .check k =>
    (s.runs[k]?).bind fun r =>
      match r.pc with
      | .checkpoint state =>
        some (s.setRun k { r with
          pc := if s.isCancelled r.job then .stopped else .persist state
          discovered := s.isCancelled r.job })
      | _ => none
  | .persist k =>
    (s.runs[k]?).bind fun r =>
      match r.pc with
      | .persist state =>
        some { s.setRun k { r with pc := .persisted state } with
          row := { s.row with moduleResults := s.row.moduleResults.upsert r.module state } }
      | _ => none
  | .begin before after => (s.begin before after).map fun e => { s with endings := s.endings ++ [e] }
  | .advance i now => (s.endings[i]?).bind fun e => s.advance i now e
  | .fail i => (s.endings[i]?).bind fun e => if e.pc = .finished then none else some (s.fail i e)

def step (s : State) (a : Action) (s' : State) : Prop := next s a = some s'

/-- The scan has been created. -/
def State.init (requestedModules : List ModuleType) (quotedCredits chargedCredits : ℤ) : State where
  row := ⟨.QUEUED, none, requestedModules, quotedCredits, chargedCredits, .empty⟩
  published := false
  jobs := []
  runs := []
  endings := []

/-! ### In time -/

/-- What it has come to is about to be stored, and is a delivery. -/
def ModuleRun.delivers (r : ModuleRun) : Bool :=
  match r.pc with
  | .persist state => state.isDelivered
  | _ => false

/-- A refund is computed while no run is between its last checkpoint and its write, and no run passes that checkpoint
with a delivery once a refund has been computed. -/
def State.timely (s : State) : Action → Bool
  | .advance i _ =>
    (s.endings[i]?).all fun e => !(decide (e.pc = .read) || decide (e.pc = .assess)) || s.runs.all fun r => !r.delivers
  | .check k =>
    (s.runs[k]?).all fun r =>
      match r.pc with
      | .checkpoint state => !state.isDelivered || s.isCancelled r.job || s.endings.all (·.refund.isNone)
      | _ => true
  | _ => true

/-! ### Results -/

theorem mem_delivered {r : ModuleResults} {m : ModuleType} :
    m ∈ r.delivered ↔ ∃ st : ModuleState, (m, st) ∈ r.rows ∧ st.isDelivered = true := by
  simp only [ModuleResults.delivered, List.mem_map, List.mem_filter, Prod.exists, exists_and_right, exists_eq_right]

/-- What is delivered once a result has been stored. -/
theorem mem_delivered_upsert {r : ModuleResults} {m m' : ModuleType} {st : ModuleState} (h : m' ∈ (r.upsert m st).delivered) :
    m' ∈ r.delivered ∨ m' = m ∧ st.isDelivered = true := by
  obtain ⟨st', hrow, hst⟩ := mem_delivered.mp h
  rcases List.mem_append.mp hrow with hold | hnew
  · exact .inl (mem_delivered.mpr ⟨st', (List.mem_filter.mp hold).1, hst⟩)
  · obtain ⟨rfl, rfl⟩ := Prod.mk.inj (List.mem_singleton.mp hnew)
    exact .inr ⟨rfl, hst⟩

theorem mem_undelivered {r : ScanRow} {m : ModuleType} :
    m ∈ (refundOf r).undelivered ↔ m ∈ r.requestedModules ∧ m ∉ r.moduleResults.delivered := by
  simp [refundOf]

theorem transition_results {r r' : ScanRow} {before after : ScanState} {now : ℤ} (h : r.transition before after now = some r') :
    r'.moduleResults = r.moduleResults := by
  unfold ScanRow.transition at h
  split at h <;> cases h
  rfl

theorem cancel_results {r r' : ScanRow} (h : r.cancel = some r') : r'.moduleResults = r.moduleResults := by
  unfold ScanRow.cancel at h
  split at h <;> cases h
  rfl

/-! ### What an action can do -/

inductive Moves (s : State) : Action → State → Prop where
  | quiet {a : Action} {s' : State} (hruns : s'.runs = s.runs) (hresults : s'.row.moduleResults = s.row.moduleResults)
      (hendings : s'.endings = s.endings) : Moves s a s'
  | started {j : ℕ} {module : ModuleType} {r : ModuleRun}
      (hr : r.discovered = true ∧ r.pc = .stopped ∨ r.discovered = false ∧ r.pc = .running) :
      Moves s (.start j module) { s with runs := s.runs ++ [r] }
  | ran {k : ℕ} {r : ModuleRun} {state : ModuleState} (hk : s.runs[k]? = some r) (hpc : r.pc = .running) :
      Moves s (.ran k state) (s.setRun k { r with pc := .checkpoint state })
  | checked {k : ℕ} {r : ModuleRun} {state : ModuleState} (hk : s.runs[k]? = some r) (hpc : r.pc = .checkpoint state) :
      Moves s (.check k) (s.setRun k { r with
        pc := if s.isCancelled r.job then .stopped else .persist state
        discovered := s.isCancelled r.job })
  | persisted {k : ℕ} {r : ModuleRun} {state : ModuleState} (hk : s.runs[k]? = some r) (hpc : r.pc = .persist state) :
      Moves s (.persist k) { s.setRun k { r with pc := .persisted state } with
        row := { s.row with moduleResults := s.row.moduleResults.upsert r.module state } }
  | begun {before after : ScanState} {e : Ending} (hrefund : e.refund = none) :
      Moves s (.begin before after) { s with endings := s.endings ++ [e] }
  | ends {a : Action} {s' : State} {i : ℕ} {e e' : Ending} (hi : s.endings[i]? = some e) (hruns : s'.runs = s.runs)
      (hresults : s'.row.moduleResults = s.row.moduleResults) (hendings : s'.endings = s.endings.set i e')
      (hrefund : e'.refund = e.refund ∨ e'.refund = none ∨
        (∃ now, a = .advance i now) ∧ (e.pc = .read ∨ e.pc = .assess) ∧ e'.refund = some (refundOf s.row)) : Moves s a s'

theorem begin_refund {s : State} {before after : ScanState} {e : Ending} (h : s.begin before after = some e) : e.refund = none := by
  unfold State.begin at h
  split at h <;> try split at h
  all_goals cases h <;> rfl

/-- Who ends the scan stores no result, and touches no run. -/
theorem advance_moves {s s' : State} {i : ℕ} {now : ℤ} {e : Ending} (hi : s.endings[i]? = some e) (h : s.advance i now e = some s') :
    Moves s (.advance i now) s' := by
  unfold State.advance at h
  split at h
  · rename_i hpc
    cases h
    exact .ends hi rfl rfl rfl (.inr (.inr ⟨⟨now, rfl⟩, .inl hpc, rfl⟩))
  · split at h
    · cases h
      exact .ends hi rfl rfl rfl (.inr (.inl rfl))
    · rename_i row hrow
      cases h
      refine .ends hi rfl ?_ rfl (.inl rfl)
      split at hrow
      · exact cancel_results hrow
      · exact transition_results hrow
  · cases h
    exact .ends hi rfl rfl rfl (.inl rfl)
  · rename_i hpc
    cases h
    exact .ends hi rfl rfl rfl (.inr (.inr ⟨⟨now, rfl⟩, .inr hpc, rfl⟩))
  · cases h

/-- **What an action can do.** -/
theorem step_moves {s s' : State} {a : Action} (h : step s a s') : Moves s a s' := by
  cases a with
  | move before after now =>
    simp only [step, next] at h
    split at h
    · cases h
    obtain ⟨row, hrow, rfl⟩ := Option.map_eq_some_iff.mp h
    exact .quiet rfl (transition_results hrow) rfl
  | deliver phase =>
    simp only [step, next] at h
    split at h <;> cases h
    exact .quiet rfl rfl rfl
  | signal j =>
    simp only [step, next] at h
    split at h
    · obtain ⟨job, -, rfl⟩ := Option.map_eq_some_iff.mp h
      exact .quiet rfl rfl rfl
    · cases h
  | start j module =>
    obtain ⟨job, -, h⟩ := Option.bind_eq_some_iff.mp h
    split at h <;> cases h
    refine .started ?_
    cases job.cancelled
    · exact .inr ⟨rfl, rfl⟩
    · exact .inl ⟨rfl, rfl⟩
  | ran k state =>
    obtain ⟨r, hk, h⟩ := Option.bind_eq_some_iff.mp h
    split at h <;> cases h
    rename_i hpc
    exact .ran hk hpc
  | check k =>
    obtain ⟨r, hk, h⟩ := Option.bind_eq_some_iff.mp h
    split at h <;> cases h
    rename_i hpc
    exact .checked hk hpc
  | persist k =>
    obtain ⟨r, hk, h⟩ := Option.bind_eq_some_iff.mp h
    split at h <;> cases h
    rename_i hpc
    exact .persisted hk hpc
  | begin before after =>
    obtain ⟨e, hbegin, rfl⟩ := Option.map_eq_some_iff.mp h
    exact .begun (begin_refund hbegin)
  | advance i now =>
    obtain ⟨e, hi, h⟩ := Option.bind_eq_some_iff.mp h
    exact advance_moves hi h
  | fail i =>
    obtain ⟨e, hi, h⟩ := Option.bind_eq_some_iff.mp h
    split at h <;> cases h
    refine .ends hi rfl rfl rfl ?_
    by_cases hwon : e.won = true
    · exact .inl (if_pos hwon)
    · exact .inr (.inl (if_neg hwon))

/-! ### What is true of the runs -/

/-- What is delivered was stored by a run, and who has discovered the cancellation stores nothing. -/
structure Stored (s : State) : Prop where
  delivered : ∀ m ∈ s.row.moduleResults.delivered, ∃ (k : ℕ) (r : ModuleRun) (st : ModuleState),
    s.runs[k]? = some r ∧ r.module = m ∧ r.pc = .persisted st ∧ st.isDelivered = true
  discovered : ∀ (k : ℕ) (r : ModuleRun), s.runs[k]? = some r → (r.discovered = true ↔ r.pc = .stopped)

/-- Nothing that was refunded for has been delivered, or is about to be. -/
def Apart (s : State) : Prop :=
  ∀ e ∈ s.endings, ∀ R, e.refund = some R →
    (∀ m ∈ R.undelivered, m ∉ s.row.moduleResults.delivered) ∧ ∀ r ∈ s.runs, r.delivers = false

section Kept

variable {s s' : State} {k : ℕ} {r r' : ModuleRun} {a : Action}

theorem Stored.same (hs : Stored s) (hruns : s'.runs = s.runs) (hresults : s'.row.moduleResults = s.row.moduleResults) : Stored s' :=
  ⟨by rw [hruns, hresults]; exact hs.delivered, by rw [hruns]; exact hs.discovered⟩

/-- A run goes on. -/
theorem Stored.set (hs : Stored s) (hk : s.runs[k]? = some r) (hruns : s'.runs = s.runs.set k r')
    (hbefore : ∀ st, r.pc ≠ .persisted st) (hdiscovered : r'.discovered = true ↔ r'.pc = .stopped)
    (hresults : ∀ m ∈ s'.row.moduleResults.delivered, m ∈ s.row.moduleResults.delivered ∨
      ∃ st : ModuleState, r'.module = m ∧ r'.pc = .persisted st ∧ st.isDelivered = true) : Stored s' := by
  refine ⟨fun m hm => ?_, fun j c hj => ?_⟩
  · rw [hruns]
    obtain hm | ⟨st, hmodule, hpc, hst⟩ := hresults m hm
    · obtain ⟨j, c, st, hj, hmodule, hpc, hst⟩ := hs.delivered m hm
      have hne : k ≠ j := fun he => by
        subst he
        obtain rfl := Option.some.inj (hk.symm.trans hj)
        exact hbefore st hpc
      exact ⟨j, c, st, by rw [List.getElem?_set_ne hne, hj], hmodule, hpc, hst⟩
    · exact ⟨k, r', st, List.getElem?_set_self (List.getElem?_eq_some_iff.mp hk).1, hmodule, hpc, hst⟩
  · rw [hruns] at hj
    rcases getElem?_set_cases hk hj with ⟨-, rfl⟩ | ⟨-, hj⟩
    · exact hdiscovered
    · exact hs.discovered j c hj

/-- A run that is not stopped has not discovered the cancellation. -/
theorem Stored.undiscovered (hs : Stored s) (hk : s.runs[k]? = some r) (hpc : r.pc ≠ .stopped) : r.discovered = false := by
  by_contra hr
  exact hpc ((hs.discovered k r hk).mp (by simpa using hr))

theorem Stored.step (hs : Stored s) (h : Moves s a s') : Stored s' := by
  cases h with
  | quiet hruns hresults | ends _ hruns hresults => exact hs.same hruns hresults
  | begun => exact hs.same rfl rfl
  | started hr =>
    refine ⟨fun m hm => ?_, fun k c hk => ?_⟩
    · obtain ⟨k, c, st, hk, hrest⟩ := hs.delivered m hm
      exact ⟨k, c, st, List.getElem?_append_left (List.getElem?_eq_some_iff.mp hk).1 ▸ hk, hrest⟩
    · rcases getElem?_concat_cases hk with rfl | hk
      · obtain ⟨hr, hpc⟩ | ⟨hr, hpc⟩ := hr <;> simp [hr, hpc]
      · exact hs.discovered k c hk
  | ran hk hpc =>
    have hr := hs.undiscovered hk (by rw [hpc]; nofun)
    exact hs.set hk rfl (by rw [hpc]; nofun) (by simp [hr]) fun m hm => .inl hm
  | @checked _ r _ hk hpc =>
    refine hs.set hk rfl (by rw [hpc]; nofun) ?_ fun m hm => .inl hm
    cases s.isCancelled r.job <;> simp
  | persisted hk hpc =>
    have hr := hs.undiscovered hk (by rw [hpc]; nofun)
    exact hs.set hk rfl (by rw [hpc]; nofun) (by simp [hr]) fun m hm =>
      (mem_delivered_upsert hm).imp_right fun ⟨hm, hst⟩ => ⟨_, hm.symm, rfl, hst⟩

/-- A run that has discovered the cancellation does nothing more. -/
theorem Stored.stopped (hs : Stored s) (h : Moves s a s') (hk : s.runs[k]? = some r) (hr : r.discovered = true) :
    s'.runs[k]? = some r := by
  have hpc := (hs.discovered k r hk).mp hr
  have hset {j : ℕ} {c c' : ModuleRun} (hj : s.runs[j]? = some c) (hc : c.pc ≠ .stopped) : (s.runs.set j c')[k]? = some r := by
    have hne : j ≠ k := fun he => by
      subst he
      obtain rfl := Option.some.inj (hk.symm.trans hj)
      exact hc hpc
    rw [List.getElem?_set_ne hne, hk]
  cases h with
  | quiet hruns | ends _ hruns => rw [hruns, hk]
  | begun => exact hk
  | started => exact List.getElem?_append_left (List.getElem?_eq_some_iff.mp hk).1 ▸ hk
  | ran hj hc | checked hj hc | persisted hj hc => exact hset hj (by rw [hc]; nofun)

/-- A refund is computed from what has been stored by then. -/
theorem Moves.refund (h : Moves s a s') {i : ℕ} {e e' : Ending} {R : Refund} (he : s.endings[i]? = some e)
    (he' : s'.endings[i]? = some e') (hR : e'.refund = some R) : e.refund = some R ∨ R = refundOf s.row := by
  have hsame (hi : s.endings[i]? = some e') : e.refund = some R := by
    obtain rfl := Option.some.inj (he.symm.trans hi)
    exact hR
  cases h with
  | quiet _ _ hendings => exact .inl (hsame (hendings ▸ he'))
  | started | ran | checked | persisted => exact .inl (hsame he')
  | begun => exact .inl (hsame (by rwa [List.getElem?_append_left (List.getElem?_eq_some_iff.mp he).1] at he'))
  | ends hj _ _ hendings hrefund =>
    rw [hendings] at he'
    rcases getElem?_set_cases hj he' with ⟨rfl, rfl⟩ | ⟨-, he'⟩
    · obtain rfl := Option.some.inj (hj.symm.trans he)
      obtain hkept | hnone | ⟨-, -, hnew⟩ := hrefund
      · exact .inl (hkept ▸ hR)
      · rw [hnone] at hR
        cases hR
      · exact .inr (Option.some.inj (hR.symm.trans hnew))
    · exact .inl (hsame he')

/-- A run that goes on, if it is not about to store a delivery. -/
theorem forall_mem_setRun {k : ℕ} (hr' : r'.delivers = false) : ∀ r ∈ (s.setRun k r').runs, r ∈ s.runs ∨ r.delivers = false :=
  forall_mem_set (fun _ hr => .inl hr) (.inr hr')

theorem Apart.same (hs : Apart s) (hendings : s'.endings = s.endings) (hresults : s'.row.moduleResults = s.row.moduleResults)
    (hruns : ∀ r ∈ s'.runs, r ∈ s.runs ∨ r.delivers = false) : Apart s' := by
  intro e he R hR
  obtain ⟨hmodules, hrest⟩ := hs e (hendings ▸ he) R hR
  exact ⟨by rw [hresults]; exact hmodules, fun r hr => (hruns r hr).elim (hrest r) id⟩

theorem Apart.step (hs : Apart s) (h : Moves s a s') (ht : s.timely a = true) : Apart s' := by
  cases h with
  | quiet hruns hresults hendings => exact hs.same hendings hresults (hruns ▸ fun _ hr => .inl hr)
  | started hr =>
    refine hs.same rfl rfl (forall_mem_concat (fun _ hr => .inl hr) (.inr ?_))
    obtain ⟨-, hpc⟩ | ⟨-, hpc⟩ := hr <;> rw [ModuleRun.delivers, hpc]
  | ran hk => exact hs.same rfl rfl (forall_mem_setRun rfl)
  | @checked k r state hk hpc =>
    rw [State.timely, hk, Option.all_some, hpc] at ht
    simp only [Bool.or_eq_true, Bool.not_eq_true'] at ht
    obtain (hst | hcancelled) | hnone := ht
    · refine hs.same rfl rfl (forall_mem_setRun ?_)
      cases s.isCancelled r.job
      · exact hst
      · rfl
    · rw [hcancelled]
      exact hs.same rfl rfl (forall_mem_setRun rfl)
    · intro e he R hR
      have hempty := List.all_eq_true.mp hnone e he
      rw [hR] at hempty
      cases hempty
  | @persisted k r state hk hpc =>
    intro e he R hR
    obtain ⟨hmodules, hruns⟩ := hs e he R hR
    refine ⟨fun m hm hdelivered => ?_, fun c hc => (forall_mem_setRun rfl c hc).elim (hruns c) id⟩
    rcases mem_delivered_upsert hdelivered with hold | ⟨-, hst⟩
    · exact hmodules m hm hold
    · have hlate := hruns r (List.mem_of_getElem? hk)
      simp [ModuleRun.delivers, hpc, hst] at hlate
  | begun hrefund =>
    refine forall_mem_concat hs fun R hR => ?_
    rw [hrefund] at hR
    cases hR
  | @ends _ _ i e e' hi hruns hresults hendings hrefund =>
    intro c hc
    rw [hendings] at hc
    rw [hruns, hresults]
    revert c
    refine forall_mem_set hs fun R hR => ?_
    obtain hsame | hnone | ⟨⟨now, rfl⟩, hpc, hnew⟩ := hrefund
    · exact hs e (List.mem_of_getElem? hi) R (hsame ▸ hR)
    · rw [hnone] at hR
      cases hR
    · obtain rfl := Option.some.inj (hR.symm.trans hnew)
      rw [State.timely, hi, Option.all_some] at ht
      have hall : s.runs.all (fun r => !r.delivers) = true := by
        obtain hpc | hpc := hpc <;> simpa [hpc] using ht
      exact ⟨fun m hm => (mem_undelivered.mp hm).2, fun r hr => by simpa using List.all_eq_true.mp hall r hr⟩

end Kept

/-! ### Late results -/

section Runs

variable {requestedModules : List ModuleType} {quotedCredits chargedCredits : ℤ}

theorem stored_reachable {s : State} (h : Reaches step (.init requestedModules quotedCredits chargedCredits) s) : Stored s :=
  h.inv ⟨fun _ hm => (List.not_mem_nil hm).elim, nofun⟩ fun _ _ _ hs hstep => hs.step (step_moves hstep)

theorem apart_reachable {s : State}
    (h : Reaches (Guarded step fun s a _ => s.timely a = true) (.init requestedModules quotedCredits chargedCredits) s) : Apart s :=
  h.inv (fun _ he => (List.not_mem_nil he).elim) fun _ _ _ hs hstep => hs.step (step_moves hstep.1) hstep.2

/-- **Late results.** A refund is computed from what has been stored by then. A run that has discovered the cancellation at a
checkpoint does nothing more: an area that has been refunded for and is delivered was stored by a run that had not. And in every run
in which refunds are computed while no area is on its way past its last checkpoint, and none passes it later, no area is both. -/
theorem late_results (requestedModules : List ModuleType) (quotedCredits chargedCredits : ℤ) :
    (∀ s, Reaches step (.init requestedModules quotedCredits chargedCredits) s → ∀ a s', step s a s' →
      (∀ (i : ℕ) (e e' : Ending) R, s.endings[i]? = some e → s'.endings[i]? = some e' → e'.refund = some R →
        e.refund = some R ∨ R.credits = s.row.creditsRefunded ∧
          ∀ m, m ∈ R.undelivered ↔ m ∈ s.row.requestedModules ∧ m ∉ s.row.moduleResults.delivered) ∧
      ∀ (k : ℕ) (r : ModuleRun), s.runs[k]? = some r → r.discovered = true → s'.runs[k]? = some r) ∧
    (∀ s, Reaches step (.init requestedModules quotedCredits chargedCredits) s → ∀ e ∈ s.endings, ∀ R, e.refund = some R →
      ∀ m ∈ R.undelivered, m ∈ s.row.moduleResults.delivered → ∃ (k : ℕ) (r : ModuleRun) (st : ModuleState),
        s.runs[k]? = some r ∧ r.module = m ∧ r.pc = .persisted st ∧ st.isDelivered = true ∧ r.discovered = false) ∧
    (∀ s, Reaches (Guarded step fun s a _ => s.timely a = true) (.init requestedModules quotedCredits chargedCredits) s →
      ∀ e ∈ s.endings, ∀ R, e.refund = some R → ∀ m ∈ R.undelivered, m ∉ s.row.moduleResults.delivered) := by
  refine ⟨fun s hs a s' hstep => ⟨fun i e e' R he he' hR => ?_, fun k r hk hr => ?_⟩, fun s hs e _ R _ m _ hm => ?_,
    fun s hs e he R hR => (apart_reachable hs e he R hR).1⟩
  · refine ((step_moves hstep).refund he he' hR).imp_right fun hnew => ?_
    subst hnew
    exact ⟨rfl, fun m => mem_undelivered⟩
  · exact (stored_reachable hs).stopped (step_moves hstep) hk hr
  · obtain ⟨k, r, st, hk, hmodule, hpc, hst⟩ := (stored_reachable hs).delivered m hm
    exact ⟨k, r, st, hk, hmodule, hpc, hst, (stored_reachable hs).undiscovered hk (by rw [hpc]; nofun)⟩

/-- Of two areas one is delivered, the user cancels, and the other is told in time. -/
theorem late_results_told : ∃ s, Reaches (Guarded step fun s a _ => s.timely a = true) (.init [.SEO, .TESTING] 20 20) s ∧
    s.row.moduleResults.delivered = [.SEO] ∧ ∃ e ∈ s.endings, e.refund = some ⟨[.TESTING], 10⟩ ∧
      ∀ m ∈ [ModuleType.TESTING], m ∉ s.row.moduleResults.delivered := by
  obtain ⟨s, hs, hdelivered, he⟩ := Reaches.exists_of_play next State.timely (.init [.SEO, .TESTING] 20 20)
    [.move .QUEUED .RUNNING_PHASE_1 0, .deliver .RUNNING_PHASE_1, .start 0 .SEO, .start 0 .TESTING, .ran 0 .COMPLETE, .check 0,
      .persist 0, .begin .RUNNING_PHASE_1 .CANCELLED, .advance 0 0, .advance 0 0, .signal 0, .ran 1 .COMPLETE, .advance 0 0, .check 1]
    (fun s => s.row.moduleResults.delivered = [.SEO] ∧ (s.endings.any fun e => decide (e.refund = some ⟨[.TESTING], 10⟩)) = true)
    (by decide)
  obtain ⟨e, hmem, hrefund⟩ := List.any_eq_true.mp he
  have hrefund := of_decide_eq_true hrefund
  exact ⟨s, hs, hdelivered, e, hmem, hrefund, (late_results _ _ _).2.2 s hs e hmem _ hrefund⟩

/-- The signal is lost, and what is refunded for is delivered. -/
theorem refunded_and_delivered : ¬ ∀ s, Reaches step (.init [.SEO] 10 10) s → ∀ e ∈ s.endings, e.won = true → ∀ R,
    e.refund = some R → ∀ m ∈ R.undelivered, m ∉ s.row.moduleResults.delivered := by
  intro hall
  obtain ⟨s, hs, he, hm⟩ := Reaches.exists_of_play next (fun _ _ => true) (.init [.SEO] 10 10)
    [.move .QUEUED .RUNNING_PHASE_1 0, .deliver .RUNNING_PHASE_1, .start 0 .SEO, .begin .RUNNING_PHASE_1 .CANCELLED, .advance 0 0,
      .fail 0, .advance 0 0, .ran 0 .COMPLETE, .check 0, .persist 0]
    (fun s => (s.endings.any fun e => e.won && decide (e.refund = some ⟨[.SEO], 10⟩)) = true ∧
      .SEO ∈ s.row.moduleResults.delivered) (by decide)
  obtain ⟨e, hmem, he⟩ := List.any_eq_true.mp he
  obtain ⟨hwon, hrefund⟩ := Bool.and_eq_true_iff.mp he
  exact hall s hs.of_guarded e hmem hwon _ (of_decide_eq_true hrefund) .SEO List.mem_cons_self hm

end Runs

end WebAudit.Scans.Late
