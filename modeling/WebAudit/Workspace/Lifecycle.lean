import WebAudit.Lib.Calls
import WebAudit.Lib.Rows
import WebAudit.Lib.Runs
import WebAudit.Scans.States

/-!
# The workspace of a scan, from its creation to its removal

`workspace/create.ts`, `workspace/teardown.ts` and what `intake/materialise.ts` does with them, for one scan: its row, its
directory under the one base directory, and the entry that each worker's `WorkspaceCleanupOwner` may hold for it. Phase
jobs attach the source, delivered and redelivered to any workers; terminal transitions start a teardown in the process
that made them; a cancellation is written by the API, which then enqueues a `workspace-teardown` job; sweeps run at any
time. A step is one awaited call with what follows it up to the next one. Calls fail, and processes die.

A sweep removes the directory of an ended scan only, in every run. That a directory is recorded or held, and that none is
left once the scan has ended and nothing is outstanding (`workspace_gone`), holds in the runs in which no scan ends while
a job of it attaches its source, and in which what has to be removed is removed.
-/

namespace WebAudit.Workspace.Lifecycle

open WebAudit.Lib WebAudit.Scans

/-! ### The scan and its callers -/

structure Scan where
  state : ScanState
  /-- The target is an archive or a repository. -/
  hasSource : Bool
  /-- The column is set, to the path that goes with the id. -/
  workspacePath : Bool
  deriving DecidableEq

/-- As `phaseJobSchema` lets it pass. -/
structure PhaseJobData where
  phase : ScanState
  alreadyTransitioned : Bool
  phase_mem : phase ∈ phaseOrder
  deriving DecidableEq

/-- `MODULE_RUNNING_PHASES`. -/
def moduleRunningPhases : List ScanState := [.RUNNING_PHASE_1, .RUNNING_PHASE_2, .RUNNING_PHASE_3]

/-- Where a call of `destroyScanWorkspace` is. -/
inductive TeardownPc where
  /-- `isInsideBase`. -/
  | confining
  /-- `pathExists`. -/
  | looking
  | removing
  /-- With the errors of the removal, if there were any. -/
  | inspecting (failed : Bool)
  /-- The owner has forgotten it. -/
  | clearing
  | ended
  deriving DecidableEq

/-- Where a phase job is. -/
inductive JobPc where
  | reading
  /-- With the state that it has read. -/
  | checking (seen : ScanState)
  /-- In `createScanWorkspace`. -/
  | making
  | recording (existing : Bool)
  /-- In its `catch`, with the directory that it made. -/
  | undoing
  /-- In `materialiseSource`. -/
  | filling
  | destroying (pc : TeardownPc)
  /-- The modules run. -/
  | running
  | ended
  deriving DecidableEq

/-- Past its check, and not through with `materialiseSource`. -/
def JobPc.attaching : JobPc → Bool
  | .making | .recording _ | .undoing | .filling | .destroying _ => true
  | _ => false

structure Job where
  process : ℕ
  data : PhaseJobData
  pc : JobPc
  deriving DecidableEq

/-- Of the terminal observer, or of a `workspace-teardown` job. -/
structure Teardown where
  process : ℕ
  queued : Bool
  pc : TeardownPc
  deriving DecidableEq

/-- Where a call of `sweepOrphanedWorkspaces` is. The other entries of the base directory are passed over. -/
inductive SweepPc where
  | listing
  /-- The directory is among the entries. -/
  | filtering
  | destroying (pc : TeardownPc)
  | ended
  deriving DecidableEq

structure Sweep where
  process : ℕ
  pc : SweepPc
  deriving DecidableEq

/-- What a step does to the row, the directory and the owners. -/
inductive Change where
  | none
  | enter (phase : ScanState)
  | mkdir (process : ℕ)
  | record
  | forget (process : ℕ)
  /-- The write took place, and the caller gave the entry up all the same. -/
  | recordForget (process : ℕ)
  | remove
  | clear
  deriving DecidableEq

structure State where
  scan : Scan
  dir : Bool
  /-- The processes whose owner holds it. -/
  live : ℕ → Bool
  jobs : List Job
  teardowns : List Teardown
  sweeps : List Sweep
  /-- The API has written CANCELLED and has yet to enqueue the teardown. -/
  cancelling : Bool
  /-- The `workspace-teardown` job is there. -/
  queued : Bool
  /-- The states of the scan at which a sweep has removed the directory. -/
  swept : List ScanState

inductive Action where
  | phaseJob (process : ℕ) (data : PhaseJobData)
  | job (i : ℕ) (reply : Reply)
  /-- The extraction makes a directory, and those above it. -/
  | extract (i : ℕ)
  /-- `transition`, the update of which is matched; the process may not learn of it. -/
  | transition (process : ℕ) (after : ScanState) (learns : Bool)
  | teardown (i : ℕ) (reply : Reply)
  | cancel
  | enqueueTeardown (reply : Reply)
  | deliverTeardown (process : ℕ)
  /-- The job has stalled too often. -/
  | discardTeardown
  | sweepOrphanedWorkspaces (process : ℕ)
  | sweep (i : ℕ) (reply : Reply)
  /-- A process dies, and an `mkdir` it has under way may still take place. -/
  | die (process : ℕ) (made : Bool)
  deriving DecidableEq

namespace State

variable (s : State)

def start (hasSource : Bool) : State where
  scan := ⟨.QUEUED, hasSource, false⟩
  dir := false
  live _ := false
  jobs := []
  teardowns := []
  sweeps := []
  cancelling := false
  queued := false
  swept := []

def change : Change → State
  | .none => s
  | .enter phase => { s with scan := { s.scan with state := phase } }
  | .mkdir process => { s with dir := true, live := fun p => p == process || s.live p }
  | .record => { s with scan := { s.scan with workspacePath := true } }
  | .forget process => { s with live := fun p => p != process && s.live p }
  | .recordForget process =>
    { s with scan := { s.scan with workspacePath := true }, live := fun p => p != process && s.live p }
  | .remove => { s with dir := false }
  | .clear => { s with scan := { s.scan with workspacePath := false } }

/-- A job has passed its check and is not through with the source. -/
def attaching : Bool := s.jobs.any fun j => j.pc.attaching

/-- A job or a teardown has not come to its end. -/
def outstanding : Bool :=
  s.jobs.any (fun j => j.pc ≠ .ended) || s.teardowns.any (fun t => t.pc ≠ .ended) || s.cancelling || s.queued

end State

/-! ### Their steps -/

/-- A path of which the look-up fails counts as missing, and one that is refused is left alone. -/
def teardownTurn (s : State) (process : ℕ) (pc : TeardownPc) (reply : Reply) : Option (TeardownPc × Change) :=
  match pc with
  | .confining => some (if reply = .answered then .looking else .ended, .none)
  | .looking => some (if reply = .answered ∧ s.dir = true then .removing else .inspecting false, .none)
  | .removing => some (reply.outcome (.inspecting true) (.inspecting false) .none .remove)
  | .inspecting failed =>
    if failed = true ∨ (reply = .answered ∧ s.dir = true) then some (.ended, .none) else some (.clearing, .forget process)
  | .clearing => some (reply.outcome .ended .ended .none .clear)
  | .ended => none

/-- The job goes on with a scan that it has seen in this state. -/
def passes (s : State) (data : PhaseJobData) (seen : ScanState) : Bool :=
  if data.alreadyTransitioned then seen = data.phase else canTransition seen data.phase && s.scan.state = seen

/-- It attaches the source then. -/
def attaches (s : State) (data : PhaseJobData) : Bool := s.scan.hasSource && data.phase ∈ moduleRunningPhases

def checkTurn (s : State) (data : PhaseJobData) (seen : ScanState) (reply : Reply) : JobPc × Change :=
  let passed : JobPc := if attaches s data then .making else .running
  if !passes s data seen then (.ended, .none)
  else if data.alreadyTransitioned then (passed, .none)
  else reply.outcome .ended passed .none (.enter data.phase)

def jobTurn (s : State) (j : Job) (reply : Reply) : Option (JobPc × Change) :=
  match j.pc with
  | .reading => some (if reply = .answered then .checking s.scan.state else .ended, .none)
  | .checking seen => some (checkTurn s j.data seen reply)
  | .making => if reply = .answered then some (.recording s.dir, .mkdir j.process) else some (.ended, .none)
  | .recording existing =>
    let failed : JobPc := if existing then .ended else .undoing
    match reply with
    | .answered => some (.filling, .record)
    | .lost => some (failed, .recordForget j.process)
    | .unreached => some (failed, .forget j.process)
  | .undoing => some (reply.outcome .ended .ended .none .remove)
  -- what it finds, extracts and lists is there, or it throws
  | .filling => some (if reply = .answered then .running else .destroying .confining, .none)
  | .destroying .ended => some (.ended, .none)
  | .destroying pc => (teardownTurn s j.process pc reply).map fun turn => (.destroying turn.1, turn.2)
  | .running => some (.ended, .none)
  | .ended => none

def sweepTurn (s : State) (w : Sweep) (reply : Reply) : Option (SweepPc × Change) :=
  match w.pc with
  | .listing => some (if reply = .answered ∧ s.dir = true then .filtering else .ended, .none)
  -- `liveScanIds`
  | .filtering => some (if reply = .answered ∧ s.scan.state.isTerminal = true then .destroying .confining else .ended, .none)
  | .destroying .ended => some (.ended, .none)
  | .destroying pc => (teardownTurn s w.process pc reply).map fun turn => (.destroying turn.1, turn.2)
  | .ended => none

def next (s : State) : Action → Option State
  | .phaseJob process data => some { s with jobs := s.jobs ++ [⟨process, data, .reading⟩] }
  | .job i reply => do
    let j ← s.jobs[i]?
    let (pc, change) ← jobTurn s j reply
    return { s.change change with jobs := s.jobs.set i { j with pc } }
  | .extract i => do
    let j ← s.jobs[i]?
    if j.pc = .filling then some { s with dir := true } else none
  | .transition process after learns =>
    if canTransition s.scan.state after then
      some { s with
        scan := { s.scan with state := after }
        teardowns := if after.isTerminal && learns then s.teardowns ++ [⟨process, false, .confining⟩] else s.teardowns }
    else none
  | .teardown i reply => do
    let t ← s.teardowns[i]?
    let (pc, change) ← teardownTurn s t.process t.pc reply
    return { s.change change with
      teardowns := s.teardowns.set i { t with pc }
      queued := s.queued && !(t.queued && pc == .ended) }
  | .cancel =>
    if s.scan.state.isTerminal then none
    else some { s with scan := { s.scan with state := .CANCELLED }, cancelling := true }
  | .enqueueTeardown reply =>
    if s.cancelling then some { s with cancelling := false, queued := s.queued || reply != .unreached } else none
  | .deliverTeardown process => if s.queued then some { s with teardowns := s.teardowns ++ [⟨process, true, .confining⟩] } else none
  | .discardTeardown => if s.queued then some { s with queued := false } else none
  | .sweepOrphanedWorkspaces process => some { s with sweeps := s.sweeps ++ [⟨process, .listing⟩] }
  | .sweep i reply => do
    let w ← s.sweeps[i]?
    let (pc, change) ← sweepTurn s w reply
    return { s.change change with
      sweeps := s.sweeps.set i { w with pc }
      swept := if change = .remove then s.scan.state :: s.swept else s.swept }
  | .die process made =>
    some { s with
      dir := s.dir || (made && s.jobs.any fun j => j.process = process && j.pc = .making)
      live := fun p => p != process && s.live p
      jobs := s.jobs.map fun j => if j.process = process then { j with pc := .ended } else j
      teardowns := s.teardowns.map fun t => if t.process = process then { t with pc := .ended } else t
      sweeps := s.sweeps.map fun w => if w.process = process then { w with pc := .ended } else w }

def step (s : State) (a : Action) (s' : State) : Prop := next s a = some s'

/-! ### What holds of the directory -/

/-- No sweep has removed the directory of a scan that runs; the directory is recorded or held; and there is none once
the scan has ended and nothing is outstanding. -/
structure Cleaned (s : State) : Prop where
  spared : ∀ state ∈ s.swept, state.isTerminal = true
  recorded : s.dir = true → s.scan.workspacePath = true ∨ ∃ process, s.live process = true
  gone : s.scan.state.isTerminal = true → s.outstanding = false → s.dir = false

/-- It meets the directory as it is, if there is one. -/
def sees (s : State) (reply : Reply) : Bool := reply == .answered || !s.dir

/-- A scan ends while no job attaches its source, and its teardown is started, reaches a process that lives, and does
what it has to. A job attaches the source of a scan that has not ended, alone. A directory that has been made is
recorded, by a process that lives. -/
def orderly (s : State) : Action → Bool
  | .transition _ after learns => !after.isTerminal || (!s.attaching && (learns || !s.dir))
  | .cancel => !s.attaching
  | .enqueueTeardown reply => reply != .unreached || !s.dir
  | .discardTeardown => !s.dir
  | .teardown i reply =>
    match s.teardowns[i]? with
    | some t => t.pc == .clearing || sees s reply
    | none => true
  | .sweep i reply =>
    match s.sweeps[i]? with
    | some ⟨_, .destroying (.inspecting _)⟩ => sees s reply
    | _ => true
  | .job i reply =>
    match s.jobs[i]? with
    | some ⟨_, data, .checking seen⟩ => !(passes s data seen && attaches s data) || (!s.attaching && !s.scan.state.isTerminal)
    | some ⟨_, _, .recording false⟩ => reply != .unreached
    | some ⟨_, _, .destroying (.inspecting _)⟩ => sees s reply
    | _ => true
  | .die process made =>
    s.jobs.all (fun j => j.process ≠ process || (j.pc ≠ .recording false && (j.pc ≠ .making || !made || s.dir))) &&
      s.teardowns.all fun t => t.process ≠ process || t.queued || t.pc = .ended || !s.dir
  | _ => true

/-! ### Invariants -/

section Invariants

variable {s s' : State} {a : Action} {i : ℕ} {j j' : Job} {reply : Reply} {change : Change} {process : ℕ}

/-- No job but this one is attaching. -/
def Alone (s : State) (i : ℕ) : Prop := ∀ k j, s.jobs[k]? = some j → k ≠ i → j.pc.attaching = false

/-- What the one job that may be attaching knows. -/
structure Local (s : State) (j : Job) : Prop where
  recorded : s.dir = true → s.scan.workspacePath = true ∨ j.pc = .recording false ∧ s.live j.process = true
  filled : j.pc = .filling → s.scan.workspacePath = true
  cleared : j.pc = .destroying .clearing → s.dir = false

structure Idle (s : State) : Prop where
  jobs : ∀ j ∈ s.jobs, j.pc.attaching = false
  recorded : s.dir = true → s.scan.workspacePath = true

def Work (s : State) : Prop := Idle s ∨ ∃ i j, s.jobs[i]? = some j ∧ Alone s i ∧ Local s j

/-- While the scan runs, nothing is on its way to remove the directory but a job itself. -/
structure Running (s : State) : Prop where
  state : s.scan.state.isTerminal = false
  work : Work s
  teardowns : s.teardowns = []
  sweeps : ∀ w ∈ s.sweeps, ∀ pc, w.pc ≠ .destroying pc
  cancelling : s.cancelling = false
  queued : s.queued = false

/-- The directory has been found missing, or has been removed. -/
def TeardownPc.late : TeardownPc → Bool
  | .inspecting _ | .clearing => true
  | _ => false

def TeardownPc.early : TeardownPc → Bool
  | .confining | .looking | .removing => true
  | _ => false

/-- Once the scan has ended, a directory that is left is one that a teardown has yet to come to. -/
structure Ended (s : State) : Prop where
  state : s.scan.state.isTerminal = true
  idle : Idle s
  past : ∀ t ∈ s.teardowns, t.pc.late = true → s.dir = false
  cleared : ∀ w ∈ s.sweeps, w.pc = .destroying .clearing → s.dir = false
  awaited : s.dir = true → (∃ t ∈ s.teardowns, t.queued = false ∧ t.pc.early = true) ∨ s.cancelling = true ∨ s.queued = true

def Kept (s : State) : Prop := Running s ∨ Ended s

theorem attaching_eq_false : s.attaching = false ↔ ∀ j ∈ s.jobs, j.pc.attaching = false := by
  simp [State.attaching]

theorem Idle.alone (h : Idle s) (i : ℕ) : Alone s i := fun _ j hj _ => h.jobs j (List.mem_of_getElem? hj)

/-- The directory is recorded, unless the job is just about to do so. -/
theorem Local.workspacePath (h : Local s j) (hpc : j.pc ≠ .recording false) (hdir : s.dir = true) : s.scan.workspacePath = true := by
  rcases h.recorded hdir with h | ⟨h, -⟩
  · exact h
  · exact absurd h hpc

theorem Work.idle (h : Work s) (hfree : s.attaching = false) : Idle s := by
  have hjobs := attaching_eq_false.mp hfree
  rcases h with h | ⟨i, j, hi, -, hlocal⟩
  · exact h
  · refine ⟨hjobs, hlocal.workspacePath fun hpc => ?_⟩
    have hnot := hjobs j (List.mem_of_getElem? hi)
    rw [hpc] at hnot
    cases hnot

/-- A job that is attaching is the one. -/
theorem Work.attaching (h : Work s) (hi : s.jobs[i]? = some j) (hj : j.pc.attaching = true) : Alone s i ∧ Local s j := by
  rcases h with h | ⟨k, j', hk, halone, hlocal⟩
  · cases hj.symm.trans (h.jobs j (List.mem_of_getElem? hi))
  · obtain rfl : i = k := by
      by_contra hne
      cases hj.symm.trans (halone i j hi hne)
    obtain rfl := Option.some.inj (hi.symm.trans hk)
    exact ⟨halone, hlocal⟩

/-- Only this job moves. -/
theorem Alone.work (h : Alone s i) (hi : s.jobs[i]? = some j) (hjobs : s'.jobs = s.jobs.set i j') (hlocal : Local s' j') : Work s' := by
  have hlt : i < s.jobs.length := (List.getElem?_eq_some_iff.mp hi).1
  refine .inr ⟨i, j', by rw [hjobs, List.getElem?_set_self hlt], fun k v hk hne => ?_, hlocal⟩
  rw [hjobs, List.getElem?_set_ne (Ne.symm hne)] at hk
  exact h k v hk hne

/-- A job that is not attaching moves, and does not come to attach. -/
theorem Work.other (h : Work s) (hi : s.jobs[i]? = some j) (hj : j.pc.attaching = false) (hj' : j'.pc.attaching = false)
    (hjobs : s'.jobs = s.jobs.set i j') (hdir : s'.dir = s.dir) (hlive : s'.live = s.live)
    (hpath : s'.scan.workspacePath = s.scan.workspacePath) : Work s' := by
  rcases h with h | ⟨k, v, hk, halone, hlocal⟩
  · refine .inl ⟨fun v hv => ?_, fun hd => hpath.trans (h.recorded (hdir.symm.trans hd))⟩
    rw [hjobs] at hv
    rcases List.mem_or_eq_of_mem_set hv with hv | rfl
    · exact h.jobs v hv
    · exact hj'
  · by_cases hik : i = k
    · subst hik
      obtain rfl := Option.some.inj (hi.symm.trans hk)
      refine halone.work hi hjobs ⟨fun hd => .inl ?_, fun hpc => ?_, fun hpc => ?_⟩
      · refine hpath.trans (hlocal.workspacePath (fun hpc => ?_) (hdir.symm.trans hd))
        rw [hpc] at hj
        cases hj
      · rw [hpc] at hj'
        cases hj'
      · rw [hpc] at hj'
        cases hj'
    · refine .inr ⟨k, v, by rw [hjobs, List.getElem?_set_ne hik, hk], fun m w hm hne => ?_, ?_⟩
      · rw [hjobs] at hm
        rcases getElem?_set_split hm with ⟨-, rfl⟩ | ⟨-, hm⟩
        · exact hj'
        · exact halone m w hm hne
      · obtain ⟨hrecorded, hfilled, hcleared⟩ := hlocal
        rw [← hdir, ← hpath, ← hlive] at hrecorded
        rw [← hpath] at hfilled
        rw [← hdir] at hcleared
        exact ⟨hrecorded, hfilled, hcleared⟩

/-! ### What a statement does -/

/-- The next statement of a teardown. -/
inductive TeardownTurns (s : State) (process : ℕ) (reply : Reply) : TeardownPc → TeardownPc → Change → Prop where
  | refused (hblind : sees s reply = true → s.dir = false) : TeardownTurns s process reply .confining .ended .none
  | inside : TeardownTurns s process reply .confining .looking .none
  | missing (hblind : sees s reply = true → s.dir = false) : TeardownTurns s process reply .looking (.inspecting false) .none
  | found : TeardownTurns s process reply .looking .removing .none
  | removed {failed : Bool} : TeardownTurns s process reply .removing (.inspecting failed) .remove
  | stuck (hblind : sees s reply = true → s.dir = false) : TeardownTurns s process reply .removing (.inspecting true) .none
  | left {failed : Bool} : TeardownTurns s process reply (.inspecting failed) .ended .none
  | forget {failed : Bool} (hblind : sees s reply = true → s.dir = false) :
      TeardownTurns s process reply (.inspecting failed) .clearing (.forget process)
  | clear : TeardownTurns s process reply .clearing .ended .clear
  | unclear : TeardownTurns s process reply .clearing .ended .none

theorem dir_eq_false_of_sees (hblind : ¬ (reply = .answered ∧ s.dir = true)) (h : sees s reply = true) : s.dir = false := by
  unfold sees at h
  rcases Bool.or_eq_true _ _ |>.mp h with hreply | hdir
  · exact Bool.eq_false_iff.mpr fun hdir => hblind ⟨eq_of_beq hreply, hdir⟩
  · simpa using hdir

theorem teardownTurn_turns {pc pc' : TeardownPc} (h : teardownTurn s process pc reply = some (pc', change)) :
    TeardownTurns s process reply pc pc' change := by
  cases pc with
  | confining =>
    unfold teardownTurn at h
    dsimp only at h
    split at h
    · cases h
      exact .inside
    · rename_i hreply
      cases h
      exact .refused (dir_eq_false_of_sees fun hboth => hreply hboth.1)
  | looking =>
    unfold teardownTurn at h
    dsimp only at h
    split at h
    · cases h
      exact .found
    · rename_i hboth
      cases h
      exact .missing (dir_eq_false_of_sees hboth)
  | removing =>
    cases reply with
    | answered => cases h; exact .removed
    | lost => cases h; exact .removed
    | unreached =>
      cases h
      exact .stuck (dir_eq_false_of_sees fun hboth => nomatch hboth.1)
  | inspecting failed =>
    unfold teardownTurn at h
    dsimp only at h
    split at h
    · cases h
      exact .left
    · rename_i hboth
      cases h
      exact .forget (dir_eq_false_of_sees fun hnot => hboth (.inr hnot))
  | clearing =>
    obtain ⟨rfl, rfl | rfl⟩ | ⟨rfl, rfl⟩ := Reply.outcome_cases (Option.some.inj h)
    · exact .clear
    · exact .clear
    · exact .unclear
  | ended => cases h

/-- The next statement of a job, in an orderly step. -/
inductive JobTurns (s : State) (j : Job) (reply : Reply) : JobPc → Change → Prop where
  | idle {pc : JobPc} (hidle : j.pc.attaching = false) (hpc : pc.attaching = false) : JobTurns s j reply pc .none
  | enter {pc : JobPc} {phase : ScanState} (hidle : j.pc.attaching = false) (hedge : canTransition s.scan.state phase = true)
      (hphase : phase ∈ phaseOrder) (hpc : pc.attaching = false ∨ pc = .making ∧ s.attaching = false) : JobTurns s j reply pc (.enter phase)
  | pass (hidle : j.pc.attaching = false) (hfree : s.attaching = false) (hlive : s.scan.state.isTerminal = false) :
      JobTurns s j reply .making .none
  | leave {pc : JobPc} (hat : j.pc = .making ∨ j.pc = .filling ∨ j.pc = .undoing ∨ ∃ pc, j.pc = .destroying pc) (hpc : pc.attaching = false) :
      JobTurns s j reply pc .none
  | mkdir (hat : j.pc = .making) : JobTurns s j reply (.recording s.dir) (.mkdir j.process)
  | record {existing : Bool} (hat : j.pc = .recording existing) : JobTurns s j reply .filling .record
  | recordForget {existing : Bool} {pc : JobPc} (hat : j.pc = .recording existing) (hpc : pc = .ended ∨ pc = .undoing) :
      JobTurns s j reply pc (.recordForget j.process)
  | forget (hat : j.pc = .recording true) : JobTurns s j reply .ended (.forget j.process)
  | undo (hat : j.pc = .undoing) : JobTurns s j reply .ended .remove
  | destroy (hat : j.pc = .filling) : JobTurns s j reply (.destroying .confining) .none
  | teardown {pc pc' : TeardownPc} {change : Change} (hat : j.pc = .destroying pc)
      (hturn : TeardownTurns s j.process reply pc pc' change) (hsees : ∀ failed, pc = .inspecting failed → sees s reply = true) :
      JobTurns s j reply (.destroying pc') change

theorem checkTurn_turns {seen : ScanState} {pc : JobPc} (hat : j.pc = .checking seen) (h : checkTurn s j.data seen reply = (pc, change))
    (hfree : passes s j.data seen = true → attaches s j.data = true → s.attaching = false ∧ s.scan.state.isTerminal = false) :
    JobTurns s j reply pc change := by
  have hidle : j.pc.attaching = false := by rw [hat]; rfl
  unfold checkTurn at h
  dsimp only at h
  split at h
  · cases h
    exact .idle hidle rfl
  · rename_i hpasses
    have hpasses : passes s j.data seen = true := by simpa using hpasses
    split at h
    · cases h
      split
      · rename_i hattaches
        obtain ⟨hfree, hlive⟩ := hfree hpasses hattaches
        exact .pass hidle hfree hlive
      · exact .idle hidle rfl
    · rename_i halready
      obtain ⟨hedge, hstate⟩ : canTransition seen j.data.phase = true ∧ s.scan.state = seen := by
        simpa [passes, halready] using hpasses
      rw [← hstate] at hedge
      obtain ⟨rfl, rfl | rfl⟩ | ⟨rfl, rfl⟩ := Reply.outcome_cases h
      · refine .enter hidle hedge j.data.phase_mem ?_
        split
        · rename_i hattaches
          exact .inr ⟨rfl, (hfree hpasses hattaches).1⟩
        · exact .inl rfl
      · exact .enter hidle hedge j.data.phase_mem (.inl rfl)
      · exact .idle hidle rfl

theorem jobTurn_destroying {data : PhaseJobData} {pc : TeardownPc} (h : pc ≠ .ended) : jobTurn s ⟨process, data, .destroying pc⟩ reply =
    (teardownTurn s process pc reply).map fun turn => (.destroying turn.1, turn.2) := by
  cases pc with
  | ended => exact absurd rfl h
  | _ => rfl

theorem jobTurn_turns {pc : JobPc} (hi : s.jobs[i]? = some j) (h : jobTurn s j reply = some (pc, change))
    (horderly : orderly s (.job i reply) = true) : JobTurns s j reply pc change := by
  obtain ⟨p, data, at_⟩ := j
  unfold orderly at horderly
  dsimp only at horderly
  rw [hi] at horderly
  cases at_ with
  | reading =>
    cases h
    refine .idle rfl ?_
    split <;> rfl
  | checking seen =>
    refine checkTurn_turns rfl (Option.some.inj h) fun hpasses hattaches => ?_
    simpa [hpasses, hattaches] using horderly
  | making =>
    unfold jobTurn at h
    dsimp only at h
    split at h
    · cases h
      exact .mkdir rfl
    · cases h
      exact .leave (.inl rfl) rfl
  | recording existing =>
    cases reply with
    | answered => cases h; exact .record rfl
    | lost =>
      cases h
      refine .recordForget rfl ?_
      cases existing
      · exact .inr rfl
      · exact .inl rfl
    | unreached =>
      cases h
      cases existing
      · cases horderly
      · exact .forget rfl
  | undoing =>
    obtain ⟨rfl, rfl | rfl⟩ | ⟨rfl, rfl⟩ := Reply.outcome_cases (Option.some.inj h)
    · exact .undo rfl
    · exact .undo rfl
    · exact .leave (.inr (.inr (.inl rfl))) rfl
  | filling =>
    unfold jobTurn at h
    dsimp only at h
    split at h
    · cases h
      exact .leave (.inr (.inl rfl)) rfl
    · cases h
      exact .destroy rfl
  | destroying pc =>
    by_cases hended : pc = .ended
    · subst hended
      cases h
      exact .leave (.inr (.inr (.inr ⟨_, rfl⟩))) rfl
    · rw [jobTurn_destroying hended] at h
      obtain ⟨⟨pc', change'⟩, hturn, hpc⟩ := Option.map_eq_some_iff.mp h
      cases hpc
      refine .teardown rfl (teardownTurn_turns hturn) fun failed heq => ?_
      subst heq
      exact horderly
  | running =>
    cases h
    exact .idle rfl rfl
  | ended => cases h

/-! ### The steps -/

theorem phase_live {phase : ScanState} (h : phase ∈ phaseOrder) : phase.isTerminal = false := by
  revert phase
  decide

theorem Running.after (h : Running s) {jobs : List Job} (change : Change) (hstate : (s.change change).scan.state.isTerminal = false)
    (hwork : Work { s.change change with jobs }) : Running { s.change change with jobs } := by
  obtain ⟨-, -, hteardowns, hsweeps, hcancelling, hqueued⟩ := h
  cases change <;> exact ⟨hstate, hwork, hteardowns, hsweeps, hcancelling, hqueued⟩

/-- **A job of a scan that runs.** -/
theorem Running.job {pc : JobPc} (h : Running s) (hi : s.jobs[i]? = some j) (hturn : JobTurns s j reply pc change) :
    Running { s.change change with jobs := s.jobs.set i { j with pc } } := by
  have hmem := List.mem_of_getElem? hi
  cases hturn with
  | idle hidle hpc => exact h.after .none h.state (h.work.other hi hidle hpc rfl rfl rfl rfl)
  | @enter _ phase hidle hedge hphase hpc =>
    refine h.after (.enter phase) (phase_live hphase) ?_
    rcases hpc with hpc | ⟨rfl, hfree⟩
    · exact h.work.other hi hidle hpc rfl rfl rfl rfl
    · have hwork := h.work.idle hfree
      exact (hwork.alone i).work hi rfl ⟨fun hdir => .inl (hwork.recorded hdir), nofun, nofun⟩
  | pass hidle hfree _ =>
    have hwork := h.work.idle hfree
    exact h.after .none h.state ((hwork.alone i).work hi rfl
      ⟨fun hdir => .inl (hwork.recorded hdir), nofun, nofun⟩)
  | leave hat hpc =>
    obtain ⟨hattaching, hrecording⟩ : j.pc.attaching = true ∧ j.pc ≠ .recording false := by
      rcases hat with hat | hat | hat | ⟨_, hat⟩ <;> rw [hat] <;> exact ⟨rfl, nofun⟩
    obtain ⟨halone, hlocal⟩ := h.work.attaching hi hattaching
    refine h.after .none h.state (halone.work hi rfl ⟨fun hdir => .inl (hlocal.workspacePath hrecording hdir), fun hpc' => ?_, fun hpc' => ?_⟩)
    · obtain rfl := hpc'
      cases hpc
    · obtain rfl := hpc'
      cases hpc
  | mkdir hat =>
    obtain ⟨halone, hlocal⟩ := h.work.attaching hi (by rw [hat]; rfl)
    refine h.after (.mkdir j.process) h.state (halone.work hi rfl ⟨fun _ => ?_, nofun, nofun⟩)
    cases hdir : s.dir with
    | false => exact .inr ⟨rfl, by simp [State.change]⟩
    | true => exact .inl (hlocal.workspacePath (by rw [hat]; exact nofun) hdir)
  | record hat =>
    obtain ⟨halone, hlocal⟩ := h.work.attaching hi (by rw [hat]; rfl)
    exact h.after .record h.state (halone.work hi rfl ⟨fun _ => .inl rfl, fun _ => rfl, nofun⟩)
  | recordForget hat hpc =>
    obtain ⟨halone, hlocal⟩ := h.work.attaching hi (by rw [hat]; rfl)
    refine h.after (.recordForget j.process) h.state (halone.work hi rfl ⟨fun _ => .inl rfl, fun _ => rfl, fun hpc' => ?_⟩)
    rcases hpc with rfl | rfl <;> cases hpc'
  | forget hat =>
    obtain ⟨halone, hlocal⟩ := h.work.attaching hi (by rw [hat]; rfl)
    have hpath (hdir : s.dir = true) := hlocal.workspacePath (by rw [hat]; exact nofun) hdir
    exact h.after (.forget j.process) h.state (halone.work hi rfl
      ⟨fun hdir => .inl (hpath hdir), nofun, nofun⟩)
  | undo hat =>
    obtain ⟨halone, -⟩ := h.work.attaching hi (by rw [hat]; rfl)
    exact h.after .remove h.state (halone.work hi rfl ⟨fun hdir => (nomatch hdir), nofun, nofun⟩)
  | destroy hat =>
    obtain ⟨halone, hlocal⟩ := h.work.attaching hi (by rw [hat]; rfl)
    exact h.after .none h.state (halone.work hi rfl ⟨fun _ => .inl (hlocal.filled hat), nofun, nofun⟩)
  | @teardown pc _ _ hat hturn hsees =>
    obtain ⟨halone, hlocal⟩ := h.work.attaching hi (by rw [hat]; rfl)
    have hpath (hdir : s.dir = true) := hlocal.workspacePath (by rw [hat]; exact nofun) hdir
    cases hturn with
    | refused _ | inside | missing _ | found | stuck _ | left | unclear =>
      exact h.after .none h.state (halone.work hi rfl ⟨fun hdir => .inl (hpath hdir), nofun, nofun⟩)
    | removed =>
      exact h.after .remove h.state (halone.work hi rfl ⟨fun hdir => (nomatch hdir), nofun, nofun⟩)
    | forget hblind =>
      exact h.after (.forget j.process) h.state (halone.work hi rfl
        ⟨fun hdir => .inl (hpath hdir), nofun, fun _ => hblind (hsees _ rfl)⟩)
    | clear =>
      refine h.after .clear h.state (halone.work hi rfl ⟨fun hdir => ?_, nofun, nofun⟩)
      cases (hlocal.cleared hat).symm.trans hdir

/-- A job of a scan that has ended touches nothing. -/
theorem Ended.job {pc : JobPc} (h : Ended s) (hi : s.jobs[i]? = some j) (hturn : JobTurns s j reply pc change) :
    Ended { s.change change with jobs := s.jobs.set i { j with pc } } := by
  have hidle := h.idle.jobs j (List.mem_of_getElem? hi)
  cases hturn with
  | idle _ hpc =>
    refine ⟨h.state, ⟨fun v hv => ?_, h.idle.recorded⟩, h.past, h.cleared, h.awaited⟩
    rcases List.mem_or_eq_of_mem_set hv with hv | rfl
    · exact h.idle.jobs v hv
    · exact hpc
  | enter _ hedge => cases (canTransition_terminal h.state).symm.trans hedge
  | pass _ _ hlive => cases hlive.symm.trans h.state
  | leave hat _ => rcases hat with hat | hat | hat | ⟨_, hat⟩ <;> rw [hat] at hidle <;> cases hidle
  | mkdir hat | record hat | recordForget hat | forget hat | undo hat | destroy hat | teardown hat => rw [hat] at hidle; cases hidle

/-- Nothing that is done to an ended scan's directory brings it back. -/
theorem Ended.shrink (h : Ended s) (hjobs : s'.jobs = s.jobs) (hteardowns : s'.teardowns = s.teardowns) (hsweeps : s'.sweeps = s.sweeps)
    (hstate : s'.scan.state = s.scan.state) (hcancelling : s'.cancelling = s.cancelling) (hqueued : s'.queued = s.queued)
    (hdir : s'.dir = true → s.dir = true ∧ s'.scan.workspacePath = s.scan.workspacePath) : Ended s' where
  state := by rw [hstate]; exact h.state
  idle := ⟨by rw [hjobs]; exact h.idle.jobs, fun hd => (hdir hd).2.trans (h.idle.recorded (hdir hd).1)⟩
  past t ht hlate := by
    rw [hteardowns] at ht
    exact Bool.eq_false_iff.mpr fun hd => Bool.eq_false_iff.mp (h.past t ht hlate) (hdir hd).1
  cleared w hw hpc := by
    rw [hsweeps] at hw
    exact Bool.eq_false_iff.mpr fun hd => Bool.eq_false_iff.mp (h.cleared w hw hpc) (hdir hd).1
  awaited hd := by
    rw [hteardowns, hcancelling, hqueued]
    exact h.awaited (hdir hd).1

/-- What a teardown does leaves the directory as it is, or removes it. -/
theorem TeardownTurns.shrinks {pc pc' : TeardownPc} (h : TeardownTurns s process reply pc pc' change) (hclear : pc = .clearing → s.dir = false) :
    (s.change change).scan.state = s.scan.state ∧
      ((s.change change).dir = true → s.dir = true ∧ (s.change change).scan.workspacePath = s.scan.workspacePath) := by
  cases h with
  | refused _ | inside | missing _ | found | stuck _ | left | unclear | forget _ => exact ⟨rfl, fun hdir => ⟨hdir, rfl⟩⟩
  | removed => exact ⟨rfl, fun hdir => (nomatch hdir)⟩
  | clear => exact ⟨rfl, fun hdir => by cases (hclear rfl).symm.trans hdir⟩

theorem TeardownTurns.frame {pc pc' : TeardownPc} (h : TeardownTurns s process reply pc pc' change) :
    (s.change change).jobs = s.jobs ∧ (s.change change).teardowns = s.teardowns ∧ (s.change change).sweeps = s.sweeps ∧
      (s.change change).cancelling = s.cancelling ∧ (s.change change).queued = s.queued := by
  cases h <;> exact ⟨rfl, rfl, rfl, rfl, rfl⟩

/-- Where a teardown that sees the directory has come past its removal, there is none. -/
theorem TeardownTurns.late {pc pc' : TeardownPc} (h : TeardownTurns s process reply pc pc' change) (hsees : pc = .clearing ∨ sees s reply = true)
    (hpast : pc.late = true → s.dir = false) : pc'.early = false → (s.change change).dir = false := by
  intro hlate
  have hblind (hpc : pc ≠ .clearing) : sees s reply = true := hsees.resolve_left hpc
  cases h with
  | inside | found => cases hlate
  | refused h | missing h | stuck h => exact h (hblind nofun)
  | removed => rfl
  | left | unclear | forget _ | clear => exact hpast rfl

/-- **A teardown of an ended scan.** -/
theorem Ended.teardown {t : Teardown} {pc : TeardownPc} (h : Ended s) (hi : s.teardowns[i]? = some t)
    (hturn : TeardownTurns s t.process reply t.pc pc change) (hsees : t.pc = .clearing ∨ sees s reply = true) :
    Ended { s.change change with
      teardowns := s.teardowns.set i { t with pc }, queued := s.queued && !(t.queued && pc == .ended) } := by
  have ht := List.mem_of_getElem? hi
  obtain ⟨hjobs, hteardowns, hsweeps, hcancelling, hqueued⟩ := hturn.frame
  obtain ⟨hstate, hdir⟩ := hturn.shrinks fun hpc => h.past t ht (by rw [hpc]; rfl)
  have hlate := hturn.late hsees (h.past t ht)
  obtain ⟨hstate', hidle, hpast, hcleared, hawaited⟩ := h.shrink hjobs hteardowns hsweeps hstate hcancelling hqueued hdir
  refine ⟨hstate', ⟨hidle.jobs, hidle.recorded⟩, fun v hv hvlate => ?_, hcleared, fun hd => ?_⟩
  · rcases List.mem_or_eq_of_mem_set hv with hv | rfl
    · exact hpast v (by rw [hteardowns]; exact hv) hvlate
    · refine hlate ?_
      cases pc <;> first | rfl | cases hvlate
  · -- the directory is there, and so this one has not come past its removal
    have hearly : pc.early = true := by
      by_contra hnot
      cases (hlate (Bool.eq_false_iff.mpr hnot)).symm.trans hd
    have hqueue : (s.queued && !(t.queued && pc == .ended)) = s.queued := by
      have hne : pc ≠ .ended := fun heq => by
        rw [heq] at hearly
        cases hearly
      rw [beq_eq_false_iff_ne.mpr hne, Bool.and_false, Bool.not_false, Bool.and_true]
    change (∃ v ∈ s.teardowns.set i { t with pc }, v.queued = false ∧ v.pc.early = true) ∨ (s.change change).cancelling = true ∨
      (s.queued && !(t.queued && pc == .ended)) = true
    rw [hqueue, ← hqueued]
    rcases hawaited hd with ⟨v, hv, hvqueued, hvearly⟩ | hwaits
    · rw [hteardowns] at hv
      obtain ⟨k, hk⟩ := List.getElem?_of_mem hv
      have hlt : i < s.teardowns.length := (List.getElem?_eq_some_iff.mp hi).1
      by_cases hik : i = k
      · subst hik
        obtain rfl := Option.some.inj (hi.symm.trans hk)
        exact .inl ⟨{ t with pc }, List.mem_of_getElem? (List.getElem?_set_self hlt), hvqueued, hearly⟩
      · refine .inl ⟨v, List.mem_of_getElem? (i := k) ?_, hvqueued, hvearly⟩
        rw [List.getElem?_set_ne hik, hk]
    · exact .inr hwaits

/-- What a sweep does: nothing while it looks, and then what a teardown does. -/
inductive SweepTurns (s : State) (w : Sweep) (reply : Reply) : SweepPc → Change → Prop where
  | idle {pc : SweepPc} (hpc : ∀ pc', pc ≠ .destroying pc') : SweepTurns s w reply pc .none
  | start (hended : s.scan.state.isTerminal = true) : SweepTurns s w reply (.destroying .confining) .none
  | teardown {pc pc' : TeardownPc} {change : Change} (hat : w.pc = .destroying pc)
      (hturn : TeardownTurns s w.process reply pc pc' change) : SweepTurns s w reply (.destroying pc') change

theorem sweepTurn_destroying {pc : TeardownPc} (h : pc ≠ .ended) : sweepTurn s ⟨process, .destroying pc⟩ reply =
    (teardownTurn s process pc reply).map fun turn => (.destroying turn.1, turn.2) := by
  cases pc with
  | ended => exact absurd rfl h
  | _ => rfl

theorem sweepTurn_turns {w : Sweep} {pc : SweepPc} (h : sweepTurn s w reply = some (pc, change)) : SweepTurns s w reply pc change := by
  obtain ⟨p, at_⟩ := w
  cases at_ with
  | listing =>
    cases h
    refine .idle fun pc' heq => ?_
    split at heq <;> cases heq
  | filtering =>
    unfold sweepTurn at h
    dsimp only at h
    split at h
    · rename_i hended
      cases h
      exact .start hended.2
    · cases h
      exact .idle fun pc' heq => nomatch heq
  | destroying pc =>
    by_cases hended : pc = .ended
    · subst hended
      cases h
      exact .idle fun pc' heq => nomatch heq
    · rw [sweepTurn_destroying hended] at h
      obtain ⟨⟨pc', change'⟩, hturn, hpc⟩ := Option.map_eq_some_iff.mp h
      cases hpc
      exact .teardown rfl (teardownTurn_turns hturn)
  | ended => cases h

/-- A sweep that comes by while the scan runs. -/
theorem Running.sweep {w : Sweep} {pc : SweepPc} {swept : List ScanState} (h : Running s) (hi : s.sweeps[i]? = some w)
    (hturn : SweepTurns s w reply pc change) : change = .none ∧ Running { s with sweeps := s.sweeps.set i { w with pc }, swept } := by
  have hw := h.sweeps w (List.mem_of_getElem? hi)
  cases hturn with
  | idle hpc =>
    obtain ⟨hstate, hwork, hteardowns, hsweeps, hcancelling, hqueued⟩ := h
    refine ⟨rfl, hstate, ?_, hteardowns, fun v hv => ?_, hcancelling, hqueued⟩
    · rcases hwork with ⟨hjobs, hrecorded⟩ | ⟨k, j, hk, halone, ⟨hrecorded, hfilled, hcleared⟩⟩
      · exact .inl ⟨hjobs, hrecorded⟩
      · exact .inr ⟨k, j, hk, halone, ⟨hrecorded, hfilled, hcleared⟩⟩
    · rcases List.mem_or_eq_of_mem_set hv with hv | rfl
      · exact hsweeps v hv
      · exact hpc
  | start hended => cases h.state.symm.trans hended
  | @teardown pc _ _ hat _ => exact absurd hat (hw pc)

/-- **A sweep of an ended scan's directory.** -/
theorem Ended.sweep {w : Sweep} {pc : SweepPc} {swept : List ScanState} (h : Ended s) (hi : s.sweeps[i]? = some w)
    (hturn : SweepTurns s w reply pc change) (hsees : ∀ failed, w.pc = .destroying (.inspecting failed) → sees s reply = true) :
    Ended { s.change change with sweeps := s.sweeps.set i { w with pc }, swept } := by
  have hw := List.mem_of_getElem? hi
  have hset (change : Change) (hafter : Ended (s.change change)) (hsame : (s.change change).sweeps = s.sweeps)
      (hpc : pc = .destroying .clearing → (s.change change).dir = false) :
      Ended { s.change change with sweeps := s.sweeps.set i { w with pc }, swept } := by
    obtain ⟨hstate, ⟨hjobs, hrecorded⟩, hpast, hcleared, hawaited⟩ := hafter
    refine ⟨hstate, ⟨hjobs, hrecorded⟩, hpast, fun v hv hvpc => ?_, hawaited⟩
    rcases List.mem_or_eq_of_mem_set hv with hv | rfl
    · exact hcleared v (by rw [hsame]; exact hv) hvpc
    · exact hpc hvpc
  cases hturn with
  | idle hpc => exact hset .none h rfl fun heq => absurd heq (hpc _)
  | start _ => exact hset .none h rfl nofun
  | @teardown pc pc' _ hat hturn =>
    obtain ⟨hjobs, hteardowns, hsweeps, hcancelling, hqueued⟩ := hturn.frame
    obtain ⟨hstate, hdir⟩ := hturn.shrinks fun hpc => h.cleared w hw (by rw [hat, hpc])
    refine hset _ (h.shrink hjobs hteardowns hsweeps hstate hcancelling hqueued hdir) hsweeps fun hclearing => ?_
    cases hclearing
    cases hturn with
    | forget hblind => exact hblind (hsees _ hat)

theorem Work.append (h : Work s) (hj : j.pc.attaching = false) : Work { s with jobs := s.jobs ++ [j] } := by
  rcases h with ⟨hjobs, hrecorded⟩ | ⟨k, v, hk, halone, ⟨hrecorded, hfilled, hcleared⟩⟩
  · refine .inl ⟨fun v hv => ?_, hrecorded⟩
    rcases List.mem_append.mp hv with hv | hv
    · exact hjobs v hv
    · rw [List.mem_singleton.mp hv]
      exact hj
  · have hlt : k < s.jobs.length := (List.getElem?_eq_some_iff.mp hk).1
    refine .inr ⟨k, v, (List.getElem?_append_left hlt).trans hk, fun m w hm hne => ?_, ⟨hrecorded, hfilled, hcleared⟩⟩
    by_cases hlt' : m < s.jobs.length
    · exact halone m w ((List.getElem?_append_left hlt').symm.trans hm) hne
    · rw [List.getElem?_append_right (Nat.le_of_not_lt hlt')] at hm
      rw [List.mem_singleton.mp (List.mem_of_getElem? hm)]
      exact hj

/-- The scan comes to an end while no job attaches its source. -/
theorem Running.finish (h : Running s) {state : ScanState} {teardowns : List Teardown} {cancelling : Bool} (hstate : state.isTerminal = true)
    (hfree : s.attaching = false) (hteardowns : ∀ t ∈ teardowns, t.pc = .confining)
    (hawaited : s.dir = true → (∃ t ∈ teardowns, t.queued = false ∧ t.pc.early = true) ∨ cancelling = true) :
    Ended { s with scan := { s.scan with state }, teardowns, cancelling } where
  state := hstate
  idle := ⟨(h.work.idle hfree).jobs, (h.work.idle hfree).recorded⟩
  past t ht hlate := by
    rw [hteardowns t ht] at hlate
    cases hlate
  cleared w hw hpc := absurd hpc (h.sweeps w hw _)
  awaited hdir := by
    rcases hawaited hdir with hteardown | hcancelling
    · exact .inl hteardown
    · exact .inr (.inl hcancelling)

/-- A process dies that is not about to record a directory. -/
theorem Running.die (h : Running s) {made : Bool} (horderly : orderly s (.die process made) = true) (hnext : next s (.die process made) = some s') :
    Running s' := by
  cases hnext
  have hjobs := List.all_eq_true.mp (Bool.and_eq_true _ _ |>.mp horderly).1
  obtain ⟨hstate, hwork, hteardowns, hsweeps, hcancelling, hqueued⟩ := h
  refine ⟨hstate, ?_, by simp [hteardowns], fun w hw pc => ?_, hcancelling, hqueued⟩
  · -- an `mkdir` that takes place finds the directory there
    have hdir : (s.dir || (made && s.jobs.any fun j => j.process = process && j.pc = .making)) = s.dir := by
      cases hmade : (made && s.jobs.any fun j => j.process = process && j.pc = .making) with
      | false => exact Bool.or_false _
      | true =>
        obtain ⟨hmade, hany⟩ := Bool.and_eq_true _ _ |>.mp hmade
        obtain ⟨j, hj, hat⟩ := List.any_eq_true.mp hany
        obtain ⟨hp, hpc⟩ : j.process = process ∧ j.pc = .making := by simpa using hat
        have hguard := hjobs j hj
        simp only [hp, hpc, hmade] at hguard
        simpa using hguard
    have hmap (k : ℕ) : (s.jobs.map fun j => if j.process = process then { j with pc := .ended } else j)[k]? =
        s.jobs[k]?.map fun j => if j.process = process then { j with pc := .ended } else j := List.getElem?_map
    rcases hwork with ⟨hidle, hrecorded⟩ | ⟨k, v, hk, halone, hlocal⟩
    · refine .inl ⟨fun j hj => ?_, fun hd => hrecorded (hdir.symm.trans hd)⟩
      obtain ⟨v, hv, rfl⟩ := List.mem_map.mp hj
      split
      · rfl
      · exact hidle v hv
    · refine .inr ⟨k, _, by rw [hmap, hk]; rfl, fun m w hm hne => ?_, ?_⟩
      · rw [hmap] at hm
        obtain ⟨w, hw, rfl⟩ := Option.map_eq_some_iff.mp hm
        split
        · rfl
        · exact halone m w hw hne
      · dsimp only
        by_cases hp : v.process = process
        · rw [if_pos hp]
          refine ⟨fun hd => .inl (hlocal.workspacePath (fun hpc => ?_) (hdir.symm.trans hd)), nofun, nofun⟩
          have hguard := hjobs v (List.mem_of_getElem? hk)
          simp [hp, hpc] at hguard
        · rw [if_neg hp]
          refine ⟨fun hd => (hlocal.recorded (hdir.symm.trans hd)).imp_right fun hat => ⟨hat.1, ?_⟩, hlocal.filled, fun hpc => ?_⟩
          · simp [hp, hat.2]
          · exact hdir.trans (hlocal.cleared hpc)
  · obtain ⟨v, hv, rfl⟩ := List.mem_map.mp hw
    split
    · exact nofun
    · exact hsweeps v hv pc

/-- A process dies that is not about to remove what is left of an ended scan. -/
theorem Ended.die (h : Ended s) {made : Bool} (horderly : orderly s (.die process made) = true) (hnext : next s (.die process made) = some s') :
    Ended s' := by
  cases hnext
  have hteardowns := List.all_eq_true.mp (Bool.and_eq_true _ _ |>.mp horderly).2
  have hdir : (s.dir || (made && s.jobs.any fun j => j.process = process && j.pc = .making)) = s.dir := by
    have hnone : (s.jobs.any fun j => j.process = process && j.pc = .making) = false := by
      refine List.any_eq_false.mpr fun j hj hat => ?_
      have hidle := h.idle.jobs j hj
      obtain ⟨-, hpc⟩ : j.process = process ∧ j.pc = .making := by simpa using hat
      rw [hpc] at hidle
      cases hidle
    rw [hnone, Bool.and_false, Bool.or_false]
  refine ⟨h.state, ⟨fun j hj => ?_, fun hd => h.idle.recorded (hdir.symm.trans hd)⟩, fun t ht hlate => hdir.trans ?_,
    fun w hw hpc => hdir.trans ?_, fun hd => ?_⟩
  · obtain ⟨v, hv, rfl⟩ := List.mem_map.mp hj
    split
    · rfl
    · exact h.idle.jobs v hv
  · obtain ⟨v, hv, rfl⟩ := List.mem_map.mp ht
    split at hlate
    · cases hlate
    · exact h.past v hv hlate
  · obtain ⟨v, hv, rfl⟩ := List.mem_map.mp hw
    split at hpc
    · cases hpc
    · exact h.cleared v hv hpc
  · have hd := hdir.symm.trans hd
    rcases h.awaited hd with ⟨t, ht, hqueued, hearly⟩ | hwaits
    · have hp : t.process ≠ process := fun hp => by
        have hguard := hteardowns t ht
        have hpc : t.pc ≠ .ended := fun hpc => by
          rw [hpc] at hearly
          cases hearly
        simp [hp, hqueued, hpc, hd] at hguard
      exact .inl ⟨t, List.mem_map.mpr ⟨t, ht, if_neg hp⟩, hqueued, hearly⟩
    · exact .inr hwaits

theorem sees_of_teardown {t : Teardown} (hi : s.teardowns[i]? = some t) (h : orderly s (.teardown i reply) = true) :
    t.pc = .clearing ∨ sees s reply = true := by
  unfold orderly at h
  dsimp only at h
  rw [hi] at h
  exact (Bool.or_eq_true _ _ |>.mp h).imp_left eq_of_beq

theorem sees_of_sweep {w : Sweep} (hi : s.sweeps[i]? = some w) (h : orderly s (.sweep i reply) = true) (failed : Bool)
    (hpc : w.pc = .destroying (.inspecting failed)) : sees s reply = true := by
  obtain ⟨p, pc⟩ := w
  dsimp only at hpc
  subst hpc
  unfold orderly at h
  dsimp only at h
  rw [hi] at h
  exact h

/-- **The step.** -/
theorem kept_next (h : Kept s) (hnext : next s a = some s') (horderly : orderly s a = true) : Kept s' := by
  cases a with
  | phaseJob process data =>
    cases hnext
    rcases h with h | h
    · exact .inl ⟨h.state, h.work.append rfl, h.teardowns, h.sweeps, h.cancelling, h.queued⟩
    · refine .inr ⟨h.state, ⟨fun j hj => ?_, h.idle.recorded⟩, h.past, h.cleared, h.awaited⟩
      rcases List.mem_append.mp hj with hj | hj
      · exact h.idle.jobs j hj
      · rw [List.mem_singleton.mp hj]
        rfl
  | job i reply =>
    obtain ⟨j, hi, hnext⟩ := Option.bind_eq_some_iff.mp hnext
    obtain ⟨⟨pc, change⟩, hturn, hs⟩ := Option.bind_eq_some_iff.mp hnext
    cases hs
    have hturn := jobTurn_turns hi hturn horderly
    exact h.imp (fun h => h.job hi hturn) fun h => h.job hi hturn
  | extract i =>
    obtain ⟨j, hi, hnext⟩ := Option.bind_eq_some_iff.mp hnext
    split at hnext
    · rename_i hat
      cases hnext
      have hattaching : j.pc.attaching = true := by rw [hat]; rfl
      rcases h with h | h
      · obtain ⟨halone, hlocal⟩ := h.work.attaching hi hattaching
        have hpath := hlocal.filled hat
        refine .inl ⟨h.state, .inr ⟨i, j, hi, halone, fun _ => .inl hpath, fun _ => hpath, fun hpc => ?_⟩, h.teardowns, h.sweeps,
          h.cancelling, h.queued⟩
        cases hat.symm.trans hpc
      · cases hattaching.symm.trans (h.idle.jobs j (List.mem_of_getElem? hi))
    · cases hnext
  | transition process after learns =>
    unfold next at hnext
    dsimp only at hnext
    split at hnext
    · rename_i hedge
      cases hnext
      rcases h with h | h
      · cases hafter : after.isTerminal with
        | false =>
          refine .inl ⟨hafter, ?_, h.teardowns, h.sweeps, h.cancelling, h.queued⟩
          rcases h.work with ⟨hjobs, hrecorded⟩ | ⟨k, j, hk, halone, ⟨hrecorded, hfilled, hcleared⟩⟩
          · exact .inl ⟨hjobs, hrecorded⟩
          · exact .inr ⟨k, j, hk, halone, ⟨hrecorded, hfilled, hcleared⟩⟩
        | true =>
          simp only [orderly, hafter, Bool.not_true, Bool.false_or, Bool.and_eq_true, Bool.not_eq_true', Bool.or_eq_true] at horderly
          obtain ⟨hfree, hlearns⟩ := horderly
          refine .inr (h.finish hafter hfree (fun t ht => ?_) fun hdir => .inl ?_)
          · rw [h.teardowns] at ht
            split at ht
            · rw [List.mem_singleton.mp ht]
            · cases ht
          · rcases hlearns with hlearns | hnone
            · exact ⟨⟨process, false, .confining⟩, by simp [hlearns], rfl, rfl⟩
            · cases hnone.symm.trans hdir
      · cases (canTransition_terminal h.state).symm.trans hedge
    · cases hnext
  | teardown i reply =>
    obtain ⟨t, hi, hnext⟩ := Option.bind_eq_some_iff.mp hnext
    obtain ⟨⟨pc, change⟩, hturn, hs⟩ := Option.bind_eq_some_iff.mp hnext
    cases hs
    refine .inr ?_
    rcases h with h | h
    · rw [h.teardowns] at hi
      cases hi
    · exact h.teardown hi (teardownTurn_turns hturn) (sees_of_teardown hi horderly)
  | cancel =>
    unfold next at hnext
    dsimp only at hnext
    split at hnext
    · cases hnext
    · rename_i hlive
      cases hnext
      refine .inr ?_
      rcases h with h | h
      · refine h.finish rfl (by simpa [orderly] using horderly) (fun t ht => ?_) fun _ => .inr rfl
        rw [h.teardowns] at ht
        cases ht
      · exact absurd h.state hlive
  | enqueueTeardown reply =>
    unfold next at hnext
    dsimp only at hnext
    split at hnext
    · rename_i hcancelling
      cases hnext
      refine .inr ?_
      rcases h with h | h
      · cases h.cancelling.symm.trans hcancelling
      · refine ⟨h.state, ⟨h.idle.jobs, h.idle.recorded⟩, h.past, h.cleared, fun hdir => .inr (.inr ?_)⟩
        rcases Bool.or_eq_true _ _ |>.mp horderly with hreply | hnone
        · change (s.queued || reply != .unreached) = true
          rw [hreply, Bool.or_true]
        · rw [Bool.not_eq_true'] at hnone
          cases hnone.symm.trans hdir
    · cases hnext
  | deliverTeardown process =>
    unfold next at hnext
    dsimp only at hnext
    split at hnext
    · rename_i hqueued
      cases hnext
      refine .inr ?_
      rcases h with h | h
      · cases h.queued.symm.trans hqueued
      · refine ⟨h.state, ⟨h.idle.jobs, h.idle.recorded⟩, fun t ht hlate => ?_, h.cleared, fun _ => .inr (.inr hqueued)⟩
        rcases List.mem_append.mp ht with ht | ht
        · exact h.past t ht hlate
        · rw [List.mem_singleton.mp ht] at hlate
          cases hlate
    · cases hnext
  | discardTeardown =>
    unfold next at hnext
    dsimp only at hnext
    split at hnext
    · rename_i hqueued
      cases hnext
      refine .inr ?_
      rcases h with h | h
      · cases h.queued.symm.trans hqueued
      · have hnone : s.dir = false := by simpa [orderly] using horderly
        refine ⟨h.state, ⟨h.idle.jobs, h.idle.recorded⟩, h.past, h.cleared, fun hdir => ?_⟩
        cases hnone.symm.trans hdir
    · cases hnext
  | sweepOrphanedWorkspaces process =>
    cases hnext
    have hnew (w : Sweep) (hw : w ∈ s.sweeps ++ [⟨process, .listing⟩]) : w ∈ s.sweeps ∨ w.pc = .listing := by
      rcases List.mem_append.mp hw with hw | hw
      · exact .inl hw
      · rw [List.mem_singleton.mp hw]
        exact .inr rfl
    rcases h with h | h
    · refine .inl ⟨h.state, ?_, h.teardowns, fun w hw pc => ?_, h.cancelling, h.queued⟩
      · rcases h.work with ⟨hjobs, hrecorded⟩ | ⟨k, j, hk, halone, ⟨hrecorded, hfilled, hcleared⟩⟩
        · exact .inl ⟨hjobs, hrecorded⟩
        · exact .inr ⟨k, j, hk, halone, ⟨hrecorded, hfilled, hcleared⟩⟩
      · rcases hnew w hw with hw | hpc
        · exact h.sweeps w hw pc
        · rw [hpc]
          exact nofun
    · refine .inr ⟨h.state, ⟨h.idle.jobs, h.idle.recorded⟩, h.past, fun w hw hpc => ?_, h.awaited⟩
      rcases hnew w hw with hw | hlisting
      · exact h.cleared w hw hpc
      · cases hlisting.symm.trans hpc
  | sweep i reply =>
    obtain ⟨w, hi, hnext⟩ := Option.bind_eq_some_iff.mp hnext
    obtain ⟨⟨pc, change⟩, hturn, hs⟩ := Option.bind_eq_some_iff.mp hnext
    cases hs
    have hturn := sweepTurn_turns hturn
    rcases h with h | h
    · obtain ⟨rfl, hrunning⟩ := h.sweep hi hturn
      exact .inl hrunning
    · exact .inr (h.sweep hi hturn (sees_of_sweep hi horderly))
  | die process made => exact h.imp (fun h => h.die horderly hnext) fun h => h.die horderly hnext

theorem Kept.recorded (h : Kept s) (hdir : s.dir = true) : s.scan.workspacePath = true ∨ ∃ process, s.live process = true := by
  rcases h with h | h
  · rcases h.work with hidle | ⟨_, j, -, -, hlocal⟩
    · exact .inl (hidle.recorded hdir)
    · exact (hlocal.recorded hdir).imp_right fun hat => ⟨j.process, hat.2⟩
  · exact .inl (h.idle.recorded hdir)

theorem Kept.gone (h : Kept s) (hended : s.scan.state.isTerminal = true) (hdone : s.outstanding = false) : s.dir = false := by
  rcases h with h | h
  · cases h.state.symm.trans hended
  · simp only [State.outstanding, Bool.or_eq_false_iff] at hdone
    obtain ⟨⟨⟨-, hteardowns⟩, hcancelling⟩, hqueued⟩ := hdone
    refine Bool.eq_false_iff.mpr fun hdir => ?_
    rcases h.awaited hdir with ⟨t, ht, -, hearly⟩ | hwaits | hwaits
    · have hpc : t.pc = .ended := by simpa using List.any_eq_false.mp hteardowns t ht
      rw [hpc] at hearly
      cases hearly
    · cases hcancelling.symm.trans hwaits
    · cases hqueued.symm.trans hwaits

/-! ### Sweeps, in every run -/

theorem TeardownTurns.state {pc pc' : TeardownPc} (h : TeardownTurns s process reply pc pc' change) :
    (s.change change).scan.state = s.scan.state := by
  cases h <;> rfl

/-- A job does not move a scan that has ended. -/
theorem jobTurn_state {pc : JobPc} (h : jobTurn s j reply = some (pc, change)) (hended : s.scan.state.isTerminal = true) :
    (s.change change).scan.state = s.scan.state := by
  obtain ⟨p, data, at_⟩ := j
  cases at_ with
  | reading | running => cases h; rfl
  | checking seen =>
    have h := Option.some.inj h
    unfold checkTurn at h
    dsimp only at h
    split at h
    · cases h
      rfl
    · rename_i hpasses
      split at h
      · cases h
        rfl
      · rename_i halready
        obtain ⟨hedge, hstate⟩ : canTransition seen data.phase = true ∧ s.scan.state = seen := by simpa [passes, halready] using hpasses
        rw [← hstate, canTransition_terminal hended] at hedge
        cases hedge
  | making =>
    unfold jobTurn at h
    dsimp only at h
    split at h <;> cases h <;> rfl
  | recording existing => cases reply <;> cases h <;> rfl
  | undoing =>
    obtain ⟨rfl, -⟩ | ⟨rfl, -⟩ := Reply.outcome_cases (Option.some.inj h) <;> rfl
  | filling => cases h; rfl
  | destroying pc =>
    by_cases hpc : pc = .ended
    · subst hpc
      cases h
      rfl
    · rw [jobTurn_destroying hpc] at h
      obtain ⟨⟨pc', change'⟩, hturn, hpc⟩ := Option.map_eq_some_iff.mp h
      cases hpc
      exact (teardownTurn_turns hturn).state
  | ended => cases h

/-- A scan that has ended stays so. -/
theorem terminal_next (hended : s.scan.state.isTerminal = true) (hnext : next s a = some s') : s'.scan.state.isTerminal = true := by
  cases a with
  | phaseJob _ _ | sweepOrphanedWorkspaces _ | die _ _ => cases hnext; exact hended
  | job i reply =>
    obtain ⟨j, -, hnext⟩ := Option.bind_eq_some_iff.mp hnext
    obtain ⟨⟨pc, change⟩, hturn, hs⟩ := Option.bind_eq_some_iff.mp hnext
    cases hs
    exact (congrArg ScanState.isTerminal (jobTurn_state hturn hended)).trans hended
  | extract i =>
    obtain ⟨j, -, hnext⟩ := Option.bind_eq_some_iff.mp hnext
    split at hnext
    · cases hnext
      exact hended
    · cases hnext
  | transition process after learns =>
    unfold next at hnext
    dsimp only at hnext
    rw [canTransition_terminal hended] at hnext
    cases hnext
  | teardown i reply =>
    obtain ⟨t, -, hnext⟩ := Option.bind_eq_some_iff.mp hnext
    obtain ⟨⟨pc, change⟩, hturn, hs⟩ := Option.bind_eq_some_iff.mp hnext
    cases hs
    exact (congrArg ScanState.isTerminal (teardownTurn_turns hturn).state).trans hended
  | cancel =>
    unfold next at hnext
    dsimp only at hnext
    rw [if_pos hended] at hnext
    cases hnext
  | enqueueTeardown _ | deliverTeardown _ | discardTeardown =>
    unfold next at hnext
    dsimp only at hnext
    split at hnext
    · cases hnext
      exact hended
    · cases hnext
  | sweep i reply =>
    obtain ⟨w, -, hnext⟩ := Option.bind_eq_some_iff.mp hnext
    obtain ⟨⟨pc, change⟩, hturn, hs⟩ := Option.bind_eq_some_iff.mp hnext
    cases hs
    cases sweepTurn_turns hturn with
    | idle _ | start _ => exact hended
    | teardown _ hturn => exact (congrArg ScanState.isTerminal hturn.state).trans hended

/-- Sweeps remove the directories of ended scans. -/
structure Spares (s : State) : Prop where
  swept : ∀ state ∈ s.swept, state.isTerminal = true
  destroying : ∀ w ∈ s.sweeps, ∀ pc, w.pc = .destroying pc → s.scan.state.isTerminal = true

theorem spares_next (h : Spares s) (hnext : next s a = some s') : Spares s' := by
  have hkeep (hswept : s'.swept = s.swept) (hsweeps : ∀ w ∈ s'.sweeps, w ∈ s.sweeps ∨ ∀ pc, w.pc ≠ .destroying pc) : Spares s' := by
    refine ⟨by rw [hswept]; exact h.swept, fun w hw pc hpc => ?_⟩
    rcases hsweeps w hw with hw | hnot
    · exact terminal_next (h.destroying w hw pc hpc) hnext
    · exact absurd hpc (hnot pc)
  cases a with
  | phaseJob _ _ => cases hnext; exact hkeep rfl fun _ hw => .inl hw
  | job i reply =>
    obtain ⟨j, -, hnext'⟩ := Option.bind_eq_some_iff.mp hnext
    obtain ⟨⟨pc, change⟩, -, hs⟩ := Option.bind_eq_some_iff.mp hnext'
    cases hs
    cases change <;> exact hkeep rfl fun _ hw => .inl hw
  | extract i =>
    obtain ⟨j, -, hnext'⟩ := Option.bind_eq_some_iff.mp hnext
    split at hnext'
    · cases hnext'
      exact hkeep rfl fun _ hw => .inl hw
    · cases hnext'
  | teardown i reply =>
    obtain ⟨t, -, hnext'⟩ := Option.bind_eq_some_iff.mp hnext
    obtain ⟨⟨pc, change⟩, -, hs⟩ := Option.bind_eq_some_iff.mp hnext'
    cases hs
    cases change <;> exact hkeep rfl fun _ hw => .inl hw
  | transition _ _ _ | cancel | enqueueTeardown _ | deliverTeardown _ | discardTeardown =>
    have hnext' := hnext
    unfold next at hnext'
    dsimp only at hnext'
    split at hnext' <;> cases hnext'
    exact hkeep rfl fun _ hw => .inl hw
  | sweepOrphanedWorkspaces process =>
    cases hnext
    refine hkeep rfl fun w hw => ?_
    rcases List.mem_append.mp hw with hw | hw
    · exact .inl hw
    · rw [List.mem_singleton.mp hw]
      exact .inr nofun
  | sweep i reply =>
    obtain ⟨w, hi, hnext'⟩ := Option.bind_eq_some_iff.mp hnext
    obtain ⟨⟨pc, change⟩, hturn, hs⟩ := Option.bind_eq_some_iff.mp hnext'
    cases hs
    have hturn := sweepTurn_turns hturn
    have hsame : (s.change change).sweeps = s.sweeps := by cases change <;> rfl
    refine ⟨fun state hstate => ?_, fun v hv pc' hpc => ?_⟩
    · dsimp only at hstate
      split at hstate
      · rename_i hremove
        rcases List.mem_cons.mp hstate with rfl | hstate
        · subst hremove
          cases hturn with
          | teardown hat _ => exact h.destroying w (List.mem_of_getElem? hi) _ hat
        · exact h.swept state hstate
      · exact h.swept state hstate
    · rcases List.mem_or_eq_of_mem_set hv with hv | rfl
      · exact terminal_next (h.destroying v hv pc' hpc) hnext
      · cases hturn with
        | idle hidle => exact absurd hpc (hidle pc')
        | start hended => exact terminal_next hended hnext
        | teardown hat _ => exact terminal_next (h.destroying w (List.mem_of_getElem? hi) _ hat) hnext
  | die process made =>
    cases hnext
    refine hkeep rfl fun w hw => ?_
    obtain ⟨v, hv, rfl⟩ := List.mem_map.mp hw
    split
    · exact .inr nofun
    · exact .inl hv

/-- **No sweep takes the directory of a scan that runs**, in any run. -/
theorem swept_terminal {hasSource : Bool} (h : Reaches step (.start hasSource) s) : ∀ state ∈ s.swept, state.isTerminal = true := by
  have hstart : Spares (.start hasSource) := ⟨fun _ h => (List.not_mem_nil h).elim, fun _ h => (List.not_mem_nil h).elim⟩
  exact (h.inv (I := Spares) hstart fun _ _ _ hu hs => spares_next hu hs).swept

end Invariants

/-! ### A cancellation that comes first -/

def samplePhase : PhaseJobData := ⟨.RUNNING_PHASE_1, false, by decide⟩

end WebAudit.Workspace.Lifecycle
