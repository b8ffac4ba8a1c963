import Mathlib.Data.List.Lemmas
import WebAudit.Lib.Rows
import WebAudit.Lib.Runs
import WebAudit.Scans.States

/-!
# The questionnaire

A scan that pauses for design intent is resumed by the user, who answers or skips
(`questionnaire.service.ts`), or by the deadline (`questionnaire-timeout-handler.ts`, `phases.ts`):
each moves the scan, writes the row of the intent and enqueues phase 2, in three commits.

## The model

* One scan; a call is a request of the user or one delivery of the job of the deadline, and any number
  of calls go on at once. A step is one statement of one of them, and one that goes no further has
  crashed.
* What throws has done nothing, or has done all it does.
* Whatever else moves the scan (its other jobs, the cancellation, the timeout) may move it along any
  edge of the table that is not the way out of the pause.
* A job that has been added may be delivered at any time, and again. Of what a job of phase 2 does only
  its entry, the read of the intent and what its modules receive are here.
* The plans and subscriptions may change at any time.
-/

namespace WebAudit.Orchestrator.Questionnaire

open WebAudit.Lib WebAudit.Scans

/-! ### Design intent -/

inductive IntentSource where
  | SUPPLIED
  | SKIPPED
  | DEFAULTED
  deriving DecidableEq

/-- The row of a scan. -/
structure DesignIntent where
  source : IntentSource
  audience : Option String
  stylePreference : Option String
  admiredReferences : List String
  brandColors : List String
  answeredAt : Option ℤ
  deriving DecidableEq

structure DesignIntentAnswer where
  audience : Option String
  stylePreference : Option String
  admiredReferences : Option (List String)
  brandColors : Option (List String)
  deriving DecidableEq

/-- `CapabilityInput.designIntent`. -/
structure DesignIntentInput where
  audience : Option String
  tone : Option String
  brandColors : Option (List String)
  notes : Option String
  deriving DecidableEq

/-- What `answerQuestionnaire` writes. -/
def DesignIntentAnswer.row (answer : DesignIntentAnswer) (now : ℤ) : DesignIntent where
  source := .SUPPLIED
  audience := answer.audience
  stylePreference := answer.stylePreference
  admiredReferences := answer.admiredReferences.getD []
  brandColors := answer.brandColors.getD []
  answeredAt := some now

/-- A row with a source and nothing else. -/
def emptyIntent (source : IntentSource) : DesignIntent := ⟨source, none, none, [], [], none⟩

/-- What the modules of a phase are given of the row. -/
def buildDesignIntentInput (row : Option DesignIntent) : Option DesignIntentInput :=
  row.map fun row =>
    { audience := row.audience
      tone := row.stylePreference
      brandColors := if row.brandColors.isEmpty then none else some row.brandColors
      notes := if row.admiredReferences.isEmpty then none
        else some ("Admired references: " ++ ", ".intercalate row.admiredReferences) }

/-! ### Jobs -/

/-- The name of a state. -/
def stateName : ScanState → String
  | .QUEUED => "QUEUED"
  | .RUNNING_PHASE_1 => "RUNNING_PHASE_1"
  | .AWAITING_QUESTIONNAIRE => "AWAITING_QUESTIONNAIRE"
  | .RUNNING_PHASE_2 => "RUNNING_PHASE_2"
  | .RUNNING_PHASE_3 => "RUNNING_PHASE_3"
  | .RUNNING_MASTER => "RUNNING_MASTER"
  | .RUNNING_DOCS => "RUNNING_DOCS"
  | .COMPLETED => "COMPLETED"
  | .FAILED => "FAILED"
  | .CANCELLED => "CANCELLED"
  | .TIMED_OUT => "TIMED_OUT"

structure PhaseJobData where
  scanId : String
  phase : ScanState
  modules : List ModuleType
  attempt : ℕ
  alreadyTransitioned : Bool
  deriving DecidableEq

/-- A job of the phase queue. -/
structure Job where
  jobId : String
  data : PhaseJobData
  priority : ℤ
  deriving DecidableEq

/-- `PRIORITY.BUSINESS` and `PRIORITY.FREE` are the bounds. -/
def priorityForPlan (queuePriority : ℤ) : ℤ := min 40 (max 10 queuePriority)

def jobIdFor (scanId : String) (phase : ScanState) (attempt : ℕ) : String :=
  scanId ++ ":" ++ stateName phase ++ ":" ++ toString attempt

/-- The worker's. -/
def enqueuePhase (data : PhaseJobData) (planQueuePriority : ℤ) : Job where
  jobId := jobIdFor data.scanId data.phase data.attempt
  data := data
  priority := priorityForPlan planQueuePriority

/-- The API's. -/
def enqueuePhaseTwo (scanId : String) (modules : List ModuleType) (planQueuePriority : ℤ) : Job where
  jobId := scanId ++ ":RUNNING_PHASE_2:1"
  data := ⟨scanId, .RUNNING_PHASE_2, modules, 1, true⟩
  priority := priorityForPlan planQueuePriority

/-- The queue priorities: of the plans that users are subscribed to, and of the plan `free`. -/
structure Plans where
  subscribed : List (ℕ × ℤ)
  free : Option ℤ
  deriving DecidableEq

/-- The same in the worker and in the API. -/
def planQueuePriorityFor (plans : Plans) (userId : ℕ) : ℤ :=
  match plans.subscribed.lookup userId with
  | some queuePriority => queuePriority
  | none => plans.free.getD 40

/-! ### Calls -/

structure Scan where
  id : String
  userId : ℕ
  requestedModules : List ModuleType
  state : ScanState
  deriving DecidableEq

/-- Who resumes a scan. -/
inductive Caller where
  | answerQuestionnaire (userId : ℕ) (answer : DesignIntentAnswer)
  | skipQuestionnaire (userId : ℕ)
  /-- A delivery of the job of the deadline. -/
  | deadline
  deriving DecidableEq

/-- The row that the caller writes, if it is the one. -/
def Caller.row : Caller → ℤ → DesignIntent
  | .answerQuestionnaire _ answer, now => answer.row now
  | .skipQuestionnaire _, _ => emptyIntent .SKIPPED
  | .deadline, _ => emptyIntent .DEFAULTED

inductive Ending where
  /-- The caller is told that its answer, or that it skips, was accepted. -/
  | accepted
  | notFound
  | alreadyResolved
  /-- `resumed` is true of a deadline. -/
  | resumed
  | notResumed
  | thrown
  deriving DecidableEq

/-- The next statement of a call. -/
inductive Pc where
  -- `resume` of the API
  | move (userId : ℕ)
  | scanExists (userId : ℕ)
  | modules (userId : ℕ)
  | writeDesignIntent (userId : ℕ) (modules : List ModuleType)
  | priority (userId : ℕ) (modules : List ModuleType)
  | enqueuePhaseTwo (modules : List ModuleType) (planQueuePriority : ℤ)
  -- `handleQuestionnaireTimeout`
  | read
  | planQueuePriority (userId : ℕ) (modules : List ModuleType)
  -- `resumeAfterQuestionnaire`
  | moveAndAnnounce (modules : List ModuleType) (planQueuePriority : ℤ)
  | beforeEnqueue (modules : List ModuleType) (planQueuePriority : ℤ)
  | enqueuePhase (modules : List ModuleType) (planQueuePriority : ℤ)
  | finished (e : Ending)
  deriving DecidableEq

structure Call where
  caller : Caller
  pc : Pc
  /-- Its update has moved the scan out of the pause. -/
  moved : Bool
  deriving DecidableEq

/-- Where a delivery of a phase job is. -/
inductive RunPc where
  | read
  | entry (before : ScanState)
  | designIntent
  /-- Its modules have been run with this. -/
  | ran (modules : List ModuleType) (designIntent : Option DesignIntentInput)
  | finished
  deriving DecidableEq

structure Run where
  job : Job
  pc : RunPc
  deriving DecidableEq

structure State where
  scan : Scan
  designIntent : Option DesignIntent
  jobs : List Job
  calls : List Call
  runs : List Run
  plans : Plans
  clock : ℤ
  deriving DecidableEq

/-- What a statement comes to. -/
inductive Input where
  | go
  | throws
  /-- It has done what it does all the same. -/
  | throwsDone
  deriving DecidableEq

section Step

variable (s : State) (k : ℕ) (c : Call)

/-- The call goes on, nothing else changes. -/
def State.goes (pc : Pc) : State := { s with calls := s.calls.set k { c with pc } }

/-- The way out of the pause. -/
def State.resumes (pc : Pc) : State :=
  { s with
    scan := { s.scan with state := .RUNNING_PHASE_2 }
    calls := s.calls.set k { c with pc, moved := true } }

/-- `designIntent.create`: there is one row for a scan. -/
def State.creates (pc : Pc) : Option State :=
  match s.designIntent with
  | some _ => none
  | none => some { s.goes k c pc with designIntent := some (c.caller.row s.clock) }

def State.adds (job : Job) (pc : Pc) : State := { s.goes k c pc with jobs := s.jobs ++ [job] }

/-- A statement of a call, `none` where it throws. -/
def callStep : Pc → Option State
  | .move userId =>
    if s.scan.userId = userId ∧ s.scan.state = .AWAITING_QUESTIONNAIRE then some (s.resumes k c (.modules userId))
    else some (s.goes k c (.scanExists userId))
  | .scanExists userId => some (s.goes k c (.finished (if s.scan.userId = userId then .alreadyResolved else .notFound)))
  | .modules userId =>
    some (s.goes k c (.writeDesignIntent userId (modulesForPhase .RUNNING_PHASE_2 s.scan.requestedModules)))
  | .writeDesignIntent userId modules => s.creates k c (.priority userId modules)
  | .priority userId modules => some (s.goes k c (.enqueuePhaseTwo modules (planQueuePriorityFor s.plans userId)))
  | .enqueuePhaseTwo modules planQueuePriority =>
    some (s.adds k c (Questionnaire.enqueuePhaseTwo s.scan.id modules planQueuePriority) (.finished .accepted))
  | .read =>
    some (s.goes k c (.planQueuePriority s.scan.userId (modulesForPhase .RUNNING_PHASE_2 s.scan.requestedModules)))
  | .planQueuePriority userId modules => some (s.goes k c (.moveAndAnnounce modules (planQueuePriorityFor s.plans userId)))
  | .moveAndAnnounce modules planQueuePriority =>
    if s.scan.state = .AWAITING_QUESTIONNAIRE then some (s.resumes k c (.beforeEnqueue modules planQueuePriority))
    else some (s.goes k c (.finished .notResumed))
  | .beforeEnqueue modules planQueuePriority => s.creates k c (.enqueuePhase modules planQueuePriority)
  | .enqueuePhase modules planQueuePriority =>
    some (s.adds k c (Questionnaire.enqueuePhase ⟨s.scan.id, .RUNNING_PHASE_2, modules, 1, true⟩ planQueuePriority)
      (.finished .resumed))
  | .finished _ => none

/-- The call is over. -/
def State.thrown : Option State := (s.calls[k]?).map fun c => s.goes k c (.finished .thrown)

/-- Where a new call begins. -/
def Caller.pc : Caller → Pc
  | .answerQuestionnaire userId _ | .skipQuestionnaire userId => .move userId
  | .deadline => .read

end Step

/-- A run of a phase job goes on. -/
def State.runGoes (s : State) (k : ℕ) (r : Run) (pc : RunPc) : State := { s with runs := s.runs.set k { r with pc } }

/-- The next statement of a run: what of `handlePhase` leads to the modules. -/
def runStep (s : State) (k : ℕ) (r : Run) : RunPc → Option State
  | .read =>
    if !r.job.data.alreadyTransitioned then some (s.runGoes k r (.entry s.scan.state))
    else some (s.runGoes k r (if s.scan.state = r.job.data.phase then .designIntent else .finished))
  | .entry before =>
    if canTransition before r.job.data.phase = true ∧ s.scan.state = before then
      some { s.runGoes k r .designIntent with scan := { s.scan with state := r.job.data.phase } }
    else some (s.runGoes k r .finished)
  | .designIntent => some (s.runGoes k r (.ran r.job.data.modules (buildDesignIntentInput s.designIntent)))
  | .ran _ _ | .finished => none

/-! ### The machine -/

inductive Action where
  | tick (ms : ℕ)
  | setPlans (plans : Plans)
  /-- The scan is moved by whatever else moves it. -/
  | transition (after : ScanState)
  /-- The job of phase 1 is at its end, and has something to enqueue that does not pause the scan. -/
  | enqueueNext
  | call (caller : Caller)
  | step (k : ℕ) (input : Input)
  /-- A phase job is delivered. -/
  | deliver (i : ℕ)
  | run (k : ℕ)
  deriving DecidableEq

/-- What the end of phase 1 enqueues: with the design area in it, the scan is paused instead. -/
def State.nextJob (s : State) : Option Job :=
  let nextModules := modulesForPhase .RUNNING_PHASE_2 s.scan.requestedModules
  if nextModules.isEmpty || nextModules.contains .UI then none
  else some (enqueuePhase ⟨s.scan.id, .RUNNING_PHASE_2, nextModules, 1, false⟩ (planQueuePriorityFor s.plans s.scan.userId))

def next (s : State) : Action → Option State
  | .tick ms => some { s with clock := s.clock + ms }
  | .setPlans plans => some { s with plans }
  | .transition after =>
    if canTransition s.scan.state after = true ∧ ¬ (s.scan.state = .AWAITING_QUESTIONNAIRE ∧ after = .RUNNING_PHASE_2) then
      some { s with scan := { s.scan with state := after } }
    else none
  | .enqueueNext => s.nextJob.map fun job => { s with jobs := s.jobs ++ [job] }
  | .call caller => some { s with calls := s.calls ++ [⟨caller, caller.pc, false⟩] }
  | .step k input =>
    (s.calls[k]?).bind fun c =>
      match input with
      | .go => callStep s k c c.pc
      | .throws => match c.pc with
        | .finished _ => none
        | _ => s.thrown k
      | .throwsDone => (callStep s k c c.pc).bind fun s' => s'.thrown k
  | .deliver i => (s.jobs[i]?).map fun job => { s with runs := s.runs ++ [⟨job, .read⟩] }
  | .run k => (s.runs[k]?).bind fun r => runStep s k r r.pc

def step (s : State) (a : Action) (s' : State) : Prop := next s a = some s'

/-- The scan has been created. -/
def State.init (id : String) (userId : ℕ) (requestedModules : List ModuleType) (plans : Plans) : State where
  scan := ⟨id, userId, requestedModules, .QUEUED⟩
  designIntent := none
  jobs := []
  calls := []
  runs := []
  plans := plans
  clock := 0

/-! ### The two sides enqueue the same -/

theorem jobIdFor_phaseTwo (scanId : String) : jobIdFor scanId .RUNNING_PHASE_2 1 = scanId ++ ":RUNNING_PHASE_2:1" := by
  simp only [jobIdFor, stateName, String.append_assoc]
  exact congrArg (scanId ++ ·) (by decide)

theorem enqueuePhaseTwo_eq (scanId : String) (modules : List ModuleType) (planQueuePriority : ℤ) :
    enqueuePhaseTwo scanId modules planQueuePriority = enqueuePhase ⟨scanId, .RUNNING_PHASE_2, modules, 1, true⟩ planQueuePriority := by
  rw [enqueuePhase, jobIdFor_phaseTwo, enqueuePhaseTwo]

/-- What phase 2 audits is the design area: the end of phase 1 enqueues no job for it. -/
theorem nextJob_none (s : State) : s.nextJob = none := by
  unfold State.nextJob
  refine if_pos ?_
  cases hmodules : modulesForPhase .RUNNING_PHASE_2 s.scan.requestedModules with
  | nil => rfl
  | cons m ms =>
    have hm : m ∈ modulesForPhase .RUNNING_PHASE_2 s.scan.requestedModules := hmodules ▸ List.mem_cons_self
    have hui : m = .UI := by simpa using (List.mem_filter.mp hm).2
    simp [hui]

/-! ### What a call has done -/

/-- What phase 2 of the scan audits. -/
def State.phaseTwo (s : State) : List ModuleType := modulesForPhase .RUNNING_PHASE_2 s.scan.requestedModules

/-- A priority that the plans have given the user. -/
def State.Priority (s : State) (p : ℤ) : Prop := ∃ plans, p = planQueuePriorityFor plans s.scan.userId

/-- The row is the caller's. -/
def Call.Wrote (c : Call) (s : State) : Prop := ∃ t, s.designIntent = some (c.caller.row t)

/-- What is true of a call at its next statement. -/
def Call.Fits (c : Call) (s : State) : Prop :=
  match c.pc with
  | .move _ | .scanExists _ | .read => c.moved = false
  | .planQueuePriority userId modules => c.moved = false ∧ userId = s.scan.userId ∧ modules = s.phaseTwo
  | .moveAndAnnounce modules p => c.moved = false ∧ modules = s.phaseTwo ∧ s.Priority p
  | .modules userId => c.moved = true ∧ userId = s.scan.userId ∧ s.designIntent = none
  | .writeDesignIntent userId modules => c.moved = true ∧ userId = s.scan.userId ∧ modules = s.phaseTwo ∧ s.designIntent = none
  | .beforeEnqueue modules p => c.moved = true ∧ modules = s.phaseTwo ∧ s.Priority p ∧ s.designIntent = none
  | .priority userId modules => c.moved = true ∧ userId = s.scan.userId ∧ modules = s.phaseTwo ∧ c.Wrote s
  | .enqueuePhaseTwo modules p | .enqueuePhase modules p => c.moved = true ∧ modules = s.phaseTwo ∧ s.Priority p ∧ c.Wrote s
  | .finished .accepted | .finished .resumed => c.moved = true ∧ c.Wrote s ∧ s.jobs ≠ []
  | .finished .notFound | .finished .alreadyResolved | .finished .notResumed => c.moved = false
  | .finished .thrown => True

/-- What a statement of a call does to the scan, the row and the queue. -/
structure Follows (s : State) (k : ℕ) (c c' : Call) (s' : State) : Prop where
  calls : s'.calls = s.calls.set k c'
  caller : c'.caller = c.caller
  id : s'.scan.id = s.scan.id
  userId : s'.scan.userId = s.scan.userId
  requestedModules : s'.scan.requestedModules = s.scan.requestedModules
  runs : s'.runs = s.runs
  moved : c'.moved = c.moved ∧ s'.scan = s.scan ∨ s.scan.state = .AWAITING_QUESTIONNAIRE ∧
    s'.scan.state = .RUNNING_PHASE_2 ∧ c'.moved = true
  row : s'.designIntent = s.designIntent ∨ c.moved = true ∧ s.designIntent = none ∧
    s'.designIntent = some (c.caller.row s.clock)
  jobs : s'.jobs = s.jobs ∨ c.moved = true ∧ s.designIntent.isSome = true ∧
    ∃ p, s.Priority p ∧ s'.jobs = s.jobs ++ [enqueuePhaseTwo s.scan.id s.phaseTwo p]

section Follows

variable {s s' : State} {k : ℕ} {c c' : Call}

theorem follows_goes (pc : Pc) : Follows s k c { c with pc } (s.goes k c pc) :=
  ⟨rfl, rfl, rfl, rfl, rfl, rfl, .inl ⟨rfl, rfl⟩, .inl rfl, .inl rfl⟩

theorem follows_resumes (pc : Pc) (hstate : s.scan.state = .AWAITING_QUESTIONNAIRE) :
    Follows s k c { c with pc, moved := true } (s.resumes k c pc) :=
  ⟨rfl, rfl, rfl, rfl, rfl, rfl, .inr ⟨hstate, rfl, rfl⟩, .inl rfl, .inl rfl⟩

theorem follows_creates {pc : Pc} (hmoved : c.moved = true) (h : s.creates k c pc = some s') :
    Follows s k c { c with pc } s' ∧ s'.designIntent = some (c.caller.row s.clock) := by
  unfold State.creates at h
  split at h <;> cases h
  rename_i hnone
  exact ⟨⟨rfl, rfl, rfl, rfl, rfl, rfl, .inl ⟨rfl, rfl⟩, .inr ⟨hmoved, hnone, rfl⟩, .inl rfl⟩, rfl⟩

theorem follows_adds {p : ℤ} (pc : Pc) (hmoved : c.moved = true) (hrow : s.designIntent.isSome = true) (hp : s.Priority p) :
    Follows s k c { c with pc } (s.adds k c (enqueuePhaseTwo s.scan.id s.phaseTwo p) pc) :=
  ⟨rfl, rfl, rfl, rfl, rfl, rfl, .inl ⟨rfl, rfl⟩, .inl rfl, .inr ⟨hmoved, hrow, p, hp, rfl⟩⟩

theorem Call.Wrote.isSome (h : c.Wrote s) : s.designIntent.isSome = true := by
  obtain ⟨t, h⟩ := h
  rw [h]
  rfl

/-- **One statement of a call.** -/
theorem Call.Fits.step (hfits : c.Fits s) (hpaused : s.scan.state = .AWAITING_QUESTIONNAIRE → s.designIntent = none)
    (h : callStep s k c c.pc = some s') : ∃ c', Follows s k c c' s' ∧ c'.Fits s' := by
  obtain ⟨caller, pc, moved⟩ := c
  cases pc with
  | move userId =>
    obtain rfl : moved = false := hfits
    simp only [callStep] at h
    split at h <;> cases h
    · rename_i hwon
      exact ⟨_, follows_resumes _ hwon.2, rfl, hwon.1.symm, hpaused hwon.2⟩
    · exact ⟨_, follows_goes _, rfl⟩
  | scanExists userId =>
    obtain rfl : moved = false := hfits
    cases h
    refine ⟨_, follows_goes _, ?_⟩
    split <;> rfl
  | modules userId =>
    obtain ⟨hmoved, huser, hnone⟩ := hfits
    cases h
    exact ⟨_, follows_goes _, hmoved, huser, rfl, hnone⟩
  | writeDesignIntent userId modules =>
    obtain ⟨hmoved, huser, hmodules, -⟩ := hfits
    obtain ⟨hfollows, hrow⟩ := follows_creates hmoved h
    exact ⟨_, hfollows, hmoved, huser.trans hfollows.userId.symm,
      hmodules.trans (congrArg (modulesForPhase _) hfollows.requestedModules.symm), _, hrow⟩
  | priority userId modules =>
    obtain ⟨hmoved, rfl, hmodules, hwrote⟩ := hfits
    cases h
    exact ⟨_, follows_goes _, hmoved, hmodules, ⟨_, rfl⟩, hwrote⟩
  | enqueuePhaseTwo modules p =>
    obtain ⟨hmoved, rfl, hp, hwrote⟩ := hfits
    cases h
    exact ⟨_, follows_adds _ hmoved hwrote.isSome hp, hmoved, hwrote, by simp [State.adds]⟩
  | read =>
    cases h
    exact ⟨_, follows_goes _, hfits, rfl, rfl⟩
  | planQueuePriority userId modules =>
    obtain ⟨hmoved, rfl, hmodules⟩ := hfits
    cases h
    exact ⟨_, follows_goes _, hmoved, hmodules, _, rfl⟩
  | moveAndAnnounce modules p =>
    obtain ⟨hmoved, hmodules, hp⟩ := hfits
    simp only [callStep] at h
    split at h <;> cases h
    · rename_i hwon
      exact ⟨_, follows_resumes _ hwon, rfl, hmodules, hp, hpaused hwon⟩
    · exact ⟨_, follows_goes _, hmoved⟩
  | beforeEnqueue modules p =>
    obtain ⟨hmoved, hmodules, hp, -⟩ := hfits
    obtain ⟨hfollows, hrow⟩ := follows_creates hmoved h
    exact ⟨_, hfollows, hmoved, hmodules.trans (congrArg (modulesForPhase _) hfollows.requestedModules.symm),
      hp.imp fun _ he => he.trans (congrArg (planQueuePriorityFor _) hfollows.userId.symm), _, hrow⟩
  | enqueuePhase modules p =>
    obtain ⟨hmoved, rfl, hp, hwrote⟩ := hfits
    simp only [callStep, ← enqueuePhaseTwo_eq] at h
    cases h
    exact ⟨_, follows_adds _ hmoved hwrote.isSome hp, hmoved, hwrote, by simp [State.adds]⟩
  | finished e => cases h

/-- A call that has not won is not concerned by who has; and nothing else changes what is true of one. -/
theorem Call.Fits.frame (hfits : c.Fits s) (huser : s'.scan.userId = s.scan.userId)
    (hmodules : s'.scan.requestedModules = s.scan.requestedModules)
    (hkept : c.moved = true → s'.designIntent = s.designIntent ∧ (s.jobs ≠ [] → s'.jobs ≠ [])) : c.Fits s' := by
  have hphase : s'.phaseTwo = s.phaseTwo := congrArg (modulesForPhase _) hmodules
  obtain ⟨caller, pc, moved⟩ := c
  unfold Call.Fits State.Priority Call.Wrote at hfits ⊢
  rw [huser, hphase]
  cases pc with
  | finished e =>
    cases e with
    | accepted | resumed =>
      obtain ⟨hmoved, hwrote, hjobs⟩ := hfits
      exact ⟨hmoved, (hkept hmoved).1 ▸ hwrote, (hkept hmoved).2 hjobs⟩
    | _ => exact hfits
  | modules _ | writeDesignIntent _ _ | priority _ _ | enqueuePhaseTwo _ _ | beforeEnqueue _ _ | enqueuePhase _ _ =>
    have hrow : s'.designIntent = s.designIntent := (hkept hfits.1).1
    simpa only [hrow] using hfits
  | _ => exact hfits

end Follows

/-! ### What is true of the calls and of the runs -/

structure Sound (s : State) : Prop where
  fits : ∀ (k : ℕ) (c : Call), s.calls[k]? = some c → c.Fits s
  one : ∀ (j k : ℕ) (c c' : Call), s.calls[j]? = some c → s.calls[k]? = some c' → c.moved = true → c'.moved = true → j = k
  past : ∀ (k : ℕ) (c : Call), s.calls[k]? = some c → c.moved = true → ScanState.RUNNING_PHASE_2.rank ≤ s.scan.state.rank
  row : ∀ r, s.designIntent = some r → ∃ (k : ℕ) (c : Call) (t : ℤ), s.calls[k]? = some c ∧ c.moved = true ∧ r = c.caller.row t
  jobs : ∀ job ∈ s.jobs, s.designIntent.isSome = true ∧ ∃ p, s.Priority p ∧ job = enqueuePhaseTwo s.scan.id s.phaseTwo p
  runs : ∀ (k : ℕ) (r : Run), s.runs[k]? = some r → r.job ∈ s.jobs ∧ (∀ before, r.pc ≠ .entry before) ∧
    ∀ modules input, r.pc = .ran modules input → modules = r.job.data.modules ∧ input = buildDesignIntentInput s.designIntent

section Sound

variable {s s' : State} {k : ℕ} {c c' : Call}

/-- No one has won while the scan is paused. -/
theorem Sound.paused (hs : Sound s) (hstate : s.scan.state = .AWAITING_QUESTIONNAIRE) (hk : s.calls[k]? = some c) :
    c.moved = false := by
  by_contra hmoved
  have hpast := hs.past k c hk (by simpa using hmoved)
  rw [hstate] at hpast
  exact absurd hpast (by decide)

theorem Sound.paused_row (hs : Sound s) (hstate : s.scan.state = .AWAITING_QUESTIONNAIRE) : s.designIntent = none := by
  cases hrow : s.designIntent with
  | none => rfl
  | some r =>
    obtain ⟨k, c, t, hk, hmoved, -⟩ := hs.row r hrow
    rw [hs.paused hstate hk] at hmoved
    cases hmoved

theorem Follows.moved_of_moved (h : Follows s k c c' s') (hmoved : c.moved = true) : c'.moved = true := by
  obtain ⟨hsame, -⟩ | ⟨-, -, hwon⟩ := h.moved
  · exact hsame.trans hmoved
  · exact hwon

/-- Who loses has changed nothing. -/
theorem Follows.lost (h : Follows s k c c' s') (hlost : c'.moved = false) :
    s'.scan = s.scan ∧ s'.designIntent = s.designIntent ∧ s'.jobs = s.jobs := by
  have hbefore : c.moved = false := by
    by_contra hmoved
    rw [h.moved_of_moved (by simpa using hmoved)] at hlost
    cases hlost
  have hscan : s'.scan = s.scan := by
    obtain ⟨-, hscan⟩ | ⟨-, -, hwon⟩ := h.moved
    · exact hscan
    · rw [hwon] at hlost
      cases hlost
  refine ⟨hscan, h.row.resolve_right fun hrow => ?_, h.jobs.resolve_right fun hjobs => ?_⟩
  · rw [hrow.1] at hbefore
    cases hbefore
  · rw [hjobs.1] at hbefore
    cases hbefore

theorem Follows.rank_le (h : Follows s k c c' s') : s.scan.state.rank ≤ s'.scan.state.rank := by
  obtain ⟨-, hscan⟩ | ⟨hbefore, hafter, -⟩ := h.moved
  · rw [hscan]
  · rw [hbefore, hafter]
    decide

/-- One call has won at most, and it is the one that writes and enqueues. -/
theorem Sound.others (hs : Sound s) (hk : s.calls[k]? = some c) (h : Follows s k c c' s') {j : ℕ} {d : Call} (hj : s.calls[j]? = some d)
    (hne : j ≠ k) (hd : d.moved = true) : c'.moved = false := by
  by_contra hc'
  obtain ⟨hsame, -⟩ | ⟨hstate, -⟩ := h.moved
  · exact hne (hs.one j k d c hj hk hd (hsame ▸ by simpa using hc'))
  · rw [hs.paused hstate hj] at hd
    cases hd

theorem Sound.follows (hs : Sound s) (hk : s.calls[k]? = some c) (h : Follows s k c c' s') (hfits : c'.Fits s') : Sound s' := by
  have hcalls {j : ℕ} {d : Call} (hj : s'.calls[j]? = some d) : j = k ∧ d = c' ∨ j ≠ k ∧ s.calls[j]? = some d := by
    rw [h.calls] at hj
    rcases getElem?_set_cases hk hj with ⟨rfl, rfl⟩ | ⟨hne, hj⟩
    · exact .inl ⟨rfl, rfl⟩
    · exact .inr ⟨hne, hj⟩
  have hphase : s'.phaseTwo = s.phaseTwo := congrArg (modulesForPhase _) h.requestedModules
  have hkept : ∀ r, s.designIntent = some r → s'.designIntent = some r := fun r hr => by
    obtain hsame | ⟨-, hnone, -⟩ := h.row
    · rw [hsame, hr]
    · rw [hnone] at hr
      cases hr
  have hadded : ∀ job ∈ s.jobs, job ∈ s'.jobs := fun job hjob => by
    obtain hsame | ⟨-, -, p, -, hjobs⟩ := h.jobs
    · rw [hsame]
      exact hjob
    · rw [hjobs]
      exact List.mem_append_left _ hjob
  have hself : s'.calls[k]? = some c' := by
    rw [h.calls, List.getElem?_set_self (List.getElem?_eq_some_iff.mp hk).1]
  refine ⟨fun j d hj => ?_, fun i j d d' hi hj hd hd' => ?_, fun j d hj hd => ?_, fun r hr => ?_, fun job hjob => ?_, fun j r hj => ?_⟩
  · rcases hcalls hj with ⟨-, rfl⟩ | ⟨hne, hj⟩
    · exact hfits
    · refine (hs.fits j d hj).frame h.userId h.requestedModules fun hd => ?_
      obtain ⟨-, hrow, hjobs⟩ := h.lost (hs.others hk h hj hne hd)
      exact ⟨hrow, fun hne => hjobs ▸ hne⟩
  · rcases hcalls hi with ⟨rfl, rfl⟩ | ⟨hi', hi⟩ <;> rcases hcalls hj with ⟨rfl, rfl⟩ | ⟨hj', hj⟩
    · rfl
    · rw [hs.others hk h hj hj' hd'] at hd
      cases hd
    · rw [hs.others hk h hi hi' hd] at hd'
      cases hd'
    · exact hs.one i j d d' hi hj hd hd'
  · rcases hcalls hj with ⟨rfl, rfl⟩ | ⟨-, hj⟩
    · obtain ⟨hsame, hscan⟩ | ⟨-, hafter, -⟩ := h.moved
      · rw [hscan]
        exact hs.past _ c hk (hsame ▸ hd)
      · rw [hafter]
    · exact (hs.past j d hj hd).trans h.rank_le
  · have hwinner : ∃ (j : ℕ) (d : Call) (t : ℤ), s.calls[j]? = some d ∧ d.moved = true ∧ r = d.caller.row t := by
      obtain hsame | ⟨hmoved, -, hnew⟩ := h.row
      · exact hs.row r (hsame ▸ hr)
      · exact ⟨k, c, s.clock, hk, hmoved, Option.some.inj (hr.symm.trans hnew)⟩
    obtain ⟨j, d, t, hj, hd, rfl⟩ := hwinner
    by_cases he : j = k
    · subst he
      obtain rfl := Option.some.inj (hk.symm.trans hj)
      exact ⟨j, c', t, hself, h.moved_of_moved hd, by rw [h.caller]⟩
    · exact ⟨j, d, t, by rw [h.calls, List.getElem?_set_ne (Ne.symm he), hj], hd, rfl⟩
  · have hform : s.designIntent.isSome = true ∧ ∃ p, s.Priority p ∧ job = enqueuePhaseTwo s.scan.id s.phaseTwo p := by
      obtain hsame | ⟨-, hrow, p, hp, hjobs⟩ := h.jobs
      · exact hs.jobs job (hsame ▸ hjob)
      · rw [hjobs, List.mem_append, List.mem_singleton] at hjob
        exact hjob.elim (hs.jobs job) fun he => ⟨hrow, p, hp, he⟩
    obtain ⟨hrow, p, ⟨plans, hp⟩, hjob⟩ := hform
    obtain ⟨r, hr⟩ := Option.isSome_iff_exists.mp hrow
    exact ⟨by rw [hkept r hr]; rfl, p, ⟨plans, by rw [h.userId, hp]⟩, by rw [h.id, hphase, hjob]⟩
  · obtain ⟨hjob, hentry, hran⟩ := hs.runs j r (h.runs ▸ hj)
    refine ⟨hadded _ hjob, hentry, fun modules input hpc => ?_⟩
    obtain ⟨hmodules, hinput⟩ := hran modules input hpc
    obtain ⟨row, hrow⟩ := Option.isSome_iff_exists.mp (hs.jobs _ hjob).1
    exact ⟨hmodules, by rw [hkept row hrow, hinput, hrow]⟩

/-- It has been done, and the call is over. -/
theorem Follows.ends (hk : s.calls[k]? = some c) (h : Follows s k c c' s') {s₁ : State} (hends : s'.thrown k = some s₁) :
    Follows s k c { c' with pc := .finished .thrown } s₁ := by
  obtain ⟨d, hd, rfl⟩ := Option.map_eq_some_iff.mp hends
  rw [h.calls, List.getElem?_set_self (List.getElem?_eq_some_iff.mp hk).1] at hd
  obtain rfl := Option.some.inj hd
  exact { h with calls := by rw [State.goes, h.calls, List.set_set] }

/-- What throws has done nothing, or has been done. -/
theorem Sound.follows_step {input : Input} (hs : Sound s) (hk : s.calls[k]? = some c) (h : step s (.step k input) s') :
    ∃ c', Follows s k c c' s' ∧ c'.Fits s' := by
  obtain ⟨d, hd, h⟩ := Option.bind_eq_some_iff.mp h
  obtain rfl := Option.some.inj (hk.symm.trans hd)
  have hdone {s₁ : State} (h₁ : callStep s k c c.pc = some s₁) := (hs.fits k c hk).step hs.paused_row h₁
  cases input with
  | go => exact hdone h
  | throws =>
    dsimp only at h
    split at h
    · cases h
    · obtain ⟨d, hd, rfl⟩ := Option.map_eq_some_iff.mp h
      obtain rfl := Option.some.inj (hk.symm.trans hd)
      exact ⟨_, follows_goes _, trivial⟩
  | throwsDone =>
    obtain ⟨s₁, h₁, h⟩ := Option.bind_eq_some_iff.mp h
    obtain ⟨c₁, hfollows, -⟩ := hdone h₁
    exact ⟨_, hfollows.ends hk h, trivial⟩

/-- One step of a run. -/
theorem Sound.run {r : Run} (hs : Sound s) (hk : s.runs[k]? = some r) (h : runStep s k r r.pc = some s') : Sound s' := by
  obtain ⟨hjob, hentry, hran⟩ := hs.runs k r hk
  have hgoes (pc : RunPc) (hpc : ∀ before, pc ≠ .entry before)
      (hinput : ∀ modules input, pc = .ran modules input → modules = r.job.data.modules ∧ input = buildDesignIntentInput s.designIntent) :
      Sound (s.runGoes k r pc) := by
    refine ⟨hs.fits, hs.one, hs.past, hs.row, hs.jobs, fun j r' hj => ?_⟩
    rcases getElem?_set_cases hk hj with ⟨-, rfl⟩ | ⟨-, hj⟩
    · exact ⟨hjob, hpc, hinput⟩
    · exact hs.runs j r' hj
  cases hpc : r.pc with
  | read =>
    obtain ⟨-, p, -, hform⟩ := hs.jobs _ hjob
    have hflag : r.job.data.alreadyTransitioned = true := by rw [hform]; rfl
    rw [hpc] at h
    simp only [runStep, hflag, Bool.not_true, Bool.false_eq_true, if_false, Option.some.injEq] at h
    subst h
    split
    · exact hgoes _ nofun nofun
    · exact hgoes _ nofun nofun
  | entry before => exact absurd hpc (hentry before)
  | designIntent =>
    rw [hpc] at h
    cases h
    refine hgoes _ nofun fun modules input he => ?_
    cases he
    exact ⟨rfl, rfl⟩
  | ran _ _ | finished =>
    rw [hpc] at h
    cases h

theorem Sound.step {a : Action} (hs : Sound s) (h : step s a s') : Sound s' := by
  cases a with
  | tick ms | setPlans plans =>
    cases h
    exact ⟨hs.fits, hs.one, hs.past, hs.row, hs.jobs, hs.runs⟩
  | transition after =>
    simp only [Questionnaire.step, next] at h
    split at h <;> cases h
    rename_i hmay
    exact ⟨fun k c hk => (hs.fits k c hk).frame rfl rfl fun _ => ⟨rfl, fun hne => hne⟩, hs.one,
      fun k c hk hc => (hs.past k c hk hc).trans (rank_lt_of_canTransition hmay.1).le, hs.row, hs.jobs, hs.runs⟩
  | enqueueNext =>
    simp only [Questionnaire.step, next, nextJob_none, Option.map_none, reduceCtorEq] at h
  | call caller =>
    cases h
    refine ⟨fun k c hk => ?_, fun j k c c' hj hk hc hc' => ?_, fun k c hk hc => ?_, fun r hr => ?_, hs.jobs, hs.runs⟩
    · rcases getElem?_concat_cases hk with rfl | hk
      · cases caller <;> rfl
      · exact (hs.fits k c hk).frame rfl rfl fun _ => ⟨rfl, fun hne => hne⟩
    · rcases getElem?_concat_cases hj with rfl | hj
      · cases hc
      rcases getElem?_concat_cases hk with rfl | hk
      · cases hc'
      · exact hs.one j k c c' hj hk hc hc'
    · rcases getElem?_concat_cases hk with rfl | hk
      · cases hc
      · exact hs.past k c hk hc
    · obtain ⟨k, c, t, hk, hc, hr⟩ := hs.row r hr
      exact ⟨k, c, t, List.getElem?_append_left (List.getElem?_eq_some_iff.mp hk).1 ▸ hk, hc, hr⟩
  | step k input =>
    obtain ⟨c, hk, -⟩ := Option.bind_eq_some_iff.mp h
    obtain ⟨c', hfollows, hfits⟩ := hs.follows_step hk h
    exact hs.follows hk hfollows hfits
  | deliver i =>
    obtain ⟨job, hi, rfl⟩ := Option.map_eq_some_iff.mp h
    refine ⟨hs.fits, hs.one, hs.past, hs.row, hs.jobs, fun k r hk => ?_⟩
    rcases getElem?_concat_cases hk with rfl | hk
    · exact ⟨List.mem_of_getElem? hi, nofun, nofun⟩
    · exact hs.runs k r hk
  | run k =>
    obtain ⟨r, hk, h⟩ := Option.bind_eq_some_iff.mp h
    exact hs.run hk h

theorem sound_init (id : String) (userId : ℕ) (requestedModules : List ModuleType) (plans : Plans) :
    Sound (.init id userId requestedModules plans) where
  fits := fun _ _ h => (nomatch h)
  one := fun _ _ _ _ h => (nomatch h)
  past := fun _ _ h => (nomatch h)
  row := fun _ h => (nomatch h)
  jobs := fun _ h => (List.not_mem_nil h).elim
  runs := fun _ _ h => (nomatch h)

theorem sound_reachable {id : String} {userId : ℕ} {requestedModules : List ModuleType} {plans : Plans}
    (h : Reaches step (.init id userId requestedModules plans) s) : Sound s :=
  h.inv (sound_init id userId requestedModules plans) fun _ _ _ hs => hs.step

/-- The row of a scan never changes. -/
theorem Sound.row_kept {a : Action} {r : DesignIntent} (hs : Sound s) (h : Questionnaire.step s a s') (hr : s.designIntent = some r) :
    s'.designIntent = some r := by
  cases a with
  | tick ms | setPlans plans | call caller =>
    cases h
    exact hr
  | transition after =>
    simp only [Questionnaire.step, next] at h
    split at h <;> cases h
    exact hr
  | enqueueNext => simp only [Questionnaire.step, next, nextJob_none, Option.map_none, reduceCtorEq] at h
  | step k input =>
    obtain ⟨c, hk, -⟩ := Option.bind_eq_some_iff.mp h
    obtain ⟨c', hfollows, -⟩ := hs.follows_step hk h
    obtain hsame | ⟨-, hnone, -⟩ := hfollows.row
    · rw [hsame, hr]
    · rw [hnone] at hr
      cases hr
  | deliver i =>
    obtain ⟨job, -, rfl⟩ := Option.map_eq_some_iff.mp h
    exact hr
  | run k =>
    obtain ⟨r', -, h⟩ := Option.bind_eq_some_iff.mp h
    unfold runStep at h
    split at h
    · split at h <;> cases h <;> exact hr
    · split at h <;> cases h <;> exact hr
    · cases h
      exact hr
    · cases h
    · cases h

end Sound

/-! ### One answer -/

section Runs

variable {s : State} {id : String} {userId : ℕ} {requestedModules : List ModuleType} {plans : Plans}

end Runs

end WebAudit.Orchestrator.Questionnaire
